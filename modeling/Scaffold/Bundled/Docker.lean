import Scaffold.Text.Lines

/-!
# Images of a whole application

How a built application goes into an image, in four variants.
-/

namespace Scaffold.Bundled

def dockerJvm : String :=
  Text.lines
    ["####",
     "# This Dockerfile is used in order to build a container that runs the Quarkus application in JVM mode",
     "#",
     "# Before building the container image run:",
     "#",
     "# ./mvnw package",
     "#",
     "# Then, build the image with:",
     "#",
     "# docker build -f src/main/docker/Dockerfile.jvm -t quarkus/generated-api-jvm .",
     "#",
     "# Then run the container using:",
     "#",
     "# docker run -i --rm -p 8080:8080 quarkus/generated-api-jvm",
     "#",
     "# If you want to include the debug port into your docker image",
     "# you will have to expose the debug port (default 5005 being the default) like this :  EXPOSE 8080 5005.",
     "# Additionally you will have to set -e JAVA_DEBUG=true and -e JAVA_DEBUG_PORT=*:5005",
     "# when running the container",
     "###",
     "FROM registry.access.redhat.com/ubi8/openjdk-17:1.18",
     "",
     "ENV LANGUAGE='en_US:en'",
     "",
     "",
     "# We make four distinct layers so if there are application changes the library layers can be re-used",
     "COPY --chown=185 target/quarkus-app/lib/ /deployments/lib/",
     "COPY --chown=185 target/quarkus-app/*.jar /deployments/",
     "COPY --chown=185 target/quarkus-app/app/ /deployments/app/",
     "COPY --chown=185 target/quarkus-app/quarkus/ /deployments/quarkus/",
     "",
     "EXPOSE 8080",
     "USER 185",
     "ENV JAVA_OPTS_APPEND=\"-Dquarkus.http.host=0.0.0.0 -Djava.util.logging.manager=org.jboss.logmanager.LogManager\"",
     "ENV JAVA_APP_JAR=\"/deployments/quarkus-run.jar\"",
     "",
     "ENTRYPOINT [ \"/opt/jboss/container/java/run/run-java.sh\" ]"]

def dockerLegacyJar : String :=
  Text.lines
    ["####",
     "# This Dockerfile is used in order to build a container that runs the Quarkus application in JVM mode",
     "#",
     "# Before building the container image run:",
     "#",
     "# ./mvnw package -Dquarkus.package.jar.type=legacy-jar",
     "#",
     "# Then, build the image with:",
     "#",
     "# docker build -f src/main/docker/Dockerfile.legacy-jar -t quarkus/generated-api-legacy-jar .",
     "#",
     "# Then run the container using:",
     "#",
     "# docker run -i --rm -p 8080:8080 quarkus/generated-api-legacy-jar",
     "###",
     "FROM registry.access.redhat.com/ubi8/openjdk-17:1.18",
     "",
     "ENV LANGUAGE='en_US:en'",
     "",
     "",
     "COPY target/lib/* /deployments/lib/",
     "COPY target/*-runner.jar /deployments/quarkus-run.jar",
     "",
     "EXPOSE 8080",
     "USER 185",
     "ENV JAVA_OPTS_APPEND=\"-Dquarkus.http.host=0.0.0.0 -Djava.util.logging.manager=org.jboss.logmanager.LogManager\"",
     "ENV JAVA_APP_JAR=\"/deployments/quarkus-run.jar\"",
     "",
     "ENTRYPOINT [ \"/opt/jboss/container/java/run/run-java.sh\" ]"]

def dockerNative : String :=
  Text.lines
    ["####",
     "# This Dockerfile is used in order to build a container that runs the Quarkus application in native (no JVM) mode.",
     "#",
     "# Before building the container image run:",
     "#",
     "# ./mvnw package -Dnative",
     "#",
     "# Then, build the image with:",
     "#",
     "# docker build -f src/main/docker/Dockerfile.native -t quarkus/generated-api .",
     "#",
     "# Then run the container using:",
     "#",
     "# docker run -i --rm -p 8080:8080 quarkus/generated-api",
     "#",
     "###",
     "FROM registry.access.redhat.com/ubi8/ubi-minimal:8.9",
     "WORKDIR /work/",
     "RUN chown 1001 /work \\",
     "    && chmod \"g+rwX\" /work \\",
     "    && chown 1001:root /work",
     "COPY --chown=1001:root target/*-runner /work/application",
     "",
     "EXPOSE 8080",
     "USER 1001",
     "",
     "ENTRYPOINT [\"./application\", \"-Dquarkus.http.host=0.0.0.0\"]"]

def dockerNativeMicro : String :=
  Text.lines
    ["####",
     "# This Dockerfile is used in order to build a container that runs the Quarkus application in native (no JVM) mode.",
     "# It uses a micro base image, tuned for Quarkus native executables.",
     "# It reduces the size of the resulting container image.",
     "# Check https://quarkus.io/guides/quarkus-runtime-base-image for further information about this image.",
     "#",
     "# Before building the container image run:",
     "#",
     "# ./mvnw package -Dnative",
     "#",
     "# Then, build the image with:",
     "#",
     "# docker build -f src/main/docker/Dockerfile.native-micro -t quarkus/generated-api .",
     "#",
     "# Then run the container using:",
     "#",
     "# docker run -i --rm -p 8080:8080 quarkus/generated-api",
     "#",
     "###",
     "FROM quay.io/quarkus/quarkus-micro-image:2.0",
     "WORKDIR /work/",
     "RUN chown 1001 /work \\",
     "    && chmod \"g+rwX\" /work \\",
     "    && chown 1001:root /work",
     "COPY --chown=1001:root target/*-runner /work/application",
     "",
     "EXPOSE 8080",
     "USER 1001",
     "",
     "ENTRYPOINT [\"./application\", \"-Dquarkus.http.host=0.0.0.0\"]"]

end Scaffold.Bundled
