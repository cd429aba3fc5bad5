import Scaffold.Text.Lines

/-!
# Build file of a whole application

The build file of a project that is a whole application, and its properties.
-/

namespace Scaffold.Bundled

def pom : String :=
  Text.lines
    ["<?xml version=\"1.0\" encoding=\"UTF-8\"?>",
     "<project xmlns=\"http://maven.apache.org/POM/4.0.0\" xmlns:xsi=\"http://www.w3.org/2001/XMLSchema-instance\"",
     "         xsi:schemaLocation=\"http://maven.apache.org/POM/4.0.0 https://maven.apache.org/xsd/maven-4.0.0.xsd\">",
     "  <modelVersion>4.0.0</modelVersion>",
     "",
     "  <groupId>{{group_id}}</groupId>",
     "  <artifactId>{{artifact_id}}</artifactId>",
     "  <version>{{version}}</version>",
     "  <name>{{project_name}}</name>",
     "",
     "  <properties>",
     "    <compiler-plugin.version>3.12.1</compiler-plugin.version>",
     "    <maven.compiler.release>17</maven.compiler.release>",
     "    <project.build.sourceEncoding>UTF-8</project.build.sourceEncoding>",
     "    <project.reporting.outputEncoding>UTF-8</project.reporting.outputEncoding>",
     "    <quarkus.platform.artifact-id>quarkus-bom</quarkus.platform.artifact-id>",
     "    <quarkus.platform.group-id>io.quarkus.platform</quarkus.platform.group-id>",
     "    <quarkus.platform.version>3.8.4</quarkus.platform.version>",
     "    <skipITs>true</skipITs>",
     "    <surefire-plugin.version>3.2.5</surefire-plugin.version>",
     "  </properties>",
     "",
     "  <dependencyManagement>",
     "    <dependencies>",
     "      <dependency>",
     "        <groupId>${quarkus.platform.group-id}</groupId>",
     "        <artifactId>${quarkus.platform.artifact-id}</artifactId>",
     "        <version>${quarkus.platform.version}</version>",
     "        <type>pom</type>",
     "        <scope>import</scope>",
     "      </dependency>",
     "    </dependencies>",
     "  </dependencyManagement>",
     "",
     "  <dependencies>",
     "    <dependency>",
     "      <groupId>io.quarkus</groupId>",
     "      <artifactId>quarkus-resteasy-reactive-jackson</artifactId>",
     "    </dependency>",
     "    <dependency>",
     "      <groupId>io.quarkus</groupId>",
     "      <artifactId>quarkus-smallrye-openapi</artifactId>",
     "    </dependency>",
     "    <dependency>",
     "      <groupId>io.quarkus</groupId>",
     "      <artifactId>quarkus-hibernate-validator</artifactId>",
     "    </dependency>",
     "    <dependency>",
     "      <groupId>io.quarkus</groupId>",
     "      <artifactId>quarkus-arc</artifactId>",
     "    </dependency>",
     "    <dependency>",
     "      <groupId>io.quarkus</groupId>",
     "      <artifactId>quarkus-junit5</artifactId>",
     "      <scope>test</scope>",
     "    </dependency>",
     "    <dependency>",
     "      <groupId>io.rest-assured</groupId>",
     "      <artifactId>rest-assured</artifactId>",
     "      <scope>test</scope>",
     "    </dependency>",
     "  </dependencies>",
     "",
     "  <build>",
     "    <plugins>",
     "      <plugin>",
     "        <groupId>${quarkus.platform.group-id}</groupId>",
     "        <artifactId>quarkus-maven-plugin</artifactId>",
     "        <version>${quarkus.platform.version}</version>",
     "        <extensions>true</extensions>",
     "        <executions>",
     "          <execution>",
     "            <goals>",
     "              <goal>build</goal>",
     "              <goal>generate-code</goal>",
     "              <goal>generate-code-tests</goal>",
     "            </goals>",
     "          </execution>",
     "        </executions>",
     "      </plugin>",
     "      <plugin>",
     "        <artifactId>maven-compiler-plugin</artifactId>",
     "        <version>${compiler-plugin.version}</version>",
     "        <configuration>",
     "          <compilerArgs>",
     "            <arg>-parameters</arg>",
     "          </compilerArgs>",
     "        </configuration>",
     "      </plugin>",
     "      <plugin>",
     "        <artifactId>maven-surefire-plugin</artifactId>",
     "        <version>${surefire-plugin.version}</version>",
     "        <configuration>",
     "          <systemPropertyVariables>",
     "            <java.util.logging.manager>org.jboss.logmanager.LogManager</java.util.logging.manager>",
     "            <maven.home>${maven.home}</maven.home>",
     "          </systemPropertyVariables>",
     "        </configuration>",
     "      </plugin>",
     "    </plugins>",
     "  </build>",
     "",
     "  <profiles>",
     "    <profile>",
     "      <id>native</id>",
     "      <activation>",
     "        <property>",
     "          <name>native</name>",
     "        </property>",
     "      </activation>",
     "      <properties>",
     "        <skipITs>false</skipITs>",
     "        <quarkus.native.enabled>true</quarkus.native.enabled>",
     "      </properties>",
     "    </profile>",
     "  </profiles>",
     "</project>"]

def properties : String :=
  Text.lines
    ["quarkus.http.port=8080",
     "quarkus.smallrye-openapi.path=/openapi",
     "quarkus.swagger-ui.always-include=true"]

end Scaffold.Bundled
