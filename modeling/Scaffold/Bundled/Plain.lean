import Scaffold.Text.Lines

/-!
# Templates of a plain project

The build file and the application class of a project without a platform.
-/

namespace Scaffold.Bundled

def plainPom : String :=
  Text.lines
    ["<?xml version=\"1.0\" encoding=\"UTF-8\"?>",
     "<project xmlns=\"http://maven.apache.org/POM/4.0.0\" xmlns:xsi=\"http://www.w3.org/2001/XMLSchema-instance\"",
     "         xsi:schemaLocation=\"http://maven.apache.org/POM/4.0.0 https://maven.apache.org/xsd/maven-4.0.0.xsd\">",
     "  <modelVersion>4.0.0</modelVersion>",
     "",
     "  <groupId>{{group_id}}</groupId>",
     "  <artifactId>{{artifact_id}}</artifactId>",
     "  <version>{{version}}</version>",
     "  <packaging>war</packaging>",
     "  <name>{{project_name}}</name>",
     "",
     "  <properties>",
     "    <maven.compiler.release>17</maven.compiler.release>",
     "    <project.build.sourceEncoding>UTF-8</project.build.sourceEncoding>",
     "    <failOnMissingWebXml>false</failOnMissingWebXml>",
     "  </properties>",
     "",
     "  <dependencies>",
     "    <dependency>",
     "      <groupId>jakarta.platform</groupId>",
     "      <artifactId>jakarta.jakartaee-api</artifactId>",
     "      <version>10.0.0</version>",
     "      <scope>provided</scope>",
     "    </dependency>",
     "    <dependency>",
     "      <groupId>jakarta.validation</groupId>",
     "      <artifactId>jakarta.validation-api</artifactId>",
     "      <version>3.0.2</version>",
     "      <scope>provided</scope>",
     "    </dependency>",
     "    <dependency>",
     "      <groupId>com.fasterxml.jackson.core</groupId>",
     "      <artifactId>jackson-annotations</artifactId>",
     "      <version>2.17.1</version>",
     "    </dependency>",
     "  </dependencies>",
     "",
     "  <build>",
     "    <finalName>{{artifact_id}}</finalName>",
     "    <plugins>",
     "      <plugin>",
     "        <groupId>org.apache.maven.plugins</groupId>",
     "        <artifactId>maven-war-plugin</artifactId>",
     "        <version>3.4.0</version>",
     "      </plugin>",
     "    </plugins>",
     "  </build>",
     "</project>"]

def applicationClass : String :=
  Text.lines
    ["package {{java_package}};",
     "",
     "import jakarta.enterprise.context.ApplicationScoped;",
     "import jakarta.ws.rs.ApplicationPath;",
     "import jakarta.ws.rs.core.Application;",
     "",
     "/**",
     " * The JAX-RS application.",
     " */",
     "@ApplicationScoped",
     "@ApplicationPath(\"/\")",
     "public class JaxRsApplication extends Application \x7b",
     "\x7d"]

end Scaffold.Bundled
