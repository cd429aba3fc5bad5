import Scaffold.Text.Lines

/-!
# Project notes

The ignore files and the readme of a project that is a whole application.
-/

namespace Scaffold.Bundled

def dockerIgnore : String :=
  Text.lines
    ["*",
     "!target/*-runner",
     "!target/*-runner.jar",
     "!target/lib/*",
     "!target/quarkus-app/*"]

def ignore : String :=
  Text.lines
    ["#Maven",
     "target/",
     "pom.xml.tag",
     "pom.xml.releaseBackup",
     "pom.xml.versionsBackup",
     "release.properties",
     ".flattened-pom.xml",
     "",
     "# Eclipse",
     ".project",
     ".classpath",
     ".settings/",
     "bin/",
     "",
     "# IntelliJ",
     ".idea",
     "*.ipr",
     "*.iml",
     "*.iws",
     "",
     "# NetBeans",
     "nb-configuration.xml",
     "",
     "# Visual Studio Code",
     ".vscode",
     ".factorypath",
     "",
     "# OSX",
     ".DS_Store",
     "",
     "# Vim",
     "*.swp",
     "*.swo",
     "",
     "# patch",
     "*.orig",
     "*.rej",
     "",
     "# Local environment",
     ".env",
     "",
     "# Plugin directory",
     "/.quarkus/cli/plugins/"]

def readme : String :=
  Text.lines
    ["# Generated Quarkus API",
     "",
     "This project uses Quarkus, the Supersonic Subatomic Java Framework.",
     "Its JAX-RS interfaces and beans were generated from an OpenAPI document.",
     "Implement the generated interfaces to provide the API.",
     "",
     "If you want to learn more about Quarkus, please visit its website: https://quarkus.io/ .",
     "",
     "## Running the application in dev mode",
     "",
     "You can run your application in dev mode that enables live coding using:",
     "",
     "```shell script",
     "./mvnw compile quarkus:dev",
     "```",
     "",
     "The OpenAPI document bundled with the project is served at <http://localhost:8080/openapi>.",
     "Annotation scanning is disabled (`mp.openapi.scan.disable=true`) so the document is",
     "served exactly as designed.",
     "",
     "## Packaging and running the application",
     "",
     "The application can be packaged using:",
     "",
     "```shell script",
     "./mvnw package",
     "```",
     "",
     "It produces the `quarkus-run.jar` file in the `target/quarkus-app/` directory.",
     "Be aware that it's not an _über-jar_ as the dependencies are copied into the `target/quarkus-app/lib/` directory.",
     "",
     "The application is now runnable using `java -jar target/quarkus-app/quarkus-run.jar`.",
     "",
     "## Creating a native executable",
     "",
     "You can create a native executable using:",
     "",
     "```shell script",
     "./mvnw package -Dnative",
     "```",
     "",
     "You can then execute your native executable with: `./target/*-runner`",
     "",
     "## Container images",
     "",
     "Dockerfiles for JVM, legacy-jar, native and native-micro images are in `src/main/docker/`.",
     "Each file documents the build and run commands at its top."]

end Scaffold.Bundled
