import Scaffold.Text.Lines

/-!
# Build scripts

The scripts that fetch the build tool and run it, with their settings and their downloader.
-/

namespace Scaffold.Bundled

def wrapperIgnore : String :=
  Text.lines
    ["maven-wrapper.jar"]

def wrapperProperties : String :=
  Text.lines
    ["distributionUrl=https://repo.maven.apache.org/maven2/org/apache/maven/apache-maven/3.9.6/apache-maven-3.9.6-bin.zip",
     "wrapperUrl=https://repo.maven.apache.org/maven2/org/apache/maven/wrapper/maven-wrapper/3.2.0/maven-wrapper-3.2.0.jar"]

def wrapperDownloader : String :=
  Text.lines
    ["/*",
     " * Licensed to the Apache Software Foundation (ASF) under one",
     " * or more contributor license agreements.  See the NOTICE file",
     " * distributed with this work for additional information",
     " * regarding copyright ownership.  The ASF licenses this file",
     " * to you under the Apache License, Version 2.0 (the",
     " * \"License\"); you may not use this file except in compliance",
     " * with the License.  You may obtain a copy of the License at",
     " *",
     " *   http://www.apache.org/licenses/LICENSE-2.0",
     " *",
     " * Unless required by applicable law or agreed to in writing,",
     " * software distributed under the License is distributed on an",
     " * \"AS IS\" BASIS, WITHOUT WARRANTIES OR CONDITIONS OF ANY",
     " * KIND, either express or implied.  See the License for the",
     " * specific language governing permissions and limitations",
     " * under the License.",
     " */",
     "",
     "import java.io.IOException;",
     "import java.io.InputStream;",
     "import java.net.Authenticator;",
     "import java.net.PasswordAuthentication;",
     "import java.net.URL;",
     "import java.nio.file.Files;",
     "import java.nio.file.Path;",
     "import java.nio.file.Paths;",
     "import java.nio.file.StandardCopyOption;",
     "",
     "public final class MavenWrapperDownloader",
     "\x7b",
     "    private static final String WRAPPER_VERSION = \"3.2.0\";",
     "",
     "    private static final boolean VERBOSE = Boolean.parseBoolean( System.getenv( \"MVNW_VERBOSE\" ) );",
     "",
     "    public static void main( String[] args )",
     "    \x7b",
     "        log( \"Apache Maven Wrapper Downloader \" + WRAPPER_VERSION );",
     "",
     "        if ( args.length != 2 )",
     "        \x7b",
     "            System.err.println( \" - ERROR wrapperUrl or wrapperJarPath parameter missing\" );",
     "            System.exit( 1 );",
     "        \x7d",
     "",
     "        try",
     "        \x7b",
     "            log( \" - Downloader started\" );",
     "            final URL wrapperUrl = new URL( args[0] );",
     "            final String jarPath = args[1].replace( \"..\", \"\" ); // Sanitize path",
     "            final Path wrapperJarPath = Paths.get( jarPath ).toAbsolutePath().normalize();",
     "            downloadFileFromURL( wrapperUrl, wrapperJarPath );",
     "            log( \"Done\" );",
     "        \x7d",
     "        catch ( IOException e )",
     "        \x7b",
     "            System.err.println( \"- Error downloading: \" + e.getMessage() );",
     "            if ( VERBOSE )",
     "            \x7b",
     "                e.printStackTrace();",
     "            \x7d",
     "            System.exit( 1 );",
     "        \x7d",
     "    \x7d",
     "",
     "    private static void downloadFileFromURL( URL wrapperUrl, Path wrapperJarPath )",
     "        throws IOException",
     "    \x7b",
     "        log( \" - Downloading to: \" + wrapperJarPath );",
     "        if ( System.getenv( \"MVNW_USERNAME\" ) != null && System.getenv( \"MVNW_PASSWORD\" ) != null )",
     "        \x7b",
     "            final String username = System.getenv( \"MVNW_USERNAME\" );",
     "            final char[] password = System.getenv( \"MVNW_PASSWORD\" ).toCharArray();",
     "            Authenticator.setDefault( new Authenticator()",
     "            \x7b",
     "                @Override",
     "                protected PasswordAuthentication getPasswordAuthentication()",
     "                \x7b",
     "                    return new PasswordAuthentication( username, password );",
     "                \x7d",
     "            \x7d );",
     "        \x7d",
     "        try ( InputStream inStream = wrapperUrl.openStream() )",
     "        \x7b",
     "            Files.copy( inStream, wrapperJarPath, StandardCopyOption.REPLACE_EXISTING );",
     "        \x7d",
     "        log( \" - Downloader complete\" );",
     "    \x7d",
     "",
     "    private static void log( String msg )",
     "    \x7b",
     "        if ( VERBOSE )",
     "        \x7b",
     "            System.out.println( msg );",
     "        \x7d",
     "    \x7d",
     "",
     "\x7d"]

def script : String :=
  Text.lines
    ["#!/bin/sh",
     "# ----------------------------------------------------------------------------",
     "# Licensed to the Apache Software Foundation (ASF) under one",
     "# or more contributor license agreements.  See the NOTICE file",
     "# distributed with this work for additional information",
     "# regarding copyright ownership.  The ASF licenses this file",
     "# to you under the Apache License, Version 2.0 (the",
     "# \"License\"); you may not use this file except in compliance",
     "# with the License.  You may obtain a copy of the License at",
     "#",
     "#    http://www.apache.org/licenses/LICENSE-2.0",
     "#",
     "# Unless required by applicable law or agreed to in writing,",
     "# software distributed under the License is distributed on an",
     "# \"AS IS\" BASIS, WITHOUT WARRANTIES OR CONDITIONS OF ANY",
     "# KIND, either express or implied.  See the License for the",
     "# specific language governing permissions and limitations",
     "# under the License.",
     "# ----------------------------------------------------------------------------",
     "",
     "# ----------------------------------------------------------------------------",
     "# Apache Maven Wrapper startup script, version 3.2.0",
     "#",
     "# Optional ENV vars",
     "#   JAVA_HOME - location of a JDK home dir",
     "#   MAVEN_OPTS - parameters passed to the Java VM when running Maven",
     "#   MVNW_VERBOSE - true: enable verbose log",
     "#   MVNW_USERNAME/MVNW_PASSWORD - user and password for downloading maven",
     "# ----------------------------------------------------------------------------",
     "",
     "set -e",
     "",
     "if [ \"$MVNW_VERBOSE\" = true ]; then",
     "  set -x",
     "fi",
     "",
     "# resolve the directory containing the project (the one with .mvn)",
     "find_maven_basedir() \x7b",
     "  if [ -z \"$1\" ]; then",
     "    echo \"Path not specified to find_maven_basedir\" >&2",
     "    return 1",
     "  fi",
     "  basedir=\"$1\"",
     "  wdir=\"$1\"",
     "  while [ \"$wdir\" != '/' ]; do",
     "    if [ -d \"$wdir\"/.mvn ]; then",
     "      basedir=$wdir",
     "      break",
     "    fi",
     "    if [ -d \"${wdir}\" ]; then",
     "      wdir=$(cd \"$wdir/..\" && pwd)",
     "    fi",
     "  done",
     "  printf '%s' \"$(cd \"$basedir\" && pwd)\"",
     "\x7d",
     "",
     "read_property() \x7b",
     "  # $1 property name, $2 file",
     "  sed -n \"s/^$1=\\(.*\\)$/\\1/p\" \"$2\" | tr -d '\\r'",
     "\x7d",
     "",
     "MAVEN_PROJECTBASEDIR=$\x7bMAVEN_BASEDIR:-$(find_maven_basedir \"$(dirname \"$0\")\")\x7d",
     "if [ -z \"$MAVEN_PROJECTBASEDIR\" ]; then",
     "  exit 1",
     "fi",
     "",
     "WRAPPER_PROPERTIES=\"$MAVEN_PROJECTBASEDIR/.mvn/wrapper/maven-wrapper.properties\"",
     "WRAPPER_JAR=\"$MAVEN_PROJECTBASEDIR/.mvn/wrapper/maven-wrapper.jar\"",
     "WRAPPER_LAUNCHER=org.apache.maven.wrapper.MavenWrapperMain",
     "",
     "if [ -n \"$JAVA_HOME\" ]; then",
     "  JAVACMD=\"$JAVA_HOME/bin/java\"",
     "  JAVACCMD=\"$JAVA_HOME/bin/javac\"",
     "else",
     "  JAVACMD=$(command -v java || true)",
     "  JAVACCMD=$(command -v javac || true)",
     "fi",
     "",
     "if [ ! -x \"$JAVACMD\" ]; then",
     "  echo \"Error: JAVA_HOME is not defined correctly or java is not on the PATH.\" >&2",
     "  exit 1",
     "fi",
     "",
     "if [ ! -r \"$WRAPPER_JAR\" ]; then",
     "  wrapperUrl=$(read_property wrapperUrl \"$WRAPPER_PROPERTIES\")",
     "  if [ -z \"$wrapperUrl\" ]; then",
     "    wrapperUrl=\"https://repo.maven.apache.org/maven2/org/apache/maven/wrapper/maven-wrapper/3.2.0/maven-wrapper-3.2.0.jar\"",
     "  fi",
     "  if [ \"$MVNW_VERBOSE\" = true ]; then",
     "    echo \"Couldn't find $WRAPPER_JAR, downloading it from $wrapperUrl\"",
     "  fi",
     "",
     "  if command -v wget > /dev/null; then",
     "    if [ -n \"$MVNW_USERNAME\" ] && [ -n \"$MVNW_PASSWORD\" ]; then",
     "      wget -q --http-user=\"$MVNW_USERNAME\" --http-password=\"$MVNW_PASSWORD\" \"$wrapperUrl\" -O \"$WRAPPER_JAR\"",
     "    else",
     "      wget -q \"$wrapperUrl\" -O \"$WRAPPER_JAR\"",
     "    fi",
     "  elif command -v curl > /dev/null; then",
     "    if [ -n \"$MVNW_USERNAME\" ] && [ -n \"$MVNW_PASSWORD\" ]; then",
     "      curl -s -f --user \"$MVNW_USERNAME:$MVNW_PASSWORD\" -o \"$WRAPPER_JAR\" \"$wrapperUrl\"",
     "    else",
     "      curl -s -f -o \"$WRAPPER_JAR\" \"$wrapperUrl\"",
     "    fi",
     "  else",
     "    downloader=\"$MAVEN_PROJECTBASEDIR/.mvn/wrapper/MavenWrapperDownloader.java\"",
     "    if [ -x \"$JAVACCMD\" ] && [ -r \"$downloader\" ]; then",
     "      \"$JAVACCMD\" -d \"$MAVEN_PROJECTBASEDIR/.mvn/wrapper\" \"$downloader\"",
     "      \"$JAVACMD\" -cp \"$MAVEN_PROJECTBASEDIR/.mvn/wrapper\" MavenWrapperDownloader \"$wrapperUrl\" \"$WRAPPER_JAR\"",
     "    else",
     "      echo \"Error: neither wget, curl nor javac is available to download $wrapperUrl\" >&2",
     "      exit 1",
     "    fi",
     "  fi",
     "fi",
     "",
     "MAVEN_OPTS=\"$(printf '%s' \"$MAVEN_OPTS\") -Dmaven.multiModuleProjectDirectory=$MAVEN_PROJECTBASEDIR\"",
     "",
     "# shellcheck disable=SC2086",
     "exec \"$JAVACMD\" \\",
     "  $MAVEN_OPTS \\",
     "  $MAVEN_DEBUG_OPTS \\",
     "  -classpath \"$WRAPPER_JAR\" \\",
     "  \"-Dmaven.multiModuleProjectDirectory=$MAVEN_PROJECTBASEDIR\" \\",
     "  ${WRAPPER_LAUNCHER} $MAVEN_CONFIG \"$@\""]

def windowsScript : String :=
  Text.crlfLines
    ["@REM ----------------------------------------------------------------------------",
     "@REM Licensed to the Apache Software Foundation (ASF) under one",
     "@REM or more contributor license agreements.  See the NOTICE file",
     "@REM distributed with this work for additional information",
     "@REM regarding copyright ownership.  The ASF licenses this file",
     "@REM to you under the Apache License, Version 2.0 (the",
     "@REM \"License\"); you may not use this file except in compliance",
     "@REM with the License.  You may obtain a copy of the License at",
     "@REM",
     "@REM    http://www.apache.org/licenses/LICENSE-2.0",
     "@REM",
     "@REM Unless required by applicable law or agreed to in writing,",
     "@REM software distributed under the License is distributed on an",
     "@REM \"AS IS\" BASIS, WITHOUT WARRANTIES OR CONDITIONS OF ANY",
     "@REM KIND, either express or implied.  See the License for the",
     "@REM specific language governing permissions and limitations",
     "@REM under the License.",
     "@REM ----------------------------------------------------------------------------",
     "",
     "@REM ----------------------------------------------------------------------------",
     "@REM Apache Maven Wrapper startup batch script, version 3.2.0",
     "@REM",
     "@REM Optional ENV vars",
     "@REM   JAVA_HOME - location of a JDK home dir",
     "@REM   MAVEN_OPTS - parameters passed to the Java VM when running Maven",
     "@REM   MVNW_USERNAME/MVNW_PASSWORD - user and password for downloading maven",
     "@REM ----------------------------------------------------------------------------",
     "",
     "@echo off",
     "setlocal",
     "",
     "if not \"%JAVA_HOME%\"==\"\" goto haveJavaHome",
     "set JAVA_EXE=java.exe",
     "goto findBaseDir",
     "",
     ":haveJavaHome",
     "set JAVA_EXE=%JAVA_HOME%\\bin\\java.exe",
     "if exist \"%JAVA_EXE%\" goto findBaseDir",
     "echo Error: JAVA_HOME is set to an invalid directory. >&2",
     "echo JAVA_HOME = \"%JAVA_HOME%\" >&2",
     "goto error",
     "",
     ":findBaseDir",
     "set MAVEN_PROJECTBASEDIR=%MAVEN_BASEDIR%",
     "if not \"%MAVEN_PROJECTBASEDIR%\"==\"\" goto endDetectBaseDir",
     "set EXEC_DIR=%CD%",
     "set WDIR=%EXEC_DIR%",
     ":findBaseDirLoop",
     "if exist \"%WDIR%\"\\.mvn goto baseDirFound",
     "cd ..",
     "if \"%WDIR%\"==\"%CD%\" goto baseDirNotFound",
     "set WDIR=%CD%",
     "goto findBaseDirLoop",
     "",
     ":baseDirFound",
     "set MAVEN_PROJECTBASEDIR=%WDIR%",
     "cd \"%EXEC_DIR%\"",
     "goto endDetectBaseDir",
     "",
     ":baseDirNotFound",
     "set MAVEN_PROJECTBASEDIR=%EXEC_DIR%",
     "cd \"%EXEC_DIR%\"",
     "",
     ":endDetectBaseDir",
     "set WRAPPER_JAR=\"%MAVEN_PROJECTBASEDIR%\\.mvn\\wrapper\\maven-wrapper.jar\"",
     "set WRAPPER_LAUNCHER=org.apache.maven.wrapper.MavenWrapperMain",
     "set WRAPPER_URL=\"https://repo.maven.apache.org/maven2/org/apache/maven/wrapper/maven-wrapper/3.2.0/maven-wrapper-3.2.0.jar\"",
     "",
     "FOR /F \"usebackq tokens=1,2 delims==\" %%A IN (\"%MAVEN_PROJECTBASEDIR%\\.mvn\\wrapper\\maven-wrapper.properties\") DO (",
     "    IF \"%%A\"==\"wrapperUrl\" SET WRAPPER_URL=%%B",
     ")",
     "",
     "if exist %WRAPPER_JAR% goto runMaven",
     "powershell -Command \"&\x7b\"^",
     "    \"$webclient = new-object System.Net.WebClient;\"^",
     "    \"if (-not ([string]::IsNullOrEmpty('%MVNW_USERNAME%') -and [string]::IsNullOrEmpty('%MVNW_PASSWORD%'))) \x7b\"^",
     "    \"$webclient.Credentials = new-object System.Net.NetworkCredential('%MVNW_USERNAME%', '%MVNW_PASSWORD%');\"^",
     "    \"\x7d\"^",
     "    \"[Net.ServicePointManager]::SecurityProtocol = [Net.SecurityProtocolType]::Tls12; $webclient.DownloadFile('%WRAPPER_URL%', '%WRAPPER_JAR%')\"^",
     "    \"\x7d\"",
     "",
     ":runMaven",
     "\"%JAVA_EXE%\" %MAVEN_OPTS% %MAVEN_DEBUG_OPTS% -classpath %WRAPPER_JAR% \"-Dmaven.multiModuleProjectDirectory=%MAVEN_PROJECTBASEDIR%\" %WRAPPER_LAUNCHER% %MAVEN_CONFIG% %*",
     "if ERRORLEVEL 1 goto error",
     "goto end",
     "",
     ":error",
     "set ERROR_CODE=1",
     "",
     ":end",
     "endlocal & exit /B %ERROR_CODE%"]

end Scaffold.Bundled
