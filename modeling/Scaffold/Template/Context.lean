import Scaffold.Settings.Basic
import Scaffold.Template.Render

/-!
# Data of project templates

The settings a project template can refer to.
-/

namespace Scaffold.Template

def context (s : Settings) : Json :=
  .object
    [("artifact_id", .string s.artifactId), ("group_id", .string s.groupId),
     ("java_package", .string s.javaPackage), ("project_name", .string s.projectName),
     ("version", .string s.version)]

end Scaffold.Template
