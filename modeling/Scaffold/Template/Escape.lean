/-!
# Escaping

The characters with a meaning in markup are written as character references, so that a value shown in a
document stays text there.
-/

namespace Scaffold.Template

def escapeChar (c : Char) : List Char :=
  if c = '&' then "&amp;".toList
  else if c = '<' then "&lt;".toList
  else if c = '>' then "&gt;".toList
  else if c = '"' then "&quot;".toList
  else if c = '\'' then "&#x27;".toList
  else if c = '`' then "&#x60;".toList
  else if c = '=' then "&#x3D;".toList
  else [c]

def escape (s : String) : String :=
  String.ofList (s.toList.flatMap escapeChar)

end Scaffold.Template
