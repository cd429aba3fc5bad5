/-!
# Lines

Texts made of lines, with the two usual line ends.
-/

namespace Scaffold.Text

/-- The text of lines that each end with a line feed. -/
def lines (ls : List String) : String :=
  String.join (ls.map (· ++ "\n"))

/-- The text of lines that each end with a carriage return and a line feed. -/
def crlfLines (ls : List String) : String :=
  String.join (ls.map (· ++ "\r\n"))

theorem crlfLines_append (first rest : List String) :
    crlfLines (first ++ rest) = crlfLines first ++ crlfLines rest := by
  simp only [crlfLines, List.map_append, String.join_append]

end Scaffold.Text
