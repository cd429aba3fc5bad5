import Scaffold.Template.Tag
import Scaffold.Text.Blank

/-!
# Pieces

The source of a template as a flat sequence of texts and tags. A backslash before two braces makes them
text; more than one leave one fewer, and the tag is a tag. `settle` takes away the blanks that tags do not
leave behind: those on the side of a mark, and the rest of the line of a tag that stands alone on it.
-/

namespace Scaffold.Template

/-- A tag where it stands: `alone` when there are only blanks beside it on its line. -/
structure Placed where
  marked : Marked
  place : Place
  alone : Bool
  deriving Repr

inductive Piece where
  | text (cs : List Char)
  | tag (placed : Placed)
  deriving Repr

def opening : List Char := ['{', '{']

def startsTag (cs : List Char) : Bool :=
  opening.isPrefixOf cs

/-- The end of a block whose body is not read as a template starts here. -/
def startsVerbatim (cs : List Char) : Bool :=
  (opening ++ opening).isPrefixOf cs

/-- A text that was read: what it says, all that was read of the source, last first, and what follows. -/
structure Scanned where
  text : List Char
  behind : List Char
  rest : List Char

/-- Reads text up to where `stops` holds. `text` and `behind` hold what was read so far, last first, and
`inRun` says that the character before is a backslash that was settled already. -/
def readText (stops : List Char → Bool) : Bool → List Char → List Char → List Char → Scanned
  | _, text, behind, [] => ⟨text.reverse, behind, []⟩
  | inRun, text, behind, c :: rest =>
    if stops (c :: rest) then ⟨text.reverse, behind, c :: rest⟩
    else if c ≠ '\\' then readText stops false (c :: text) (c :: behind) rest
    else if inRun then readText stops true (c :: text) (c :: behind) rest
    else
      match rest with
      | '{' :: '{' :: '{' :: '{' :: rest =>
        readText stops false (opening ++ opening ++ text) (opening ++ opening ++ c :: behind) rest
      | '{' :: '{' :: rest => readText stops false (opening ++ text) (opening ++ c :: behind) rest
      | rest =>
        if startsTag (rest.dropWhile (· = '\\')) then readText stops true text (c :: behind) rest
        else readText stops true (c :: text) (c :: behind) rest

def isIndent (c : Char) : Bool :=
  c = ' ' || c = '\t'

def isLineEnd (c : Char) : Bool :=
  c = '\n' || c = '\r'

/-- Nothing but blanks stands before a tag on its line, given what comes before it, last first. -/
def startsLine (behind : List Char) : Bool :=
  let others := behind.dropWhile isIndent
  others.isEmpty || others.head?.any isLineEnd

def endsLine (rest : List Char) : Bool :=
  rest.isEmpty || (rest.dropWhile isIndent).head?.any isLineEnd

/-- A place in the source with what was read before it, last first. -/
structure Cursor where
  behind : List Char
  place : Place

def Cursor.move (cursor : Cursor) (cs : List Char) : Cursor :=
  ⟨cs.reverse ++ cursor.behind, cs.foldl Place.step cursor.place⟩

/-- The cursor at a text's end, when all that was read of the source is given. -/
def Cursor.atEnd (cursor : Cursor) (scanned : Scanned) : Cursor :=
  let fresh := scanned.behind.take (scanned.behind.length - cursor.behind.length)
  ⟨scanned.behind, fresh.reverse.foldl Place.step cursor.place⟩

def Cursor.mark (cursor : Cursor) (marked : Marked) (rest : List Char) : Piece :=
  .tag ⟨marked, cursor.place, startsLine cursor.behind && endsLine rest⟩

/-- Reads the start of a block between four braces on each side, whose body is not read as a template. -/
def readVerbatimStart (cs : List Char) : Option (Marked × List Char) := do
  let rest ← after? (opening ++ opening) cs
  let (trimsBefore, rest) := readMark rest
  let (head, rest) ← readHead rest
  let (trimsAfter, rest) ← readEnd (closing ++ closing) rest
  return (⟨.start .helper head, trimsBefore, trimsAfter⟩, rest)

/-- Reads the end of a block between four braces on each side. -/
def readVerbatimEnd (cs : List Char) : Option (Marked × List Char) := do
  let rest ← after? (opening ++ opening) cs
  let (trimsBefore, rest) := readMark rest
  let rest ← after? ['/'] rest
  let (name, rest) ← readName (skipGap rest)
  let (trimsAfter, rest) ← readEnd (closing ++ closing) rest
  return (⟨.finish name, trimsBefore, trimsAfter⟩, rest)

def Piece.ofText (text : List Char) : List Piece :=
  if text.isEmpty then [] else [.text text]

/-- Reads the tag or the verbatim block that starts here: its pieces, what follows, and the cursor there. -/
def readPieces (cursor : Cursor) (cs : List Char) : Option (List Piece × Cursor × List Char) :=
  match readTag (cs.drop 2) with
  | some (marked, rest) => some ([cursor.mark marked rest], cursor.move (before cs rest), rest)
  | none => do
    let (start, rest) ← readVerbatimStart cs
    let inside := cursor.move (before cs rest)
    let scanned := readText startsVerbatim false [] inside.behind rest
    let atEnd := inside.atEnd scanned
    let (finish, after) ← readVerbatimEnd scanned.rest
    return (cursor.mark start rest :: Piece.ofText scanned.text ++ [atEnd.mark finish after],
      atEnd.move (before scanned.rest after), after)

/-- The pieces from a cursor on; `fuel` bounds the number of tags. -/
def piecesFrom : Nat → Cursor → List Char → Option (List Piece)
  | 0, _, _ => none
  | fuel + 1, cursor, cs =>
    let scanned := readText startsTag false [] cursor.behind cs
    if scanned.rest.isEmpty then some (Piece.ofText scanned.text)
    else do
      let (pieces, cursor, rest) ← readPieces (cursor.atEnd scanned) scanned.rest
      return Piece.ofText scanned.text ++ pieces ++ (← piecesFrom fuel cursor rest)

/-- The pieces of a source, if all its tags can be read. Every tag takes at least four characters. -/
def pieces (source : List Char) : Option (List Piece) :=
  piecesFrom (source.length + 1) ⟨[], ⟨1, 1⟩⟩ source

/-! ## Blanks beside tags -/

/-- A tag takes the rest of its line with it when it stands alone there. -/
def Tag.isSilent : Tag → Bool
  | .shown _ _ => false
  | _ => true

def dropLineEnd : List Char → List Char
  | '\r' :: '\n' :: rest => rest
  | '\n' :: rest => rest
  | cs => cs

/-- A text without what the tag before it takes away at its start. -/
def trimFront (trims line : Bool) (cs : List Char) : List Char :=
  if trims then Text.trimStart cs
  else if line then dropLineEnd (cs.dropWhile isIndent)
  else cs

/-- A text without what the piece after it takes away at its end. The use of a fragment keeps its
indentation. -/
def trimBack (next : Option Piece) (cs : List Char) : List Char :=
  match next with
  | some (.tag ⟨marked, _, alone⟩) =>
    let cs := if marked.trimsBefore then Text.trimEnd cs else cs
    match marked.tag with
    | .fragment _ => cs
    | tag => if alone && tag.isSilent then Text.dropEndWhile isIndent cs else cs
  | _ => cs

/-- Takes away blanks: `trims` is the mark of the last tag that is no comment, and `line` says that the last
tag took its line with it. -/
def settle : Bool → Bool → List Piece → List Piece
  | _, _, [] => []
  | trims, line, .text cs :: rest =>
    if trims && cs.all isGap then settle trims line rest
    else .text (trimBack rest.head? (trimFront trims line cs)) :: settle trims false rest
  | trims, line, .tag placed :: rest =>
    let trims :=
      match placed.marked.tag with
      | .comment => trims
      | _ => placed.marked.trimsAfter
    .tag placed :: settle trims (if placed.marked.tag.isSilent then placed.alone else line) rest

end Scaffold.Template
