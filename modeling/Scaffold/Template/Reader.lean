import Scaffold.Template.Piece

/-!
# Reading templates

The elements of a template from its pieces. Every block must be ended by the name that started it, and its
else tags come in order: first those that start another block, then a plain one.
-/

namespace Scaffold.Template

/-- A block or a part of one: its head and the elements after it, last first. -/
structure Arm where
  place : Option Place
  head : Head
  body : List Element
  deriving Repr

/-- A block that was started: what stands before it, last first, the arms that ended, last first, and
whether the plain else tag was seen. -/
structure Frame where
  kind : BlockKind
  name : String
  outer : List Element
  place : Place
  head : Head
  arms : List Arm
  inElse : Bool
  deriving Repr

/-- The arms of a block as blocks, each in the inverse of the one before it; the last comes first. -/
def nest : List Arm → Option (List Element) → Option (List Element)
  | [], inverse => inverse
  | arm :: earlier, inverse =>
    nest earlier (some [.block arm.place arm.head.call arm.head.names arm.body.reverse inverse])

def Frame.start (kind : BlockKind) (head : Head) (place : Place) (outer : List Element) : Frame :=
  { kind, name := head.call.name, outer, place, head, arms := [], inElse := false }

/-- The place of the arm that is being read: only the first has one. -/
def Frame.armPlace (frame : Frame) : Option Place :=
  if frame.arms.isEmpty then some frame.place else none

/-- The block after its arm ends with the given elements, last first. -/
def Frame.endArm (frame : Frame) (body : List Element) : Frame :=
  { frame with arms := ⟨frame.armPlace, frame.head, body⟩ :: frame.arms }

/-- The elements of a block that ends, the elements of its last part given last first. -/
def Frame.finish (frame : Frame) (body : List Element) : List Element :=
  match frame.kind with
  | .fragment => [.fragment frame.place frame.head.call (some body.reverse)]
  | .decorator => [.decorator frame.place frame.head.call]
  | .helper =>
    if frame.inElse then (nest frame.arms (some body.reverse)).getD []
    else (nest (frame.endArm body).arms none).getD []

/-- The elements of a template from its pieces, in the blocks that were started, innermost first; `done`
holds the elements of the innermost part, last first. -/
def assemble : List Frame → List Element → List Piece → Option Template
  | [], done, [] => some done.reverse
  | _ :: _, _, [] => none
  | frames, done, .text cs :: rest => assemble frames (.text (String.ofList cs) :: done) rest
  | frames, done, .tag ⟨⟨tag, _, _⟩, place, _⟩ :: rest =>
    match tag, frames with
    | .comment, frames => assemble frames done rest
    | .shown (.value head) escaped, frames => assemble frames (.value place head escaped :: done) rest
    | .shown (.call call) escaped, frames => assemble frames (.call place call escaped :: done) rest
    | .fragment call, frames => assemble frames (.fragment place call none :: done) rest
    | .decorator call, frames => assemble frames (.decorator place call :: done) rest
    | .start kind head, frames => assemble (Frame.start kind head place done :: frames) [] rest
    | .otherwise, frame :: frames =>
      if frame.kind = .helper ∧ !frame.inElse then
        assemble ({ frame.endArm done with inElse := true } :: frames) [] rest
      else none
    | .chain head, frame :: frames =>
      if frame.kind = .helper ∧ !frame.inElse then
        assemble ({ frame.endArm done with head } :: frames) [] rest
      else none
    | .finish name, frame :: frames =>
      if frame.name = name then assemble frames (frame.finish done ++ frame.outer) rest else none
    | _, [] => none

def parse? (source : String) : Option Template :=
  (pieces source.toList).bind fun pieces => assemble [] [] (settle false false pieces)

end Scaffold.Template
