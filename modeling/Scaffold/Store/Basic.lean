import Scaffold.Attempt

/-!
# Template stores

Where templates come from. A store answers every path with a content or with an error; that there is no
such template is one error among others. An overlay asks a second store only after that one.
-/

namespace Scaffold

/-- A store: what it answers to a path. It leaves no line in the log. -/
structure Store where
  load : String → Attempt Bytes
  quiet : ∀ path, (load path).lines = []

namespace Store

def loadText (store : Store) (path : String) : Attempt String := do
  match Text.decode (← store.load path) with
  | .ok text => pure text
  | .error cause => Traced.fail (.templateNotText path cause)

/-- The templates below a directory of a file tree. -/
def directory (tree : FileTree) (root : Path) : Store where
  load path :=
    match tree.read (root.join (Path.ofString path)) with
    | .ok content => pure content
    | .error .notFound => Traced.fail (.templateNotFound path)
    | .error cause => Traced.fail (.file cause)
  quiet path := by split <;> rfl

/-- One store over another: where the first has no template, the second answers. -/
def overlay (primary fallback : Store) : Store where
  load path :=
    let first := primary.load path
    match first.result with
    | .error (.templateNotFound _) =>
      let second := fallback.load path
      ⟨first.trace ++ .notOverridden path :: second.trace, second.result⟩
    | _ => first
  quiet path := by
    have hfirst := primary.quiet path
    have hsecond := fallback.quiet path
    simp only [Attempt.lines] at hfirst hsecond ⊢
    split
    · rw [List.filterMap_append, hfirst]
      exact hsecond
    · exact hfirst

end Store

end Scaffold
