import Mathlib.Data.List.Nodup
import Scaffold.Proofs.Archive.Paths

/-!
# Attempted paths

What becomes of paths that are given to a writer, whatever happens to its sink in between. A path has one attempt:
it is accepted or the sink fails, and every later write of it is refused without a trace. The main statement says so
after any history.
-/

namespace Scaffold.Writer

/-- What can happen to a writer: it is given an entry, or something becomes of its sink, which may have room again. -/
inductive Turn where
  | write (e : Entry)
  | sink (change : Sink → Sink)

/-- Takes turns one after another, whatever the answers are, and keeps the answers with their paths in order. -/
def follow (codec : Codec) (w : Writer) : List Turn → Writer × List (String × Answer)
  | [] => (w, [])
  | .sink change :: rest => follow codec { w with sink := change w.sink } rest
  | .write e :: rest =>
    let (w, answer) := w.write codec e
    let (w, answers) := follow codec w rest
    (w, (e.path, answer) :: answers)

/-- The paths of the writes that succeeded, in order. -/
def succeeded (answered : List (String × Answer)) : List String :=
  (answered.filter fun answer => answer.2.isOk).map Prod.fst

/-- The sink failed in a write of the path. -/
def Lost (answered : List (String × Answer)) (path : String) : Prop :=
  ∃ charged cause, (path, .error (.sink charged cause)) ∈ answered

/-- What a writer keeps of paths after the answers so far. -/
structure Recorded (w : Writer) (answered : List (String × Answer)) : Prop where
  attempted (path : String) : path ∈ w.attempted ↔ path ∈ answered.map Prod.fst
  paths : w.paths = succeeded answered
  lost (path : String) : (path ∈ w.attempted ∧ path ∉ w.paths) ↔ Lost answered path
  nodup : w.paths.Nodup

variable {codec : Codec} {w : Writer} {answered : List (String × Answer)}

/-! ## One turn -/

@[simp] private theorem succeeded_ok (path : String) :
    succeeded (answered ++ [(path, .ok ())]) = succeeded answered ++ [path] := by
  rw [succeeded, List.filter_append, List.map_append]
  rfl

@[simp] private theorem succeeded_error (path : String) (cause : WriteError) :
    succeeded (answered ++ [(path, .error cause)]) = succeeded answered := by
  rw [succeeded, List.filter_append, List.map_append]
  exact List.append_nil _

private theorem succeeded_sublist (answered : List (String × Answer)) :
    (succeeded answered).Sublist (answered.map Prod.fst) :=
  List.filter_sublist.map Prod.fst

theorem Recorded.within (h : w.Recorded answered) {path : String} (hpath : path ∈ w.paths) : path ∈ w.attempted := by
  rw [h.paths] at hpath
  rw [h.attempted]
  exact (succeeded_sublist answered).subset hpath

private theorem lost_concat {path : String} {answer : String × Answer} :
    Lost (answered ++ [answer]) path ↔
      Lost answered path ∨ ∃ charged cause, answer = (path, .error (.sink charged cause)) := by
  simp only [Lost, List.mem_append, List.mem_singleton, exists_or, eq_comm]

private theorem Recorded.attempted_concat (h : w.Recorded answered) (path : String) (e : Entry) (answer : Answer) :
    path ∈ (answered ++ [(e.path, answer)]).map Prod.fst ↔ path ∈ e.path :: w.attempted := by
  rw [List.map_append, List.mem_append, List.map_singleton, List.mem_singleton, List.mem_cons, ← h.attempted]
  exact or_comm

theorem Recorded.write (h : w.Recorded answered) (codec : Codec) (e : Entry) :
    (w.write codec e).1.Recorded (answered ++ [(e.path, (w.write codec e).2)]) := by
  rcases write_records codec w e with ⟨hseen, hwrite⟩ | ⟨hnew, after, hattempted, ⟨hwrite, haccepted⟩ |
    ⟨charged, cause, hwrite, haccepted⟩⟩
  · rw [hwrite]
    constructor
    case attempted =>
      intro path
      rw [h.attempted_concat, List.mem_cons]
      exact ⟨Or.inr, fun hpath => hpath.elim (fun heq => heq ▸ hseen) id⟩
    case paths => rw [succeeded_error, h.paths]
    case lost =>
      intro path
      rw [h.lost, lost_concat]
      simp
    case nodup => exact h.nodup
  · have hpaths : after.paths = w.paths ++ [e.path] := write_paths hwrite
    have hother : e.path ∉ w.paths := fun hpath => hnew (h.within hpath)
    rw [hwrite]
    constructor
    case attempted =>
      intro path
      rw [h.attempted_concat, hattempted]
    case paths => rw [hpaths, h.paths, succeeded_ok]
    case lost =>
      -- a path that is accepted now was neither attempted nor lost before
      intro path
      rw [lost_concat, ← h.lost, hattempted, hpaths]
      by_cases heq : path = e.path
      · simp [heq, hnew]
      · simp [heq]
    case nodup =>
      rw [hpaths]
      rw [← List.concat_eq_append]
      exact h.nodup.concat hother
  · have hpaths : after.paths = w.paths := write_failed_paths hwrite
    have hother : e.path ∉ w.paths := fun hpath => hnew (h.within hpath)
    rw [hwrite]
    constructor
    case attempted =>
      intro path
      rw [h.attempted_concat, hattempted]
    case paths => rw [hpaths, h.paths, succeeded_error]
    case lost =>
      intro path
      rw [lost_concat, ← h.lost, hattempted, hpaths]
      by_cases heq : path = e.path
      · simp [heq, hother]
      · simp [heq, Ne.symm heq]
    case nodup =>
      rw [hpaths]
      exact h.nodup

/-! ## Histories -/

theorem Recorded.follow (h : w.Recorded answered) (codec : Codec) (turns : List Turn) :
    (w.follow codec turns).1.Recorded (answered ++ (w.follow codec turns).2) := by
  induction turns generalizing w answered with
  | nil =>
    rw [Writer.follow, List.append_nil]
    exact h
  | cons turn rest ih =>
    cases turn with
    | sink change =>
      have hsame : ({ w with sink := change w.sink } : Writer).Recorded answered :=
        ⟨h.attempted, h.paths, h.lost, h.nodup⟩
      exact ih hsame
    | write e =>
      have hrest := ih (h.write codec e)
      rwa [List.append_assoc] at hrest

/-- After any history of writes and of changes of the sink no path is there twice, and the paths are those of the
writes that succeeded, in order. A write that succeeds appends its path, one that fails leaves the paths as they are,
and one of a path that was given before, to whatever answer, is refused and leaves the whole writer as it is; no other
write is refused. So the attempted paths that are not there are those with which the sink failed. -/
theorem follow_paths (codec : Codec) (sink : Sink) (turns : List Turn) :
    let w := (({ sink } : Writer).follow codec turns).1
    let answered := (({ sink } : Writer).follow codec turns).2
    w.paths.Nodup ∧
    w.paths = succeeded answered ∧
    w.paths.Sublist (answered.map Prod.fst) ∧
    (∀ path, (path ∈ answered.map Prod.fst ∧ path ∉ w.paths) ↔
      ∃ charged cause, (path, .error (.sink charged cause)) ∈ answered) ∧
    ∀ e, let after := (w.write codec e).1
      let answer := (w.write codec e).2
      (answer = .ok () → after.paths = w.paths ++ [e.path]) ∧
      (∀ cause, answer = .error cause → after.paths = w.paths) ∧
      (e.path ∈ answered.map Prod.fst → w.write codec e = (w, .error (.duplicate e.path))) ∧
      (e.path ∉ answered.map Prod.fst → answer = .ok () ∨ ∃ charged cause, answer = .error (.sink charged cause)) := by
  intro w answered
  have hstart : ({ sink } : Writer).Recorded [] :=
    { attempted := fun _ => Iff.rfl
      paths := rfl
      lost := fun path => by simp [Lost]
      nodup := List.nodup_nil }
  have h : w.Recorded answered := hstart.follow codec turns
  refine ⟨h.nodup, h.paths, ?_, ?_, ?_⟩
  · rw [h.paths]
    exact succeeded_sublist answered
  · intro path
    rw [← h.attempted]
    exact h.lost path
  · intro e after answer
    refine ⟨fun hok => ?_, fun cause hfailed => ?_, fun hgiven => ?_, fun hnew => ?_⟩
    · exact write_paths (Prod.ext rfl hok)
    · exact write_failed_paths (Prod.ext rfl hfailed)
    · exact write_repeated w ((h.attempted e.path).mpr hgiven)
    · rw [← h.attempted] at hnew
      rcases write_records codec w e with ⟨hseen, -⟩ | ⟨-, _, -, ⟨hwrite, -⟩ | ⟨charged, cause, hwrite, -⟩⟩
      · exact absurd hseen hnew
      · exact .inl (congrArg Prod.snd hwrite)
      · exact .inr ⟨charged, cause, congrArg Prod.snd hwrite⟩

end Scaffold.Writer
