import Mathlib.Data.List.Induction
import Scaffold.Proofs.Store.Overlays

/-!
# Histories of a table

A table of templates is changed again and again: contents come in and go out, and it is replaced by a copy of some of
its own paths. What it has at a path is what came in there last, unless that went out or was left out of a copy since.
-/

namespace Scaffold.MemoryStore

/-- A change to a table: a content comes in at a path, what is at a path goes out, or all but some paths go out. -/
inductive Change where
  | insert (path : String) (content : Bytes)
  | remove (path : String)
  | keep (paths : List String)

/-- What a change answers: that it was made, what was at the path that went out, or why it could not be made. -/
inductive Reply where
  | done
  | removed (content : Option Bytes)
  | refused (cause : Error)

def change (m : MemoryStore) : Change → MemoryStore × Reply
  | .insert path content => (m.insert path content, .done)
  | .remove path => (m.erase path, .removed (m.get? path))
  | .keep paths =>
    match (copy m.toStore paths).result with
    | .ok kept => (kept, .done)
    | .error cause => (m, .refused cause)

/-- Makes changes one after another, whatever the answers are, and keeps each with its answer in order. -/
def changeAll (m : MemoryStore) : List Change → MemoryStore × List (Change × Reply)
  | [] => (m, [])
  | c :: rest =>
    let (next, reply) := m.change c
    let (last, answered) := changeAll next rest
    (last, (c, reply) :: answered)

/-- What was at a path before a change is not there after it: something else comes in, it goes out, or it is left out
of a copy that could be made. -/
def Ends (path : String) : Change × Reply → Prop
  | (.insert p _, _) => p = path
  | (.remove p, _) => p = path
  | (.keep paths, reply) => reply = .done ∧ path ∉ paths

/-- A template can be had from a table. -/
def Has (m : MemoryStore) (path : String) : Prop :=
  ∃ content, (m.toStore.load path).result = .ok content

/-- A content came in at a path, and no change since has ended that. -/
def Latest (path : String) (content : Bytes) (answered : List (Change × Reply)) : Prop :=
  ∃ before reply since, answered = before ++ (.insert path content, reply) :: since ∧ ∀ c ∈ since, ¬Ends path c

variable {m : MemoryStore} {c : Change} {path : String} {paths front back : List String} {content : Bytes}
  {answered : List (Change × Reply)}

/-! ## Look-ups -/

private theorem load_eq_ok_iff : (m.toStore.load path).result = .ok content ↔ m.get? path = some content := by
  rw [toStore_result]
  cases m.get? path <;> simp

private theorem load_toOption : (m.toStore.load path).result.toOption = m.get? path := by
  rw [toStore_result]
  cases m.get? path <;> rfl

private theorem load_of_not_has (h : ¬m.Has path) : (m.toStore.load path).result = .error (.templateNotFound path) := by
  rcases hget : m.get? path with _ | content
  · rw [toStore_result, hget]
  · exact absurd ⟨content, load_eq_ok_iff.mpr hget⟩ h

private theorem has_all_or_first (m : MemoryStore) (paths : List String) :
    (∀ p ∈ paths, m.Has p) ∨
      ∃ front path back, paths = front ++ path :: back ∧ (∀ p ∈ front, m.Has p) ∧ ¬m.Has path := by
  induction paths with
  | nil => exact .inl (List.forall_mem_nil _)
  | cons first rest ih =>
    by_cases hfirst : m.Has first
    · rcases ih with hall | ⟨front, path, back, rfl, hfront, hpath⟩
      · exact .inl (List.forall_mem_cons.mpr ⟨hfirst, hall⟩)
      · exact .inr ⟨first :: front, path, back, rfl, List.forall_mem_cons.mpr ⟨hfirst, hfront⟩, hpath⟩
    · exact .inr ⟨[], first, rest, rfl, List.forall_mem_nil _, hfirst⟩

/-! ## Copies -/

private theorem copyInto_error {store : Store} {cause : Error}
    (hfront : ∀ p ∈ front, ∃ content, (store.load p).result = .ok content)
    (h : (store.load path).result = .error cause) :
    (m.copyInto store (front ++ path :: back)).result = .error cause := by
  induction front generalizing m with
  | nil =>
    rw [List.nil_append, copyInto]
    exact Traced.result_bind_eq_error.mpr (.inl h)
  | cons first rest ih =>
    obtain ⟨⟨content, hfirst⟩, hrest⟩ := List.forall_mem_cons.mp hfront
    rw [List.cons_append, copyInto]
    exact Traced.result_bind_eq_error.mpr (.inr ⟨content, hfirst, ih hrest⟩)

private theorem change_keep (h : ∀ p ∈ paths, m.Has p) :
    ∃ kept, m.change (.keep paths) = (kept, .done) ∧
      ∀ path, kept.get? path = if path ∈ paths then m.get? path else none := by
  obtain ⟨kept, hkept, hget⟩ := copyInto_ok (m := {}) h
  have hcopy : (copy m.toStore paths).result = .ok kept := hkept
  refine ⟨kept, ?_, ?_⟩
  · simp only [change, hcopy]
  · intro path
    rw [hget, load_toOption]
    rfl

private theorem change_keep_refused (hfront : ∀ p ∈ front, m.Has p) (h : ¬m.Has path) :
    m.change (.keep (front ++ path :: back)) = (m, .refused (.templateNotFound path)) := by
  have hcopy : (copy m.toStore (front ++ path :: back)).result = .error (.templateNotFound path) :=
    copyInto_error hfront (load_of_not_has h)
  simp only [change, hcopy]

private theorem change_keep_done_iff : (m.change (.keep paths)).2 = .done ↔ ∀ p ∈ paths, m.Has p := by
  constructor
  · intro hdone
    rcases has_all_or_first m paths with hall | ⟨front, path, back, rfl, hfront, hpath⟩
    · exact hall
    · rw [change_keep_refused hfront hpath] at hdone
      cases hdone
  · intro hall
    obtain ⟨kept, hkept, -⟩ := change_keep hall
    rw [hkept]

/-! ## One change -/

private theorem get?_change_of_not_ends (h : ¬Ends path (c, (m.change c).2)) :
    (m.change c).1.get? path = m.get? path := by
  cases c with
  | insert p content =>
    have hp : path ≠ p := fun heq => h heq.symm
    simp [change, hp]
  | remove p =>
    have hp : path ≠ p := fun heq => h heq.symm
    simp [change, hp]
  | keep paths =>
    rcases has_all_or_first m paths with hall | ⟨front, absent, back, rfl, hfront, habsent⟩
    · obtain ⟨kept, hkept, hget⟩ := change_keep hall
      rw [hkept] at h ⊢
      have hmem : path ∈ paths := by
        by_contra hnot
        exact h ⟨rfl, hnot⟩
      rw [hget, if_pos hmem]
    · rw [change_keep_refused hfront habsent]

private theorem get?_change_of_ends (h : Ends path (c, (m.change c).2)) :
    (m.change c).1.get? path = some content ↔ c = .insert path content := by
  cases c with
  | insert p own =>
    have hp : p = path := h
    simp [change, hp]
  | remove p =>
    have hp : p = path := h
    simp [change, hp]
  | keep paths =>
    obtain ⟨hdone, hpath⟩ := h
    obtain ⟨kept, hkept, hget⟩ := change_keep (change_keep_done_iff.mp hdone)
    rw [hkept, hget, if_neg hpath]
    simp

/-! ## Histories -/

private theorem changeAll_concat (m : MemoryStore) (changes : List Change) (c : Change) :
    m.changeAll (changes ++ [c])
      = (((m.changeAll changes).1.change c).1,
          (m.changeAll changes).2 ++ [(c, ((m.changeAll changes).1.change c).2)]) := by
  induction changes generalizing m with
  | nil => rfl
  | cons first rest ih => simp only [List.cons_append, changeAll, ih]

private theorem changeAll_changes (m : MemoryStore) (changes : List Change) :
    (m.changeAll changes).2.map Prod.fst = changes := by
  induction changes generalizing m with
  | nil => rfl
  | cons first rest ih => simp only [changeAll, List.map_cons, ih]

/-- A content is the latest at a path when the last change brought it in, or when it was the latest before and the last
change did not end that. -/
theorem latest_concat {last : Change × Reply} :
    Latest path content (answered ++ [last]) ↔
      last.1 = .insert path content ∨ ¬Ends path last ∧ Latest path content answered := by
  constructor
  · rintro ⟨before, reply, since, heq, hsince⟩
    rcases List.eq_nil_or_concat since with rfl | ⟨front, final, rfl⟩
    · obtain ⟨-, heq⟩ := List.append_inj' heq rfl
      rw [List.singleton_inj.mp heq]
      exact .inl rfl
    · rw [List.concat_eq_append, ← List.cons_append, ← List.append_assoc] at heq
      obtain ⟨rfl, hlast⟩ := List.append_inj' heq rfl
      obtain rfl := List.singleton_inj.mp hlast
      rw [List.concat_eq_append, List.forall_mem_append, List.forall_mem_singleton] at hsince
      exact .inr ⟨hsince.2, before, reply, front, rfl, hsince.1⟩
  · rintro (hlast | ⟨hlast, before, reply, since, rfl, hsince⟩)
    · refine ⟨answered, last.2, [], ?_, List.forall_mem_nil _⟩
      rw [← hlast]
    · refine ⟨before, reply, since ++ [last], by simp, ?_⟩
      rw [List.forall_mem_append, List.forall_mem_singleton]
      exact ⟨hsince, hlast⟩

/-- The induction is on the history from its end, where the last change decides or leaves everything as it was. -/
theorem get?_changeAll (changes : List Change) (path : String) (content : Bytes) :
    (changeAll {} changes).1.get? path = some content ↔ Latest path content (changeAll {} changes).2 := by
  induction changes using List.reverseRecOn with
  | nil =>
    constructor
    · nofun
    · rintro ⟨before, reply, since, heq, -⟩
      simp [changeAll] at heq
  | append_singleton changes c ih =>
    rw [changeAll_concat, latest_concat]
    by_cases hends : Ends path (c, ((changeAll {} changes).1.change c).2)
    · rw [get?_change_of_ends hends]
      simp [hends]
    · rw [get?_change_of_not_ends hends, ih]
      have hother : c ≠ .insert path content := by
        rintro rfl
        exact hends rfl
      simp [hends, hother]

/-- A table after any history of changes: at each path it has the content that came in there last, if no change since
has taken that out, replaced it or left it out of a copy, and otherwise it lacks the path. To take a path out answers
with what was there. To keep some paths can be done just when all of them are there, and else the answer is the first
that is not, and the table stays as it is. -/
theorem changeAll_latest (changes : List Change) :
    let m := (changeAll {} changes).1
    let answered := (changeAll {} changes).2
    answered.map Prod.fst = changes ∧
    (∀ path content, (m.toStore.load path).result = .ok content ↔ Latest path content answered) ∧
    (∀ path, (∀ content, ¬Latest path content answered) →
      (m.toStore.load path).result = .error (.templateNotFound path)) ∧
    (∀ path, (m.change (.remove path)).2 = .removed (m.toStore.load path).result.toOption) ∧
    (∀ paths, (m.change (.keep paths)).2 = .done ↔ ∀ path ∈ paths, m.Has path) ∧
    ∀ front path back, (∀ p ∈ front, m.Has p) → ¬m.Has path →
      m.change (.keep (front ++ path :: back)) = (m, .refused (.templateNotFound path)) := by
  intro m answered
  have hlatest (path : String) (content : Bytes) :
      (m.toStore.load path).result = .ok content ↔ Latest path content answered := by
    rw [load_eq_ok_iff]
    exact get?_changeAll changes path content
  refine ⟨changeAll_changes {} changes, hlatest, ?_, ?_, ?_, ?_⟩
  · intro path hnone
    apply load_of_not_has
    rintro ⟨content, hload⟩
    exact hnone content ((hlatest path content).mp hload)
  · intro path
    rw [load_toOption]
    rfl
  · intro paths
    exact change_keep_done_iff
  · intro front path back hfront hpath
    exact change_keep_refused hfront hpath

end Scaffold.MemoryStore
