import Scaffold.Store.Memory

/-!
# Overlays of overlays

However stores are laid over one another, they come to a row, in which each is asked after all before it have had no
such template.
-/

namespace Scaffold

namespace Store

/-- A store has no such template, and says so. -/
def Lacks (store : Store) (path : String) : Prop :=
  ∃ missing, (store.load path).result = .error (.templateNotFound missing)

variable {store other primary fallback : Store} {path : String}

private theorem ext_load (h : ∀ path, store.load path = other.load path) : store = other := by
  cases store
  cases other
  congr
  funext path
  exact h path

/-! ## One overlay -/

theorem overlay_of_lacks (h : primary.Lacks path) :
    (primary.overlay fallback).load path
      = ⟨(primary.load path).trace ++ .notOverridden path :: (fallback.load path).trace,
          (fallback.load path).result⟩ := by
  obtain ⟨missing, hmissing⟩ := h
  simp only [overlay, hmissing]

theorem overlay_of_not_lacks (h : ¬primary.Lacks path) : (primary.overlay fallback).load path = primary.load path := by
  simp only [overlay]
  split
  · next missing hmissing => exact absurd ⟨missing, hmissing⟩ h
  · rfl

private theorem overlay_lacks_iff :
    (primary.overlay fallback).Lacks path ↔ primary.Lacks path ∧ fallback.Lacks path := by
  by_cases h : primary.Lacks path
  · rw [Lacks, overlay_of_lacks h]
    exact (and_iff_right h).symm
  · rw [Lacks, overlay_of_not_lacks h]
    exact iff_of_false h fun hboth => h hboth.1

/-- Overlays may be nested either way. They also leave the same events behind, one for each store that is gone past. -/
theorem overlay_assoc (first second third : Store) :
    (first.overlay second).overlay third = first.overlay (second.overlay third) := by
  apply ext_load
  intro path
  by_cases hfirst : first.Lacks path
  · by_cases hsecond : second.Lacks path
    · rw [overlay_of_lacks (overlay_lacks_iff.mpr ⟨hfirst, hsecond⟩), overlay_of_lacks hfirst, overlay_of_lacks hfirst,
        overlay_of_lacks hsecond, List.append_assoc, List.cons_append]
    · rw [overlay_of_not_lacks fun h => hsecond (overlay_lacks_iff.mp h).2, overlay_of_lacks hfirst,
        overlay_of_lacks hfirst, overlay_of_not_lacks hsecond]
  · rw [overlay_of_not_lacks fun h => hfirst (overlay_lacks_iff.mp h).1, overlay_of_not_lacks hfirst,
      overlay_of_not_lacks hfirst]

/-! ## Rows -/

/-- Stores in a row, each over all after it. Where there are none, nothing is found. -/
def ofRow : List Store → Store
  | [] => MemoryStore.toStore {}
  | [store] => store
  | store :: next :: more => store.overlay (ofRow (next :: more))

variable {stores before after : List Store}

private theorem ofRow_cons (h : stores ≠ []) : ofRow (store :: stores) = store.overlay (ofRow stores) := by
  cases stores with
  | nil => exact absurd rfl h
  | cons next more => rw [ofRow]

private theorem ofRow_append (hbefore : before ≠ []) (hafter : after ≠ []) :
    ofRow (before ++ after) = (ofRow before).overlay (ofRow after) := by
  induction before with
  | nil => exact absurd rfl hbefore
  | cons store rest ih =>
    cases rest with
    | nil => exact ofRow_cons hafter
    | cons next more =>
      have hrest := ih (List.cons_ne_nil next more)
      rw [List.cons_append, ofRow_cons (List.append_ne_nil_of_right_ne_nil _ hafter), hrest, ofRow, overlay_assoc]

/-- The first store of a row that does not lack a template gives the answer, whether content or error. -/
theorem ofRow_answer (hbefore : ∀ s ∈ before, s.Lacks path) (h : ¬store.Lacks path) :
    ((ofRow (before ++ store :: after)).load path).result = (store.load path).result := by
  induction before with
  | nil =>
    rw [List.nil_append]
    by_cases hafter : after = []
    · rw [hafter, ofRow]
    · rw [ofRow_cons hafter, overlay_of_not_lacks h]
  | cons first rest ih =>
    obtain ⟨hfirst, hrest⟩ := List.forall_mem_cons.mp hbefore
    have hmore : rest ++ store :: after ≠ [] := List.append_ne_nil_of_right_ne_nil _ (List.cons_ne_nil store after)
    rw [List.cons_append, ofRow_cons hmore, overlay_of_lacks hfirst, ih hrest]

private theorem ofRow_lacks_iff : (ofRow stores).Lacks path ↔ ∀ s ∈ stores, s.Lacks path := by
  induction stores with
  | nil => exact iff_of_true ⟨path, rfl⟩ fun s hs => absurd hs List.not_mem_nil
  | cons store rest ih =>
    rw [List.forall_mem_cons, ← ih]
    cases rest with
    | nil => exact (and_iff_left ⟨path, rfl⟩).symm
    | cons next more => exact overlay_lacks_iff

private theorem ofRow_prefix (h : ¬store.Lacks path) (after : List Store) :
    (ofRow (before ++ store :: after)).load path = (ofRow (before ++ [store])).load path := by
  by_cases hafter : after = []
  · rw [hafter]
  · have hstops : ¬(ofRow (before ++ [store])).Lacks path := by
      rw [ofRow_lacks_iff]
      exact fun hall => h (hall store (by simp))
    have hbefore : before ++ [store] ≠ [] := List.append_ne_nil_of_right_ne_nil _ (List.cons_ne_nil store [])
    rw [List.append_cons, ofRow_append hbefore hafter, overlay_of_not_lacks hstops]

end Store

/-! ## Trees -/

/-- Stores laid over one another in any way. -/
inductive Overlays where
  | leaf (store : Store)
  | overlay (primary fallback : Overlays)

namespace Overlays

def toStore : Overlays → Store
  | leaf store => store
  | overlay primary fallback => primary.toStore.overlay fallback.toStore

/-- The stores of a tree, from the one that is asked first to the one that is asked last. -/
def leaves : Overlays → List Store
  | leaf store => [store]
  | overlay primary fallback => primary.leaves ++ fallback.leaves

private theorem leaves_ne_nil (tree : Overlays) : tree.leaves ≠ [] := by
  induction tree with
  | leaf store => exact List.cons_ne_nil store []
  | overlay primary fallback ihp _ => exact List.append_ne_nil_of_left_ne_nil ihp _

/-- A tree is the row of its leaves. -/
theorem toStore_eq (tree : Overlays) : tree.toStore = Store.ofRow tree.leaves := by
  induction tree with
  | leaf store => rfl
  | overlay primary fallback ihp ihf =>
    rw [toStore, leaves, Store.ofRow_append primary.leaves_ne_nil fallback.leaves_ne_nil, ihp, ihf]

end Overlays

/-! ## Copies -/

namespace MemoryStore

theorem toStore_result (m : MemoryStore) (path : String) :
    (m.toStore.load path).result = match m.get? path with
      | some content => .ok content
      | none => .error (.templateNotFound path) := by
  simp only [toStore]
  cases m.get? path with
  | none => rfl
  | some content => rfl

/-- The induction is on the paths, for all tables that they are copied into. A path that comes again is copied again. -/
theorem copyInto_ok {m : MemoryStore} {store : Store} {paths : List String}
    (h : ∀ path ∈ paths, ∃ content, (store.load path).result = .ok content) :
    ∃ table, (m.copyInto store paths).result = .ok table ∧
      ∀ path, table.get? path = if path ∈ paths then (store.load path).result.toOption else m.get? path := by
  induction paths generalizing m with
  | nil => exact ⟨m, rfl, fun path => (if_neg List.not_mem_nil).symm⟩
  | cons first rest ih =>
    obtain ⟨⟨content, hload⟩, hrest⟩ := List.forall_mem_cons.mp h
    obtain ⟨table, htable, hget⟩ := ih (m := m.insert first content) hrest
    refine ⟨table, ?_, fun path => ?_⟩
    · rw [copyInto]
      exact Traced.result_bind_eq_ok.mpr ⟨content, hload, htable⟩
    · rw [hget, get?_insert]
      by_cases hpath : path = first
      · subst hpath
        simp [hload, Except.toOption]
      · simp [hpath]

private theorem copy_result {store : Store} {paths : List String}
    (h : ∀ path ∈ paths, ∃ content, (store.load path).result = .ok content) :
    ∃ table, (copy store paths).result = .ok table ∧ ∀ path, (table.toStore.load path).result
      = if path ∈ paths then (store.load path).result else .error (.templateNotFound path) := by
  obtain ⟨table, htable, hget⟩ := copyInto_ok (m := {}) h
  refine ⟨table, htable, fun path => ?_⟩
  rw [toStore_result, hget]
  by_cases hpath : path ∈ paths
  · obtain ⟨content, hload⟩ := h path hpath
    rw [if_pos hpath, if_pos hpath, hload]
    rfl
  · rw [if_neg hpath, if_neg hpath]
    rfl

end MemoryStore

/-- What a tree of overlays answers: as the first of its stores that does not lack the template, whether that is a
content or an error, and that it lacks it if all do. Only the stores in their order count, not how they are nested, and
those after one that does not lack the template count for nothing. A copy of some paths answers on these as the tree
does, and lacks all others. -/
theorem Overlays.first_answer (tree : Overlays) (path : String) :
    (∀ before leaf after, tree.leaves = before ++ leaf :: after → (∀ s ∈ before, s.Lacks path) → ¬leaf.Lacks path →
        (tree.toStore.load path).result = (leaf.load path).result) ∧
      (tree.toStore.Lacks path ↔ ∀ leaf ∈ tree.leaves, leaf.Lacks path) ∧
      (∀ other : Overlays, other.leaves = tree.leaves → other.toStore = tree.toStore) ∧
      (∀ before leaf after, tree.leaves = before ++ leaf :: after → ¬leaf.Lacks path →
        ∀ (other : Overlays) later, other.leaves = before ++ leaf :: later →
          (other.toStore.load path).result = (tree.toStore.load path).result) ∧
      ∀ paths, (∀ p ∈ paths, ∃ content, (tree.toStore.load p).result = .ok content) →
        ∃ table, (MemoryStore.copy tree.toStore paths).result = .ok table ∧
          ∀ p, (table.toStore.load p).result
            = if p ∈ paths then (tree.toStore.load p).result else .error (.templateNotFound p) := by
  refine ⟨fun before leaf after hleaves hbefore hleaf => ?_, ?_, fun other hleaves => ?_, ?_, fun paths => ?_⟩
  · rw [toStore_eq, hleaves]
    exact Store.ofRow_answer hbefore hleaf
  · rw [toStore_eq]
    exact Store.ofRow_lacks_iff
  · rw [toStore_eq, toStore_eq, hleaves]
  · intro before leaf after hleaves hleaf other later hother
    rw [toStore_eq, toStore_eq, hleaves, hother, Store.ofRow_prefix hleaf later, Store.ofRow_prefix hleaf after]
  · exact MemoryStore.copy_result

end Scaffold
