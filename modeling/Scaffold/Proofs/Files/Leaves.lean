import Scaffold.Proofs.Files.Node

/-!
# Leaves of a tree

In a directory every name comes once and is one name of a path. Then what is no directory is listed exactly once
among the leaves, with the names that lead to it.
-/

namespace Scaffold.Node

/-- In every directory the names are distinct, and no name holds a separator. -/
inductive WellNamed : Node → Prop
  | file (content : Bytes) : WellNamed (.file content)
  | link (target : Path) : WellNamed (.link target)
  | dir {entries : List (Bytes × Node)} : (entries.map Prod.fst).Nodup →
    (∀ entry ∈ entries, Path.separator ∉ entry.1) → (∀ entry ∈ entries, WellNamed entry.2) → WellNamed (.dir entries)

variable {entries : List (Bytes × Node)} {node : Node} {name : Bytes} {names : List Bytes}

/-! ## Entries of a directory -/

theorem lookup_eq_some_iff (h : (entries.map Prod.fst).Nodup) :
    entries.lookup name = some node ↔ (name, node) ∈ entries := by
  induction entries with
  | nil => exact ⟨nofun, nofun⟩
  | cons entry rest ih =>
    obtain ⟨n, child⟩ := entry
    rw [List.map_cons, List.nodup_cons] at h
    rw [List.mem_cons, Prod.mk.injEq]
    by_cases hn : name = n
    · subst hn
      rw [List.lookup_cons_self, Option.some.injEq]
      have hrest : (name, node) ∉ rest := fun hmem => h.1 (List.mem_map.mpr ⟨_, hmem, rfl⟩)
      constructor
      · intro heq
        exact .inl ⟨rfl, heq.symm⟩
      · intro hor
        rcases hor with ⟨-, heq⟩ | hmem
        · exact heq.symm
        · exact absurd hmem hrest
    · rw [List.lookup_cons, beq_false_of_ne hn, ih h.2]
      exact ⟨.inr, fun hor => hor.resolve_left fun heq => hn heq.1⟩

/-- A listing that puts the name of each entry before the rows of its node has just these rows. -/
private theorem mem_rowsIn {rows : Node → List (List Bytes)} {rowsIn : List (Bytes × Node) → List (List Bytes)}
    (hnil : rowsIn [] = [])
    (hcons : ∀ name child rest, rowsIn ((name, child) :: rest) = (rows child).map (name :: ·) ++ rowsIn rest) :
    names ∈ rowsIn entries ↔
      ∃ name child rest, (name, child) ∈ entries ∧ rest ∈ rows child ∧ names = name :: rest := by
  have hrows : rowsIn entries = entries.flatMap fun entry => (rows entry.2).map (entry.1 :: ·) := by
    induction entries with
    | nil => exact hnil
    | cons entry others ih => rw [hcons, ih, List.flatMap_cons]
  rw [hrows, List.mem_flatMap]
  constructor
  · intro h
    obtain ⟨⟨name, child⟩, hmem, hnames⟩ := h
    obtain ⟨rest, hrest, rfl⟩ := List.mem_map.mp hnames
    exact ⟨name, child, rest, hmem, hrest, rfl⟩
  · intro h
    obtain ⟨name, child, rest, hmem, hrest, rfl⟩ := h
    exact ⟨(name, child), hmem, List.mem_map_of_mem hrest⟩

private theorem mem_leavesIn :
    names ∈ leavesIn entries ↔ ∃ name child rest, (name, child) ∈ entries ∧ rest ∈ child.leaves ∧
      names = name :: rest :=
  mem_rowsIn leavesIn.eq_1 leavesIn.eq_2

private theorem mem_dirsIn :
    names ∈ dirsIn entries ↔ ∃ name child rest, (name, child) ∈ entries ∧ rest ∈ child.dirs ∧
      names = name :: rest :=
  mem_rowsIn dirsIn.eq_1 dirsIn.eq_2

private theorem leavesIn_nodup (h : (entries.map Prod.fst).Nodup) (hall : ∀ entry ∈ entries, entry.2.leaves.Nodup) :
    (leavesIn entries).Nodup := by
  induction entries with
  | nil =>
    rw [leavesIn]
    exact List.nodup_nil
  | cons entry rest ih =>
    obtain ⟨n, child⟩ := entry
    rw [List.map_cons, List.nodup_cons] at h
    obtain ⟨hchild, hrest⟩ := List.forall_mem_cons.mp hall
    rw [leavesIn, List.nodup_append]
    refine ⟨?_, ih h.2 hrest, ?_⟩
    · exact List.Pairwise.map _ (fun _ _ hne heq => hne (List.cons.inj heq).2) hchild
    · intro first hfirst second hsecond heq
      obtain ⟨below, -, rfl⟩ := List.mem_map.mp hfirst
      obtain ⟨name, other, more, hmem, -, rfl⟩ := mem_leavesIn.mp hsecond
      cases heq
      exact h.1 (List.mem_map.mpr ⟨_, hmem, rfl⟩)

/-! ## Leaves -/

theorem WellNamed.leaves_nodup (h : WellNamed node) : node.leaves.Nodup := by
  induction h with
  | file content =>
    rw [leaves]
    exact List.pairwise_singleton _ _
  | link target =>
    rw [leaves]
    exact List.pairwise_singleton _ _
  | dir hnodup _ _ ih =>
    rw [leaves]
    exact leavesIn_nodup hnodup ih

/-- The leaves are what can be reached and is no directory. -/
theorem WellNamed.mem_leaves_iff (h : WellNamed node) :
    names ∈ node.leaves ↔ ∃ leaf, node.get? names = some leaf ∧ leaf.isDir = false := by
  induction h generalizing names with
  | file content =>
    rw [leaves, List.mem_singleton]
    cases names with
    | nil => exact ⟨fun _ => ⟨_, rfl, rfl⟩, fun _ => rfl⟩
    | cons name rest => exact ⟨nofun, fun ⟨_, hget, _⟩ => nomatch hget⟩
  | link target =>
    rw [leaves, List.mem_singleton]
    cases names with
    | nil => exact ⟨fun _ => ⟨_, rfl, rfl⟩, fun _ => rfl⟩
    | cons name rest => exact ⟨nofun, fun ⟨_, hget, _⟩ => nomatch hget⟩
  | @dir entries hnodup _ _ ih =>
    rw [leaves, mem_leavesIn]
    constructor
    · intro h
      obtain ⟨name, child, rest, hmem, hrest, rfl⟩ := h
      obtain ⟨leaf, hget, hleaf⟩ := (ih _ hmem).mp hrest
      refine ⟨leaf, ?_, hleaf⟩
      rw [get?, Node.entries, (lookup_eq_some_iff hnodup).mpr hmem]
      exact hget
    · intro h
      obtain ⟨leaf, hget, hleaf⟩ := h
      cases names with
      | nil =>
        cases hget
        cases hleaf
      | cons name rest =>
        rw [get?, Node.entries] at hget
        obtain ⟨child, hchild, hrest⟩ := Option.bind_eq_some_iff.mp hget
        have hmem := (lookup_eq_some_iff hnodup).mp hchild
        exact ⟨name, child, rest, hmem, (ih _ hmem).mpr ⟨leaf, hrest, hleaf⟩, rfl⟩

theorem WellNamed.leaves_names (h : WellNamed node) : ∀ names ∈ node.leaves, ∀ name ∈ names, Path.separator ∉ name := by
  induction h with
  | file content => simp [leaves]
  | link target => simp [leaves]
  | dir _ hnames _ ih =>
    rw [leaves]
    intro names hleaf name hname
    obtain ⟨first, child, rest, hmem, hrest, rfl⟩ := mem_leavesIn.mp hleaf
    rcases List.mem_cons.mp hname with rfl | hname
    · exact hnames _ hmem
    · exact ih _ hmem rest hrest name hname

/-! ## Directories -/

theorem WellNamed.mem_dirs_iff (h : WellNamed node) : names ∈ node.dirs ↔ node.viewAt? names = some .dir := by
  induction h generalizing names with
  | file content =>
    rw [dirs]
    cases names with
    | nil => exact ⟨nofun, nofun⟩
    | cons name rest => exact ⟨nofun, nofun⟩
  | link target =>
    rw [dirs]
    cases names with
    | nil => exact ⟨nofun, nofun⟩
    | cons name rest => exact ⟨nofun, nofun⟩
  | @dir entries hnodup _ _ ih =>
    rw [dirs, List.mem_cons, mem_dirsIn]
    cases names with
    | nil => exact iff_of_true (.inl rfl) rfl
    | cons name rest =>
      rw [viewAt?_cons, Node.entries, Option.bind_eq_some_iff]
      constructor
      · intro hor
        rcases hor with hnil | ⟨name, child, rest, hmem, hrest, heq⟩
        · cases hnil
        · cases heq
          exact ⟨child, (lookup_eq_some_iff hnodup).mpr hmem, (ih _ hmem).mp hrest⟩
      · intro h
        obtain ⟨child, hchild, hrest⟩ := h
        have hmem := (lookup_eq_some_iff hnodup).mp hchild
        exact .inr ⟨name, child, rest, hmem, (ih _ hmem).mpr hrest, rfl⟩

theorem WellNamed.mem_leaves_or_dirs (h : WellNamed node) (hview : node.viewAt? names ≠ none) :
    names ∈ node.leaves ∨ names ∈ node.dirs := by
  rcases hget : node.get? names with _ | found
  · exact absurd (viewAt?_eq_none.mpr hget) hview
  · cases found with
    | file content => exact .inl (h.mem_leaves_iff.mpr ⟨_, hget, rfl⟩)
    | link target => exact .inl (h.mem_leaves_iff.mpr ⟨_, hget, rfl⟩)
    | dir children => exact .inr (h.mem_dirs_iff.mpr (viewAt?_of_get? hget))

theorem WellNamed.get? {place : List Bytes} {child : Node} (h : WellNamed node) (hget : node.get? place = some child) :
    WellNamed child := by
  induction place generalizing node with
  | nil =>
    cases hget
    exact h
  | cons name rest ih =>
    rw [Node.get?] at hget
    obtain ⟨next, hnext, hrest⟩ := Option.bind_eq_some_iff.mp hget
    cases h with
    | file content => cases hnext
    | link target => cases hnext
    | dir hnodup _ hall => exact ih (hall _ ((lookup_eq_some_iff hnodup).mp hnext)) hrest

end Scaffold.Node
