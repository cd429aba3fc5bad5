import Mathlib.Data.List.Forall2
import Mathlib.Data.List.Perm.Basic
import Scaffold.Proofs.Files.Changes
import Scaffold.Proofs.Files.Leaves

/-!
# Trees that list alike

The order in which a directory lists its entries is not part of what stands in a tree. Two trees in which the same stands
at every place resolve every path alike, to the same error too, and have the same leaves and directories.
-/

namespace Scaffold

/-- The same stands at every place of two trees, whatever order their directories list it in. -/
def Node.Alike (first other : Node) : Prop :=
  ∀ place, other.viewAt? place = first.viewAt? place

namespace Node

variable {first other : Node} {place : List Bytes}

theorem Alike.get?_file (h : first.Alike other) {content : Bytes} (hget : first.get? place = some (.file content)) :
    other.get? place = some (.file content) :=
  get?_of_file ((h place).trans (viewAt?_of_get? hget))

theorem Alike.get?_link (h : first.Alike other) {target : Path} (hget : first.get? place = some (.link target)) :
    other.get? place = some (.link target) :=
  get?_of_link ((h place).trans (viewAt?_of_get? hget))

theorem Alike.get?_dir (h : first.Alike other) {entries : List (Bytes × Node)}
    (hget : first.get? place = some (.dir entries)) :
    ∃ others, other.get? place = some (.dir others) ∧ (Node.dir entries).Alike (.dir others) := by
  obtain ⟨others, hothers⟩ := viewAt?_eq_dir.mp ((h place).trans (viewAt?_of_get? hget))
  refine ⟨others, hothers, fun rest => ?_⟩
  have hrest := h (place ++ rest)
  rw [viewAt?, viewAt?, get?_append, get?_append, hget, hothers] at hrest
  exact hrest

theorem Alike.get?_none (h : first.Alike other) (hget : first.get? place = none) : other.get? place = none :=
  viewAt?_eq_none.mp ((h place).trans (viewAt?_eq_none.mpr hget))

theorem alike_of_perm {entries others : List (Bytes × Node)} (hnodup : (entries.map Prod.fst).Nodup)
    (h : others.Perm entries) : (Node.dir entries).Alike (.dir others) := by
  intro place
  cases place with
  | nil => rfl
  | cons name rest =>
    have hnodup' : (others.map Prod.fst).Nodup := (h.map Prod.fst).nodup_iff.mpr hnodup
    have hlookup : others.lookup name = entries.lookup name := by
      apply Option.ext
      intro child
      rw [lookup_eq_some_iff hnodup', lookup_eq_some_iff hnodup, h.mem_iff]
    rw [viewAt?_cons, viewAt?_cons, Node.entries, Node.entries, hlookup]

theorem WellNamed.of_perm {entries others : List (Bytes × Node)} (hnamed : (Node.dir entries).WellNamed)
    (h : others.Perm entries) : (Node.dir others).WellNamed := by
  cases hnamed with
  | dir hnodup hnames hall =>
    refine .dir ((h.map Prod.fst).nodup_iff.mpr hnodup) (fun entry hentry => ?_) fun entry hentry => ?_
    · exact hnames entry (h.mem_iff.mp hentry)
    · exact hall entry (h.mem_iff.mp hentry)

theorem alike_of_entries {entries others : List (Bytes × Node)}
    (h : List.Forall₂ (fun entry same => same.1 = entry.1 ∧ entry.2.Alike same.2) entries others) :
    (Node.dir entries).Alike (.dir others) := by
  intro place
  cases place with
  | nil => rfl
  | cons name rest =>
    rw [viewAt?_cons, viewAt?_cons, Node.entries, Node.entries]
    induction h with
    | nil => rfl
    | @cons entry same more mores hfirst _ ih =>
      obtain ⟨n, child⟩ := entry
      obtain ⟨m, twin⟩ := same
      obtain ⟨rfl, halike⟩ : m = n ∧ child.Alike twin := hfirst
      by_cases hname : name = m
      · rw [hname, List.lookup_cons_self, List.lookup_cons_self]
        exact halike rest
      · rw [List.lookup_cons, List.lookup_cons, beq_false_of_ne hname]
        exact ih

/-! ## What is listed -/

/-- What is listed of two trees is the same, in some order. -/
theorem Alike.leaves_perm (h : first.Alike other) (hfirst : first.WellNamed) (hother : other.WellNamed) :
    other.leaves.Perm first.leaves := by
  have hleaf {node : Node} : node.isDir = false ↔ node.view ≠ .dir := by
    cases node with
    | file content => exact iff_of_true rfl nofun
    | link target => exact iff_of_true rfl nofun
    | dir entries => exact iff_of_false nofun fun hview => hview rfl
  have hview {node : Node} {names : List Bytes} :
      (∃ leaf, node.get? names = some leaf ∧ leaf.isDir = false) ↔ ∃ v, node.viewAt? names = some v ∧ v ≠ .dir := by
    simp only [hleaf, viewAt?, Option.map_eq_some_iff, exists_exists_and_eq_and]
  refine (List.perm_ext_iff_of_nodup hother.leaves_nodup hfirst.leaves_nodup).mpr fun names => ?_
  rw [hother.mem_leaves_iff, hfirst.mem_leaves_iff, hview, hview, h]

theorem Alike.mem_dirs (h : first.Alike other) (hfirst : first.WellNamed) (hother : other.WellNamed)
    (names : List Bytes) : names ∈ other.dirs ↔ names ∈ first.dirs := by
  rw [hother.mem_dirs_iff, hfirst.mem_dirs_iff, h]

end Node

namespace FileTree

/-- Two trees with one working directory that only differ in the order their directories are listed in. -/
structure Alike (tree other : FileTree) : Prop where
  cwd : other.cwd = tree.cwd
  root : tree.root.Alike other.root

variable {tree other : FileTree} {root new : Node} {follow : Bool} {path : Path}

/-- A walk does the same in both trees, at every step. -/
theorem walk_alike (h : root.Alike new) (links : Nat) (here pending : List Bytes) (slash : Bool) :
    walk new follow links here pending slash = walk root follow links here pending slash := by
  fun_induction walk root follow links here pending slash with
  | case1 => rw [walk]
  | case2 _ _ _ _ ih =>
    rw [walk, if_pos rfl]
    exact ih
  | case3 _ _ _ _ _ ih =>
    rw [walk, if_neg (by decide), if_pos rfl]
    exact ih
  | case4 _ _ _ _ _ hself hup hlong => rw [walk, if_neg hself, if_neg hup, if_pos hlong]
  | case5 _ _ _ _ _ hself hup hshort hnone hlast =>
    rw [walk, if_neg hself, if_neg hup, if_neg hshort, h.get?_none hnone]
    exact if_pos hlast
  | case6 _ _ _ _ _ hself hup hshort hnone hlast =>
    rw [walk, if_neg hself, if_neg hup, if_neg hshort, h.get?_none hnone]
    exact if_neg hlast
  | case7 _ _ _ _ _ hself hup hshort _ hdir ih =>
    obtain ⟨others, hother, -⟩ := h.get?_dir hdir
    rw [walk, if_neg hself, if_neg hup, if_neg hshort, hother]
    exact ih
  | case8 _ _ _ _ _ hself hup hshort _ hfile hlast =>
    rw [walk, if_neg hself, if_neg hup, if_neg hshort, h.get?_file hfile]
    exact if_pos hlast
  | case9 _ _ _ _ _ hself hup hshort _ hfile hlast =>
    rw [walk, if_neg hself, if_neg hup, if_neg hshort, h.get?_file hfile]
    exact if_neg hlast
  | case10 _ _ _ _ _ hself hup hshort _ hlink hstop =>
    rw [walk, if_neg hself, if_neg hup, if_neg hshort, h.get?_link hlink]
    exact if_pos hstop
  | case11 _ _ _ _ hself hup hshort _ hlink hstop =>
    rw [walk, if_neg hself, if_neg hup, if_neg hshort, h.get?_link hlink]
    exact if_neg hstop
  | case12 _ _ _ _ hself hup hshort _ hlink hstop _ ih =>
    rw [walk, if_neg hself, if_neg hup, if_neg hshort, h.get?_link hlink]
    exact (if_neg hstop).trans ih

theorem Alike.locate (h : tree.Alike other) (follow : Bool) (path : Path) :
    other.locate follow path = tree.locate follow path := by
  simp only [FileTree.locate, h.cwd, walk_alike h.root]

/-- A path leads to the same in both trees, or fails alike. -/
theorem Alike.find (h : tree.Alike other) (path : Path) :
    (∃ e, tree.find path = .error e ∧ other.find path = .error e) ∨
      ∃ node same, tree.find path = .ok node ∧ other.find path = .ok same ∧ same.view = node.view := by
  rw [FileTree.find, FileTree.find, h.locate]
  rcases tree.locate true path with e | (names | ⟨parent, name, _ | node, slash⟩)
  · exact .inl ⟨e, rfl, rfl⟩
  · have hview := h.root names.reverse
    rw [Node.viewAt?, Node.viewAt?] at hview
    rcases hget : tree.root.get? names.reverse with _ | node
    · rw [hget] at hview
      simp only [bind, Except.bind, hget, Option.map_eq_none_iff.mp hview]
      exact .inl ⟨.notFound, rfl, rfl⟩
    · rw [hget] at hview
      obtain ⟨same, hsame, hview⟩ := Option.map_eq_some_iff.mp hview
      simp only [bind, Except.bind, hget, hsame]
      exact .inr ⟨node, same, rfl, rfl, hview⟩
  · exact .inl ⟨.notFound, rfl, rfl⟩
  · cases slash with
    | true => exact .inl ⟨.notDirectory, rfl, rfl⟩
    | false => exact .inr ⟨node, node, rfl, rfl, rfl⟩

theorem Alike.find_dir (h : tree.Alike other) {children : List (Bytes × Node)}
    (hfind : tree.find path = .ok (.dir children)) :
    ∃ others, other.find path = .ok (.dir others) ∧ (Node.dir children).Alike (.dir others) := by
  obtain ⟨names, hlocate, hget⟩ := find_dir_iff.mp hfind
  obtain ⟨others, hothers, halike⟩ := h.root.get?_dir hget
  exact ⟨others, find_dir_iff.mpr ⟨names, (h.locate true path).trans hlocate, hothers⟩, halike⟩

theorem Alike.read (h : tree.Alike other) (path : Path) : other.read path = tree.read path := by
  rw [FileTree.read, FileTree.read]
  rcases h.find path with ⟨e, hfind, hsame⟩ | ⟨node, same, hfind, hsame, hview⟩
  · rw [hfind, hsame]
  · rw [hfind, hsame]
    cases node <;> cases same <;> cases hview <;> rfl

theorem Alike.openDir (h : tree.Alike other) (path : Path) : other.openDir path = tree.openDir path := by
  rw [FileTree.openDir, FileTree.openDir]
  rcases h.find path with ⟨e, hfind, hsame⟩ | ⟨node, same, hfind, hsame, hview⟩
  · rw [hfind, hsame]
  · rw [hfind, hsame]
    cases node <;> cases same <;> cases hview <;> rfl

end FileTree

end Scaffold
