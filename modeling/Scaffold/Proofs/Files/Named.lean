import Scaffold.Proofs.Files.Changes
import Scaffold.Proofs.Files.Leaves

/-!
# Names in a changed tree

A tidy tree stays so whatever is written and whatever directories are made in it. A walk only comes by names of the
path, of the links on its way and of the working directory, and none of these holds a separator.
-/

namespace Scaffold

namespace Node

variable {root new child : Node} {listed : List (Bytes × Node)} {entry : Bytes × Node} {name : Bytes}
  {place : List Bytes}

/-! ## Nodes that are set -/

theorem WellNamed.entries (h : WellNamed root) :
    (root.entries.map Prod.fst).Nodup ∧ (∀ entry ∈ root.entries, Path.separator ∉ entry.1) ∧
      ∀ entry ∈ root.entries, WellNamed entry.2 := by
  cases h with
  | file content => exact ⟨List.nodup_nil, nofun, nofun⟩
  | link target => exact ⟨List.nodup_nil, nofun, nofun⟩
  | dir hnodup hnames hall => exact ⟨hnodup, hnames, hall⟩

private theorem mem_setEntry (h : entry ∈ setEntry name new listed) : entry = (name, new) ∨ entry ∈ listed := by
  induction listed with
  | nil => exact .inl (List.mem_singleton.mp h)
  | cons first rest ih =>
    obtain ⟨n, old⟩ := first
    rw [setEntry] at h
    by_cases hn : n = name
    · rw [if_pos hn] at h
      exact (List.mem_cons.mp h).imp_right (List.mem_cons_of_mem _)
    · rw [if_neg hn] at h
      rcases List.mem_cons.mp h with rfl | h
      · exact .inr List.mem_cons_self
      · exact (ih h).imp_right (List.mem_cons_of_mem _)

private theorem setEntry_nodup (h : (listed.map Prod.fst).Nodup) : ((setEntry name new listed).map Prod.fst).Nodup := by
  induction listed with
  | nil => exact List.pairwise_singleton _ _
  | cons first rest ih =>
    obtain ⟨n, old⟩ := first
    rw [List.map_cons, List.nodup_cons] at h
    rw [setEntry]
    by_cases hn : n = name
    · rw [if_pos hn, List.map_cons, List.nodup_cons, ← hn]
      exact h
    · rw [if_neg hn, List.map_cons, List.nodup_cons]
      refine ⟨fun hmem => ?_, ih h.2⟩
      obtain ⟨other, hother, heq⟩ := List.mem_map.mp hmem
      rcases mem_setEntry hother with rfl | hother
      · exact hn heq.symm
      · exact h.1 (heq ▸ List.mem_map_of_mem hother)

theorem WellNamed.set (h : WellNamed root) (hnew : WellNamed new) (hplace : ∀ name ∈ place, Path.separator ∉ name) :
    WellNamed (root.set place new) := by
  induction place generalizing root with
  | nil => exact hnew
  | cons name rest ih =>
    obtain ⟨hnodup, hnames, hall⟩ := h.entries
    obtain ⟨hname, hrest⟩ := List.forall_mem_cons.mp hplace
    have hchild : WellNamed ((root.entries.lookup name).getD (.dir [])) := by
      rcases hlookup : root.entries.lookup name with _ | child
      · exact .dir List.nodup_nil nofun nofun
      · exact hall _ ((lookup_eq_some_iff hnodup).mp hlookup)
    rw [Node.set]
    refine .dir (setEntry_nodup hnodup) (fun entry hentry => ?_) fun entry hentry => ?_
    · rcases mem_setEntry hentry with rfl | hentry
      · exact hname
      · exact hnames entry hentry
    · rcases mem_setEntry hentry with rfl | hentry
      · exact ih hchild hrest
      · exact hall entry hentry

theorem WellNamed.place_names (h : WellNamed root) (hget : root.get? place = some child) :
    ∀ name ∈ place, Path.separator ∉ name := by
  induction place generalizing root with
  | nil => exact nofun
  | cons name rest ih =>
    obtain ⟨hnodup, hnames, hall⟩ := h.entries
    rw [Node.get?] at hget
    obtain ⟨next, hnext, hrest⟩ := Option.bind_eq_some_iff.mp hget
    have hmem := (lookup_eq_some_iff hnodup).mp hnext
    exact List.forall_mem_cons.mpr ⟨hnames _ hmem, ih (hall _ hmem) hrest⟩

end Node

theorem Path.separator_not_mem_names (path : Path) : ∀ name ∈ path.names, separator ∉ name := fun name hname =>
  path.not_mem_piece name (List.mem_filter.mp hname).1

namespace FileTree

variable {tree old new : FileTree} {root : Node} {follow : Bool} {links : Nat} {here pending parent : List Bytes}
  {slash s : Bool} {name : Bytes} {node : Option Node} {path : Path}

/-! ## Walks -/

theorem Walks.names (h : Walks root follow links here pending slash (.entry parent name node s))
    (hhere : ∀ name ∈ here, Path.separator ∉ name) (hpending : ∀ name ∈ pending, Path.separator ∉ name) :
    ∀ n ∈ (name :: parent).reverse, Path.separator ∉ n := by
  generalize hspot : Spot.entry parent name node s = spot at h
  have hentry {here : List Bytes} {name : Bytes} (hhere : ∀ name ∈ here, Path.separator ∉ name)
      (hname : ∀ n ∈ [name], Path.separator ∉ n) : ∀ n ∈ (name :: here).reverse, Path.separator ∉ n := by
    intro n hn
    rcases List.mem_cons.mp (List.mem_reverse.mp hn) with rfl | hn
    · exact hname n List.mem_cons_self
    · exact hhere n hn
  induction h with
  | done => cases hspot
  | self _ ih => exact ih hhere (List.forall_mem_cons.mp hpending).2 hspot
  | up _ ih =>
    exact ih (fun name hname => hhere name (List.mem_of_mem_tail hname)) (List.forall_mem_cons.mp hpending).2 hspot
  | missing =>
    cases hspot
    exact hentry hhere hpending
  | dir _ _ _ ih =>
    obtain ⟨hname, hrest⟩ := List.forall_mem_cons.mp hpending
    exact ih (List.forall_mem_cons.mpr ⟨hname, hhere⟩) hrest hspot
  | file =>
    cases hspot
    exact hentry hhere hpending
  | link =>
    cases hspot
    exact hentry hhere hpending
  | @along _ _ _ _ _ target _ _ _ _ _ ih =>
    refine ih ?_ (fun name hname => ?_) hspot
    · by_cases habsolute : target.isAbsolute = true
      · rw [if_pos habsolute]
        exact nofun
      · rw [if_neg habsolute]
        exact hhere
    · rcases List.mem_append.mp hname with hname | hname
      · exact target.separator_not_mem_names name hname
      · exact hpending name (List.mem_cons_of_mem _ hname)

/-- The working directory is a directory, and the names in every directory are distinct and without separators. -/
structure Tidy (tree : FileTree) : Prop where
  rooted : tree.Rooted
  named : tree.root.WellNamed

theorem Tidy.locate_names (h : tree.Tidy) (hlocate : tree.locate follow path = .ok (.entry parent name node s)) :
    ∀ n ∈ (name :: parent).reverse, Path.separator ∉ n := by
  refine (locate_ok_iff.mp hlocate).2.names ?_ path.separator_not_mem_names
  by_cases habsolute : path.isAbsolute = true
  · rw [if_pos habsolute]
    exact nofun
  · rw [if_neg habsolute]
    obtain ⟨entries, hcwd⟩ := Node.viewAt?_eq_dir.mp h.rooted
    exact fun name hname => h.named.place_names hcwd name (List.mem_reverse.mp hname)

/-! ## Changes -/

theorem Tidy.write {content : Bytes} (h : old.Tidy) (hwrite : old.write path content = .ok new) : new.Tidy := by
  obtain ⟨place, hplaced, -⟩ := write_placed h.rooted hwrite
  refine ⟨hplaced.rooted h.rooted, ?_⟩
  obtain ⟨parent, name, node, hlocate, rfl⟩ := write_ok_iff.mp hwrite
  exact h.named.set (.file content) (h.locate_names hlocate)

theorem Tidy.makeDir (h : old.Tidy) (hmake : old.makeDir path = .ok new) : new.Tidy := by
  obtain ⟨place, hplaced, -⟩ := makeDir_placed h.rooted hmake
  refine ⟨hplaced.rooted h.rooted, ?_⟩
  obtain ⟨parent, name, slash, hlocate, rfl⟩ := makeDir_ok_iff.mp hmake
  exact h.named.set (.dir List.nodup_nil nofun nofun) (h.locate_names hlocate)

theorem Tidy.makeEach (h : tree.Tidy) (dirs : List Path) : (tree.makeEach dirs).1.Tidy := by
  induction dirs generalizing tree with
  | nil => exact h
  | cons dir rest ih =>
    by_cases hdir : tree.isDirectory dir = true
    · rw [makeEach_there h.rooted hdir]
      exact ih h
    · rcases hmake : tree.makeDir dir with e | made
      · rw [makeEach_stop hdir hmake]
        exact h
      · rw [makeEach_made hmake]
        exact ih (h.makeDir hmake)

theorem Tidy.makeDirs (h : tree.Tidy) (path : Path) : (tree.makeDirs path).1.Tidy := by
  rw [FileTree.makeDirs]
  rcases tree.missingDirs (path.length + 1) path with e | missing
  · exact h
  · exact h.makeEach missing.reverse

end FileTree

end Scaffold
