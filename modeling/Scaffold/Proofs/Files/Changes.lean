import Scaffold.Proofs.Files.Parents
import Scaffold.Proofs.Files.Walk

/-!
# Changes of a tree

What the operations on files do to a tree in which the working directory is one: a file that is written is
found again by its path, and nothing else changes; directories are only made where there was nothing.
-/

namespace Scaffold.FileTree

/-- The working directory is a directory. -/
def Rooted (tree : FileTree) : Prop :=
  tree.root.viewAt? tree.cwd = some .dir

/-- The place of the file that a path leads to, links followed. -/
def LeadsTo (tree : FileTree) (path : Path) (place : List Bytes) : Prop :=
  ∃ parent name node, tree.locate true path = .ok (.entry parent name node false) ∧ (name :: parent).reverse = place

/-- One place of a tree holds something else, which is no link, where there was nothing or another file. -/
structure Placed (old new : FileTree) (place : List Bytes) (v : View) : Prop where
  cwd : new.cwd = old.cwd
  view (other : List Bytes) : new.root.viewAt? other = if other = place then some v else old.root.viewAt? other
  free : old.root.viewAt? place = none ∨ (∃ content, old.root.viewAt? place = some (.file content)) ∧ v ≠ .dir
  noLink (target : Path) : v ≠ .link target

/-- Directories of the given paths were made, or some of them. -/
structure Grown (old new : FileTree) (dirs : List Path) : Prop where
  cwd : new.cwd = old.cwd
  larger : old.root.Extends new.root
  view (place : List Bytes) : new.root.viewAt? place = old.root.viewAt? place ∨
    old.root.viewAt? place = none ∧ new.root.viewAt? place = some .dir ∧
      ∃ dir ∈ dirs, new.locate true dir = .ok (.dir place.reverse)

variable {tree old new : FileTree} {path : Path} {follow : Bool} {spot : Spot}

/-! ## Paths -/

theorem locate_ok_iff :
    tree.locate follow path = .ok spot ↔ (0 ∉ path ∧ path ≠ [] ∧ path.length ≤ maxPath) ∧
      Walks tree.root follow maxLinks (if path.isAbsolute then [] else tree.cwd.reverse) path.names
        path.endsInSeparator spot := by
  rw [locate]
  by_cases hnul : 0 ∈ path
  · simp [hnul]
  · by_cases hempty : path = []
    · simp [hempty]
    · by_cases hlong : maxPath < path.length
      · simp [hnul, hempty, hlong, Nat.not_le.mpr hlong]
      · simp only [if_neg hnul, List.isEmpty_iff, if_neg hempty, if_neg hlong, walk_ok_iff]
        exact ⟨fun h => ⟨⟨hnul, hempty, Nat.le_of_not_lt hlong⟩, h⟩, fun h => h.2⟩

private theorem start_dir (h : tree.Rooted) (path : Path) :
    tree.root.viewAt? (if path.isAbsolute then [] else tree.cwd.reverse).reverse = some .dir := by
  by_cases habsolute : path.isAbsolute = true
  · rw [if_pos habsolute]
    exact root_dir h
  · rw [if_neg habsolute, List.reverse_reverse]
    exact h

private theorem locate_sound (h : tree.Rooted) (hlocate : tree.locate follow path = .ok spot) :
    Sound tree.root follow spot :=
  (locate_ok_iff.mp hlocate).2.sound (start_dir h path)

theorem locate_larger (hcwd : new.cwd = old.cwd) (hlarger : old.root.Extends new.root)
    (h : old.locate follow path = .ok spot) : new.locate follow path = .ok (refreshed new.root spot) := by
  obtain ⟨hpath, hwalks⟩ := locate_ok_iff.mp h
  rw [← hcwd] at hwalks
  exact locate_ok_iff.mpr ⟨hpath, hwalks.extends hlarger⟩

theorem rooted_larger (hcwd : new.cwd = old.cwd) (hlarger : old.root.Extends new.root) (h : old.Rooted) :
    new.Rooted := by
  rw [Rooted, hcwd]
  exact hlarger.dir h

theorem LeadsTo.unique {place other : List Bytes} (h : tree.LeadsTo path place) (h' : tree.LeadsTo path other) :
    place = other := by
  obtain ⟨parent, name, node, hlocate, rfl⟩ := h
  obtain ⟨parent', name', node', hlocate', rfl⟩ := h'
  cases hlocate.symm.trans hlocate'
  rfl

/-- A path finds the directory it leads to, or what stands at the name it leads to. -/
theorem find_ok_iff {node : Node} :
    tree.find path = .ok node ↔
      (∃ names, tree.locate true path = .ok (.dir names) ∧ tree.root.get? names.reverse = some node) ∨
        ∃ parent name, tree.locate true path = .ok (.entry parent name (some node) false) := by
  rw [find]
  rcases tree.locate true path with e | (names | ⟨parent, name, found, slash⟩)
  · simp [bind, Except.bind]
  · cases hnames : tree.root.get? names.reverse with
    | none => simp [bind, Except.bind, hnames]
    | some found => simp [bind, Except.bind, pure, Except.pure, hnames]
  · cases found with
    | none => simp [bind, Except.bind]
    | some found =>
      cases slash with
      | false => simp [bind, Except.bind, pure, Except.pure]
      | true => simp [bind, Except.bind]

theorem find_dir_iff {entries : List (Bytes × Node)} :
    tree.find path = .ok (.dir entries) ↔
      ∃ names, tree.locate true path = .ok (.dir names) ∧ tree.root.get? names.reverse = some (.dir entries) := by
  rw [find_ok_iff]
  refine or_iff_left fun hentry => ?_
  obtain ⟨parent, name, hlocate⟩ := hentry
  exact (locate_ok_iff.mp hlocate).2.not_dir entries rfl

theorem read_ok_iff {content : Bytes} (h : tree.Rooted) :
    tree.read path = .ok content ↔
      ∃ parent name, tree.locate true path = .ok (.entry parent name (some (.file content)) false) := by
  have hfind : tree.read path = .ok content ↔ tree.find path = .ok (.file content) := by
    rw [read]
    rcases tree.find path with e | (other | target | entries)
    · simp [bind, Except.bind]
    · simp [bind, Except.bind, pure, Except.pure]
    · simp [bind, Except.bind]
    · simp [bind, Except.bind]
  rw [hfind, find_ok_iff]
  constructor
  · intro hor
    rcases hor with ⟨names, hlocate, hnode⟩ | hentry
    · obtain ⟨entries, hentries⟩ := Node.viewAt?_eq_dir.mp (locate_sound h hlocate)
      cases hnode.symm.trans hentries
    · exact hentry
  · exact Or.inr

theorem read_of_leadsTo {place : List Bytes} {content : Bytes} (h : tree.Rooted) (hleads : tree.LeadsTo path place)
    (hview : tree.root.viewAt? place = some (.file content)) : tree.read path = .ok content := by
  obtain ⟨parent, name, node, hlocate, rfl⟩ := hleads
  obtain ⟨-, hnode, -, -⟩ := locate_sound h hlocate
  rw [hview] at hnode
  rcases node with _ | (other | target | entries)
  · cases hnode
  · cases hnode
    exact (read_ok_iff h).mpr ⟨parent, name, hlocate⟩
  · cases hnode
  · cases hnode

private theorem isDirectory_iff (h : tree.Rooted) :
    tree.isDirectory path = true ↔ ∃ names, tree.locate true path = .ok (.dir names) := by
  have hfind : tree.isDirectory path = true ↔ ∃ entries, tree.find path = .ok (.dir entries) := by
    rw [isDirectory]
    rcases tree.find path with e | (other | target | entries)
    · simp
    · simp [Node.isDir]
    · simp [Node.isDir]
    · simp [Node.isDir]
  rw [hfind]
  constructor
  · intro hsome
    obtain ⟨entries, hentries⟩ := hsome
    obtain ⟨names, hlocate, -⟩ := find_dir_iff.mp hentries
    exact ⟨names, hlocate⟩
  · intro hsome
    obtain ⟨names, hlocate⟩ := hsome
    obtain ⟨entries, hentries⟩ := Node.viewAt?_eq_dir.mp (locate_sound h hlocate)
    exact ⟨entries, find_dir_iff.mpr ⟨names, hlocate, hentries⟩⟩

theorem isDirectory_above {dir : Path} (h : tree.Rooted) (habove : Path.Above dir path) (hdir : dir ≠ [])
    (hlocate : tree.locate true path = .ok spot) : tree.isDirectory dir = true := by
  obtain ⟨after, hnames, hafter, more, rfl⟩ := habove.front hdir
  obtain ⟨⟨hnul, -, hlong⟩, hwalks⟩ := locate_ok_iff.mp hlocate
  have hstart : Path.isAbsolute (dir ++ more) = Path.isAbsolute dir := by
    cases dir with
    | nil => exact absurd rfl hdir
    | cons b rest => rfl
  rw [hnames, hstart] at hwalks
  obtain ⟨names, hfront⟩ := hwalks.front hafter dir.endsInSeparator
  have hshort : dir.length ≤ maxPath := by
    rw [List.length_append] at hlong
    omega
  refine (isDirectory_iff h).mpr ⟨names, locate_ok_iff.mpr ⟨⟨?_, hdir, hshort⟩, hfront⟩⟩
  exact fun hmem => hnul (List.mem_append_left _ hmem)

theorem LeadsTo.larger {place : List Bytes} {content : Bytes} (hcwd : new.cwd = old.cwd)
    (hlarger : old.root.Extends new.root) (h : old.LeadsTo path place)
    (hfile : old.root.viewAt? place = some (.file content)) : new.LeadsTo path place := by
  obtain ⟨parent, name, node, hlocate, rfl⟩ := h
  obtain ⟨content', hnew⟩ := hlarger.file hfile
  have hagain := locate_larger hcwd hlarger hlocate
  rw [refreshed, Node.get?_of_file hnew] at hagain
  exact ⟨parent, name, _, hagain, rfl⟩

/-! ## One place -/

theorem Placed.larger {place : List Bytes} {v : View} (h : Placed old new place v) : old.root.Extends new.root where
  dir {other} hother := by
    have hne : other ≠ place := by
      rintro rfl
      rcases h.free with hnone | ⟨⟨content, hfile⟩, -⟩
      · cases hother.symm.trans hnone
      · cases hother.symm.trans hfile
    rw [h.view, if_neg hne]
    exact hother
  file {other content} hother := by
    by_cases hplace : other = place
    · subst hplace
      rcases h.free with hnone | ⟨-, hnoDir⟩
      · cases hother.symm.trans hnone
      · rw [h.view, if_pos rfl]
        cases v with
        | file content' => exact ⟨content', rfl⟩
        | link target => exact absurd rfl (h.noLink target)
        | dir => exact absurd rfl hnoDir
    · rw [h.view, if_neg hplace]
      exact ⟨content, hother⟩
  link {other target} := by
    by_cases hplace : other = place
    · subst hplace
      rw [h.view, if_pos rfl]
      constructor
      · intro hlink
        exact absurd (Option.some.inj hlink) (h.noLink target)
      · intro hlink
        rcases h.free with hnone | ⟨⟨content, hfile⟩, -⟩
        · cases hlink.symm.trans hnone
        · cases hlink.symm.trans hfile
    · rw [h.view, if_neg hplace]

private theorem placed_set {parent : List Bytes} {name : Bytes} {node : Option Node} {slash : Bool} {n : Node}
    (hsound : Sound tree.root follow (.entry parent name node slash)) (hn : n.entries = [])
    (hfree : node = none ∨ (∃ content, node = some (.file content)) ∧ n.view ≠ .dir)
    (hnoLink : ∀ target, n.view ≠ .link target) :
    Placed tree { tree with root := tree.root.set (name :: parent).reverse n } (name :: parent).reverse n.view := by
  obtain ⟨hparent, hnode, -, -⟩ := hsound
  refine ⟨rfl, ?_, ?_, hnoLink⟩
  · rw [List.reverse_cons] at hnode ⊢
    refine Node.viewAt?_set hparent ?_ hn
    intro before hbefore
    rw [Node.viewAt?, hbefore] at hnode
    rcases hfree with rfl | ⟨⟨content, rfl⟩, -⟩
    · cases hnode
    · cases before with
      | file other => rfl
      | link target => cases hnode
      | dir entries => cases hnode
  · rw [hnode]
    rcases hfree with rfl | ⟨⟨content, rfl⟩, hnoDir⟩
    · exact .inl rfl
    · exact .inr ⟨⟨content, rfl⟩, hnoDir⟩

private theorem no_separator_at_end {parent : List Bytes} {name : Bytes} {node : Option Node}
    (h : tree.locate follow path = .ok (.entry parent name node false)) : path.endsInSeparator = false := by
  refine Bool.eq_false_iff.mpr fun hend => ?_
  cases (locate_ok_iff.mp h).2.slash_of_slash hend

/-- A file is written at the name that its path leads to. -/
theorem write_ok_iff {content : Bytes} :
    old.write path content = .ok new ↔
      ∃ parent name node, old.locate true path = .ok (.entry parent name node false) ∧
        new = { old with root := old.root.set (name :: parent).reverse (.file content) } := by
  rw [write]
  constructor
  · intro h
    rcases hlocate : old.locate (!path.endsInSeparator) path with e | (names | ⟨parent, name, node, slash⟩)
    · rw [hlocate] at h
      cases h
    · rw [hlocate] at h
      cases h
    · rw [hlocate] at h
      cases slash with
      | true => cases h
      | false =>
        rw [no_separator_at_end hlocate] at hlocate
        exact ⟨parent, name, node, hlocate, (Except.ok.inj h).symm⟩
  · intro h
    obtain ⟨parent, name, node, hlocate, rfl⟩ := h
    rw [no_separator_at_end hlocate, Bool.not_false, hlocate]
    rfl

theorem makeDir_ok_iff :
    old.makeDir path = .ok new ↔
      ∃ parent name slash, old.locate false path = .ok (.entry parent name none slash) ∧
        new = { old with root := old.root.set (name :: parent).reverse (.dir []) } := by
  rw [makeDir]
  constructor
  · intro h
    rcases hlocate : old.locate false path with e | (names | ⟨parent, name, _ | node, slash⟩)
    · rw [hlocate] at h
      cases h
    · rw [hlocate] at h
      cases h
    · rw [hlocate] at h
      exact ⟨parent, name, slash, rfl, (Except.ok.inj h).symm⟩
    · rw [hlocate] at h
      cases h
  · intro h
    obtain ⟨parent, name, slash, hlocate, rfl⟩ := h
    rw [hlocate]
    rfl

/-- A file that was written is the only change, and its path leads to it. -/
theorem write_placed {content : Bytes} (h : old.Rooted) (hwrite : old.write path content = .ok new) :
    ∃ place, Placed old new place (.file content) ∧ new.LeadsTo path place := by
  obtain ⟨parent, name, node, hlocate, hnew⟩ := write_ok_iff.mp hwrite
  have hsound := locate_sound h hlocate
  have hnoDir := hsound.2.2.1
  have hnoLink := hsound.2.2.2
  have hfree : node = none ∨ (∃ content, node = some (.file content)) ∧ (Node.file content).view ≠ .dir := by
    rcases node with _ | (other | target | entries)
    · exact .inl rfl
    · exact .inr ⟨⟨other, rfl⟩, nofun⟩
    · exact absurd rfl (hnoLink rfl target)
    · exact absurd rfl (hnoDir entries)
  have hplaced := placed_set hsound (n := .file content) rfl hfree nofun
  rw [← hnew] at hplaced
  have hview : new.root.viewAt? (name :: parent).reverse = some (.file content) := by
    rw [hplaced.view, if_pos rfl]
    rfl
  have hagain := locate_larger hplaced.cwd hplaced.larger hlocate
  rw [refreshed, Node.get?_of_file hview] at hagain
  exact ⟨_, hplaced, parent, name, some (.file content), hagain, rfl⟩

theorem Placed.rooted {place : List Bytes} {v : View} (h : Placed old new place v) (hold : old.Rooted) : new.Rooted :=
  rooted_larger h.cwd h.larger hold

theorem read_write {content : Bytes} (h : old.Rooted) (hwrite : old.write path content = .ok new) :
    new.read path = .ok content := by
  obtain ⟨place, hplaced, hleads⟩ := write_placed h hwrite
  exact read_of_leadsTo (hplaced.rooted h) hleads (by rw [hplaced.view, if_pos rfl])

theorem write_of_read {content : Bytes} (h : tree.Rooted) (hread : tree.read path = .ok content) (other : Bytes) :
    ∃ new, tree.write path other = .ok new := by
  obtain ⟨parent, name, hlocate⟩ := (read_ok_iff h).mp hread
  exact ⟨_, write_ok_iff.mpr ⟨parent, name, _, hlocate, rfl⟩⟩

theorem makeDir_placed (h : old.Rooted) (hmake : old.makeDir path = .ok new) :
    ∃ names, Placed old new names.reverse .dir ∧ old.root.viewAt? names.reverse = none ∧
      new.locate true path = .ok (.dir names) := by
  obtain ⟨parent, name, slash, hlocate, hnew⟩ := makeDir_ok_iff.mp hmake
  have hsound := locate_sound h hlocate
  have hplaced := placed_set hsound (n := .dir []) rfl (.inl rfl) nofun
  rw [← hnew] at hplaced
  obtain ⟨entries, hentries⟩ := Node.viewAt?_eq_dir.mp
    (show new.root.viewAt? (name :: parent).reverse = some .dir by rw [hplaced.view, if_pos rfl]; rfl)
  obtain ⟨hpath, hwalks⟩ := locate_ok_iff.mp hlocate
  have hfollowed := locate_ok_iff.mpr ⟨hpath, hwalks.followed nofun⟩
  have hagain := locate_larger hplaced.cwd hplaced.larger hfollowed
  rw [refreshed, hentries] at hagain
  exact ⟨name :: parent, hplaced, hsound.2.1, hagain⟩

private theorem makeDir_of_isDirectory (h : tree.Rooted) (hdir : tree.isDirectory path = true) :
    tree.makeDir path = .error .exists := by
  obtain ⟨names, hlocate⟩ := (isDirectory_iff h).mp hdir
  obtain ⟨hpath, hwalks⟩ := locate_ok_iff.mp hlocate
  rcases hwalks.unfollowed with hwalks | ⟨parent, name, target, s, hwalks⟩
  · rw [makeDir, locate_ok_iff.mpr ⟨hpath, hwalks⟩]
    rfl
  · rw [makeDir, locate_ok_iff.mpr ⟨hpath, hwalks⟩]
    rfl

/-! ## Directories on the way -/

theorem Grown.refl (tree : FileTree) (dirs : List Path) : Grown tree tree dirs where
  cwd := rfl
  larger := ⟨fun h => h, fun h => ⟨_, h⟩, Iff.rfl⟩
  view _ := .inl rfl

theorem Grown.rooted {dirs : List Path} (h : Grown old new dirs) (hold : old.Rooted) : new.Rooted :=
  rooted_larger h.cwd h.larger hold

theorem Grown.weaken {dirs dirs' : List Path} (h : Grown old new dirs) (hdirs : ∀ dir ∈ dirs, dir ∈ dirs') :
    Grown old new dirs' where
  cwd := h.cwd
  larger := h.larger
  view place := by
    rcases h.view place with hsame | ⟨hnone, hdir, dir, hmem, hlocate⟩
    · exact .inl hsame
    · exact .inr ⟨hnone, hdir, dir, hdirs dir hmem, hlocate⟩

private theorem larger_trans {a b c : Node} (h : a.Extends b) (h' : b.Extends c) : a.Extends c where
  dir hdir := h'.dir (h.dir hdir)
  file hfile := by
    obtain ⟨content, hcontent⟩ := h.file hfile
    exact h'.file hcontent
  link := h'.link.trans h.link

private theorem grown_cons {middle : FileTree} {dir : Path} {dirs : List Path} (h : old.Rooted)
    (hmake : old.makeDir dir = .ok middle) (hrest : Grown middle new dirs) : Grown old new (dir :: dirs) := by
  obtain ⟨names, hplaced, hnone, hlocate⟩ := makeDir_placed h hmake
  refine ⟨hrest.cwd.trans hplaced.cwd, larger_trans hplaced.larger hrest.larger, ?_⟩
  intro place
  by_cases hplace : place = names.reverse
  · subst hplace
    have hmiddle : middle.root.viewAt? names.reverse = some .dir := by
      rw [hplaced.view, if_pos rfl]
    refine .inr ⟨hnone, hrest.larger.dir hmiddle, dir, List.mem_cons_self, ?_⟩
    rw [List.reverse_reverse]
    exact locate_larger hrest.cwd hrest.larger hlocate
  · have hmiddle : middle.root.viewAt? place = old.root.viewAt? place := by
      rw [hplaced.view, if_neg hplace]
    rcases hrest.view place with hsame | ⟨hbefore, hafter, other, hmem, hother⟩
    · exact .inl (hsame.trans hmiddle)
    · exact .inr ⟨hmiddle ▸ hbefore, hafter, other, List.mem_cons_of_mem _ hmem, hother⟩

theorem makeEach_there {dir : Path} (h : tree.Rooted) (hdir : tree.isDirectory dir = true) (rest : List Path) :
    tree.makeEach (dir :: rest) = tree.makeEach rest := by
  rw [makeEach, makeDir_of_isDirectory h hdir]
  exact if_pos hdir

theorem makeEach_stop {dir : Path} {e : FileError} (hdir : ¬tree.isDirectory dir = true)
    (hmake : tree.makeDir dir = .error e) (rest : List Path) : tree.makeEach (dir :: rest) = (tree, .error e) := by
  rw [makeEach, hmake]
  cases e <;> simp [hdir]

theorem makeEach_made {dir : Path} (hmake : old.makeDir dir = .ok new) (rest : List Path) :
    old.makeEach (dir :: rest) = new.makeEach rest := by
  rw [makeEach, hmake]

private theorem makeEach_grown (h : tree.Rooted) (dirs : List Path) : Grown tree (tree.makeEach dirs).1 dirs := by
  induction dirs generalizing tree with
  | nil => exact .refl ..
  | cons dir rest ih =>
    by_cases hdir : tree.isDirectory dir = true
    · rw [makeEach_there h hdir]
      exact (ih h).weaken fun other hmem => List.mem_cons_of_mem _ hmem
    · rcases hmake : tree.makeDir dir with e | middle
      · rw [makeEach_stop hdir hmake]
        exact .refl ..
      · obtain ⟨names, hplaced, -, -⟩ := makeDir_placed h hmake
        rw [makeEach_made hmake]
        exact grown_cons h hmake (ih (hplaced.rooted h))

private theorem makeEach_failed {dirs : List Path} {e : FileError} (h : tree.Rooted)
    (hfail : (tree.makeEach dirs).2 = .error e) :
    ∃ dir ∈ dirs, (tree.makeEach dirs).1.isDirectory dir = false := by
  induction dirs generalizing tree with
  | nil => cases hfail
  | cons dir rest ih =>
    by_cases hdir : tree.isDirectory dir = true
    · rw [makeEach_there h hdir] at hfail ⊢
      obtain ⟨other, hmem, hother⟩ := ih h hfail
      exact ⟨other, List.mem_cons_of_mem _ hmem, hother⟩
    · rcases hmake : tree.makeDir dir with cause | middle
      · rw [makeEach_stop hdir hmake]
        exact ⟨dir, List.mem_cons_self, eq_false_of_ne_true hdir⟩
      · obtain ⟨names, hplaced, -, -⟩ := makeDir_placed h hmake
        rw [makeEach_made hmake] at hfail ⊢
        obtain ⟨other, hmem, hother⟩ := ih (hplaced.rooted h) hfail
        exact ⟨other, List.mem_cons_of_mem _ hmem, hother⟩

private theorem missingDirs_cases {fuel : Nat} {dirs : List Path} (h : tree.missingDirs (fuel + 1) path = .ok dirs) :
    dirs = [] ∨ path ≠ [] ∧ (dirs = [path] ∨ ∃ parent others,
      path.parent? = some parent ∧ tree.missingDirs fuel parent = .ok others ∧ dirs = path :: others) := by
  rw [missingDirs] at h
  rcases hparent : path.parent? with _ | parent
  · rw [hparent] at h
    exact .inl (Except.ok.inj h).symm
  · have hpath : path ≠ [] := by
      rintro rfl
      cases hparent
    simp only [hparent] at h
    split at h
    · exact .inr ⟨hpath, .inl (Except.ok.inj h).symm⟩
    · rcases hothers : tree.missingDirs fuel parent with e | others
      · rw [hothers] at h
        cases h
      · rw [hothers] at h
        exact .inr ⟨hpath, .inr ⟨parent, others, rfl, hothers, (Except.ok.inj h).symm⟩⟩
    · split at h
      · exact .inl (Except.ok.inj h).symm
      · cases h
    · cases h

/-- The missing directories of a path are the path and what is above it. -/
theorem missingDirs_above {fuel : Nat} {dirs : List Path} (h : tree.missingDirs fuel path = .ok dirs) :
    ∀ dir ∈ dirs, (dir = path ∨ Path.Above dir path) ∧ dir ≠ [] := by
  induction fuel generalizing path dirs with
  | zero =>
    cases h
    exact nofun
  | succ fuel ih =>
    intro dir hmem
    obtain rfl | ⟨hpath, rfl | ⟨parent, others, hparent, hothers, rfl⟩⟩ := missingDirs_cases h
    · cases hmem
    · obtain rfl := List.mem_singleton.mp hmem
      exact ⟨.inl rfl, hpath⟩
    · rcases List.mem_cons.mp hmem with rfl | hmem
      · exact ⟨.inl rfl, hpath⟩
      · obtain ⟨rfl | habove, hdir⟩ := ih hothers dir hmem
        · exact ⟨.inr (.parent hparent), hdir⟩
        · exact ⟨.inr (.step hparent habove), hdir⟩

theorem makeDirs_of_isDirectory (h : tree.Rooted) (hdir : tree.isDirectory path = true) :
    tree.makeDirs path = (tree, .ok ()) := by
  have hmissing : tree.missingDirs (path.length + 1) path = .ok [] := by
    rw [missingDirs, makeDir_of_isDirectory h hdir]
    cases path.parent? with
    | none => rfl
    | some parent => exact if_pos hdir
  rw [makeDirs, hmissing]
  rfl

theorem makeDirs_grown (h : tree.Rooted) (path : Path) :
    ∃ dirs, (∀ dir ∈ dirs, dir = path ∨ Path.Above dir path) ∧ Grown tree (tree.makeDirs path).1 dirs := by
  rw [makeDirs]
  rcases hmissing : tree.missingDirs (path.length + 1) path with e | missing
  · exact ⟨[], nofun, .refl ..⟩
  · refine ⟨missing.reverse, ?_, makeEach_grown h _⟩
    intro dir hmem
    exact (missingDirs_above hmissing dir (List.mem_reverse.mp hmem)).1

/-- After a failure the directory is not there, or one above it is not. -/
theorem makeDirs_failed {e : FileError} (h : tree.Rooted) (hfail : (tree.makeDirs path).2 = .error e) :
    ∃ dir, (dir = path ∨ Path.Above dir path) ∧ dir ≠ [] ∧ (tree.makeDirs path).1.isDirectory dir = false := by
  have hpath : path ≠ [] := by
    rintro rfl
    cases hfail
  have hno : ¬tree.isDirectory path = true := by
    intro hdir
    rw [makeDirs_of_isDirectory h hdir] at hfail
    cases hfail
  rw [makeDirs] at hfail ⊢
  rcases hmissing : tree.missingDirs (path.length + 1) path with cause | missing
  · exact ⟨path, .inl rfl, hpath, eq_false_of_ne_true hno⟩
  · rw [hmissing] at hfail
    obtain ⟨dir, hmem, hdir⟩ := makeEach_failed h hfail
    obtain ⟨habove, hne⟩ := missingDirs_above hmissing dir (List.mem_reverse.mp hmem)
    exact ⟨dir, habove, hne, hdir⟩

end Scaffold.FileTree
