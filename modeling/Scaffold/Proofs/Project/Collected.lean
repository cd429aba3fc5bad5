import Mathlib.Data.List.Lex
import Scaffold.Proofs.Files.Alike
import Scaffold.Proofs.Files.Below
import Scaffold.Proofs.Project.Sources

/-!
# Collected sources

The files of a directory are collected in the order of their names, so it does not matter in which order the directories
below it list them. All of them are collected or none: what can be in the way is a name that is no text, a file that
cannot be read, and a directory whose path is too long to be opened.
-/

namespace Scaffold.Sources

/-! ## The order of files -/

/-- Names in the order of their bytes. -/
def NameLt (a b : Bytes) : Prop :=
  List.Lex (fun x y : UInt8 => x < y) a b

/-- Rows of names in the order of the first name that differs. -/
def NamesLt (first second : List Bytes) : Prop :=
  List.Lex NameLt first second

instance : Std.Asymm (fun x y : UInt8 => x < y) := ⟨fun _ _ h h' => UInt8.lt_asymm h h'⟩

instance : Std.Asymm NameLt := List.Lex.asymm _

instance : Std.Trichotomous NameLt := List.Lex.trichotomous _

instance : Std.Asymm NamesLt := List.Lex.asymm _

instance : Std.Trichotomous NamesLt := List.Lex.trichotomous _

variable {a b c : Bytes} {first second third : List Bytes}

theorem NameLt.trans (h : NameLt a b) (h' : NameLt b c) : NameLt a c :=
  List.lex_trans UInt8.lt_trans h h'

theorem NamesLt.trans (h : NamesLt first second) (h' : NamesLt second third) : NamesLt first third :=
  List.lex_trans NameLt.trans h h'

private theorem nameLe_iff : nameLe a b = true ↔ NameLt a b ∨ a = b := by
  induction a generalizing b with
  | nil =>
    rw [nameLe]
    exact iff_of_true rfl ((List.lex_nil_or_eq_nil b).imp_right Eq.symm)
  | cons x a ih =>
    cases b with
    | nil =>
      rw [nameLe]
      exact ⟨nofun, nofun⟩
    | cons y b =>
      rw [nameLe, NameLt, List.cons_lex_cons_iff, List.cons.injEq]
      simp only [Bool.or_eq_true, decide_eq_true_eq, Bool.and_eq_true, beq_iff_eq, ih, NameLt]
      rw [and_or_left, or_assoc]

private theorem namesLe_iff : namesLe first second = true ↔ NamesLt first second ∨ first = second := by
  induction first generalizing second with
  | nil =>
    rw [namesLe]
    exact iff_of_true rfl ((List.lex_nil_or_eq_nil second).imp_right Eq.symm)
  | cons x first ih =>
    cases second with
    | nil =>
      rw [namesLe]
      exact ⟨nofun, nofun⟩
    | cons y second =>
      rw [namesLe, NamesLt, List.cons_lex_cons_iff, List.cons.injEq]
      by_cases h : x = y
      · subst h
        have hirrefl : ¬NameLt x x := irrefl x
        simp [ih, hirrefl, NamesLt]
      · simp [h, nameLe_iff]

private theorem namesLe_trans (first second third : List Bytes) (h : namesLe first second = true)
    (h' : namesLe second third = true) : namesLe first third = true := by
  rw [namesLe_iff] at h h' ⊢
  rcases h with hlt | rfl
  · rcases h' with hlt' | rfl
    · exact .inl (hlt.trans hlt')
    · exact .inl hlt
  · exact h'

private theorem namesLe_total (first second : List Bytes) : (namesLe first second || namesLe second first) = true := by
  rw [Bool.or_eq_true, namesLe_iff, namesLe_iff]
  rcases trichotomous_of NamesLt first second with hlt | heq | hlt
  · exact .inl (.inl hlt)
  · exact .inl (.inr heq)
  · exact .inr (.inl hlt)

private theorem namesLe_antisymm (h : namesLe first second = true) (h' : namesLe second first = true) :
    first = second := by
  rw [namesLe_iff] at h h'
  rcases h with hlt | heq
  · rcases h' with hlt' | heq
    · exact absurd hlt' (asymm hlt)
    · exact heq.symm
  · exact heq

private theorem filesBelow_pairwise (node : Node) :
    (filesBelow node).Pairwise fun first second => namesLe first second = true :=
  List.pairwise_mergeSort namesLe_trans namesLe_total _

private theorem filesBelow_sorted {node : Node} (h : node.WellNamed) : (filesBelow node).Pairwise NamesLt := by
  have hnodup : (filesBelow node).Nodup := (filesBelow_perm node).nodup_iff.mpr h.leaves_nodup
  refine (filesBelow_pairwise node).imp₂ (fun first second hle hne => ?_) hnodup
  exact (namesLe_iff.mp hle).resolve_right hne

private theorem filesBelow_of_perm {node other : Node} (h : other.leaves.Perm node.leaves) :
    filesBelow other = filesBelow node := by
  have hperm : (filesBelow other).Perm (filesBelow node) :=
    (filesBelow_perm other).trans (h.trans (filesBelow_perm node).symm)
  exact hperm.eq_of_pairwise (fun _ _ _ _ => namesLe_antisymm) (filesBelow_pairwise other) (filesBelow_pairwise node)

/-! ## One file -/

/-- The entry of a file below a root: its path has the texts of its names, and its content is what is read there. -/
structure SourceAt (tree : FileTree) (root : Path) (names : List Bytes) (e : Entry) : Prop where
  path : ∃ texts : List String, texts.map Text.encode = names ∧ e.path = "/".intercalate ("src/main/java" :: texts)
  content : tree.read (below root names) = .ok e.content
  mode : e.mode = none

variable {tree other : FileTree} {root : Path} {names : List Bytes} {children : List (Bytes × Node)}

private theorem mapM_decode_iff {texts : List String} :
    names.mapM Text.decode? = some texts ↔ texts.map Text.encode = names := by
  refine ⟨encode_of_mapM, fun h => ?_⟩
  subst h
  induction texts with
  | nil => rfl
  | cons text rest ih =>
    have htext : Text.decode? (Text.encode text) = some text := by
      rw [Text.decode?, Text.decode_encode]
      rfl
    rw [List.map_cons, List.mapM_cons, htext, ih]
    rfl

private theorem entryAt_ok_iff {e : Entry} : entryAt tree root names = .ok e ↔ SourceAt tree root names e := by
  rw [entryAt]
  constructor
  · intro h
    rcases htexts : names.mapM Text.decode? with _ | texts
    · rw [htexts] at h
      cases h
    · rcases hread : tree.read (below root names) with cause | content
      · rw [htexts, hread] at h
        cases h
      · rw [htexts, hread] at h
        cases h
        exact ⟨⟨texts, mapM_decode_iff.mp htexts, rfl⟩, hread, rfl⟩
  · intro h
    obtain ⟨⟨texts, htexts, hpath⟩, hread, hmode⟩ := h
    rw [mapM_decode_iff.mpr htexts, hread]
    obtain ⟨path, content, mode⟩ := e
    obtain rfl : path = _ := hpath
    obtain rfl : mode = none := hmode
    rfl

private theorem exists_sourceAt_iff : (∃ e, SourceAt tree root names e) ↔
    (∀ name ∈ names, ∃ text, name = Text.encode text) ∧ ∃ content, tree.read (below root names) = .ok content := by
  constructor
  · intro h
    obtain ⟨e, ⟨texts, rfl, -⟩, hread, -⟩ := h
    refine ⟨fun name hname => ?_, e.content, hread⟩
    obtain ⟨text, -, rfl⟩ := List.mem_map.mp hname
    exact ⟨text, rfl⟩
  · intro h
    obtain ⟨htexts, content, hread⟩ := h
    obtain ⟨texts, hnames⟩ := exists_forall₂_iff.mpr htexts
    refine ⟨⟨_, content, none⟩, ⟨texts, ?_, rfl⟩, hread, rfl⟩
    clear hread htexts
    induction hnames with
    | nil => rfl
    | cons hname _ ih => rw [List.map_cons, ih, hname]

/-! ## Below the root -/

private theorem standing (hproper : tree.Proper) {here : List Bytes} {v : View}
    (hget : tree.root.get? here.reverse = some (.dir children)) (h : (Node.dir children).viewAt? names = some v) :
    tree.root.viewAt? (here.reverse ++ names) = some v ∧ ∀ name ∈ names, Path.Usable name := by
  have hview : tree.root.viewAt? (here.reverse ++ names) = some v := by
    rw [Node.viewAt?, Node.get?_append, hget]
    exact h
  have hseen : tree.root.viewAt? (here.reverse ++ names) ≠ none := by
    rw [hview]
    exact Option.some_ne_none v
  exact ⟨hview, fun name hname => hproper.usable hseen name (List.mem_append_right _ hname)⟩

private theorem openDir_below (hproper : tree.Proper) (hroot : tree.find root = .ok (.dir children))
    (h : (Node.dir children).viewAt? names = some .dir) :
    tree.openDir (below root names)
      = if (below root names).length ≤ FileTree.maxPath then .ok () else .error .nameTooLong := by
  obtain ⟨here, hlocate, hget⟩ := FileTree.find_dir_iff.mp hroot
  obtain ⟨⟨-, hne, hshort⟩, -⟩ := FileTree.locate_ok_iff.mp hlocate
  by_cases hnames : names = []
  · have hself : below root names = root := by rw [hnames, below, List.foldl_nil]
    rw [hself, if_pos hshort, FileTree.openDir, hroot]
    rfl
  · obtain ⟨hview, husable⟩ := standing hproper hget h
    exact FileTree.openDir_goesOn hlocate (Path.goesOn_foldl hne husable) hnames
      (fun name hname => (husable name hname).toPlain) hview

private theorem read_below (hproper : tree.Proper) (hroot : tree.find root = .ok (.dir children)) {content : Bytes}
    (h : (Node.dir children).viewAt? names = some (.file content)) :
    tree.read (below root names)
      = if (below root names).length ≤ FileTree.maxPath then .ok content else .error .nameTooLong := by
  obtain ⟨here, hlocate, hget⟩ := FileTree.find_dir_iff.mp hroot
  obtain ⟨⟨-, hne, -⟩, -⟩ := FileTree.locate_ok_iff.mp hlocate
  obtain ⟨hview, husable⟩ := standing hproper hget h
  have hnames : names ≠ [] := by
    rintro rfl
    cases h
  exact FileTree.read_goesOn hlocate (Path.goesOn_foldl hne husable) hnames
    (fun name hname => (husable name hname).toPlain) hview

/-! ## All files -/

/-- Directories and files are collected alike, and a failure is the same, whatever order a directory lists them in. -/
theorem collect_alike (hproper : tree.Proper) (hroot : tree.find root = .ok (.dir children)) (halike : tree.Alike other)
    {others : List (Bytes × Node)} (hnode : (Node.dir children).Alike (.dir others))
    (hnamed : (Node.dir others).WellNamed) :
    collect other root (.dir others) = collect tree root (.dir children) := by
  have hown : (Node.dir children).WellNamed := found_named hproper.named hroot
  have hentry : entryAt other root = entryAt tree root := by
    funext names
    rw [entryAt, entryAt, halike.read]
  have hopen : (Node.dir others).dirs.forM (fun names => (tree.openDir (below root names)).mapError Error.file)
      = (Node.dir children).dirs.forM fun names => (tree.openDir (below root names)).mapError Error.file := by
    -- Every directory fails with the same error, so it does not matter which one is opened first.
    refine forM_same (hnode.mem_dirs hown hnamed) (e := Error.file .nameTooLong) fun names hnames => ?_
    rw [openDir_below hproper hroot (hown.mem_dirs_iff.mp hnames)]
    split
    · exact .inl rfl
    · exact .inr rfl
  simp only [collect, halike.openDir, hopen, hentry, filesBelow_of_perm (hnode.leaves_perm hown hnamed)]

/-- A directory gives sources just when every directory in it has a path that can be opened, and every file in it has
names that are texts and can be read. -/
theorem exists_directory_iff (hproper : tree.Proper) (hroot : tree.find root = .ok (.dir children)) (s : Settings) :
    (∃ entries, (directory tree root s).result = .ok entries) ↔
      (∀ names, (Node.dir children).viewAt? names = some .dir → (below root names).length ≤ FileTree.maxPath) ∧
      ∀ names leaf, (Node.dir children).get? names = some leaf → leaf.isDir = false →
        (∀ name ∈ names, ∃ text, name = Text.encode text) ∧ ∃ content, tree.read (below root names) = .ok content := by
  have hnamed : (Node.dir children).WellNamed := found_named hproper.named hroot
  have hresult : (directory tree root s).result = collect tree root (.dir children) := by
    rw [directory_result, hroot]
  have hopened : (∀ names ∈ (Node.dir children).dirs, tree.openDir (below root names) = .ok ()) ↔
      ∀ names, (Node.dir children).viewAt? names = some .dir → (below root names).length ≤ FileTree.maxPath := by
    refine forall_congr' fun names => ?_
    rw [hnamed.mem_dirs_iff]
    refine forall_congr' fun hdir => ?_
    rw [openDir_below hproper hroot hdir]
    split
    · exact iff_of_true rfl ‹_›
    · exact iff_of_false nofun ‹_›
  have hread : (∀ names ∈ filesBelow (.dir children), ∃ e, entryAt tree root names = .ok e) ↔
      ∀ names leaf, (Node.dir children).get? names = some leaf → leaf.isDir = false →
        (∀ name ∈ names, ∃ text, name = Text.encode text) ∧ ∃ content, tree.read (below root names) = .ok content := by
    refine forall_congr' fun names => ?_
    simp only [(filesBelow_perm _).mem_iff, hnamed.mem_leaves_iff, entryAt_ok_iff, exists_sourceAt_iff]
    constructor
    · intro h leaf hget hleaf
      exact h ⟨leaf, hget, hleaf⟩
    · intro h hfile
      obtain ⟨leaf, hget, hleaf⟩ := hfile
      exact h leaf hget hleaf
  simp only [hresult, collect_ok_iff, exists_and_left, exists_forall₂_iff, hopened, hread]

/-- The names in the path of an entry. -/
def components (e : Entry) : List Bytes :=
  (Text.encode e.path).splitOn Path.separator

theorem SourceAt.components {e : Entry} (h : SourceAt tree root names e)
    (hnames : ∀ name ∈ names, Path.separator ∉ name) :
    components e = javaNames ++ names := by
  rw [Sources.components, entryAt_path (entryAt_ok_iff.mpr h),
    List.splitOn_intercalate _ (below_clean hnames) (by simp [javaNames])]

private theorem map_components {files : List (List Bytes)} {entries : List Entry}
    (h : List.Forall₂ (SourceAt tree root) files entries)
    (hfiles : ∀ names ∈ files, ∀ name ∈ names, Path.separator ∉ name) :
    entries.map components = files.map (javaNames ++ ·) := by
  induction h with
  | nil => rfl
  | cons hentry _ ih =>
    obtain ⟨hnames, hrest⟩ := List.forall_mem_cons.mp hfiles
    rw [List.map_cons, List.map_cons, hentry.components hnames, ih hrest]

/-- There is one entry for each file, in the order of the names. -/
theorem collected_files (hproper : tree.Proper) (hroot : tree.find root = .ok (.dir children)) {s : Settings}
    {entries : List Entry} (h : (directory tree root s).result = .ok entries) :
    List.Forall₂ (SourceAt tree root) (filesBelow (.dir children)) entries ∧
      entries.map components = (filesBelow (.dir children)).map (javaNames ++ ·) := by
  obtain ⟨_, hfind, -, hentries⟩ := directory_ok_iff.mp h
  cases hroot.symm.trans hfind
  simp only [entryAt_ok_iff] at hentries
  have hnamed : (Node.dir children).WellNamed := found_named hproper.named hroot
  have hclean : ∀ names ∈ filesBelow (.dir children), ∀ name ∈ names, Path.separator ∉ name := fun names hnames =>
    hnamed.leaves_names names ((filesBelow_perm _).mem_iff.mp hnames)
  exact ⟨hentries, map_components hentries hclean⟩

private theorem collected_names (hproper : tree.Proper) (hroot : tree.find root = .ok (.dir children)) {s : Settings}
    {entries : List Entry} (h : (directory tree root s).result = .ok entries) {e : Entry} (he : e ∈ entries) :
    ∀ name ∈ components e, name ≠ [] ∧ name ≠ Path.self ∧ name ≠ Path.up := by
  intro name hname
  have hjava : ∀ name ∈ javaNames, name ≠ [] ∧ name ≠ Path.self ∧ name ≠ Path.up := by decide
  have hpath : components e ∈ (filesBelow (.dir children)).map (javaNames ++ ·) :=
    (collected_files hproper hroot h).2 ▸ List.mem_map_of_mem he
  obtain ⟨names, hnames, heq⟩ := List.mem_map.mp hpath
  rw [← heq] at hname
  rcases List.mem_append.mp hname with hname | hname
  · exact hjava name hname
  · have hleaf := (filesBelow_perm _).mem_iff.mp hnames
    obtain ⟨leaf, hget, -⟩ := (found_named hproper.named hroot).mem_leaves_iff.mp hleaf
    obtain ⟨here, -, hplace⟩ := FileTree.find_dir_iff.mp hroot
    have husable := (standing hproper hplace (Node.viewAt?_of_get? hget)).2 name hname
    exact ⟨husable.nonempty, husable.notSelf, husable.notUp⟩

/-- The sources of a directory can be had just when the path of every directory in it is one that can be opened, and
every file in it, at the end of a link or not, has names that are texts and can be read. They do not depend on the order
in which directories are listed: there is one entry for each file, with its names and its content, in the order of the
names. No two have one path, and no part of a path is empty or leads elsewhere. -/
theorem directory_collected (hproper : tree.Proper) (hroot : tree.find root = .ok (.dir children)) (s : Settings) :
    let top := Node.dir children
    ((∃ entries, (directory tree root s).result = .ok entries) ↔
      (∀ names, top.viewAt? names = some .dir → (below root names).length ≤ 4095) ∧
      ∀ names leaf, top.get? names = some leaf → leaf.isDir = false →
        (∀ name ∈ names, ∃ text, name = Text.encode text) ∧ ∃ content, tree.read (below root names) = .ok content) ∧
    (∀ other : FileTree, tree.Alike other → other.root.WellNamed → directory other root s = directory tree root s) ∧
    ∀ entries, (directory tree root s).result = .ok entries →
      (∃ files : List (List Bytes), files.Nodup ∧
        (∀ names, names ∈ files ↔ ∃ leaf, top.get? names = some leaf ∧ leaf.isDir = false) ∧
        List.Forall₂ (SourceAt tree root) files entries) ∧
      (∀ names content, top.get? names = some (.file content) → tree.read (below root names) = .ok content) ∧
      entries.Pairwise (fun e later => NamesLt (components e) (components later)) ∧
      (entries.map Entry.path).Nodup ∧
      ∀ e ∈ entries, ∀ name ∈ components e, name ≠ [] ∧ name ≠ Path.self ∧ name ≠ Path.up := by
  intro top
  have hnamed : top.WellNamed := found_named hproper.named hroot
  refine ⟨exists_directory_iff hproper hroot s, fun other halike hother => ?_, fun entries h => ?_⟩
  · obtain ⟨others, hfind, hnode⟩ := halike.find_dir hroot
    simp only [directory, hroot, hfind,
      collect_alike hproper hroot halike hnode (found_named hother hfind)]
  · obtain ⟨hentries, hcomponents⟩ := collected_files hproper hroot h
    have hmem (names : List Bytes) : names ∈ filesBelow top ↔ ∃ leaf, top.get? names = some leaf ∧ leaf.isDir = false := by
      rw [(filesBelow_perm _).mem_iff, hnamed.mem_leaves_iff]
    refine ⟨⟨filesBelow top, (filesBelow_perm _).nodup_iff.mpr hnamed.leaves_nodup, hmem, hentries⟩, ?_, ?_,
      directory_paths_nodup hproper.named h, fun e he => collected_names hproper hroot h he⟩
    · intro names content hget
      obtain ⟨-, hfiles⟩ := (exists_directory_iff hproper hroot s).mp ⟨entries, h⟩
      obtain ⟨-, read, hread⟩ := hfiles names _ hget rfl
      have hown := read_below hproper hroot (Node.viewAt?_of_get? hget)
      rw [hread] at hown
      split at hown
      · exact hread.trans hown
      · cases hown
    · have hsorted : (entries.map components).Pairwise NamesLt := by
        rw [hcomponents]
        exact (filesBelow_sorted hnamed).map _ fun _ _ hlt => List.Lex.append_left NameLt hlt javaNames
      exact List.pairwise_map.mp hsorted

/-- A directory with a file in a directory of its own, a file, and a link to the file. -/
def linkedChildren : List (Bytes × Node) :=
  [(Path.ofString "a", .dir [(Path.ofString "x", .file [1])]), (Path.ofString "b", .file [2]),
    (Path.ofString "c", .link (Path.ofString "b"))]

def linkedTree (children : List (Bytes × Node)) : FileTree :=
  ⟨.dir [(Path.ofString "in", .dir children)], []⟩

private theorem linked_named : (linkedTree linkedChildren).root.WellNamed := by
  have hfile (content : Bytes) : (Node.file content).WellNamed := .file content
  have hinner : (Node.dir [(Path.ofString "x", .file [1])]).WellNamed :=
    .dir (by decide) (by decide) (List.forall_mem_singleton.mpr (hfile [1]))
  have hchildren : (Node.dir linkedChildren).WellNamed := by
    refine .dir (by decide) (by decide) ?_
    exact List.forall_mem_cons.mpr ⟨hinner, List.forall_mem_cons.mpr ⟨hfile [2], List.forall_mem_singleton.mpr (.link _)⟩⟩
  exact .dir (by decide) (by decide) (List.forall_mem_singleton.mpr hchildren)

private theorem linked_proper : (linkedTree linkedChildren).Proper :=
  FileTree.proper_of_listed rfl linked_named (by decide)

/-- What is listed the other way round is collected the same way. -/
theorem directory_collected_reversed :
    let tree := linkedTree linkedChildren
    let root := Path.ofString "in"
    tree.Proper ∧ tree.find root = .ok (.dir linkedChildren) ∧
      (directory (linkedTree linkedChildren.reverse) root {}).result =
        .ok [⟨"src/main/java/a/x", [1], none⟩, ⟨"src/main/java/b", [2], none⟩, ⟨"src/main/java/c", [2], none⟩] := by
  intro tree root
  have hin : FileTree.Plain (Path.ofString "in") := ⟨by decide, by decide, by decide⟩
  have hb : FileTree.Plain (Path.ofString "b") := ⟨by decide, by decide, by decide⟩
  have hc : FileTree.Plain (Path.ofString "c") := ⟨by decide, by decide, by decide⟩
  have hroot : tree.find root = .ok (.dir linkedChildren) := by
    refine FileTree.find_dir_iff.mpr ⟨[Path.ofString "in"], ?_, rfl⟩
    exact FileTree.locate_ok_iff.mpr ⟨by decide, .dir hin rfl .done⟩
  have hchildren : (Node.dir linkedChildren).WellNamed := found_named linked_named hroot
  have halike : tree.Alike (linkedTree linkedChildren.reverse) := by
    refine ⟨rfl, Node.alike_of_entries (.cons ⟨rfl, ?_⟩ .nil)⟩
    exact Node.alike_of_perm (by decide) (List.reverse_perm _)
  have hother : (linkedTree linkedChildren.reverse).root.WellNamed :=
    .dir (by decide) (by decide) (List.forall_mem_singleton.mpr (hchildren.of_perm (List.reverse_perm _)))
  obtain ⟨-, hsame, -⟩ := directory_collected linked_proper hroot {}
  rw [hsame _ halike hother]
  refine ⟨linked_proper, hroot, directory_ok_iff.mpr ⟨linkedChildren, hroot, fun names hnames => ?_, ?_⟩⟩
  · have hshort : ∀ names ∈ (Node.dir linkedChildren).dirs, (below root names).length ≤ FileTree.maxPath := by decide
    rw [openDir_below linked_proper hroot (hchildren.mem_dirs_iff.mp hnames), if_pos (hshort names hnames)]
  · have hfiles : filesBelow (.dir linkedChildren)
        = [[Path.ofString "a", Path.ofString "x"], [Path.ofString "b"], [Path.ofString "c"]] :=
      List.mergeSort_of_pairwise (by decide)
    have hlink : tree.read (below root [Path.ofString "c"]) = .ok [2] := by
      refine (FileTree.read_ok_iff linked_proper.rooted).mpr ⟨[Path.ofString "in"], Path.ofString "b", ?_⟩
      exact FileTree.locate_ok_iff.mpr ⟨by decide, .dir hin rfl (.along hc rfl nofun (.file hb rfl))⟩
    have hfile {names : List Bytes} {content : Bytes} (hshort : (below root names).length ≤ FileTree.maxPath)
        (h : (Node.dir linkedChildren).viewAt? names = some (.file content)) : tree.read (below root names) = .ok content := by
      rw [read_below linked_proper hroot h, if_pos hshort]
    simp only [hfiles, entryAt_ok_iff]
    refine .cons ⟨⟨["a", "x"], rfl, by decide⟩, hfile (by decide) rfl, rfl⟩ (.cons ?_ (.cons ?_ .nil))
    · exact ⟨⟨["b"], rfl, by decide⟩, hfile (by decide) rfl, rfl⟩
    · exact ⟨⟨["c"], rfl, by decide⟩, hlink, rfl⟩

/-- A name of 250 bytes, for an empty directory. -/
def longName : Bytes :=
  List.replicate 250 0x64

def longChildren : List (Bytes × Node) :=
  [(longName, .dir [])]

def longTree : FileTree :=
  ⟨.dir [(Path.ofString "r", .dir longChildren)], []⟩

/-- The path of the directory in which the empty one stands, 3901 bytes long. -/
def longRoot : Path :=
  Path.dotted 1950 (Path.ofString "r")

private theorem long_usable : Path.Usable longName where
  notSelf := by decide
  notUp := by decide
  short := by
    rw [longName, List.length_replicate]
    decide
  nonempty := by decide
  whole hmem := absurd (List.eq_of_mem_replicate hmem) (by decide)
  nonzero hmem := absurd (List.eq_of_mem_replicate hmem) (by decide)

private theorem long_proper : longTree.Proper := by
  have hr : Path.Usable (Path.ofString "r") := by decide
  have hchildren : (Node.dir longChildren).WellNamed :=
    .dir (by decide) (List.forall_mem_singleton.mpr long_usable.whole)
      (List.forall_mem_singleton.mpr (.dir List.nodup_nil nofun nofun))
  refine FileTree.proper_of_listed rfl (.dir (by decide) (by decide) (List.forall_mem_singleton.mpr hchildren)) ?_
  have hlisted : longTree.root.leaves ++ longTree.root.dirs = [[], [Path.ofString "r"], [Path.ofString "r", longName]] := by
    simp [longTree, longChildren, Node.leaves, Node.leavesIn, Node.dirs, Node.dirsIn]
  rw [hlisted]
  simp [hr, long_usable]

private theorem long_root : longTree.find longRoot = .ok (.dir longChildren) := by
  have hr : FileTree.Plain (Path.ofString "r") := ⟨by decide, by decide, by decide⟩
  have hlocate : longTree.locate true (Path.ofString "r") = .ok (.dir [Path.ofString "r"]) :=
    FileTree.locate_ok_iff.mpr ⟨by decide, .dir hr rfl .done⟩
  have hshort : longRoot.length ≤ FileTree.maxPath := by
    rw [longRoot, Path.length_dotted]
    decide
  exact FileTree.find_dir_iff.mpr ⟨_, FileTree.locate_dotted hlocate (by decide) hshort, rfl⟩

/-- An empty directory whose path is too long keeps a directory without any file from being collected. -/
theorem directory_not_collected :
    longTree.Proper ∧ longTree.find longRoot = .ok (.dir longChildren) ∧
      (directory longTree longRoot {}).result = .error (.file .nameTooLong) ∧
      ¬((∃ entries, (directory longTree longRoot {}).result = .ok entries) ↔
        ∀ names leaf, (Node.dir longChildren).get? names = some leaf → leaf.isDir = false →
          (∀ name ∈ names, ∃ text, name = Text.encode text) ∧
            ∃ content, longTree.read (below longRoot names) = .ok content) := by
  have hinner : (Node.dir longChildren).viewAt? [longName] = some .dir := by
    rw [Node.viewAt?_cons, Node.entries, longChildren, List.lookup_cons_self]
    rfl
  have hlong : ¬(below longRoot [longName]).length ≤ FileTree.maxPath := by
    obtain ⟨_, hlocate, -⟩ := FileTree.find_dir_iff.mp long_root
    have hlength := Path.length_join (FileTree.locate_ok_iff.mp hlocate).1.2.1 long_usable
    have hname : longName.length = 250 := List.length_replicate
    have hpath : longRoot.length = 3901 := Path.length_dotted _ _
    rw [below, List.foldl_cons, List.foldl_nil, FileTree.maxPath]
    omega
  have hresult : (directory longTree longRoot {}).result = .error (.file .nameTooLong) := by
    have hdirs : (Node.dir longChildren).dirs = [[], [longName]] := by simp [longChildren, Node.dirs, Node.dirsIn]
    have hfirst : longTree.openDir (below longRoot []) = .ok () := by
      rw [below, List.foldl_nil, FileTree.openDir, long_root]
      rfl
    have hsecond := openDir_below long_proper long_root hinner
    rw [if_neg hlong] at hsecond
    rw [directory_result, long_root]
    simp only [collect, hdirs, List.forM, hfirst, hsecond]
    rfl
  have hleaves : (Node.dir longChildren).leaves = [] := by simp [longChildren, Node.leaves, Node.leavesIn]
  refine ⟨long_proper, long_root, hresult, fun hiff => ?_⟩
  obtain ⟨entries, hentries⟩ := hiff.mpr fun names leaf hget hleaf => by
    have hmem := (found_named long_proper.named long_root).mem_leaves_iff.mpr ⟨leaf, hget, hleaf⟩
    rw [hleaves] at hmem
    cases hmem
  cases hresult.symm.trans hentries

end Scaffold.Sources
