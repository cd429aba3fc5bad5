import Mathlib.Data.List.Forall2
import Mathlib.Data.List.Nodup
import Scaffold.Project.Sources
import Scaffold.Proofs.Files.Changes
import Scaffold.Proofs.Files.Joined
import Scaffold.Proofs.Files.Leaves
import Scaffold.Proofs.Text.Decoded

/-!
# Sources of a directory

The sources of a directory are its leaves, each below the root of the Java sources with its own names. Different
leaves have different paths, and a path is among them just when something other than a directory stands there.
-/

namespace Scaffold

/-! ## Rows of results -/

private theorem mapM_ok_iff {f : α → Except ε β} {xs : List α} {ys : List β} :
    xs.mapM f = .ok ys ↔ List.Forall₂ (fun x y => f x = .ok y) xs ys := by
  induction xs generalizing ys with
  | nil =>
    rw [List.mapM_nil, List.forall₂_nil_left_iff]
    simp only [pure, Except.pure, Except.ok.injEq]
    exact eq_comm
  | cons x rest ih =>
    rw [List.mapM_cons, List.forall₂_cons_left_iff]
    rcases hx : f x with e | y
    · simp [bind, Except.bind]
    · rcases hrest : rest.mapM f with e | more
      · simp only [bind, Except.bind, reduceCtorEq, Except.ok.injEq, false_iff]
        rintro ⟨_, others, -, hothers, -⟩
        exact absurd (hrest.symm.trans (ih.mpr hothers)) nofun
      · simp only [bind, Except.bind, pure, Except.pure, Except.ok.injEq]
        constructor
        · rintro rfl
          exact ⟨y, more, rfl, ih.mp hrest, rfl⟩
        · rintro ⟨_, others, rfl, hothers, rfl⟩
          rw [Except.ok.inj (hrest.symm.trans (ih.mpr hothers))]

theorem exists_forall₂_iff {R : α → β → Prop} {xs : List α} :
    (∃ ys, List.Forall₂ R xs ys) ↔ ∀ x ∈ xs, ∃ y, R x y := by
  induction xs with
  | nil => exact iff_of_true ⟨[], .nil⟩ (List.forall_mem_nil _)
  | cons x rest ih =>
    rw [List.forall_mem_cons, ← ih]
    constructor
    · intro h
      obtain ⟨_, h⟩ := h
      obtain ⟨y, ys, hy, hys, rfl⟩ := List.forall₂_cons_left_iff.mp h
      exact ⟨⟨y, hy⟩, ys, hys⟩
    · intro h
      obtain ⟨⟨y, hy⟩, ys, hys⟩ := h
      exact ⟨y :: ys, .cons hy hys⟩

private theorem mapM_error {f : α → Except ε β} {xs : List α} {e : ε} (h : xs.mapM f = .error e) :
    ∃ x ∈ xs, f x = .error e := by
  induction xs with
  | nil => cases h
  | cons x rest ih =>
    rw [List.mapM_cons] at h
    rcases hx : f x with cause | y
    · rw [hx] at h
      cases h
      exact ⟨x, List.mem_cons_self, hx⟩
    · rcases hrest : rest.mapM f with cause | more
      · rw [hx, hrest] at h
        cases h
        obtain ⟨other, hother, hfails⟩ := ih hrest
        exact ⟨other, List.mem_cons_of_mem _ hother, hfails⟩
      · rw [hx, hrest] at h
        cases h

private theorem forM_ok_iff {f : α → Except ε Unit} {xs : List α} : xs.forM f = .ok () ↔ ∀ x ∈ xs, f x = .ok () := by
  induction xs with
  | nil => exact ⟨fun _ => List.forall_mem_nil _, fun _ => rfl⟩
  | cons x rest ih =>
    rw [List.forM, List.forall_mem_cons, ← ih]
    rcases hx : f x with e | _
    · simp [bind, Except.bind]
    · simp [bind, Except.bind]

private theorem forM_error {f : α → Except ε Unit} {xs : List α} {e : ε} (h : xs.forM f = .error e) :
    ∃ x ∈ xs, f x = .error e := by
  induction xs with
  | nil => cases h
  | cons x rest ih =>
    rw [List.forM] at h
    rcases hx : f x with cause | _
    · rw [hx] at h
      cases h
      exact ⟨x, List.mem_cons_self, hx⟩
    · rw [hx] at h
      obtain ⟨other, hother, hfails⟩ := ih h
      exact ⟨other, List.mem_cons_of_mem _ hother, hfails⟩

/-- Where only one failure can come about, it does not matter in which order steps are taken. -/
theorem forM_same {f : α → Except ε Unit} {xs ys : List α} {e : ε} (hmem : ∀ x, x ∈ ys ↔ x ∈ xs)
    (h : ∀ x ∈ xs, f x = .ok () ∨ f x = .error e) : ys.forM f = xs.forM f := by
  rcases hxs : xs.forM f with cause | _
  · obtain ⟨x, hx, hfails⟩ := forM_error hxs
    rcases hys : ys.forM f with reason | _
    · obtain ⟨y, hy, hfails'⟩ := forM_error hys
      have hcause := (h x hx).resolve_left fun hok => by cases hfails.symm.trans hok
      have hreason := (h y ((hmem y).mp hy)).resolve_left fun hok => by cases hfails'.symm.trans hok
      cases hfails.symm.trans hcause
      cases hfails'.symm.trans hreason
      rfl
    · cases hfails.symm.trans (forM_ok_iff.mp hys x ((hmem x).mpr hx))
  · exact forM_ok_iff.mpr fun y hy => forM_ok_iff.mp hxs y ((hmem y).mp hy)

namespace Sources

variable {tree : FileTree} {root : Path} {s : Settings} {entries : List Entry} {names : List Bytes}
  {children : List (Bytes × Node)}

/-- The names on the way to the Java sources. -/
def javaNames : List Bytes :=
  [Text.encode "src", Text.encode "main", Text.encode "java"]

theorem javaNames_clean : ∀ name ∈ javaNames, Path.separator ∉ name := by
  decide

private theorem javaRoot_names (names : List Bytes) :
    [Path.separator].intercalate (Text.encode javaRoot :: names) = [Path.separator].intercalate (javaNames ++ names) := by
  have hroot : Text.encode javaRoot = [Path.separator].intercalate javaNames := by decide
  by_cases hnames : names = []
  · rw [hnames, List.append_nil, List.intercalate_singleton, hroot]
  · have happend := Path.intercalate_append (Text.encode "src") [Text.encode "main", Text.encode "java"] names hnames
    rw [List.intercalate_cons_of_ne_nil hnames, hroot, List.append_assoc]
    exact happend.symm

theorem encode_of_mapM {names : List Bytes} {texts : List String} (h : names.mapM Text.decode? = some texts) :
    texts.map Text.encode = names := by
  induction names generalizing texts with
  | nil =>
    cases h
    rfl
  | cons name rest ih =>
    rw [List.mapM_cons] at h
    obtain ⟨text, htext, h⟩ := Option.bind_eq_some_iff.mp h
    obtain ⟨more, hmore, h⟩ := Option.bind_eq_some_iff.mp h
    cases h
    rw [List.map_cons, ih hmore]
    rcases hdecode : Text.decode name with fault | own
    · rw [Text.decode?, hdecode] at htext
      cases htext
    · rw [Text.decode?, hdecode] at htext
      cases htext
      rw [Text.encode_of_decode hdecode]

theorem entryAt_path {e : Entry} (h : entryAt tree root names = .ok e) :
    Text.encode e.path = [Path.separator].intercalate (javaNames ++ names) := by
  rw [entryAt] at h
  rcases htexts : names.mapM Text.decode? with _ | texts
  · rw [htexts] at h
    cases h
  · rcases hread : tree.read (below root names) with cause | content
    · rw [htexts, hread] at h
      cases h
    · rw [htexts, hread] at h
      cases h
      rw [Text.encode_intercalate, List.map_cons, encode_of_mapM htexts, javaRoot_names]

private theorem entryAt_error {e : Error} (h : entryAt tree root names = .error e) :
    (∃ path, e = .sourceNameNotText path) ∨ ∃ cause, e = .file cause := by
  rw [entryAt] at h
  rcases htexts : names.mapM Text.decode? with _ | texts
  · rw [htexts] at h
    cases h
    exact .inl ⟨_, rfl⟩
  · rcases hread : tree.read (below root names) with cause | content
    · rw [htexts, hread] at h
      cases h
      exact .inr ⟨_, rfl⟩
    · rw [htexts, hread] at h
      cases h

/-! ## All files -/

theorem collect_ok_iff {node : Node} :
    collect tree root node = .ok entries ↔ (∀ names ∈ node.dirs, tree.openDir (below root names) = .ok ()) ∧
      List.Forall₂ (fun names e => entryAt tree root names = .ok e) (filesBelow node) entries := by
  have hopen (names : List Bytes) : (tree.openDir (below root names)).mapError Error.file = .ok () ↔
      tree.openDir (below root names) = .ok () := by
    cases tree.openDir (below root names) with
    | error e => exact ⟨nofun, nofun⟩
    | ok u => exact ⟨fun _ => rfl, fun _ => rfl⟩
  simp only [← mapM_ok_iff, ← hopen, ← forM_ok_iff]
  rw [collect]
  rcases node.dirs.forM fun names => (tree.openDir (below root names)).mapError Error.file with e | _
  · simp [bind, Except.bind]
  · simp [bind, Except.bind]

private theorem collect_error {node : Node} {e : Error} (h : collect tree root node = .error e) :
    (∃ path, e = .sourceNameNotText path) ∨ ∃ cause, e = .file cause := by
  rw [collect] at h
  rcases hopened : node.dirs.forM fun names => (tree.openDir (below root names)).mapError Error.file with cause | _
  · rw [hopened] at h
    cases h
    obtain ⟨names, -, hopen⟩ := forM_error hopened
    rcases hdir : tree.openDir (below root names) with reason | _
    · rw [hdir] at hopen
      cases hopen
      exact .inr ⟨reason, rfl⟩
    · rw [hdir] at hopen
      cases hopen
  · rw [hopened] at h
    obtain ⟨names, -, hentry⟩ := mapM_error h
    exact entryAt_error hentry

theorem directory_result (tree : FileTree) (root : Path) (s : Settings) :
    (directory tree root s).result =
      match tree.find root with
      | .ok (.dir children) => collect tree root (.dir children)
      | _ => .error (.sourcesNotFound root) := by
  rcases hfind : tree.find root with _ | (_ | _ | children)
  · simp only [directory, hfind]
    rfl
  · simp only [directory, hfind]
    rfl
  · simp only [directory, hfind]
    rfl
  · simp only [directory, hfind]
    rcases collect tree root (.dir children) with _ | entries
    · rfl
    · rfl

/-- A directory gives the sources when it is one, every directory below it can be opened, and each file in them is one
that can be read. -/
theorem directory_ok_iff :
    (directory tree root s).result = .ok entries ↔
      ∃ children, tree.find root = .ok (.dir children) ∧
        (∀ names ∈ (Node.dir children).dirs, tree.openDir (below root names) = .ok ()) ∧
        List.Forall₂ (fun names e => entryAt tree root names = .ok e) (filesBelow (.dir children)) entries := by
  rw [directory_result]
  split
  · rename_i children hfind
    rw [collect_ok_iff]
    constructor
    · intro h
      exact ⟨children, hfind, h⟩
    · intro h
      obtain ⟨_, hother, h⟩ := h
      cases hfind.symm.trans hother
      exact h
  · rename_i hnone
    constructor
    · intro h
      cases h
    · intro h
      obtain ⟨children, hfind, -⟩ := h
      exact absurd hfind (hnone children)

theorem directory_error {e : Error} (h : (directory tree root s).result = .error e) :
    (∃ path, e = .sourcesNotFound path) ∨ (∃ path, e = .sourceNameNotText path) ∨ ∃ cause, e = .file cause := by
  rw [directory_result] at h
  split at h
  · exact .inr (collect_error h)
  · cases h
    exact .inl ⟨root, rfl⟩

private theorem directory_paths (h : (directory tree root s).result = .ok entries) :
    ∃ children, tree.find root = .ok (.dir children) ∧
      (entries.map Entry.path).map Text.encode
        = (filesBelow (.dir children)).map fun names => [Path.separator].intercalate (javaNames ++ names) := by
  obtain ⟨children, hfind, -, hentries⟩ := directory_ok_iff.mp h
  refine ⟨children, hfind, ?_⟩
  generalize filesBelow (.dir children) = files at hentries
  clear h
  induction hentries with
  | nil => rfl
  | cons hentry _ ih => rw [List.map_cons, List.map_cons, List.map_cons, ih, entryAt_path hentry]

/-! ## Distinct paths -/

theorem filesBelow_perm (node : Node) : (filesBelow node).Perm node.leaves :=
  List.mergeSort_perm _ _

theorem below_clean (h : ∀ name ∈ names, Path.separator ∉ name) :
    ∀ name ∈ javaNames ++ names, Path.separator ∉ name := by
  intro name hname
  rcases List.mem_append.mp hname with hname | hname
  · exact javaNames_clean name hname
  · exact h name hname

private theorem below_injective {first second : List Bytes} (hfirst : ∀ name ∈ first, Path.separator ∉ name)
    (hsecond : ∀ name ∈ second, Path.separator ∉ name)
    (h : [Path.separator].intercalate (javaNames ++ first) = [Path.separator].intercalate (javaNames ++ second)) :
    first = second :=
  List.append_cancel_left
    (Path.intercalate_injective (below_clean hfirst) (below_clean hsecond) (by simp [javaNames]) (by simp [javaNames]) h)

theorem found_named (h : tree.root.WellNamed) (hfind : tree.find root = .ok (.dir children)) :
    (Node.dir children).WellNamed := by
  obtain ⟨place, -, hplace⟩ := FileTree.find_dir_iff.mp hfind
  exact h.get? hplace

theorem directory_paths_nodup (hnamed : tree.root.WellNamed) (h : (directory tree root s).result = .ok entries) :
    (entries.map Entry.path).Nodup := by
  obtain ⟨children, hfind, hpaths⟩ := directory_paths h
  have hdir := found_named hnamed hfind
  have hfiles : (filesBelow (.dir children)).Nodup := (filesBelow_perm _).nodup_iff.mpr hdir.leaves_nodup
  have hencoded : ((entries.map Entry.path).map Text.encode).Nodup := by
    rw [hpaths]
    refine hfiles.map_on fun first hfirst second hsecond heq => ?_
    exact below_injective (hdir.leaves_names first ((filesBelow_perm _).mem_iff.mp hfirst))
      (hdir.leaves_names second ((filesBelow_perm _).mem_iff.mp hsecond)) heq
  exact hencoded.of_map

end Sources

end Scaffold
