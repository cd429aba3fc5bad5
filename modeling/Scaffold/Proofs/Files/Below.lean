import Scaffold.Proofs.Files.Changes
import Scaffold.Proofs.Files.Joined
import Scaffold.Proofs.Files.Leaves

/-!
# Paths below a directory

A path that goes on from a directory by the names of what stands below it leads there, through whatever links the
directory itself was found. Only its length can be in the way.
-/

namespace Scaffold

/-- A name that a file can have: it is looked up where it stands, and it is one name of a path. -/
structure Path.Usable (name : Bytes) : Prop extends FileTree.Plain name where
  nonempty : name ≠ []
  whole : separator ∉ name
  nonzero : 0 ∉ name

theorem Path.usable_iff {name : Bytes} : Usable name ↔
    (name ≠ self ∧ name ≠ up ∧ name.length ≤ FileTree.maxName) ∧ name ≠ [] ∧ separator ∉ name ∧ 0 ∉ name := by
  constructor
  · intro h
    exact ⟨⟨h.notSelf, h.notUp, h.short⟩, h.nonempty, h.whole, h.nonzero⟩
  · intro h
    obtain ⟨⟨hself, hup, hshort⟩, hne, hwhole, hzero⟩ := h
    exact ⟨⟨hself, hup, hshort⟩, hne, hwhole, hzero⟩

instance (name : Bytes) : Decidable (Path.Usable name) :=
  decidable_of_iff' _ Path.usable_iff

/-- A tree as a file system has it: its working directory is one, and in every directory the names are distinct and
usable. -/
structure FileTree.Proper (tree : FileTree) : Prop where
  rooted : tree.Rooted
  named : tree.root.WellNamed
  usable {place : List Bytes} : tree.root.viewAt? place ≠ none → ∀ name ∈ place, Path.Usable name

theorem FileTree.proper_of_listed {tree : FileTree} (hrooted : tree.Rooted) (hnamed : tree.root.WellNamed)
    (h : ∀ place ∈ tree.root.leaves ++ tree.root.dirs, ∀ name ∈ place, Path.Usable name) : tree.Proper where
  rooted := hrooted
  named := hnamed
  usable hview := h _ (List.mem_append.mpr (hnamed.mem_leaves_or_dirs hview))

namespace Path

variable {p path : Path} {name : Bytes} {more : List Bytes}

/-! ## Names that are added -/

private theorem names_separator (p q : Path) : names (p ++ separator :: q) = names p ++ names q := by
  have hp := List.splitOn_ne_nil separator p
  have hq := List.splitOn_ne_nil separator q
  rcases hpieces : p.splitOn separator with _ | ⟨first, rest⟩
  · exact absurd hpieces hp
  · have hjoin : p ++ separator :: q = [separator].intercalate (p.splitOn separator ++ q.splitOn separator) := by
      rw [hpieces, intercalate_append first rest _ hq, ← hpieces, List.intercalate_splitOn, List.intercalate_splitOn]
    have hclean : ∀ piece ∈ p.splitOn separator ++ q.splitOn separator, separator ∉ piece := by
      intro piece hpiece
      rcases List.mem_append.mp hpiece with hpiece | hpiece
      · exact not_mem_piece p piece hpiece
      · exact not_mem_piece q piece hpiece
    rw [hjoin, names_intercalate hclean (List.append_ne_nil_of_left_ne_nil hp _), List.filter_append]
    rfl

theorem Usable.names (h : Usable name) : Path.names name = [name] := by
  have hjoined : Path.names ([separator].intercalate [name]) = [name] :=
    names_joined (List.forall_mem_singleton.mpr ⟨h.whole, h.nonempty⟩) (List.cons_ne_nil _ _)
  rwa [List.intercalate_singleton] at hjoined

theorem Usable.relative (h : Usable name) : Path.isAbsolute name = false := by
  cases name with
  | nil => rfl
  | cons b rest =>
    have hb : b ≠ separator := fun heq => h.whole (heq ▸ List.mem_cons_self)
    simp [isAbsolute, hb]

theorem Usable.ends (h : Usable name) (front : Path) : Path.endsInSeparator (front ++ name) = false := by
  rw [endsInSeparator, List.getLast?_append, List.getLast?_eq_some_getLast h.nonempty, Option.some_or]
  refine beq_eq_false_iff_ne.mpr fun hlast => ?_
  exact h.whole (Option.some.inj hlast ▸ List.getLast_mem h.nonempty)

/-- A path goes on from another one by some names. -/
structure GoesOn (p path : Path) (more : List Bytes) : Prop where
  nonempty : path ≠ []
  absolute : path.isAbsolute = p.isAbsolute
  nonzero : 0 ∉ p → 0 ∉ path
  names : path.names = p.names ++ more
  ends : more ≠ [] → path.endsInSeparator = false

private theorem isAbsolute_append (hp : p ≠ []) (tail : Path) : Path.isAbsolute (p ++ tail) = p.isAbsolute := by
  cases p with
  | nil => exact absurd rfl hp
  | cons b rest => rfl

private theorem goesOn_join (hp : p ≠ []) (h : Usable name) : GoesOn p (p.join name) [name] := by
  have hempty : p.isEmpty = false := List.isEmpty_eq_false_iff.mpr hp
  rw [join, h.relative, hempty, if_neg (by decide)]
  by_cases hend : p.endsInSeparator = true
  · obtain ⟨front, rfl⟩ := List.getLast?_eq_some_iff.mp (beq_iff_eq.mp hend)
    rw [if_pos hend]
    refine ⟨List.append_ne_nil_of_left_ne_nil hp _, isAbsolute_append hp name, fun hzero hmem => ?_, ?_,
      fun _ => h.ends _⟩
    · exact (List.mem_append.mp hmem).elim hzero h.nonzero
    · have hnil : Path.names [] = [] := rfl
      rw [List.append_assoc, List.singleton_append, names_separator, names_separator, h.names, hnil, List.append_nil]
  · rw [if_neg hend]
    refine ⟨List.append_ne_nil_of_left_ne_nil hp _, isAbsolute_append hp _, fun hzero hmem => ?_, ?_, fun _ => ?_⟩
    · rcases List.mem_append.mp hmem with hmem | hmem
      · exact hzero hmem
      · exact (List.mem_cons.mp hmem).elim (by decide) h.nonzero
    · rw [names_separator, h.names]
    · rw [List.append_cons]
      exact h.ends _

theorem length_join (hp : p ≠ []) (h : Usable name) : p.length + name.length ≤ (p.join name).length := by
  rw [join, h.relative, List.isEmpty_eq_false_iff.mpr hp, if_neg (by decide)]
  split
  · exact Nat.le_of_eq List.length_append.symm
  · rw [List.length_append, List.length_cons]
    omega

theorem goesOn_foldl (hp : p ≠ []) (h : ∀ name ∈ more, Usable name) : GoesOn p (more.foldl join p) more := by
  induction more generalizing p with
  | nil => exact ⟨hp, rfl, id, (List.append_nil _).symm, fun hne => absurd rfl hne⟩
  | cons name rest ih =>
    obtain ⟨hname, hrest⟩ := List.forall_mem_cons.mp h
    have hfirst := goesOn_join hp hname
    have hlater := ih hfirst.nonempty hrest
    rw [List.foldl_cons]
    refine ⟨hlater.nonempty, hlater.absolute.trans hfirst.absolute, hlater.nonzero ∘ hfirst.nonzero, ?_, fun _ => ?_⟩
    · rw [hlater.names, hfirst.names, List.append_assoc, List.singleton_append]
    · cases rest with
      | nil => exact hfirst.ends (List.cons_ne_nil _ _)
      | cons next others => exact hlater.ends (List.cons_ne_nil _ _)

/-! ## Steps that stay -/

/-- A path after a number of steps that stay where they are. -/
def dotted : Nat → Path → Path
  | 0, path => path
  | n + 1, path => 0x2E :: separator :: dotted n path

theorem length_dotted (n : Nat) (path : Path) : (dotted n path).length = 2 * n + path.length := by
  induction n with
  | zero => rw [dotted, Nat.mul_zero, Nat.zero_add]
  | succ n ih =>
    rw [dotted, List.length_cons, List.length_cons, ih]
    omega

private theorem names_dotted (n : Nat) (path : Path) : (dotted n path).names = List.replicate n self ++ path.names := by
  induction n with
  | zero => rfl
  | succ n ih =>
    have hself : Path.names [0x2E] = [self] := by decide
    have hstep : dotted (n + 1) path = [0x2E] ++ separator :: dotted n path := rfl
    rw [hstep, names_separator, hself, ih]
    rfl

private theorem ends_dotted (n : Nat) (hpath : path ≠ []) : (dotted n path).endsInSeparator = path.endsInSeparator := by
  induction n with
  | zero => rfl
  | succ n ih =>
    have hne : dotted n path ≠ [] := by
      intro heq
      have hlength := length_dotted n path
      rw [heq, List.length_nil] at hlength
      exact hpath (List.eq_nil_of_length_eq_zero (by omega))
    rw [← ih, dotted, endsInSeparator, endsInSeparator, List.getLast?_cons_cons, List.getLast?_cons_of_ne_nil hne]

end Path

namespace FileTree

variable {tree : FileTree} {root : Node} {follow : Bool} {links : Nat} {start here names : List Bytes} {slash s : Bool}
  {spot : Spot} {p path : Path}

/-! ## Walks that go on -/

/-- A walk that comes to a directory goes on from there as another one that starts in it, whatever it has followed. -/
theorem Walks.append {first rest : List Bytes} (h : Walks root true links start first slash (.dir here))
    (hne : rest ≠ [])
    (hrest : ∀ links, Walks root true links here rest s spot) : Walks root true links start (first ++ rest) s spot := by
  generalize hspot : Spot.dir here = reached at h
  induction h with
  | done =>
    cases hspot
    exact hrest _
  | self _ ih => exact .self (ih hspot)
  | up _ ih => exact .up (ih hspot)
  | missing => cases hspot
  | dir hplain hdir _ ih => exact .dir hplain hdir (ih hspot)
  | file => cases hspot
  | link => cases hspot
  | @along _ _ _ more _ target _ hplain hlink _ _ ih =>
    -- Names follow on the link, so a separator at the end of its target does not count.
    have hlast : (more ++ rest).isEmpty = false :=
      List.isEmpty_eq_false_iff.mpr (List.append_ne_nil_of_right_ne_nil more hne)
    have hlater := ih hspot
    refine .along hplain hlink nofun ?_
    change Walks _ _ _ _ (_ ++ (more ++ rest)) (s || (more ++ rest).isEmpty && _) spot
    rw [hlast, Bool.false_and, Bool.or_false, ← List.append_assoc]
    exact hlater

private theorem walks_down (hplain : ∀ name ∈ names, Plain name)
    (hdir : root.viewAt? (here.reverse ++ names) = some .dir) :
    Walks root follow links here names slash (.dir (names.reverse ++ here)) := by
  induction names generalizing here with
  | nil => exact .done
  | cons name rest ih =>
    obtain ⟨hname, hrest⟩ := List.forall_mem_cons.mp hplain
    have hbelow : root.viewAt? ((name :: here).reverse ++ rest) = some .dir := by
      rw [List.reverse_cons, List.append_assoc]
      exact hdir
    have hnext : root.viewAt? (name :: here).reverse = some .dir := by
      cases rest with
      | nil => rwa [List.append_nil] at hbelow
      | cons next more => exact Node.viewAt?_above (List.cons_ne_nil next more) (by rw [hbelow]; exact nofun)
    rw [List.reverse_cons, List.append_assoc]
    exact .dir hname hnext (ih hrest hbelow)

/-! ## What stands below a directory -/

/-- Where a directory was found, a path that goes on from it goes on from its place in the tree. -/
theorem locate_goesOn (hp : tree.locate true p = .ok (.dir here)) (h : Path.GoesOn p path names) (hne : names ≠ [])
    (hshort : path.length ≤ maxPath) (hrest : ∀ links, Walks tree.root true links here names false spot) :
    tree.locate true path = .ok spot := by
  obtain ⟨⟨hnonzero, -, -⟩, hwalks⟩ := locate_ok_iff.mp hp
  refine locate_ok_iff.mpr ⟨⟨h.nonzero hnonzero, h.nonempty, hshort⟩, ?_⟩
  rw [h.absolute, h.names, h.ends hne]
  exact hwalks.append hne hrest

/-- A path leads to the same place after steps that stay, as long as it is not too long. -/
theorem locate_dotted {n : Nat} (hp : tree.locate follow p = .ok spot) (hrelative : p.isAbsolute = false)
    (hshort : (Path.dotted n p).length ≤ maxPath) : tree.locate follow (Path.dotted n p) = .ok spot := by
  obtain ⟨⟨hnonzero, hne, -⟩, hwalks⟩ := locate_ok_iff.mp hp
  have hstay (n : Nat) : 0 ∉ Path.dotted n p ∧ Path.dotted n p ≠ [] ∧ (Path.dotted n p).isAbsolute = false := by
    induction n with
    | zero => exact ⟨hnonzero, hne, hrelative⟩
    | succ n ih =>
      refine ⟨fun hmem => ?_, List.cons_ne_nil _ _, rfl⟩
      rcases List.mem_cons.mp hmem with hzero | hmem
      · exact absurd hzero (by decide)
      · exact (List.mem_cons.mp hmem).elim (by decide) ih.1
  obtain ⟨hzero, hempty, habsolute⟩ := hstay n
  refine locate_ok_iff.mpr ⟨⟨hzero, hempty, hshort⟩, ?_⟩
  rw [Path.names_dotted, Path.ends_dotted n hne, habsolute]
  rw [hrelative] at hwalks
  clear hshort hzero hempty habsolute
  induction n with
  | zero => exact hwalks
  | succ n ih => exact .self ih

private theorem find_long (hp : tree.locate true p = .ok spot) (h : Path.GoesOn p path names)
    (hlong : maxPath < path.length) :
    tree.find path = .error .nameTooLong := by
  have hnonzero := h.nonzero (locate_ok_iff.mp hp).1.1
  have hempty : path.isEmpty = false := List.isEmpty_eq_false_iff.mpr h.nonempty
  rw [find, locate, if_neg hnonzero, hempty, if_neg (by decide), if_pos hlong]
  rfl

/-- A directory below another one is opened unless its path is too long. -/
theorem openDir_goesOn (hp : tree.locate true p = .ok (.dir here)) (h : Path.GoesOn p path names) (hne : names ≠ [])
    (hplain : ∀ name ∈ names, Plain name) (hdir : tree.root.viewAt? (here.reverse ++ names) = some .dir) :
    tree.openDir path = if path.length ≤ maxPath then .ok () else .error .nameTooLong := by
  by_cases hshort : path.length ≤ maxPath
  · have hlocate := locate_goesOn hp h hne hshort fun links => walks_down hplain hdir
    obtain ⟨entries, hentries⟩ := Node.viewAt?_eq_dir.mp hdir
    have hget : tree.root.get? (names.reverse ++ here).reverse = some (.dir entries) := by
      rwa [List.reverse_append, List.reverse_reverse]
    rw [if_pos hshort, openDir, find_dir_iff.mpr ⟨_, hlocate, hget⟩]
    rfl
  · rw [if_neg hshort, openDir, find_long hp h (Nat.lt_of_not_le hshort)]
    rfl

theorem read_goesOn {content : Bytes} (hp : tree.locate true p = .ok (.dir here)) (h : Path.GoesOn p path names)
    (hne : names ≠ []) (hplain : ∀ name ∈ names, Plain name)
    (hfile : tree.root.viewAt? (here.reverse ++ names) = some (.file content)) :
    tree.read path = if path.length ≤ maxPath then .ok content else .error .nameTooLong := by
  by_cases hshort : path.length ≤ maxPath
  · obtain ⟨before, last, rfl⟩ := List.eq_nil_or_concat names |>.resolve_left hne
    rw [List.concat_eq_append] at *
    have hbefore : tree.root.viewAt? (here.reverse ++ before) = some .dir := by
      refine Node.viewAt?_above (List.cons_ne_nil last []) ?_
      rw [List.append_assoc, hfile]
      exact nofun
    have hlast : tree.root.viewAt? (last :: (before.reverse ++ here)).reverse = some (.file content) := by
      rw [List.reverse_cons, List.reverse_append, List.reverse_reverse, List.append_assoc]
      exact hfile
    have hdown (links : Nat) : Walks tree.root true links here before false (.dir (before.reverse ++ here)) :=
      walks_down (fun name hname => hplain name (List.mem_append_left _ hname)) hbefore
    have hlocate := locate_goesOn hp h hne hshort fun links => (hdown links).append (List.cons_ne_nil last [])
      fun links => .file (hplain last (by simp)) hlast
    rw [if_pos hshort, read, find_ok_iff.mpr (.inr ⟨_, _, hlocate⟩)]
    rfl
  · rw [if_neg hshort, read, find_long hp h (Nat.lt_of_not_le hshort)]
    rfl

end FileTree

end Scaffold
