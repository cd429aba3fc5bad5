import Scaffold.Proofs.Files.Node

/-!
# Walks

A path is resolved by a walk through the tree, which only depends on what stands at the places it comes by.
When directories and links stay and no link is added, a walk that was possible still is, and leads to the
same place.
-/

namespace Scaffold

/-- A tree in which directories and links are those of another, and its files are still files. There may be new files
and directories. -/
structure Node.Extends (old new : Node) : Prop where
  dir {place : List Bytes} : old.viewAt? place = some .dir → new.viewAt? place = some .dir
  file {place : List Bytes} {content : Bytes} :
    old.viewAt? place = some (.file content) → ∃ content', new.viewAt? place = some (.file content')
  link {place : List Bytes} {target : Path} :
    new.viewAt? place = some (.link target) ↔ old.viewAt? place = some (.link target)

namespace FileTree

/-- A name that is looked up where the walk is. -/
structure Plain (name : Bytes) : Prop where
  notSelf : name ≠ Path.self
  notUp : name ≠ Path.up
  short : name.length ≤ maxName

/-- The walks that lead somewhere. -/
inductive Walks (root : Node) (follow : Bool) : Nat → List Bytes → List Bytes → Bool → Spot → Prop
  | done {links here slash} : Walks root follow links here [] slash (.dir here)
  | self {links here rest slash spot} :
    Walks root follow links here rest slash spot → Walks root follow links here (Path.self :: rest) slash spot
  | up {links here rest slash spot} :
    Walks root follow links here.tail rest slash spot → Walks root follow links here (Path.up :: rest) slash spot
  | missing {links here name slash} : Plain name → root.viewAt? (name :: here).reverse = none →
    Walks root follow links here [name] slash (.entry here name none slash)
  | dir {links here name rest slash spot} : Plain name → root.viewAt? (name :: here).reverse = some .dir →
    Walks root follow links (name :: here) rest slash spot → Walks root follow links here (name :: rest) slash spot
  | file {links here name slash content} : Plain name →
    root.viewAt? (name :: here).reverse = some (.file content) →
    Walks root follow links here [name] slash (.entry here name (some (.file content)) slash)
  | link {links here name slash target} : Plain name →
    root.viewAt? (name :: here).reverse = some (.link target) → follow = false → slash = false →
    Walks root follow links here [name] slash (.entry here name (some (.link target)) slash)
  | along {links here name rest slash target spot} : Plain name →
    root.viewAt? (name :: here).reverse = some (.link target) → (rest = [] → follow = false → slash = true) →
    Walks root follow links (if target.isAbsolute then [] else here) (target.names ++ rest)
      (slash || rest.isEmpty && target.endsInSeparator) spot →
    Walks root follow (links + 1) here (name :: rest) slash spot

variable {root new : Node} {follow : Bool} {links : Nat} {here pending : List Bytes} {slash : Bool} {spot : Spot}

theorem plain_of {name : Bytes} (hself : ¬name = Path.self) (hup : ¬name = Path.up)
    (hshort : ¬maxName < name.length) : Plain name :=
  ⟨hself, hup, Nat.le_of_not_lt hshort⟩

private theorem walks_of_walk (h : walk root follow links here pending slash = .ok spot) :
    Walks root follow links here pending slash spot := by
  fun_induction walk root follow links here pending slash with
  | case1 =>
    cases h
    exact .done
  | case2 _ _ _ _ ih => exact .self (ih h)
  | case3 _ _ _ _ _ ih => exact .up (ih h)
  | case4 => cases h
  | case5 _ _ _ _ _ hself hup hshort hnone hlast =>
    cases h
    rw [List.isEmpty_iff.mp hlast]
    exact .missing (plain_of hself hup hshort) (Node.viewAt?_eq_none.mpr hnone)
  | case6 => cases h
  | case7 _ _ _ _ _ hself hup hshort _ hdir ih =>
    exact .dir (plain_of hself hup hshort) (Node.viewAt?_of_get? hdir) (ih h)
  | case8 _ _ _ _ _ hself hup hshort _ hfile hlast =>
    cases h
    rw [List.isEmpty_iff.mp hlast]
    exact .file (plain_of hself hup hshort) (Node.viewAt?_of_get? hfile)
  | case9 => cases h
  | case10 _ _ _ _ _ hself hup hshort _ hlink hstop =>
    cases h
    simp only [Bool.and_eq_true, Bool.not_eq_true', List.isEmpty_iff] at hstop
    rw [hstop.1.1]
    exact .link (plain_of hself hup hshort) (Node.viewAt?_of_get? hlink) hstop.1.2 hstop.2
  | case11 => cases h
  | case12 _ _ _ _ hself hup hshort _ hlink hstop _ ih =>
    refine .along (plain_of hself hup hshort) (Node.viewAt?_of_get? hlink) ?_ (ih h)
    intro hlast hfollow
    simpa [hlast, hfollow] using hstop

private theorem walk_of_walks (h : Walks root follow links here pending slash spot) :
    walk root follow links here pending slash = .ok spot := by
  induction h with
  | done => rw [walk]
  | self _ ih =>
    rw [walk, if_pos rfl]
    exact ih
  | up _ ih =>
    rw [walk, if_neg (by decide), if_pos rfl]
    exact ih
  | missing hplain hnone =>
    rw [walk, if_neg hplain.notSelf, if_neg hplain.notUp, if_neg (Nat.not_lt.mpr hplain.short),
      Node.viewAt?_eq_none.mp hnone]
    rfl
  | dir hplain hdir _ ih =>
    obtain ⟨entries, hentries⟩ := Node.viewAt?_eq_dir.mp hdir
    rw [walk, if_neg hplain.notSelf, if_neg hplain.notUp, if_neg (Nat.not_lt.mpr hplain.short), hentries]
    exact ih
  | file hplain hfile =>
    rw [walk, if_neg hplain.notSelf, if_neg hplain.notUp, if_neg (Nat.not_lt.mpr hplain.short), Node.get?_of_file hfile]
    rfl
  | link hplain hlink hfollow hslash =>
    rw [walk, if_neg hplain.notSelf, if_neg hplain.notUp, if_neg (Nat.not_lt.mpr hplain.short), Node.get?_of_link hlink,
      hfollow, hslash]
    rfl
  | @along _ _ _ rest slash _ _ hplain hlink hgo _ ih =>
    rw [walk, if_neg hplain.notSelf, if_neg hplain.notUp, if_neg (Nat.not_lt.mpr hplain.short), Node.get?_of_link hlink]
    refine (if_neg ?_).trans ih
    intro hstop
    simp only [Bool.and_eq_true, Bool.not_eq_true', List.isEmpty_iff] at hstop
    rw [hgo hstop.1.1 hstop.1.2] at hstop
    exact absurd hstop.2 (by decide)

/-- A walk is one of the walks that lead somewhere, or it fails. -/
theorem walk_ok_iff :
    walk root follow links here pending slash = .ok spot ↔ Walks root follow links here pending slash spot :=
  ⟨walks_of_walk, walk_of_walks⟩

theorem Walks.unique {other : Spot} (h : Walks root follow links here pending slash spot)
    (h' : Walks root follow links here pending slash other) : spot = other :=
  Except.ok.inj ((walk_of_walks h).symm.trans (walk_of_walks h'))

/-! ## Where a walk leads -/

/-- What a walk says of the spot it leads to: it is a directory, or a name in one that stands for no directory, and for
no link if links are followed. -/
def Sound (root : Node) (follow : Bool) : Spot → Prop
  | .dir names => root.viewAt? names.reverse = some .dir
  | .entry parent name node _ =>
    root.viewAt? parent.reverse = some .dir ∧ root.viewAt? (name :: parent).reverse = node.map Node.view ∧
      (∀ entries, node ≠ some (.dir entries)) ∧ (follow = true → ∀ target, node ≠ some (.link target))

private theorem tail_dir (h : root.viewAt? here.reverse = some .dir) :
    root.viewAt? here.tail.reverse = some .dir := by
  cases here with
  | nil => exact h
  | cons name rest =>
    have hplace : root.viewAt? (rest.reverse ++ [name]) ≠ none := by
      rw [← List.reverse_cons, h]
      exact nofun
    exact Node.viewAt?_parent hplace

theorem root_dir {place : List Bytes} (h : root.viewAt? place = some .dir) :
    root.viewAt? [] = some .dir := by
  cases place with
  | nil => exact h
  | cons name rest =>
    cases root with
    | file content => cases h
    | link target => cases h
    | dir entries => rfl

/-- A walk from a directory leads to a directory or to a name in one. -/
theorem Walks.sound (h : Walks root follow links here pending slash spot)
    (hhere : root.viewAt? here.reverse = some .dir) : Sound root follow spot := by
  induction h with
  | done => exact hhere
  | self _ ih => exact ih hhere
  | up _ ih => exact ih (tail_dir hhere)
  | missing _ hnone => exact ⟨hhere, hnone, nofun, nofun⟩
  | dir _ hdir _ ih => exact ih hdir
  | file _ hfile => exact ⟨hhere, hfile, nofun, nofun⟩
  | link _ hlink hfollow _ => exact ⟨hhere, hlink, nofun, fun h => absurd (hfollow.symm.trans h) (by decide)⟩
  | @along _ _ _ _ _ target _ _ _ _ _ ih =>
    refine ih ?_
    by_cases habsolute : target.isAbsolute = true
    · rw [if_pos habsolute]
      exact root_dir hhere
    · rw [if_neg habsolute]
      exact hhere

theorem Walks.not_dir {parent : List Bytes} {name : Bytes} {node : Option Node} {s : Bool}
    (h : Walks root follow links here pending slash (.entry parent name node s)) (entries : List (Bytes × Node)) :
    node ≠ some (.dir entries) := by
  generalize hspot : Spot.entry parent name node s = spot at h
  induction h with
  | done => cases hspot
  | self _ ih => exact ih hspot
  | up _ ih => exact ih hspot
  | missing =>
    cases hspot
    exact nofun
  | dir _ _ _ ih => exact ih hspot
  | file =>
    cases hspot
    exact nofun
  | link =>
    cases hspot
    exact nofun
  | along _ _ _ _ ih => exact ih hspot

theorem Walks.slash_of_slash {parent : List Bytes} {name : Bytes} {node : Option Node} {s : Bool}
    (h : Walks root follow links here pending slash (.entry parent name node s)) (hslash : slash = true) :
    s = true := by
  generalize hspot : Spot.entry parent name node s = spot at h
  induction h with
  | done => cases hspot
  | self _ ih => exact ih hslash hspot
  | up _ ih => exact ih hslash hspot
  | missing => cases hspot; exact hslash
  | dir _ _ _ ih => exact ih hslash hspot
  | file => cases hspot; exact hslash
  | link => cases hspot; exact hslash
  | along _ _ _ _ ih => exact ih (by rw [hslash]; rfl) hspot

/-! ## Larger trees -/

/-- The same spot as it is in another tree. -/
def refreshed (root : Node) : Spot → Spot
  | .dir names => .dir names
  | .entry parent name _ slash =>
    match root.get? (name :: parent).reverse with
    | some (.dir _) => .dir (name :: parent)
    | node => .entry parent name node slash

theorem Walks.extends (hextends : root.Extends new) (h : Walks root follow links here pending slash spot) :
    Walks new follow links here pending slash (refreshed new spot) := by
  induction h with
  | done => exact .done
  | self _ ih => exact .self ih
  | up _ ih => exact .up ih
  | @missing _ here name slash hplain hnone =>
    rw [refreshed]
    rcases hnew : new.get? (name :: here).reverse with _ | node
    · exact .missing hplain (Node.viewAt?_eq_none.mpr hnew)
    · cases node with
      | file content => exact .file hplain (Node.viewAt?_of_get? hnew)
      | link target =>
        rw [hextends.link.mp (Node.viewAt?_of_get? hnew)] at hnone
        cases hnone
      | dir entries => exact .dir hplain (Node.viewAt?_of_get? hnew) .done
  | dir hplain hdir _ ih => exact .dir hplain (hextends.dir hdir) ih
  | file hplain hfile =>
    obtain ⟨content, hnew⟩ := hextends.file hfile
    rw [refreshed, Node.get?_of_file hnew]
    exact .file hplain hnew
  | link hplain hlink hfollow hslash =>
    have hnew := hextends.link.mpr hlink
    rw [refreshed, Node.get?_of_link hnew]
    exact .link hplain hnew hfollow hslash
  | along hplain hlink hgo _ ih => exact .along hplain (hextends.link.mpr hlink) hgo ih

/-! ## Links at the end -/

theorem Walks.followed (h : Walks root false links here pending slash spot)
    (hspot : ∀ parent name target s, spot ≠ .entry parent name (some (.link target)) s) :
    Walks root true links here pending slash spot := by
  induction h with
  | done => exact .done
  | self _ ih => exact .self (ih hspot)
  | up _ ih => exact .up (ih hspot)
  | missing hplain hnone => exact .missing hplain hnone
  | dir hplain hdir _ ih => exact .dir hplain hdir (ih hspot)
  | file hplain hfile => exact .file hplain hfile
  | link => exact absurd rfl (hspot _ _ _ _)
  | along hplain hlink _ _ ih => exact .along hplain hlink nofun (ih hspot)

/-- Where a walk leads that follows links, another leads as well, or to a link. -/
theorem Walks.unfollowed (h : Walks root true links here pending slash spot) :
    Walks root false links here pending slash spot ∨
      ∃ parent name target s, Walks root false links here pending slash (.entry parent name (some (.link target)) s) := by
  induction h with
  | done => exact .inl .done
  | self _ ih =>
    rcases ih with ih | ⟨parent, name, target, s, ih⟩
    · exact .inl (.self ih)
    · exact .inr ⟨parent, name, target, s, .self ih⟩
  | up _ ih =>
    rcases ih with ih | ⟨parent, name, target, s, ih⟩
    · exact .inl (.up ih)
    · exact .inr ⟨parent, name, target, s, .up ih⟩
  | missing hplain hnone => exact .inl (.missing hplain hnone)
  | dir hplain hdir _ ih =>
    rcases ih with ih | ⟨parent, name, target, s, ih⟩
    · exact .inl (.dir hplain hdir ih)
    · exact .inr ⟨parent, name, target, s, .dir hplain hdir ih⟩
  | file hplain hfile => exact .inl (.file hplain hfile)
  | link _ _ hfollow => cases hfollow
  | @along _ here name rest slash target _ hplain hlink _ _ ih =>
    by_cases hstop : rest = [] ∧ slash = false
    · rw [hstop.1]
      exact .inr ⟨here, name, target, slash, .link hplain hlink rfl hstop.2⟩
    · have hgo : rest = [] → false = false → slash = true := by
        intro hrest _
        exact eq_true_of_ne_false fun hslash => hstop ⟨hrest, hslash⟩
      rcases ih with ih | ⟨parent, last, target', s, ih⟩
      · exact .inl (.along hplain hlink hgo ih)
      · exact .inr ⟨parent, last, target', s, .along hplain hlink hgo ih⟩

/-! ## The way to a spot -/

theorem Walks.front {first rest : List Bytes} (h : Walks root true links here (first ++ rest) slash spot)
    (hrest : rest ≠ []) (s : Bool) : ∃ names, Walks root true links here first s (.dir names) := by
  generalize hpending : first ++ rest = pending at h
  induction h generalizing first s with
  | done => exact absurd (List.append_eq_nil_iff.mp hpending).2 hrest
  | self _ ih =>
    cases first with
    | nil => exact ⟨_, .done⟩
    | cons name others =>
      obtain ⟨rfl, htail⟩ := List.cons.inj hpending
      obtain ⟨names, hnames⟩ := ih s htail
      exact ⟨names, .self hnames⟩
  | up _ ih =>
    cases first with
    | nil => exact ⟨_, .done⟩
    | cons name others =>
      obtain ⟨rfl, htail⟩ := List.cons.inj hpending
      obtain ⟨names, hnames⟩ := ih s htail
      exact ⟨names, .up hnames⟩
  | missing =>
    cases first with
    | nil => exact ⟨_, .done⟩
    | cons name others => exact absurd (List.append_eq_nil_iff.mp (List.cons.inj hpending).2).2 hrest
  | dir hplain hdir _ ih =>
    cases first with
    | nil => exact ⟨_, .done⟩
    | cons name others =>
      obtain ⟨rfl, htail⟩ := List.cons.inj hpending
      obtain ⟨names, hnames⟩ := ih s htail
      exact ⟨names, .dir hplain hdir hnames⟩
  | file =>
    cases first with
    | nil => exact ⟨_, .done⟩
    | cons name others => exact absurd (List.append_eq_nil_iff.mp (List.cons.inj hpending).2).2 hrest
  | link _ _ hfollow => cases hfollow
  | @along _ _ _ _ _ target _ hplain hlink _ _ ih =>
    cases first with
    | nil => exact ⟨_, .done⟩
    | cons name others =>
      obtain ⟨rfl, htail⟩ := List.cons.inj hpending
      obtain ⟨names, hnames⟩ := ih (s || others.isEmpty && target.endsInSeparator)
        ((List.append_assoc ..).trans (congrArg (target.names ++ ·) htail))
      exact ⟨names, .along hplain hlink nofun hnames⟩

end FileTree

end Scaffold
