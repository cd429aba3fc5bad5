import Scaffold.Proofs.Files.Changes

/-!
# Walks that fail

A walk that leads nowhere ends at a name that is missing, at one that is too long, at a file where there had to be a
directory, or at a link too many. Whether a link at the end is followed only counts for walks that come to it.
-/

namespace Scaffold.FileTree

/-- The walks that lead nowhere, each with what ends it. -/
inductive Halts (root : Node) (follow : Bool) : Nat → List Bytes → List Bytes → Bool → FileError → Prop
  | self {links here rest slash e} :
    Halts root follow links here rest slash e → Halts root follow links here (Path.self :: rest) slash e
  | up {links here rest slash e} :
    Halts root follow links here.tail rest slash e → Halts root follow links here (Path.up :: rest) slash e
  | long {links here name rest slash} : maxName < name.length →
    Halts root follow links here (name :: rest) slash .nameTooLong
  | missing {links here name rest slash} : Plain name → root.viewAt? (name :: here).reverse = none → rest ≠ [] →
    Halts root follow links here (name :: rest) slash .notFound
  | dir {links here name rest slash e} : Plain name → root.viewAt? (name :: here).reverse = some .dir →
    Halts root follow links (name :: here) rest slash e → Halts root follow links here (name :: rest) slash e
  | file {links here name rest slash content} : Plain name →
    root.viewAt? (name :: here).reverse = some (.file content) → rest ≠ [] →
    Halts root follow links here (name :: rest) slash .notDirectory
  | tooMany {here name rest slash target} : Plain name →
    root.viewAt? (name :: here).reverse = some (.link target) → (rest = [] → follow = false → slash = true) →
    Halts root follow 0 here (name :: rest) slash .tooManyLinks
  | along {links here name rest slash target e} : Plain name →
    root.viewAt? (name :: here).reverse = some (.link target) → (rest = [] → follow = false → slash = true) →
    Halts root follow links (if target.isAbsolute then [] else here) (target.names ++ rest)
      (slash || rest.isEmpty && target.endsInSeparator) e →
    Halts root follow (links + 1) here (name :: rest) slash e

variable {tree : FileTree} {root : Node} {follow : Bool} {links : Nat} {here pending : List Bytes} {slash : Bool}
  {path : Path} {e : FileError}

private theorem goes_along {rest : List Bytes} :
    ¬(rest.isEmpty && !follow && !slash) = true ↔ (rest = [] → follow = false → slash = true) := by
  cases follow <;> cases slash <;> simp

private theorem halts_of_walk (h : walk root follow links here pending slash = .error e) :
    Halts root follow links here pending slash e := by
  fun_induction walk root follow links here pending slash with
  | case1 => cases h
  | case2 _ _ _ _ ih => exact .self (ih h)
  | case3 _ _ _ _ _ ih => exact .up (ih h)
  | case4 _ _ _ _ _ _ _ hlong =>
    cases h
    exact .long hlong
  | case5 => cases h
  | case6 _ _ _ _ _ hself hup hshort hnone hmore =>
    cases h
    refine .missing (plain_of hself hup hshort) (Node.viewAt?_eq_none.mpr hnone) fun hrest => hmore ?_
    rw [hrest]
    rfl
  | case7 _ _ _ _ _ hself hup hshort _ hdir ih =>
    exact .dir (plain_of hself hup hshort) (Node.viewAt?_of_get? hdir) (ih h)
  | case8 => cases h
  | case9 _ _ _ _ _ hself hup hshort _ hfile hmore =>
    cases h
    refine .file (plain_of hself hup hshort) (Node.viewAt?_of_get? hfile) fun hrest => hmore ?_
    rw [hrest]
    rfl
  | case10 => cases h
  | case11 _ _ _ _ hself hup hshort _ hlink hgo =>
    cases h
    exact .tooMany (plain_of hself hup hshort) (Node.viewAt?_of_get? hlink) (goes_along.mp hgo)
  | case12 _ _ _ _ hself hup hshort _ hlink hgo _ ih =>
    exact .along (plain_of hself hup hshort) (Node.viewAt?_of_get? hlink) (goes_along.mp hgo) (ih h)

private theorem walk_of_halts (h : Halts root follow links here pending slash e) :
    walk root follow links here pending slash = .error e := by
  induction h with
  | self _ ih =>
    rw [walk, if_pos rfl]
    exact ih
  | up _ ih =>
    rw [walk, if_neg (by decide), if_pos rfl]
    exact ih
  | @long _ _ name _ _ hlong =>
    have hself : name ≠ Path.self := by
      rintro rfl
      exact absurd hlong (by decide)
    have hup : name ≠ Path.up := by
      rintro rfl
      exact absurd hlong (by decide)
    rw [walk, if_neg hself, if_neg hup, if_pos hlong]
  | missing hplain hnone hmore =>
    rw [walk, if_neg hplain.notSelf, if_neg hplain.notUp, if_neg (Nat.not_lt.mpr hplain.short),
      Node.viewAt?_eq_none.mp hnone]
    simp [hmore]
  | dir hplain hdir _ ih =>
    obtain ⟨entries, hentries⟩ := Node.viewAt?_eq_dir.mp hdir
    rw [walk, if_neg hplain.notSelf, if_neg hplain.notUp, if_neg (Nat.not_lt.mpr hplain.short), hentries]
    exact ih
  | file hplain hfile hmore =>
    rw [walk, if_neg hplain.notSelf, if_neg hplain.notUp, if_neg (Nat.not_lt.mpr hplain.short), Node.get?_of_file hfile]
    simp [hmore]
  | tooMany hplain hlink hgo =>
    rw [walk, if_neg hplain.notSelf, if_neg hplain.notUp, if_neg (Nat.not_lt.mpr hplain.short), Node.get?_of_link hlink]
    exact if_neg (goes_along.mpr hgo)
  | along hplain hlink hgo _ ih =>
    rw [walk, if_neg hplain.notSelf, if_neg hplain.notUp, if_neg (Nat.not_lt.mpr hplain.short), Node.get?_of_link hlink]
    exact (if_neg (goes_along.mpr hgo)).trans ih

/-- A walk is one of the walks that lead nowhere, or it leads somewhere. -/
theorem walk_error_iff :
    walk root follow links here pending slash = .error e ↔ Halts root follow links here pending slash e :=
  ⟨halts_of_walk, walk_of_halts⟩

theorem Halts.followed (h : Halts root false links here pending slash e) :
    Halts root true links here pending slash e := by
  induction h with
  | self _ ih => exact .self ih
  | up _ ih => exact .up ih
  | long hlong => exact .long hlong
  | missing hplain hnone hmore => exact .missing hplain hnone hmore
  | dir hplain hdir _ ih => exact .dir hplain hdir ih
  | file hplain hfile hmore => exact .file hplain hfile hmore
  | tooMany hplain hlink _ => exact .tooMany hplain hlink nofun
  | along hplain hlink _ _ ih => exact .along hplain hlink nofun ih

/-- A walk to a file cannot go on from there. Whether links at its end are followed does not count for the longer
walk, nor does a separator. -/
theorem Walks.halts_at_file {first rest parent : List Bytes} {name : Bytes} {content : Bytes} {s : Bool}
    (h : Walks root true links here first slash (.entry parent name (some (.file content)) s)) (hrest : rest ≠ [])
    (after : Bool) : Halts root follow links here (first ++ rest) after .notDirectory := by
  generalize hspot : Spot.entry parent name (some (.file content)) s = spot at h
  induction h generalizing after with
  | done => cases hspot
  | self _ ih => exact .self (ih after hspot)
  | up _ ih => exact .up (ih after hspot)
  | missing => cases hspot
  | dir hplain hdir _ ih => exact .dir hplain hdir (ih after hspot)
  | file hplain hfile => exact .file hplain hfile hrest
  | link _ _ hfollow => cases hfollow
  | along hplain hlink _ _ ih =>
    refine .along hplain hlink (fun hnil => absurd (List.append_eq_nil_iff.mp hnil).2 hrest) ?_
    have hlater (after : Bool) := ih after hspot
    simp only [List.append_assoc] at hlater
    exact hlater _

/-! ## Paths -/

/-- Where the walk along a path starts. -/
def start (tree : FileTree) (path : Path) : List Bytes :=
  if path.isAbsolute then [] else tree.cwd.reverse

private theorem locate_nul (h : 0 ∈ path) : tree.locate follow path = .error .nulInPath := by
  rw [locate, if_pos h]

private theorem locate_empty : tree.locate follow [] = .error .notFound := by
  rw [locate, if_neg List.not_mem_nil]
  rfl

private theorem locate_long (hnul : 0 ∉ path) (hlong : maxPath < path.length) :
    tree.locate follow path = .error .nameTooLong := by
  have hne : path ≠ [] := List.length_pos_iff.mp (Nat.lt_of_le_of_lt (Nat.zero_le _) hlong)
  rw [locate, if_neg hnul, if_neg (mt List.isEmpty_iff.mp hne), if_pos hlong]

private theorem locate_walk (hnul : 0 ∉ path) (hne : path ≠ []) (hshort : path.length ≤ maxPath) :
    tree.locate follow path
      = walk tree.root follow maxLinks (tree.start path) path.names path.endsInSeparator := by
  rw [locate, if_neg hnul, if_neg (mt List.isEmpty_iff.mp hne), if_neg (Nat.not_lt.mpr hshort), start]

theorem locate_error_followed (h : tree.locate false path = .error e) : tree.locate true path = .error e := by
  by_cases hnul : 0 ∈ path
  · rw [locate_nul hnul] at h ⊢
    exact h
  · by_cases hne : path = []
    · rw [hne, locate_empty] at h ⊢
      exact h
    · by_cases hlong : maxPath < path.length
      · rw [locate_long hnul hlong] at h ⊢
        exact h
      · have hshort := Nat.le_of_not_lt hlong
        rw [locate_walk hnul hne hshort, walk_error_iff] at h ⊢
        exact h.followed

/-- A path cannot be gone to its end, and not because a name is missing: the path is no path, or the walk comes to
something that it cannot go past. -/
def Blocked (tree : FileTree) (path : Path) : Prop :=
  0 ∈ path ∨ maxPath < path.length ∨
    ∃ e, e ≠ .notFound ∧ Halts tree.root false maxLinks (tree.start path) path.names path.endsInSeparator e

private theorem blocked_iff : tree.Blocked path ↔ ∃ e, e ≠ .notFound ∧ tree.locate false path = .error e := by
  by_cases hnul : 0 ∈ path
  · exact iff_of_true (.inl hnul) ⟨.nulInPath, nofun, locate_nul hnul⟩
  · by_cases hlong : maxPath < path.length
    · exact iff_of_true (.inr (.inl hlong)) ⟨.nameTooLong, nofun, locate_long hnul hlong⟩
    · rw [Blocked, or_iff_right hnul, or_iff_right hlong]
      by_cases hne : path = []
      · subst hne
        refine iff_of_false ?_ ?_
        · rintro ⟨e, -, hhalts⟩
          cases hhalts
        · rintro ⟨e, he, hlocate⟩
          exact he (Except.error.inj (hlocate.symm.trans locate_empty))
      · rw [locate_walk hnul hne (Nat.le_of_not_lt hlong)]
        simp only [walk_error_iff]

/-- A file stands on the way that a path takes, where there had to be a directory. -/
def FileOnWay (tree : FileTree) (path : Path) : Prop :=
  (0 ∉ path ∧ path.length ≤ maxPath) ∧ ∃ first rest parent name content slash,
    path.names = first ++ rest ∧ rest ≠ [] ∧
      Walks tree.root true maxLinks (tree.start path) first false (.entry parent name (some (.file content)) slash)

theorem FileOnWay.locate (h : tree.FileOnWay path) : tree.locate false path = .error .notDirectory := by
  obtain ⟨⟨hnul, hshort⟩, first, rest, parent, name, content, slash, hnames, hrest, hwalks⟩ := h
  have hne : path ≠ [] := by
    rintro rfl
    exact hrest (List.append_eq_nil_iff.mp hnames.symm).2
  rw [locate_walk hnul hne hshort, hnames, walk_error_iff]
  exact hwalks.halts_at_file hrest _

theorem FileOnWay.blocked (h : tree.FileOnWay path) : tree.Blocked path :=
  blocked_iff.mpr ⟨.notDirectory, nofun, h.locate⟩

/-- Nothing stands at a path, not even a link. -/
def Vacant (tree : FileTree) (path : Path) : Prop :=
  ∀ spot, tree.locate false path = .ok spot → ∃ parent name slash, spot = .entry parent name none slash

theorem Blocked.vacant (h : tree.Blocked path) : tree.Vacant path := by
  obtain ⟨e, -, hlocate⟩ := blocked_iff.mp h
  intro spot hspot
  cases hspot.symm.trans hlocate

theorem find_of_locate_error (h : tree.locate true path = .error e) : tree.find path = .error e := by
  rw [find, h]
  rfl

theorem read_of_find_error (h : tree.find path = .error e) : tree.read path = .error e := by
  rw [read, h]
  rfl

theorem Vacant.find (h : tree.Vacant path) (hclear : ¬tree.Blocked path) : tree.find path = .error .notFound := by
  cases hlocate : tree.locate false path with
  | error e =>
    have he : e = .notFound := Classical.byContradiction fun he => hclear (blocked_iff.mpr ⟨e, he, hlocate⟩)
    rw [he] at hlocate
    exact find_of_locate_error (locate_error_followed hlocate)
  | ok spot =>
    obtain ⟨parent, name, slash, rfl⟩ := h spot hlocate
    obtain ⟨hpath, hwalks⟩ := locate_ok_iff.mp hlocate
    have hfollowed := locate_ok_iff.mpr ⟨hpath, hwalks.followed nofun⟩
    rw [FileTree.find, hfollowed]
    rfl

theorem Blocked.find (h : tree.Blocked path) : ∃ e, e ≠ .notFound ∧ tree.find path = .error e := by
  obtain ⟨e, he, hlocate⟩ := blocked_iff.mp h
  exact ⟨e, he, find_of_locate_error (locate_error_followed hlocate)⟩

end Scaffold.FileTree
