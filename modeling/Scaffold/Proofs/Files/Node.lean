import Scaffold.Files.Tree

/-!
# Places in a tree

A place is given by the names from the root. A node that is set at a place of a directory, where there was
nothing or no directory, changes what stands at that place and at no other.
-/

namespace Scaffold

/-- What stands at a place, without what is in it. -/
inductive View where
  | file (content : Bytes)
  | link (target : Path)
  | dir
  deriving DecidableEq, Repr

namespace Node

/-- What a node is, without what is in it. -/
def view : Node → View
  | .file content => .file content
  | .link target => .link target
  | .dir _ => .dir

/-- What stands at a place. -/
def viewAt? (root : Node) (place : List Bytes) : Option View :=
  (root.get? place).map view

theorem viewAt?_cons (root : Node) (name : Bytes) (rest : List Bytes) :
    root.viewAt? (name :: rest) = (root.entries.lookup name).bind (viewAt? · rest) := by
  rw [viewAt?, get?]
  cases root.entries.lookup name with
  | none => rfl
  | some child => rfl

theorem get?_append (root : Node) (first rest : List Bytes) :
    root.get? (first ++ rest) = (root.get? first).bind (get? rest) := by
  induction first generalizing root with
  | nil => rfl
  | cons name others ih =>
    simp only [List.cons_append, get?]
    cases root.entries.lookup name with
    | none => rfl
    | some child => exact ih child

private theorem view_eq_dir {node : Node} : node.view = .dir ↔ ∃ entries, node = .dir entries := by
  cases node with
  | file content => exact ⟨nofun, nofun⟩
  | link target => exact ⟨nofun, nofun⟩
  | dir entries => exact ⟨fun _ => ⟨entries, rfl⟩, fun _ => rfl⟩

theorem viewAt?_eq_dir {root : Node} {place : List Bytes} :
    root.viewAt? place = some .dir ↔ ∃ entries, root.get? place = some (.dir entries) := by
  rw [viewAt?, Option.map_eq_some_iff]
  constructor
  · intro h
    obtain ⟨node, hnode, hview⟩ := h
    obtain ⟨entries, rfl⟩ := view_eq_dir.mp hview
    exact ⟨entries, hnode⟩
  · intro h
    obtain ⟨entries, h⟩ := h
    exact ⟨.dir entries, h, rfl⟩

theorem viewAt?_eq_none {root : Node} {place : List Bytes} : root.viewAt? place = none ↔ root.get? place = none :=
  Option.map_eq_none_iff

theorem viewAt?_of_get? {root node : Node} {place : List Bytes} (h : root.get? place = some node) :
    root.viewAt? place = some node.view := by
  rw [viewAt?, h]
  rfl

theorem get?_of_file {root : Node} {place : List Bytes} {content : Bytes}
    (h : root.viewAt? place = some (.file content)) : root.get? place = some (.file content) := by
  obtain ⟨node, hnode, hview⟩ := Option.map_eq_some_iff.mp h
  cases node with
  | file other =>
    cases hview
    exact hnode
  | link target => cases hview
  | dir entries => cases hview

theorem get?_of_link {root : Node} {place : List Bytes} {target : Path}
    (h : root.viewAt? place = some (.link target)) : root.get? place = some (.link target) := by
  obtain ⟨node, hnode, hview⟩ := Option.map_eq_some_iff.mp h
  cases node with
  | file content => cases hview
  | link other =>
    cases hview
    exact hnode
  | dir entries => cases hview

theorem viewAt?_above {root : Node} {place rest : List Bytes} (hne : rest ≠ [])
    (h : root.viewAt? (place ++ rest) ≠ none) : root.viewAt? place = some .dir := by
  obtain ⟨name, more, rfl⟩ := List.exists_cons_of_ne_nil hne
  rw [Ne, viewAt?_eq_none, get?_append] at h
  rcases hget : root.get? place with _ | node
  · exact absurd (by rw [hget]; rfl) h
  · cases node with
    | file content => exact absurd (by rw [hget]; rfl) h
    | link target => exact absurd (by rw [hget]; rfl) h
    | dir entries => exact viewAt?_of_get? hget

theorem viewAt?_parent {root : Node} {place : List Bytes} {name : Bytes}
    (h : root.viewAt? (place ++ [name]) ≠ none) : root.viewAt? place = some .dir :=
  viewAt?_above (List.cons_ne_nil name []) h

private theorem viewAt?_leaf {node : Node} (h : node.entries = []) (name : Bytes) (rest : List Bytes) :
    node.viewAt? (name :: rest) = none := by
  rw [viewAt?_cons, h]
  rfl

private theorem lookup_cons_entry (name n : Bytes) (node : Node) (rest : List (Bytes × Node)) :
    List.lookup name ((n, node) :: rest) = if name = n then some node else List.lookup name rest := by
  by_cases h : name = n
  · rw [h, List.lookup_cons_self, if_pos rfl]
  · rw [List.lookup_cons, beq_false_of_ne h, if_neg h]

private theorem lookup_setEntry (name other : Bytes) (node : Node) (entries : List (Bytes × Node)) :
    (setEntry name node entries).lookup other = if other = name then some node else entries.lookup other := by
  induction entries with
  | nil => exact lookup_cons_entry ..
  | cons entry rest ih =>
    obtain ⟨n, old⟩ := entry
    rw [setEntry]
    by_cases hn : n = name
    · rw [if_pos hn, lookup_cons_entry, lookup_cons_entry, hn]
      by_cases ho : other = name
      · rw [if_pos ho, if_pos ho]
      · rw [if_neg ho, if_neg ho, if_neg ho]
    · rw [if_neg hn, lookup_cons_entry, lookup_cons_entry, ih]
      by_cases ho : other = name
      · rw [if_pos ho, if_pos ho, if_neg (fun h => hn (h.symm.trans ho))]
      · rw [if_neg ho, if_neg ho]

/-- A node without others in it, set where there was nothing or another such node. -/
theorem viewAt?_set {root new : Node} {place : List Bytes} {name : Bytes}
    (hparent : root.viewAt? place = some .dir)
    (hold : ∀ old, root.get? (place ++ [name]) = some old → old.entries = []) (hnew : new.entries = [])
    (other : List Bytes) :
    (root.set (place ++ [name]) new).viewAt? other
      = if other = place ++ [name] then some new.view else root.viewAt? other := by
  induction place generalizing root other with
  | nil =>
    obtain ⟨entries, rfl⟩ := view_eq_dir.mp (Option.some.inj hparent)
    cases other with
    | nil => rfl
    | cons first rest =>
      rw [List.nil_append, set, set, viewAt?_cons, viewAt?_cons, Node.entries, Node.entries, lookup_setEntry]
      by_cases hfirst : first = name
      · rw [if_pos hfirst, hfirst, Option.bind_some]
        cases rest with
        | nil => exact (if_pos rfl).symm
        | cons second more =>
          rw [viewAt?_leaf hnew, if_neg (by simp)]
          rcases hlookup : entries.lookup name with _ | old
          · rfl
          · have hleaf : old.entries = [] := hold old (by rw [List.nil_append, get?, Node.entries, hlookup]; rfl)
            exact (viewAt?_leaf hleaf second more).symm
      · rw [if_neg hfirst, if_neg (fun h => hfirst (List.cons.inj h).1)]
  | cons step others ih =>
    rcases hlookup : root.entries.lookup step with _ | child
    · rw [viewAt?_cons, hlookup] at hparent
      cases hparent
    · rw [viewAt?_cons, hlookup, Option.bind_some] at hparent
      have hchild := ih hparent (fun old h => hold old (by rw [List.cons_append, get?, hlookup]; exact h))
      have hroot : root.view = .dir := by
        cases root with
        | file content => cases hlookup
        | link target => cases hlookup
        | dir entries => rfl
      cases other with
      | nil => exact (congrArg some hroot).symm
      | cons first rest =>
        rw [List.cons_append, set, hlookup, Option.getD_some, viewAt?_cons, viewAt?_cons, Node.entries, lookup_setEntry]
        by_cases hfirst : first = step
        · rw [if_pos hfirst, hfirst, hlookup, Option.bind_some, Option.bind_some, hchild rest]
          simp only [List.cons.injEq, true_and]
        · rw [if_neg hfirst, if_neg (fun h => hfirst (List.cons.inj h).1)]

end Node

end Scaffold
