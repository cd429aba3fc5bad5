import Scaffold.Store.Basic

/-!
# Templates in memory

A table of templates, each path once, that can be changed and copied from other stores.
-/

namespace Scaffold

structure MemoryStore where
  entries : List (String × Bytes) := []
  deriving DecidableEq, Repr

namespace MemoryStore

def get? (m : MemoryStore) (path : String) : Option Bytes :=
  m.entries.lookup path

def erase (m : MemoryStore) (path : String) : MemoryStore :=
  ⟨m.entries.filter fun (p, _) => p != path⟩

/-- The table with a content at a path, in place of the one that was there. -/
def insert (m : MemoryStore) (path : String) (content : Bytes) : MemoryStore :=
  ⟨(path, content) :: (m.erase path).entries⟩

private theorem lookup_cons_eq (entry : String × Bytes) (rest : List (String × Bytes)) (path : String) :
    List.lookup path (entry :: rest) = if path = entry.1 then some entry.2 else List.lookup path rest := by
  obtain ⟨p, content⟩ := entry
  by_cases h : path = p
  · simp [h]
  · simp [List.lookup_cons, h, beq_false_of_ne h]

private theorem lookup_filter (entries : List (String × Bytes)) (path other : String) :
    List.lookup other (entries.filter fun (p, _) => p != path)
      = if other = path then none else List.lookup other entries := by
  induction entries with
  | nil => simp
  | cons entry rest ih =>
    by_cases hp : entry.1 = path
    · rw [List.filter_cons_of_neg (by simp [hp]), ih, lookup_cons_eq, hp]
      split <;> rfl
    · rw [List.filter_cons_of_pos (by simp [hp]), lookup_cons_eq, ih, lookup_cons_eq]
      by_cases ho : other = path
      · rw [if_neg (by rw [ho]; exact Ne.symm hp), if_pos ho, if_pos ho]
      · rw [if_neg ho, if_neg ho]

@[simp] theorem get?_erase (m : MemoryStore) (path other : String) :
    (m.erase path).get? other = if other = path then none else m.get? other :=
  lookup_filter m.entries path other

/-- The last content at a path counts, and all other paths stay. -/
@[simp] theorem get?_insert (m : MemoryStore) (path other : String) (content : Bytes) :
    (m.insert path content).get? other = if other = path then some content else m.get? other := by
  have h := lookup_cons_eq (path, content) (m.erase path).entries other
  rw [get?, insert, h]
  by_cases ho : other = path
  · rw [if_pos ho, if_pos ho]
  · rw [if_neg ho, if_neg ho]
    exact (get?_erase m path other).trans (if_neg ho)

def toStore (m : MemoryStore) : Store where
  load path :=
    match m.get? path with
    | some content => pure content
    | none => Traced.fail (.templateNotFound path)
  quiet path := by split <;> rfl

/-- Copies paths of another store into a table, up to the first that it does not have. -/
def copyInto (m : MemoryStore) (store : Store) : List String → Attempt MemoryStore
  | [] => pure m
  | path :: rest => do copyInto (m.insert path (← store.load path)) store rest

/-- A table with the given paths of another store. -/
def copy (store : Store) (paths : List String) : Attempt MemoryStore :=
  copyInto {} store paths

end MemoryStore

end Scaffold
