import Scaffold.Proofs.Archive.Held

/-!
# Long names

A name is written with a length of 16 bits, and nothing looks whether it has one. So entries are taken whatever the
lengths of their paths are, while a reader finds no name that is longer than the field can say. The main statement is
about any writes over a sink without limit, also after some that failed.
-/

namespace Scaffold

/-- A reader finds an entry of an archive under its path. -/
def Zip.Finds (codec : Codec) (archive : Bytes) (path : String) : Prop :=
  ∃ items, Zip.read codec archive = some items ∧ ∃ i ∈ items, i.header.name = Text.encode path

/-! ## Names that are read -/

namespace Zip

private theorem readLittleEndian_lt {width n : Nat} {bytes rest : Bytes}
    (h : readLittleEndian width bytes = some (n, rest)) : n < 256 ^ width := by
  induction width generalizing bytes n with
  | zero =>
    cases h
    decide
  | succ width ih =>
    cases bytes with
    | nil => cases h
    | cons b bytes =>
      rw [readLittleEndian] at h
      obtain ⟨⟨high, last⟩, hhigh, heq⟩ := Option.bind_eq_some_iff.mp h
      cases heq
      have hlt := ih hhigh
      have hb := b.toNat_lt
      rw [Nat.pow_succ]
      omega

private theorem takeExactly_length {n : Nat} {bytes front rest : Bytes}
    (h : Codec.takeExactly n bytes = some (front, rest)) : front.length = n := by
  rw [Codec.takeExactly] at h
  split at h
  · rename_i hlength
    cases h
    exact hlength
  · cases h

private theorem readCentral_name {bytes rest : Bytes} {header : Header} {mode : Nat} {place : Nat × Bytes}
    (h : readCentral bytes = some (header, mode, place, rest)) : header.name.length ≤ max16 := by
  rw [readCentral] at h
  -- all that counts is the length that was read and the name of that length
  iterate 5 obtain ⟨_, -, h⟩ := Option.bind_eq_some_iff.mp h
  obtain ⟨⟨nameLength, _⟩, hlength, h⟩ := Option.bind_eq_some_iff.mp h
  iterate 6 obtain ⟨_, -, h⟩ := Option.bind_eq_some_iff.mp h
  obtain ⟨⟨name, _⟩, hname, h⟩ := Option.bind_eq_some_iff.mp h
  iterate 2 obtain ⟨_, -, h⟩ := Option.bind_eq_some_iff.mp h
  cases h
  have hlt := readLittleEndian_lt hlength
  have hexact := takeExactly_length hname
  simp only [max16]
  omega

private theorem readCentrals_names {codec : Codec} {locals : List Found} {bytes rest : Bytes} {items : List Item}
    (h : readCentrals codec locals bytes = some (items, rest)) : ∀ i ∈ items, i.header.name.length ≤ max16 := by
  induction locals generalizing bytes items with
  | nil =>
    cases h
    exact List.forall_mem_nil _
  | cons found locals ih =>
    simp only [readCentrals, Option.bind_eq_bind, Option.bind_eq_some_iff] at h
    obtain ⟨⟨header, mode, place, _⟩, hcentral, content, -, h⟩ := h
    split at h
    · obtain ⟨⟨others, _⟩, hothers, heq⟩ := Option.bind_eq_some_iff.mp h
      cases heq
      exact List.forall_mem_cons.mpr ⟨readCentral_name hcentral, ih hothers⟩
    · cases h

private theorem read_names {codec : Codec} {archive : Bytes} {items : List Item} (h : read codec archive = some items) :
    ∀ i ∈ items, i.header.name.length ≤ max16 := by
  simp only [read, Option.bind_eq_bind, Option.bind_eq_some_iff] at h
  obtain ⟨⟨found, _⟩, hcentrals, h⟩ := h
  split at h
  · cases h
    exact readCentrals_names hcentrals
  · cases h

theorem Finds.length_le {codec : Codec} {archive : Bytes} {path : String} (h : Finds codec archive path) :
    (Text.encode path).length ≤ max16 := by
  obtain ⟨items, hread, i, hi, hname⟩ := h
  rw [← hname]
  exact read_names hread i hi

theorem finds_archive_iff {codec : Codec} {entries : List Entry} (h : ∀ e ∈ entries, e.Fits codec) :
    (∀ path ∈ entries.map Entry.path, Finds codec (archive codec entries) path) ↔
      ∀ path ∈ entries.map Entry.path, (Text.encode path).length ≤ max16 := by
  constructor
  · intro hfound path hpath
    exact (hfound path hpath).length_le
  · intro hshort path hpath
    obtain ⟨e, he, rfl⟩ := List.mem_map.mp hpath
    have hread := read_archive h fun e he => hshort e.path (List.mem_map_of_mem he)
    exact ⟨_, hread, itemOf codec e, List.mem_map_of_mem he, rfl⟩

end Zip

namespace Writer

/-- All paths of a finished archive are found in it just when each of them has a length for its name. -/
theorem Settled.finds_iff {codec : Codec} {w : Writer} {archive : Bytes} (h : w.Settled codec)
    (hfinish : w.finish codec = .ok archive) :
    (∀ path ∈ w.paths, Zip.Finds codec archive path) ↔
      ∀ path ∈ w.paths, (Text.encode path).length ≤ Zip.max16 := by
  rcases h with ⟨held, h⟩ | h
  · obtain ⟨hfits, rfl⟩ := h.finish hfinish
    rw [h.paths]
    exact Zip.finds_archive_iff hfits
  · exact absurd hfinish (h.jams codec).finish

end Writer

end Scaffold
