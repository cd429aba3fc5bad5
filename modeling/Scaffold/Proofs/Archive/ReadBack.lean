import Scaffold.Archive.Reader
import Scaffold.Proofs.Archive.Contents

/-!
# Reading back

What a reader finds in the archive of entries. Every header is read field by field, as it was written; the
records come first and one after another, and the central directory goes through them in the same order.
-/

namespace Scaffold

/-- The name, the sizes and the mode of a member have their places in a header. -/
structure Member.Fits (m : Member) : Prop where
  name : m.name.length ≤ Zip.max16
  packedSize : m.packedSize ≤ Zip.max32
  size : m.size ≤ Zip.max32
  mode : m.unixMode < 0x10000

namespace Zip

/-- What a header says of a member. -/
def headerOf (m : Member) : Header :=
  ⟨deflated, fixedTime, fixedDate, m.crc.toNat, m.packedSize, m.size, m.name⟩

/-! ## Headers -/

private theorem flags_lt (name : Bytes) : flags name < Nat.pow 256 2 := by
  rw [flags]
  split <;> decide

private theorem crc_lt (crc : UInt32) : crc.toNat < Nat.pow 256 4 :=
  crc.toNat_lt

private theorem lt_of_le_max16 {n : Nat} (h : n ≤ max16) : n < Nat.pow 256 2 :=
  Nat.lt_succ_of_le h

private theorem lt_of_le_max32 {n : Nat} (h : n ≤ max32) : n < Nat.pow 256 4 :=
  Nat.lt_succ_of_le h

private theorem readMark_append (mark : Nat) (h : mark < Nat.pow 256 4) (rest : Bytes) :
    readMark mark (littleEndian 4 mark ++ rest) = some rest := by
  simp only [readMark, readLittleEndian_append h, Option.bind_eq_bind, Option.bind_some, if_true]

private theorem readMark_other {mark other : Nat} (h : other < Nat.pow 256 4) (hne : other ≠ mark) (rest : Bytes) :
    readMark mark (littleEndian 4 other ++ rest) = none := by
  simp only [readMark, readLittleEndian_append h, Option.bind_eq_bind, Option.bind_some, if_neg hne]

variable {α : Type}

private theorem bind_mark {mark : Nat} (h : mark < Nat.pow 256 4) (rest : Bytes) (next : Bytes → Option α) :
    (readMark mark (littleEndian 4 mark ++ rest) >>= next) = next rest := by
  rw [readMark_append mark h]
  rfl

private theorem bind_number {width n : Nat} (h : n < Nat.pow 256 width) (rest : Bytes)
    (next : Nat × Bytes → Option α) :
    (readLittleEndian width (littleEndian width n ++ rest) >>= next) = next (n, rest) := by
  rw [readLittleEndian_append h]
  rfl

private theorem bind_bytes {n : Nat} {bytes : Bytes} (h : bytes.length = n) (rest : Bytes)
    (next : Bytes × Bytes → Option α) :
    (Codec.takeExactly n (bytes ++ rest) >>= next) = next (bytes, rest) := by
  rw [← h, Codec.takeExactly_append]
  rfl

private theorem bind_header (m : Member) (h : m.Fits) (rest : Bytes) (next : Header × Bytes → Option α) :
    (readHeader (littleEndian 2 deflated ++ (littleEndian 2 fixedTime ++ (littleEndian 2 fixedDate ++
        (littleEndian 4 m.crc.toNat ++ (littleEndian 4 m.packedSize ++ (littleEndian 4 m.size ++ rest)))))) >>= next)
      = next (⟨deflated, fixedTime, fixedDate, m.crc.toNat, m.packedSize, m.size, []⟩, rest) := by
  refine congrArg (· >>= next) (?_ : _ = some (_, rest))
  rw [readHeader]
  refine (bind_number (by decide) _ _).trans ?_
  refine (bind_number (by decide) _ _).trans ?_
  refine (bind_number (by decide) _ _).trans ?_
  refine (bind_number (crc_lt m.crc) _ _).trans ?_
  refine (bind_number (lt_of_le_max32 h.packedSize) _ _).trans ?_
  exact bind_number (lt_of_le_max32 h.size) _ _

private theorem readLocal_localHeader (m : Member) (h : m.Fits) (packed rest : Bytes)
    (hpacked : packed.length = m.packedSize) :
    readLocal (localHeader m ++ (packed ++ rest)) = some (headerOf m, packed, rest) := by
  rw [readLocal, localHeader, closingFields]
  simp only [List.append_assoc]
  -- one step for each field, in their order
  refine (bind_mark (by decide) _ _).trans ?_
  refine (bind_number (by decide) _ _).trans ?_
  refine (bind_number (flags_lt m.name) _ _).trans ?_
  refine (bind_header m h _ _).trans ?_
  refine (bind_number (lt_of_le_max16 h.name) _ _).trans ?_
  refine (bind_number (by decide) _ _).trans ?_
  refine (bind_bytes rfl _ _).trans ?_
  refine (bind_bytes (List.length_nil) _ _).trans ?_
  exact bind_bytes hpacked _ _

private theorem wideOffset_length_lt (offset : Nat) : (wideOffset offset).length < Nat.pow 256 2 := by
  rw [wideOffset]
  split
  · decide
  · simp only [List.length_append, littleEndian_length]
    decide

private theorem readCentral_centralHeader (m : Member) (h : m.Fits) (rest : Bytes) :
    readCentral (centralHeader m ++ rest)
      = some (headerOf m, m.unixMode, (min m.offset max32, wideOffset m.offset), rest) := by
  have hpow : Nat.pow 256 4 = 0x10000 * 0x10000 := by decide
  have hmode : m.unixMode * 0x10000 < Nat.pow 256 4 := by
    rw [hpow]
    exact Nat.mul_lt_mul_of_pos_right h.mode (by decide)
  rw [readCentral, centralHeader, closingFields]
  simp only [List.append_assoc]
  -- one step for each field, in their order
  refine (bind_mark (by decide) _ _).trans ?_
  refine (bind_number (by decide) _ _).trans ?_
  refine (bind_number (by decide) _ _).trans ?_
  refine (bind_number (flags_lt m.name) _ _).trans ?_
  refine (bind_header m h _ _).trans ?_
  refine (bind_number (lt_of_le_max16 h.name) _ _).trans ?_
  refine (bind_number (wideOffset_length_lt m.offset) _ _).trans ?_
  refine (bind_number (by decide) _ _).trans ?_
  refine (bind_number (by decide) _ _).trans ?_
  refine (bind_number (by decide) _ _).trans ?_
  refine (bind_number hmode _ _).trans ?_
  refine (bind_number (lt_of_le_max32 (Nat.min_le_right ..)) _ _).trans ?_
  refine (bind_bytes rfl _ _).trans ?_
  refine (bind_bytes rfl _ _).trans ?_
  refine (bind_bytes List.length_nil _ _).trans ?_
  rw [Nat.mul_div_cancel _ (by decide : 0 < 0x10000)]
  rfl

/-! ## Archives -/

/-- What a reader says of an entry. -/
def itemOf (codec : Codec) (e : Entry) : Item :=
  ⟨headerOf (e.member codec 0), e.unixMode, e.content⟩

/-- The records of entries as a reader meets them, from an offset on. -/
def foundFrom (codec : Codec) (offset : Nat) : List Entry → List Found
  | [] => []
  | e :: rest =>
    ⟨offset, headerOf (e.member codec 0), e.packed codec⟩ :: foundFrom codec (offset + (e.record codec).length) rest

private theorem member_fits {codec : Codec} {e : Entry} (h : e.Fits codec) (hname : (Text.encode e.path).length ≤ max16)
    (offset : Nat) : (e.member codec offset).Fits where
  name := hname
  packedSize := h.packed
  size := h.content
  mode := by
    change e.unixMode < 0x10000
    rw [Entry.unixMode]
    omega

variable {codec : Codec} {entries : List Entry}

private theorem readLocals_records (h : ∀ e ∈ entries, e.Fits codec)
    (hname : ∀ e ∈ entries, (Text.encode e.path).length ≤ max16) (offset fuel : Nat) (rest : Bytes)
    (hfuel : entries.length ≤ fuel) (hrest : readLocal rest = none) :
    readLocals fuel offset (records codec entries ++ rest) = (foundFrom codec offset entries, rest) := by
  induction entries generalizing offset fuel with
  | nil =>
    cases fuel with
    | zero => rfl
    | succ fuel => simp only [records_nil, List.nil_append, readLocals, hrest, foundFrom]
  | cons e others ih =>
    obtain ⟨fuel, rfl⟩ : ∃ k, fuel = k + 1 := ⟨fuel - 1, by rw [List.length_cons] at hfuel; omega⟩
    have hfits := member_fits (h e List.mem_cons_self) (hname e List.mem_cons_self) 0
    have hread : readLocal (e.record codec ++ (records codec others ++ rest))
        = some (headerOf (e.member codec 0), e.packed codec, records codec others ++ rest) := by
      rw [Entry.record, List.append_assoc]
      exact readLocal_localHeader _ hfits _ _ rfl
    have hlength : (e.record codec ++ (records codec others ++ rest)).length - (records codec others ++ rest).length
        = (e.record codec).length := by
      rw [List.length_append]
      omega
    have hothers := ih (fun e he => h e (List.mem_cons_of_mem _ he)) (fun e he => hname e (List.mem_cons_of_mem _ he))
      (offset + (e.record codec).length) fuel (by rw [List.length_cons] at hfuel; omega)
    simp only [records_cons, List.append_assoc, readLocals, hread, hlength, hothers, foundFrom]

private theorem readCentrals_members (h : ∀ e ∈ entries, e.Fits codec)
    (hname : ∀ e ∈ entries, (Text.encode e.path).length ≤ max16) (offset : Nat) (rest : Bytes) :
    readCentrals codec (foundFrom codec offset entries) ((members codec offset entries).flatMap centralHeader ++ rest)
      = some (entries.map (itemOf codec), rest) := by
  induction entries generalizing offset with
  | nil => rfl
  | cons e others ih =>
    have hfits := member_fits (h e List.mem_cons_self) (hname e List.mem_cons_self) offset
    have hothers := ih (fun e he => h e (List.mem_cons_of_mem _ he)) (fun e he => hname e (List.mem_cons_of_mem _ he))
      (offset + (e.record codec).length)
    have hexpand : codec.expand (e.packed codec) = some e.content := codec.expand_body e.content
    simp only [foundFrom, members, List.flatMap_cons, List.append_assoc, readCentrals,
      readCentral_centralHeader _ hfits, hexpand, Option.bind_eq_bind, Option.bind_some]
    rw [if_pos ⟨rfl, rfl, rfl, rfl⟩, hothers]
    rfl

private theorem readLocal_directory (ms : List Member) (offset : Nat) : readLocal (directory ms offset) = none := by
  have hother (mark : Nat) (rest : Bytes) (h : mark < Nat.pow 256 4) (hne : mark ≠ localMark) :
      readLocal (littleEndian 4 mark ++ rest) = none := by
    simp only [readLocal, readMark_other h hne, Option.bind_eq_bind, Option.bind_none]
  cases ms with
  | nil =>
    simp only [directory, List.flatMap_nil, List.nil_append, endRecord]
    split
    · simp only [List.nil_append, List.append_assoc]
      exact hother endMark _ (by decide) (by decide)
    · simp only [wideEnd, List.append_assoc]
      exact hother wideEndMark _ (by decide) (by decide)
  | cons m rest =>
    simp only [directory, List.flatMap_cons, centralHeader, List.append_assoc]
    exact hother centralMark _ (by decide) (by decide)

private theorem length_le_records (codec : Codec) (entries : List Entry) :
    entries.length ≤ (records codec entries).length := by
  induction entries with
  | nil => exact Nat.le_refl 0
  | cons e rest ih =>
    simp only [List.length_cons, records_cons, List.length_append, Entry.record, localHeader_length, localHeaderSize]
    omega

/-- A reader finds in the archive of entries exactly these entries, in their order. -/
theorem read_archive (h : ∀ e ∈ entries, e.Fits codec)
    (hname : ∀ e ∈ entries, (Text.encode e.path).length ≤ max16) :
    read codec (archive codec entries) = some (entries.map (itemOf codec)) := by
  have hlocals := readLocals_records h hname 0 (archive codec entries).length
    (directory (members codec 0 entries) (records codec entries).length)
    (Nat.le_trans (length_le_records codec entries) (by rw [archive, List.length_append]; omega))
    (readLocal_directory _ _)
  have hcentrals := readCentrals_members h hname 0
    (endRecord (members codec 0 entries).length ((members codec 0 entries).flatMap centralHeader).length
      (records codec entries).length)
  have hread : readLocals (archive codec entries).length 0 (archive codec entries) = _ := hlocals
  rw [← directory] at hcentrals
  simp only [read, hread, hcentrals, Option.bind_eq_bind, Option.bind_some]
  have hsize : (directory (members codec 0 entries) (records codec entries).length).length
      - (endRecord (members codec 0 entries).length ((members codec 0 entries).flatMap centralHeader).length
          (records codec entries).length).length
      = ((members codec 0 entries).flatMap centralHeader).length := by
    rw [directory, List.length_append]
    omega
  have hoffset : (archive codec entries).length
      - (directory (members codec 0 entries) (records codec entries).length).length
      = (records codec entries).length := by
    rw [archive, List.length_append]
    omega
  rw [hsize, hoffset, List.length_map, members_length, if_pos rfl]

end Zip

end Scaffold
