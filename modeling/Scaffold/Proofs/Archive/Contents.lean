import Mathlib.Algebra.Group.Nat.Defs
import Scaffold.Archive.Writer

/-!
# Contents of a writer

Over a sink without limit the state of a writer is a function of the entries it took. The last of them is
still open: its header has no checksum and no sizes yet, and its trailer is missing. Closing it puts both
in place, and nothing before it changes.
-/

namespace Scaffold

namespace Entry

/-- The packed content of an entry, with what ends it. -/
def packed (codec : Codec) (e : Entry) : Bytes :=
  codec.body e.content ++ codec.trailer e.content

/-- The sizes of an entry, as it is and packed, can be written in a header. -/
structure Fits (codec : Codec) (e : Entry) : Prop where
  content : e.content.length ≤ Zip.max32
  packed : (e.packed codec).length ≤ Zip.max32

theorem fits_iff {codec : Codec} {e : Entry} :
    e.Fits codec ↔
      e.content.length < 2 ^ 32 ∧ (codec.body e.content ++ codec.trailer e.content).length < 2 ^ 32 := by
  have hlimit (n : Nat) : n ≤ Zip.max32 ↔ n < 2 ^ 32 := Nat.lt_succ_iff.symm
  rw [← hlimit, ← hlimit]
  exact ⟨fun h => ⟨h.content, h.packed⟩, fun h => ⟨h.1, h.2⟩⟩

theorem fits_stored {e : Entry} (h : e.content.length ≤ 0x40000000) : e.Fits Codec.stored := by
  have hpacked := Codec.stored_length_le e.content
  refine ⟨?_, ?_⟩
  · simp only [Zip.max32]
    omega
  · simp only [packed, Zip.max32]
    omega

/-- What an archive says of an entry that stands at an offset, once it is closed. -/
def member (codec : Codec) (offset : Nat) (e : Entry) : Member where
  name := Text.encode e.path
  unixMode := e.unixMode
  offset := offset
  crc := Crc32.checksum e.content
  packedSize := (e.packed codec).length
  size := e.content.length

/-- A local header and the packed content after it. -/
def record (codec : Codec) (e : Entry) : Bytes :=
  Zip.localHeader (e.member codec 0) ++ e.packed codec

end Entry

/-- The records of entries in order. -/
def Zip.records (codec : Codec) (entries : List Entry) : Bytes :=
  entries.flatMap (Entry.record codec)

/-- What an archive says of entries whose records stand in order from an offset on. -/
def Zip.members (codec : Codec) (offset : Nat) : List Entry → List Member
  | [] => []
  | e :: rest => e.member codec offset :: Zip.members codec (offset + (e.record codec).length) rest

/-- The archive of entries. -/
def Zip.archive (codec : Codec) (entries : List Entry) : Bytes :=
  let records := Zip.records codec entries
  records ++ Zip.directory (Zip.members codec 0 entries) records.length

/-- The sink that holds the given bytes, with its position behind them. -/
def Sink.full (bytes : Bytes) : Sink where
  bytes := bytes
  position := bytes.length
  room := none

namespace Writer

/-- The writer with all of the given entries closed; they are listed last first. -/
def closed (codec : Codec) (entries : List Entry) (w : Writer) : Writer :=
  { w with
    sink := Sink.full (Zip.records codec entries.reverse)
    members := (Zip.members codec 0 entries.reverse).reverse
    stage := .idle }

/-- The writer with the given entries, of which the last is open; they are listed last first. -/
def filled (codec : Codec) : List Entry → Writer → Writer
  | [], w => w.closed codec []
  | e :: before, w =>
    let records := Zip.records codec before.reverse
    let header := Zip.localHeader { name := Text.encode e.path, unixMode := e.unixMode, offset := records.length }
    { w with
      sink := Sink.full (records ++ header ++ codec.body e.content)
      members :=
        { e.member codec records.length with packedSize := 0 } :: (Zip.members codec 0 before.reverse).reverse
      stage := .filling e.content [] }

/-- The writer that took the given entries and no others; they are listed last first. -/
def holding (codec : Codec) (entries : List Entry) : Writer :=
  filled codec entries
    { attempted := entries.map Entry.path
      accepted := entries.map Entry.path
      openPath := entries.head?.map Entry.path }

/-- The writer that is about to write a new entry. -/
def attempting (w : Writer) (e : Entry) : Writer :=
  { w with attempted := e.path :: w.attempted, openPath := none }

end Writer

/-! ## Records -/

namespace Zip

@[simp] theorem records_nil (codec : Codec) : records codec [] = [] :=
  rfl

@[simp] theorem records_cons (codec : Codec) (e : Entry) (rest : List Entry) :
    records codec (e :: rest) = e.record codec ++ records codec rest :=
  rfl

private theorem records_concat (codec : Codec) (entries : List Entry) (e : Entry) :
    records codec (entries ++ [e]) = records codec entries ++ e.record codec := by
  induction entries with
  | nil => simp
  | cons first rest ih => simp only [List.cons_append, records_cons, ih, List.append_assoc]

private theorem members_concat (codec : Codec) (offset : Nat) (entries : List Entry) (e : Entry) :
    members codec offset (entries ++ [e])
      = members codec offset entries ++ [e.member codec (offset + (records codec entries).length)] := by
  induction entries generalizing offset with
  | nil => simp [members]
  | cons first rest ih =>
    simp only [List.cons_append, members, records_cons, List.length_append, ih, Nat.add_assoc]

theorem members_length (codec : Codec) (offset : Nat) (entries : List Entry) :
    (members codec offset entries).length = entries.length := by
  induction entries generalizing offset with
  | nil => rfl
  | cons first rest ih => simp only [members, List.length_cons, ih]

/-- The part of a local header before the checksum. -/
def headerFront (name : Bytes) : Bytes :=
  littleEndian 4 localMark ++ littleEndian 2 versionNeeded ++ littleEndian 2 (flags name) ++
    littleEndian 2 deflated ++ littleEndian 2 fixedTime ++ littleEndian 2 fixedDate

/-- The part of a local header after the sizes. -/
def headerBack (name : Bytes) : Bytes :=
  littleEndian 2 name.length ++ littleEndian 2 0 ++ name

private theorem localHeader_parts (m : Member) :
    localHeader m = headerFront m.name ++
      (littleEndian 4 m.crc.toNat ++ (littleEndian 4 m.packedSize ++ littleEndian 4 m.size) ++ headerBack m.name) := by
  simp only [localHeader, closingFields, headerFront, headerBack, List.append_assoc]

@[simp] private theorem headerFront_length (name : Bytes) : (headerFront name).length = checksumOffset := by
  simp [headerFront, checksumOffset]

@[simp] theorem localHeader_length (m : Member) :
    (localHeader m).length = localHeaderSize + m.name.length := by
  simp [localHeader, closingFields, localHeaderSize]
  omega

end Zip

/-! ## Sinks -/

namespace Sink

@[simp] theorem full_position (bytes : Bytes) : (full bytes).position = bytes.length :=
  rfl

@[simp] theorem put_full (bytes data : Bytes) : (full bytes).put data = (full (bytes ++ data), []) := by
  rw [put_unlimited _ _ rfl]
  simp [full, splice]

private theorem splice_over (before old data after : Bytes) (h : data.length = old.length) :
    splice (before ++ (old ++ after)) before.length data = before ++ (data ++ after) := by
  rw [splice]
  split
  · rename_i hend
    have hempty : old ++ after = [] := by
      apply List.eq_nil_of_length_eq_zero
      rw [List.length_append] at hend
      omega
    obtain ⟨rfl, rfl⟩ := List.append_eq_nil_iff.mp hempty
    rw [List.eq_nil_of_length_eq_zero h]
    simp
  · have hdrop : (before ++ (old ++ after)).drop (before.length + old.length) = after := by
      rw [← List.append_assoc, ← List.length_append, List.drop_left]
    rw [List.take_left, h, hdrop, List.append_assoc]

private theorem put_over (before old data after : Bytes) (h : data.length = old.length) :
    put { bytes := before ++ (old ++ after), position := before.length, room := none } data
      = ({ bytes := before ++ (data ++ after), position := before.length + data.length, room := none }, []) := by
  rw [put_unlimited _ _ rfl, splice_over _ _ _ _ h]

end Sink

/-! ## Steps of a writer -/

namespace Writer

variable {codec : Codec} {e : Entry} {entries : List Entry}

@[simp] private theorem holding_accepted : (holding codec entries).accepted = entries.map Entry.path := by
  cases entries <;> rfl

theorem holding_paths : (holding codec entries).paths = entries.reverse.map Entry.path := by
  rw [paths, holding_accepted, List.map_reverse]

/-- A local header with what stands around it, cut before the checksum and after the sizes. -/
private theorem header_cut (before data : Bytes) (m : Member) :
    before ++ Zip.localHeader m ++ data
      = (before ++ Zip.headerFront m.name) ++
          (littleEndian 4 m.crc.toNat ++ ((littleEndian 4 m.packedSize ++ littleEndian 4 m.size) ++
            (Zip.headerBack m.name ++ data))) := by
  simp only [Zip.localHeader_parts, List.append_assoc]

private theorem header_end (before data : Bytes) (m : Member) :
    (before ++ Zip.localHeader m ++ data).length
      = before.length + Zip.localHeaderSize + m.name.length + data.length := by
  simp only [List.length_append, Zip.localHeader_length, Nat.add_assoc]

private theorem closeHeader_full (before data : Bytes) (last m : Member) (earlier : List Member) (w : Writer)
    (hm : m = { name := last.name, unixMode := last.unixMode, offset := before.length })
    (hlast : last.offset = before.length) (hfits : data.length ≤ Zip.max32) :
    closeHeader
        { w with
          sink := Sink.full (before ++ Zip.localHeader m ++ data)
          members := last :: earlier }
      = ({ w with
            sink := Sink.full (before ++ Zip.localHeader { last with packedSize := data.length } ++ data)
            members := { last with packedSize := data.length } :: earlier }, .ok ()) := by
  have hname : m.name = last.name := by rw [hm]
  have hend := header_end before data m
  have hfront : before.length + Zip.checksumOffset = (before ++ Zip.headerFront last.name).length := by
    simp only [List.length_append, Zip.headerFront_length]
  have hseek : (Sink.full (before ++ Zip.localHeader m ++ data)).seek (before.length + Zip.checksumOffset)
      = { bytes := (before ++ Zip.headerFront last.name) ++
            (littleEndian 4 0 ++ (littleEndian 8 0 ++ (Zip.headerBack last.name ++ data)))
          position := (before ++ Zip.headerFront last.name).length
          room := none } := by
    rw [hfront, header_cut, hm]
    rfl
  have hsize : before.length + Zip.localHeaderSize + last.name.length + data.length
      - (before.length + Zip.localHeaderSize + last.name.length) = data.length := by omega
  have hrange : ¬ (before.length + Zip.localHeaderSize + last.name.length + data.length
      < before.length + Zip.localHeaderSize + last.name.length ∨ Zip.max32 < data.length) := by omega
  simp only [closeHeader, Sink.full_position, hlast, hseek, hend, hname, hsize]
  rw [Sink.put_over _ _ _ _ (by simp)]
  simp only [List.isEmpty_nil, Bool.not_true, Bool.false_eq_true, if_false, hrange]
  rw [← List.append_assoc (before ++ Zip.headerFront last.name), ← List.length_append,
    Sink.put_over _ _ _ _ (by simp)]
  simp only [List.isEmpty_nil, Bool.not_true, Bool.false_eq_true, if_false]
  simp only [Sink.seek, Sink.full, header_end]
  rw [header_cut]
  simp only [List.append_assoc]

/-- The trailer of the last entry, its checksum and its sizes come into place. -/
theorem close_filled (h : ∀ e ∈ entries, e.Fits codec) (w : Writer) :
    (w.filled codec entries).close codec = (w.closed codec entries, .ok ()) := by
  cases entries with
  | nil => rfl
  | cons e before =>
    have hfits := (h e List.mem_cons_self).packed
    have hclose := closeHeader_full (Zip.records codec before.reverse) (e.packed codec)
      { e.member codec (Zip.records codec before.reverse).length with packedSize := 0 } _
      (Zip.members codec 0 before.reverse).reverse { w with stage := .idle } rfl rfl hfits
    simp only [close, closeContent, filled, List.nil_append, Sink.put_full, List.isEmpty_nil, if_true]
    rw [List.append_assoc _ (codec.body e.content)]
    refine hclose.trans ?_
    simp only [closed, List.reverse_cons, Zip.records_concat, Zip.members_concat, List.reverse_append, Nat.zero_add,
      Entry.record, List.append_assoc]
    rfl

theorem start_filled (h : ∀ e ∈ entries, e.Fits codec) (w : Writer) (e : Entry) :
    (w.filled codec entries).start codec e
      = ({ w with
            sink := Sink.full (Zip.records codec entries.reverse ++ Zip.localHeader
              { name := Text.encode e.path, unixMode := e.unixMode
                offset := (Zip.records codec entries.reverse).length })
            members := { e.member codec (Zip.records codec entries.reverse).length with packedSize := 0 } ::
              (Zip.members codec 0 entries.reverse).reverse
            stage := .filling [] [] }, .ok ()) := by
  simp only [start, close_filled h, closed, Sink.full_position, Sink.put_full, List.isEmpty_nil, if_true]
  rfl

theorem filled_attempted (codec : Codec) (w : Writer) (entries : List Entry) :
    (w.filled codec entries).attempted = w.attempted := by
  cases entries <;> rfl

theorem filled_attempting (w : Writer) (entries : List Entry) (e : Entry) :
    (w.filled codec entries).attempting e = (w.attempting e).filled codec entries := by
  cases entries <;> rfl

theorem write_repeated (w : Writer) (h : e.path ∈ w.attempted) :
    w.write codec e = (w, .error (.duplicate e.path)) :=
  if_pos h

theorem new_of_answer (codec : Codec) {w : Writer} (h : (w.write codec e).2 ≠ .error (.duplicate e.path)) :
    e.path ∉ w.attempted :=
  fun hseen => h (congrArg Prod.snd (write_repeated w hseen))

/-- A write of a new path fails before the entry is begun, or with its content, or it succeeds. -/
theorem write_cases (codec : Codec) {w : Writer} (hnew : e.path ∉ w.attempted) :
    (∃ after cause, (w.attempting e).start codec e = (after, .error cause) ∧
      w.write codec e = (after, .error (.sink (w.openPath.getD e.path) cause))) ∨
    ∃ started, (w.attempting e).start codec e = (started, .ok ()) ∧
      ((∃ after cause, { started with openPath := some e.path }.fill codec e.content = (after, .error cause) ∧
        w.write codec e = (after, .error (.sink e.path cause))) ∨
      ∃ after, { started with openPath := some e.path }.fill codec e.content = (after, .ok ()) ∧
        w.write codec e = ({ after with accepted := e.path :: after.accepted }, .ok ())) := by
  have hwrite : w.write codec e = _ := if_neg hnew
  rcases hstart : (w.attempting e).start codec e with ⟨started, cause | _⟩
  · simp only [attempting] at hstart
    simp only [hstart] at hwrite
    exact .inl ⟨started, cause, rfl, hwrite⟩
  · simp only [attempting] at hstart
    simp only [hstart] at hwrite
    refine .inr ⟨started, rfl, ?_⟩
    rcases hfill : { started with openPath := some e.path }.fill codec e.content with ⟨after, cause | _⟩
    · simp only [hfill] at hwrite
      exact .inl ⟨after, cause, hfill, hwrite⟩
    · simp only [hfill] at hwrite
      exact .inr ⟨after, hfill, hwrite⟩

/-- An entry with a new path is taken over the closed ones, and the writer only notes its path. -/
theorem write_filled (h : ∀ e ∈ entries, e.Fits codec) (hsize : e.content.length ≤ Zip.max32) {w : Writer}
    (hnew : e.path ∉ w.attempted) :
    (w.filled codec entries).write codec e
      = ({ w with attempted := e.path :: w.attempted, accepted := e.path :: w.accepted, openPath := some e.path }.filled
          codec (e :: entries), .ok ()) := by
  have hstart := start_filled h (w.attempting e) e
  rw [← filled_attempting] at hstart
  rw [← filled_attempted codec w entries] at hnew
  rcases write_cases codec hnew with ⟨after, cause, hstopped, -⟩ | ⟨started, hstarted, hwrite⟩
  · cases hstopped.symm.trans hstart
  · cases hstarted.symm.trans hstart
    simp only [fill, if_neg (Nat.not_lt.mpr hsize), Sink.put_full, List.isEmpty_nil, if_true] at hwrite
    rcases hwrite with ⟨after, cause, hfill, -⟩ | ⟨after, hfill, hwrite⟩
    · cases hfill
    · cases hfill
      exact hwrite

theorem write_holding (h : ∀ e ∈ entries, e.Fits codec) (hsize : e.content.length ≤ Zip.max32)
    (hnew : e.path ∉ entries.map Entry.path) :
    (holding codec entries).write codec e = (holding codec (e :: entries), .ok ()) :=
  write_filled h hsize hnew

theorem write_first (hsize : e.content.length ≤ Zip.max32) : write codec {} e = (holding codec [e], .ok ()) := by
  have hfits : ∀ x ∈ ([] : List Entry), x.Fits codec := List.forall_mem_nil _
  exact write_holding hfits hsize List.not_mem_nil

theorem finish_filled (h : ∀ e ∈ entries, e.Fits codec) (w : Writer) :
    (w.filled codec entries).finish codec = .ok (Zip.archive codec entries.reverse) := by
  rw [finish, close_filled h]
  simp only [closed, List.reverse_reverse, Sink.full_position, Sink.put_full, List.isEmpty_nil, if_true]
  rfl

theorem finish_holding (h : ∀ e ∈ entries, e.Fits codec) :
    (holding codec entries).finish codec = .ok (Zip.archive codec entries.reverse) :=
  finish_filled h _

end Writer

end Scaffold
