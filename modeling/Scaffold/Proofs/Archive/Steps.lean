import Scaffold.Proofs.Archive.Chunks

/-!
# Steps of a writer

A write closes the entry before, begins the new one, and fills it. What each of these steps keeps, whether it succeeds
or fails, and what is true of the writer when it succeeds.
-/

namespace Scaffold

/-! ## Sinks -/

namespace Sink

variable {sink : Sink}

/-- The position is not behind the bytes. -/
def Within (sink : Sink) : Prop :=
  sink.position ≤ sink.bytes.length

private theorem splice_length {bytes data : Bytes} {position : Nat} (h : position ≤ bytes.length) :
    (splice bytes position data).length = max bytes.length (position + data.length) := by
  rw [splice]
  split
  · rw [List.length_append]
    omega
  · simp only [List.length_append, List.length_take, List.length_drop]
    omega

private theorem put_within (h : sink.Within) (data : Bytes) :
    (sink.put data).1.Within ∧ sink.bytes.length ≤ (sink.put data).1.bytes.length := by
  simp only [Within, put, splice_length h]
  exact ⟨Nat.le_max_right .., Nat.le_max_left ..⟩

private theorem fitting_of_taken {data : Bytes} (htaken : (sink.put data).2.isEmpty = true) :
    fitting sink.room data = data := by
  have hall := fitting_append_lost sink data
  rwa [List.isEmpty_iff.mp htaken, List.append_nil] at hall

theorem put_position {data : Bytes} (htaken : (sink.put data).2.isEmpty = true) :
    (sink.put data).1.position = sink.position + data.length := by
  simp only [put, fitting_of_taken htaken]

/-- Data of which nothing is lost stands before the position, after what stood there. -/
theorem put_taken {data : Bytes} (h : sink.Within) (htaken : (sink.put data).2.isEmpty = true) :
    (sink.put data).1.bytes.take (sink.put data).1.position = sink.bytes.take sink.position ++ data := by
  simp only [put, fitting_of_taken htaken, splice]
  split
  · rename_i hend
    rw [hend, List.take_length, List.take_of_length_le (Nat.le_of_eq List.length_append)]
  · have hlength : (sink.bytes.take sink.position ++ data).length = sink.position + data.length := by
      rw [List.length_append, List.length_take, Nat.min_eq_left h]
    rw [← hlength, List.take_left]

end Sink

/-! ## What steps keep -/

namespace Writer

variable {codec : Codec} {w : Writer}

/-- The last header stands in the sink, and the position is not behind the bytes. -/
structure Standing (w : Writer) : Prop where
  within : w.sink.Within
  header : ∀ last ∈ w.members.head?, last.offset + Zip.localHeaderSize + last.name.length ≤ w.sink.bytes.length

/-- Only the sink, the stage and the sizes of the last entry are different. -/
structure Kept (old new : Writer) : Prop where
  attempted : new.attempted = old.attempted
  accepted : new.accepted = old.accepted
  openPath : new.openPath = old.openPath
  members : new.members.map (fun m => (m.name, m.offset)) = old.members.map (fun m => (m.name, m.offset))
  bytes : old.Standing → new.sink.Within ∧ old.sink.bytes.length ≤ new.sink.bytes.length

theorem Kept.refl (w : Writer) : Kept w w :=
  ⟨rfl, rfl, rfl, rfl, fun h => ⟨h.within, Nat.le_refl _⟩⟩

theorem Kept.head {old new : Writer} (h : Kept old new) {last : Member} (hlast : last ∈ new.members.head?) :
    ∃ before ∈ old.members.head?, last.name = before.name ∧ last.offset = before.offset := by
  have hhead := congrArg List.head? h.members
  rw [List.head?_map, List.head?_map, Option.mem_def.mp hlast] at hhead
  obtain ⟨before, hbefore, heq⟩ := Option.map_eq_some_iff.mp hhead.symm
  obtain ⟨hname, hoffset⟩ := Prod.mk.inj heq
  exact ⟨before, hbefore, hname.symm, hoffset.symm⟩

theorem Kept.standing {old new : Writer} (h : Kept old new) (hold : old.Standing) : new.Standing where
  within := (h.bytes hold).1
  header last hlast := by
    obtain ⟨before, hbefore, hname, hoffset⟩ := h.head hlast
    rw [hname, hoffset]
    exact Nat.le_trans (hold.header before hbefore) (h.bytes hold).2

theorem Kept.trans {first second third : Writer} (h : Kept first second) (h' : Kept second third) :
    Kept first third where
  attempted := h'.attempted.trans h.attempted
  accepted := h'.accepted.trans h.accepted
  openPath := h'.openPath.trans h.openPath
  members := h'.members.trans h.members
  bytes hfirst :=
    ⟨(h'.bytes (h.standing hfirst)).1, Nat.le_trans (h.bytes hfirst).2 (h'.bytes (h.standing hfirst)).2⟩

theorem closeContent_ok {after : Writer} (h : w.closeContent codec = (after, .ok ())) :
    after = { w with sink := after.sink, stage := .idle } ∧ after.sink.position = w.fileEnd codec := by
  rw [closeContent] at h
  split at h
  · rename_i hstage
    cases h
    rw [fileEnd, missing, hstage]
    exact ⟨by rw [← hstage], rfl⟩
  · cases h
  · rename_i content pending hstage
    by_cases hput : (w.sink.put (pending ++ codec.trailer content)).2.isEmpty = true
    · simp only [hput, if_true] at h
      cases h
      rw [fileEnd, missing, hstage]
      exact ⟨rfl, Sink.put_position hput⟩
    · simp only [hput] at h
      cases h

private theorem closeContent_kept (codec : Codec) (w : Writer) : Kept w (w.closeContent codec).1 := by
  rw [closeContent]
  cases w.stage with
  | idle => exact .refl w
  | broken => exact .refl w
  | filling content pending =>
    dsimp only
    split
    · exact ⟨rfl, rfl, rfl, rfl, fun h => Sink.put_within h.within _⟩
    · exact ⟨rfl, rfl, rfl, rfl, fun h => Sink.put_within h.within _⟩

private theorem closeHeader_kept : Kept w w.closeHeader.1 := by
  rw [closeHeader]
  cases hmembers : w.members with
  | nil => exact .refl w
  | cons last earlier =>
    have hseek (h : w.Standing) : (w.sink.seek (last.offset + Zip.checksumOffset)).Within := by
      have hheader := h.header last (by rw [hmembers]; rfl)
      change last.offset + Zip.checksumOffset ≤ w.sink.bytes.length
      simp only [Zip.localHeaderSize, Zip.checksumOffset] at hheader ⊢
      omega
    have hfirst (h : w.Standing) := Sink.put_within (hseek h) (littleEndian 4 last.crc.toNat)
    dsimp only
    split
    · exact ⟨rfl, rfl, rfl, by rw [hmembers]; rfl, hfirst⟩
    · split
      · exact ⟨rfl, rfl, rfl, by rw [hmembers]; rfl, hfirst⟩
      · have hsecond (h : w.Standing) (data : Bytes) := Sink.put_within (hfirst h).1 data
        split
        · refine ⟨rfl, rfl, rfl, by rw [hmembers]; rfl, fun h => ⟨(hsecond h _).1, ?_⟩⟩
          exact Nat.le_trans (hfirst h).2 (hsecond h _).2
        · refine ⟨rfl, rfl, rfl, by rw [hmembers]; rfl, fun h => ?_⟩
          refine ⟨Nat.le_trans h.within ?_, ?_⟩
          · exact Nat.le_trans (hfirst h).2 (hsecond h _).2
          · exact Nat.le_trans (hfirst h).2 (hsecond h _).2

private theorem closeHeader_stage : w.closeHeader.1.stage = w.stage := by
  rw [closeHeader]
  cases w.members with
  | nil => rfl
  | cons last earlier =>
    dsimp only
    split
    · rfl
    · split
      · rfl
      · split <;> rfl

private theorem closeHeader_ok {after : Writer} (h : w.closeHeader = (after, .ok ())) :
    after.sink.position = w.sink.position := by
  rw [closeHeader] at h
  cases hmembers : w.members with
  | nil =>
    rw [hmembers] at h
    cases h
    rfl
  | cons last earlier =>
    rw [hmembers] at h
    dsimp only at h
    split at h
    · cases h
    · split at h
      · cases h
      · split at h
        · cases h
        · cases h
          rfl

/-- An entry that is closed leaves the sink at its end. -/
theorem close_ok {after : Writer} (h : w.close codec = (after, .ok ())) :
    after.sink.position = w.fileEnd codec ∧ after.stage = .idle := by
  rw [close] at h
  split at h
  · rename_i middle hcontent
    obtain ⟨hmiddle, hend⟩ := closeContent_ok hcontent
    have hstage := closeHeader_stage (w := middle)
    rw [h, hmiddle] at hstage
    exact ⟨(closeHeader_ok h).trans hend, hstage⟩
  · rename_i hfailed
    exact absurd h (hfailed after)

theorem close_kept (codec : Codec) (w : Writer) : Kept w (w.close codec).1 := by
  have hcontent := closeContent_kept codec w
  rw [close]
  rcases hclose : w.closeContent codec with ⟨after, cause | _⟩
  · rw [hclose] at hcontent
    exact hcontent
  · rw [hclose] at hcontent
    exact hcontent.trans closeHeader_kept

/-- The member that a new entry becomes at a place. -/
def begun (e : Entry) (place : Nat) : Member where
  name := Text.encode e.path
  unixMode := e.unixMode
  offset := place
  crc := Crc32.checksum e.content
  size := e.content.length

/-- The writer after the header of a new entry. -/
def begin (w : Writer) (e : Entry) : Writer :=
  { w with
    sink := (w.sink.put (headerChunk e w.sink.position).data).1
    stage := .filling [] []
    members := begun e w.sink.position :: w.members }

/-- The sink has room for the header of a new entry. -/
def Admits (w : Writer) (e : Entry) : Prop :=
  (w.sink.put (headerChunk e w.sink.position).data).2.isEmpty = true

theorem start_closed (e : Entry) {closed : Writer} (h : w.close codec = (closed, .ok ())) :
    (closed.Admits e ∧ w.start codec e = (closed.begin e, .ok ())) ∨
      ¬closed.Admits e ∧ w.start codec e = ({ closed with sink := (closed.begin e).sink }, .error .noSpace) := by
  rw [start, h]
  by_cases hput : closed.Admits e
  · exact .inl ⟨hput, if_pos hput⟩
  · exact .inr ⟨hput, if_neg hput⟩

theorem start_unclosed {e : Entry} {after : Writer} {cause : SinkError} (h : w.close codec = (after, .error cause)) :
    w.start codec e = (after, .error cause) := by
  rw [start, h]

theorem start_ok {e : Entry} {after : Writer} (h : w.start codec e = (after, .ok ())) :
    ∃ closed, w.close codec = (closed, .ok ()) ∧ closed.Admits e ∧ after = closed.begin e := by
  rcases hclose : w.close codec with ⟨closed, cause | _⟩
  · cases h.symm.trans (start_unclosed hclose)
  · rcases start_closed e hclose with ⟨hput, hstart⟩ | ⟨-, hstart⟩
    · cases h.symm.trans hstart
      exact ⟨closed, rfl, hput, rfl⟩
    · cases h.symm.trans hstart

private theorem closeContent_failed {after : Writer} {cause : SinkError}
    (h : w.closeContent codec = (after, .error cause)) :
    after.stage = .broken := by
  rw [closeContent] at h
  split at h
  · cases h
  · rename_i hstage
    cases h
    exact hstage
  · dsimp only at h
    split at h
    · cases h
    · cases h
      rfl

private theorem close_failed {after : Writer} {cause : SinkError} (h : w.close codec = (after, .error cause))
    (content pending : Bytes) : after.stage ≠ .filling content pending := by
  rw [close] at h
  split at h
  · rename_i middle hcontent
    have hstage := closeHeader_stage (w := middle)
    rw [h, (closeContent_ok hcontent).1] at hstage
    intro hfilling
    cases hstage.symm.trans hfilling
  · intro hfilling
    cases (closeContent_failed h).symm.trans hfilling

/-- An entry that is not begun leaves no entry that is being filled. -/
theorem start_failed {e : Entry} {after : Writer} {cause : SinkError} (h : w.start codec e = (after, .error cause)) :
    Kept w after ∧ ∀ content pending, after.stage ≠ .filling content pending := by
  have hkept := close_kept codec w
  rcases hclose : w.close codec with ⟨closed, cause' | _⟩
  · cases h.symm.trans (start_unclosed hclose)
    rw [hclose] at hkept
    exact ⟨hkept, close_failed hclose⟩
  · rw [hclose] at hkept
    rcases start_closed e hclose with ⟨-, hstart⟩ | ⟨-, hstart⟩
    · cases h.symm.trans hstart
    · cases h.symm.trans hstart
      refine ⟨hkept.trans ⟨rfl, rfl, rfl, rfl, fun hstanding => Sink.put_within hstanding.within _⟩, ?_⟩
      intro content pending hstage
      exact absurd ((close_ok hclose).2.symm.trans hstage) nofun

theorem fill_ok {content : Bytes} {after : Writer} (h : w.fill codec content = (after, .ok ())) :
    (w.sink.put (codec.body content)).2.isEmpty = true ∧
      after = { w with sink := (w.sink.put (codec.body content)).1, stage := .filling content [] } := by
  rw [fill] at h
  split at h
  · cases h
  · by_cases hput : (w.sink.put (codec.body content)).2.isEmpty = true
    · simp only [hput, if_true] at h
      cases h
      exact ⟨hput, by rw [List.isEmpty_iff.mp hput]⟩
    · simp only [hput] at h
      cases h

theorem fill_kept (codec : Codec) (w : Writer) (content : Bytes) : Kept w (w.fill codec content).1 := by
  rw [fill]
  split
  · exact ⟨rfl, rfl, rfl, rfl, fun h => ⟨h.within, Nat.le_refl _⟩⟩
  · exact ⟨rfl, rfl, rfl, rfl, fun h => Sink.put_within h.within _⟩

theorem Kept.lastName {old new : Writer} (h : Kept old new) : new.lastName = old.lastName := by
  have hnames := congrArg (fun names => (names.head?.map Prod.fst).getD []) h.members
  simp only [List.head?_map, Option.map_map] at hnames
  exact hnames

theorem Kept.members_nil {old new : Writer} (h : Kept old new) : new.members = [] ↔ old.members = [] := by
  rw [← List.map_eq_nil_iff, h.members, List.map_eq_nil_iff]

theorem begin_standing {e : Entry} (h : w.Standing) (hheader : w.Admits e) : (w.begin e).Standing where
  within := (Sink.put_within h.within _).1
  header last hlast := by
    cases hlast
    have hwithin := (Sink.put_within h.within (headerChunk e w.sink.position).data).1
    rw [Sink.Within, Sink.put_position hheader] at hwithin
    simp only [headerChunk, Zip.localHeader_length, ← Nat.add_assoc] at hwithin
    exact hwithin

theorem Standing.attempting (h : w.Standing) (e : Entry) : (w.attempting e).Standing :=
  ⟨h.within, h.header⟩

end Writer

end Scaffold
