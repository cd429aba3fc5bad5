import Scaffold.Proofs.Archive.Steps

/-!
# Steps of a writer and chunks

Each step of a write puts its own chunks into the sink, as far as there is room. Together they put those of the write,
so a write fails for want of room just when a chunk is lost.
-/

namespace Scaffold

theorem Sink.put_nil (sink : Sink) : sink.put [] = (sink, []) := by
  obtain ⟨bytes, position, room⟩ := sink
  have hfitting : fitting room [] = [] := by
    cases room with
    | none => rfl
    | some n => exact List.take_nil
  have hroom : (room.map fun n => n - 0) = room := by
    cases room <;> rfl
  simp only [put, hfitting, List.length_nil, Nat.add_zero, List.drop_nil, hroom, Prod.mk.injEq, and_true]
  simp [splice]

namespace Writer

variable {codec : Codec} {w : Writer} {next : List Chunk}

/-- A step puts the chunks before `next` into the sink, as far as there is room; a chunk it loses is one of the
given parts. -/
def Puts (parts : Part → Bool) (sink : Sink) (chunks next : List Chunk) : Writer × Except SinkError Unit → Prop
  | (after, .ok ()) => sink.putChunks chunks = after.sink.putChunks next
  | (after, .error .noSpace) => ∃ c, sink.putChunks chunks = (after.sink, some c) ∧ parts c.part = true
  | (after, .error _) => sink.putChunks chunks = (after.sink, none)

theorem Puts.trans {parts : Part → Bool} {sink middle : Sink} {chunks middle' last : List Chunk}
    {result : Writer × Except SinkError Unit} (hfirst : sink.putChunks chunks = middle.putChunks middle')
    (h : Puts parts middle middle' last result) : Puts parts sink chunks last result := by
  obtain ⟨after, (_ | _ | _) | _⟩ := result
  all_goals
    simp only [Puts] at h ⊢
    rw [hfirst]
    exact h

theorem Puts.stopped {parts parts' : Part → Bool} {sink : Sink} {chunks : List Chunk} {after : Writer}
    {cause : SinkError} (h : Puts parts sink chunks next (after, .error cause))
    (hparts : ∀ part, parts part = true → parts' part = true) (next' : List Chunk) :
    Puts parts' sink chunks next' (after, .error cause) := by
  cases cause with
  | noSpace =>
    obtain ⟨c, hlost, hpart⟩ := h
    exact ⟨c, hlost, hparts c.part hpart⟩
  | closed => exact h
  | tooLarge => exact h

theorem Puts.failed {parts : Part → Bool} {sink : Sink} {chunks : List Chunk} {after : Writer} {cause : SinkError}
    (h : Puts parts sink chunks next (after, .error cause)) :
    (∃ c, (sink.putChunks chunks).2 = some c ∧ parts c.part = true ∧ cause = .noSpace) ∨
      (sink.putChunks chunks).2 = none ∧ cause ≠ .noSpace := by
  cases cause with
  | noSpace =>
    obtain ⟨c, hput, hpart⟩ := h
    exact .inl ⟨c, by rw [hput], hpart, rfl⟩
  | closed => exact .inr ⟨congrArg Prod.snd h, nofun⟩
  | tooLarge => exact .inr ⟨congrArg Prod.snd h, nofun⟩

private theorem closeContent_puts (codec : Codec) (next : List Chunk) (h : w.stage ≠ .broken) :
    Puts Part.closes w.sink (⟨.trailer, w.lastName, w.sink.position, w.missing codec⟩ :: next) next
      (w.closeContent codec) := by
  cases hstage : w.stage with
  | idle =>
    have hmissing : w.missing codec = [] := by rw [missing, hstage]
    rw [closeContent, hstage, hmissing]
    refine (Sink.putChunks_taken next ?_).trans ?_
    · rw [Sink.put_nil]
      rfl
    · rw [Sink.put_nil]
      rfl
  | filling content pending =>
    have hmissing : w.missing codec = pending ++ codec.trailer content := by rw [missing, hstage]
    rw [closeContent, hstage, hmissing]
    by_cases hput : (w.sink.put (pending ++ codec.trailer content)).2.isEmpty = true
    · simp only [hput, if_true]
      exact Sink.putChunks_taken next hput
    · simp only [if_neg hput]
      exact ⟨_, Sink.putChunks_lost next hput, rfl⟩
  | broken => exact absurd hstage h

/-- The first chunk to come has a place of its own, so the position of the sink does not matter. -/
theorem closeHeader_puts (c : Chunk) (rest : List Chunk) :
    Puts Part.closes w.sink (w.closingChunks w.sink.position (c :: rest)) (c :: rest) w.closeHeader := by
  rw [closeHeader, closingChunks]
  cases w.members with
  | nil => rfl
  | cons last earlier =>
    dsimp only
    generalize last.offset + Zip.localHeaderSize + last.name.length = start
    by_cases hcrc : ((w.sink.seek last.checksumChunk.place).put last.checksumChunk.data).2.isEmpty = true
    · have hfirst (more : List Chunk) := Sink.putChunks_taken more hcrc
      have hplace := Sink.put_position hcrc
      simp only [Member.checksumChunk] at hcrc hfirst hplace ⊢
      by_cases hrange : w.sink.position < start ∨ Zip.max32 < w.sink.position - start
      · simp only [hcrc, hrange, Bool.not_true, Bool.false_eq_true, if_false, if_true]
        exact hfirst []
      · simp only [hcrc, hrange, Bool.not_true, Bool.false_eq_true, if_false]
        generalize ((w.sink.seek (last.offset + Zip.checksumOffset)).put (littleEndian 4 last.crc.toNat)).1 = sink
          at hfirst hplace
        have hseek : sink.seek (last.sizesChunk (w.sink.position - start)).place = sink := by
          have hthere : last.offset + Zip.checksumOffset + 4 = sink.position := hplace.symm
          rw [Member.sizesChunk, hthere]
          rfl
        by_cases hsizes : (sink.put (last.sizesChunk (w.sink.position - start)).data).2.isEmpty = true
        · have hsecond := Sink.putChunks_taken (c :: rest) (hseek.symm ▸ hsizes)
          rw [hseek] at hsecond
          simp only [Member.sizesChunk] at hsizes hsecond ⊢
          simp only [hsizes, Bool.not_true, Bool.false_eq_true, if_false]
          exact (hfirst _).trans hsecond
        · have hsecond := Sink.putChunks_lost (c :: rest) (hseek.symm ▸ hsizes)
          rw [hseek] at hsecond
          simp only [Member.sizesChunk] at hsizes hsecond ⊢
          simp only [hsizes]
          exact ⟨_, (hfirst _).trans hsecond, rfl⟩
    · have hfirst (more : List Chunk) := Sink.putChunks_lost more hcrc
      simp only [Member.checksumChunk] at hcrc hfirst ⊢
      simp only [hcrc]
      exact ⟨_, hfirst _, rfl⟩

private theorem close_puts (codec : Codec) (h : w.stage ≠ .broken) (c : Chunk) (rest : List Chunk) :
    Puts Part.closes w.sink
      (⟨.trailer, w.lastName, w.sink.position, w.missing codec⟩ :: w.closingChunks (w.fileEnd codec) (c :: rest))
      (c :: rest) (w.close codec) := by
  have hcontent := closeContent_puts codec (w.closingChunks (w.fileEnd codec) (c :: rest)) h
  rw [close]
  rcases hclose : w.closeContent codec with ⟨after, cause | _⟩
  · rw [hclose] at hcontent
    exact hcontent.stopped (fun _ hpart => hpart) _
  · rw [hclose] at hcontent
    obtain ⟨hafter, hposition⟩ := closeContent_ok hclose
    have hheader := after.closeHeader_puts c rest
    have hmembers : after.closingChunks after.sink.position (c :: rest)
        = w.closingChunks (w.fileEnd codec) (c :: rest) := by
      rw [hposition, hafter]
      rfl
    rw [hmembers] at hheader
    exact .trans hcontent hheader

private theorem close_broken (h : w.stage = .broken) : w.close codec = (w, .error .closed) := by
  rw [close, closeContent, h]

private theorem start_puts (codec : Codec) (e : Entry) (h : w.stage ≠ .broken) :
    Puts (· != .content) w.sink (w.chunks codec e)
      (contentChunks codec e (w.fileEnd codec + (headerChunk e (w.fileEnd codec)).data.length)) (w.start codec e) := by
  rw [chunks, if_neg h]
  have hclose := close_puts codec h (headerChunk e (w.fileEnd codec))
    (contentChunks codec e (w.fileEnd codec + (headerChunk e (w.fileEnd codec)).data.length))
  have hparts (part : Part) (hpart : part.closes = true) : (part != .content) = true := by
    cases part <;> first | rfl | cases hpart
  rcases hclosed : w.close codec with ⟨after, cause | _⟩
  · rw [hclosed] at hclose
    rw [start_unclosed hclosed]
    exact hclose.stopped hparts _
  · rw [hclosed] at hclose
    rw [← (close_ok hclosed).1] at hclose ⊢
    refine .trans hclose ?_
    rcases start_closed e hclosed with ⟨hput, hstart⟩ | ⟨hput, hstart⟩
    · rw [hstart]
      exact Sink.putChunks_taken _ hput
    · rw [hstart]
      exact ⟨_, Sink.putChunks_lost _ hput, rfl⟩

private theorem fill_puts (codec : Codec) (w : Writer) (e : Entry) :
    Puts (· == .content) w.sink (contentChunks codec e w.sink.position) [] (w.fill codec e.content) := by
  rw [contentChunks, fill]
  by_cases hsize : Zip.max32 < e.content.length
  · simp only [if_pos hsize]
    rfl
  · simp only [if_neg hsize]
    by_cases hput : (w.sink.put (codec.body e.content)).2.isEmpty = true
    · simp only [hput, if_true]
      exact Sink.putChunks_taken [] hput
    · simp only [hput]
      exact ⟨_, Sink.putChunks_lost [] hput, rfl⟩

/-! ## Writes -/

/-- What is charged with a lost chunk: a new content is charged to the new entry, and everything before it to the
open entry if there is one. -/
def charged (w : Writer) (e : Entry) (part : Part) : String :=
  if part = .content then e.path else w.openPath.getD e.path

/-- A write of a new path fails for want of room just when a chunk is lost. -/
theorem write_lost (codec : Codec) {e : Entry} (hnew : e.path ∉ w.attempted) :
    (∃ c, w.lost codec e = some c ∧ (w.write codec e).2 = .error (.sink (w.charged e c.part) .noSpace)) ∨
      w.lost codec e = none ∧ ∀ path, (w.write codec e).2 ≠ .error (.sink path .noSpace) := by
  have hlost : w.lost codec e = ((w.attempting e).sink.putChunks ((w.attempting e).chunks codec e)).2 := rfl
  rw [hlost]
  rcases write_cases codec hnew with ⟨after, cause, hstart, hwrite⟩ | ⟨started, hstart, hwrite⟩
  · rw [hwrite]
    have hfailed : (∃ c, ((w.attempting e).sink.putChunks ((w.attempting e).chunks codec e)).2 = some c ∧
        (c.part != .content) = true ∧ cause = .noSpace) ∨
        ((w.attempting e).sink.putChunks ((w.attempting e).chunks codec e)).2 = none ∧ cause ≠ .noSpace := by
      by_cases hbroken : (w.attempting e).stage = .broken
      · rw [start, close_broken hbroken] at hstart
        cases hstart
        rw [chunks, if_pos hbroken]
        refine .inr ⟨rfl, fun hcause => ?_⟩
        cases hcause
      · exact (hstart ▸ start_puts codec e hbroken).failed
    rcases hfailed with ⟨c, hput, hpart, rfl⟩ | ⟨hput, hcause⟩
    · refine .inl ⟨c, hput, ?_⟩
      rw [charged, if_neg (bne_iff_ne.mp hpart)]
    · refine .inr ⟨hput, fun path h => hcause ?_⟩
      cases h
      rfl
  · have hbroken : (w.attempting e).stage ≠ .broken := by
      intro hbroken
      rw [start, close_broken hbroken] at hstart
      cases hstart
    obtain ⟨closed, hclosed, hheader, hstarted⟩ := start_ok hstart
    have hputs := start_puts codec e hbroken
    rw [hstart] at hputs
    have hplace : started.sink.position
        = (w.attempting e).fileEnd codec + (headerChunk e ((w.attempting e).fileEnd codec)).data.length := by
      rw [hstarted, ← (close_ok hclosed).1]
      exact Sink.put_position hheader
    have hfill := fill_puts codec { started with openPath := some e.path } e
    rw [hplace] at hfill
    have hall := Puts.trans hputs hfill
    rcases hwrite with ⟨after, cause, hfilled, hwrite⟩ | ⟨after, hfilled, hwrite⟩
    · rw [hfilled] at hall
      rw [hwrite]
      rcases hall.failed with ⟨c, hput, hpart, rfl⟩ | ⟨hput, hcause⟩
      · refine .inl ⟨c, hput, ?_⟩
        rw [charged, if_pos (beq_iff_eq.mp hpart)]
      · refine .inr ⟨hput, fun path h => hcause ?_⟩
        cases h
        rfl
    · rw [hfilled] at hall
      rw [hwrite]
      refine .inr ⟨congrArg Prod.snd hall, fun path h => ?_⟩
      cases h

end Writer

end Scaffold
