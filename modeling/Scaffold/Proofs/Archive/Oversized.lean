import Mathlib.Data.Set.Finite.List
import Scaffold.Proofs.Archive.Contents

/-!
# Contents over the limit

A header has 32 bits for a size. A content that is too large is refused at once, while the size of a packed content is only
known when its entry is closed. No codec keeps all contents below a limit that they are below themselves, and an entry that
is packed over the limit is written and then never closed: the writer is stuck.
-/

namespace Scaffold

namespace Codec

private theorem packed_injective (codec : Codec) :
    Function.Injective fun content => codec.body content ++ codec.trailer content := by
  intro first second h
  have hfirst := codec.expand_body first
  rw [show codec.body first ++ codec.trailer first = _ from h, codec.expand_body] at hfirst
  exact (Option.some.inj hfirst).symm

/-- A codec that packs nothing into no bytes at all packs some content over any limit that the content keeps. -/
theorem exists_packed_over (codec : Codec) (limit : Nat)
    (h : ∀ content, codec.body content ++ codec.trailer content ≠ []) :
    ∃ content, content.length ≤ limit ∧ limit < (codec.body content ++ codec.trailer content).length := by
  by_contra hnone
  push Not at hnone
  have : Finite UInt8 := Finite.of_injective UInt8.toFin fun _ _ => UInt8.toFin_inj.mp
  have hfinite : {bytes : Bytes | bytes.length ≤ limit}.Finite := List.finite_length_le UInt8 limit
  -- packing would be a permutation of the contents below the limit, and one of them would be packed into nothing
  have hbijective := (hfinite.injOn_iff_bijOn_of_mapsTo fun content hcontent => hnone content hcontent).mp
    codec.packed_injective.injOn
  have hnil : [] ∈ {bytes : Bytes | bytes.length ≤ limit} := Nat.zero_le limit
  obtain ⟨content, -, hempty⟩ := hbijective.surjOn hnil
  exact h content hempty

end Codec

namespace Writer

/-- A writer over a sink without limit that cannot close its last entry, now or later. -/
structure Stuck (w : Writer) : Prop where
  unlimited : w.sink.room = none
  unclosed : w.stage = .broken ∨ w.stage = .idle ∧ ∃ last earlier, w.members = last :: earlier ∧
    w.sink.position < last.offset + Zip.localHeaderSize + last.name.length

variable {codec : Codec} {w : Writer} {e : Entry} {held : List Entry}

/-- Sizes that cannot be right leave the sink in the header that they belong to, where no entry ends. -/
theorem closeHeader_stuck {last : Member} {earlier : List Member} (hroom : w.sink.room = none)
    (hstage : w.stage = .idle) (hmembers : w.members = last :: earlier)
    (hsizes : w.sink.position < last.offset + Zip.localHeaderSize + last.name.length ∨
      Zip.max32 < w.sink.position - (last.offset + Zip.localHeaderSize + last.name.length)) :
    ∃ after, w.closeHeader = (after, .error .tooLarge) ∧ after.Stuck := by
  have hseek : (w.sink.seek (last.offset + Zip.checksumOffset)).room = none := hroom
  simp only [closeHeader, hmembers, Sink.put_unlimited _ _ hseek, List.isEmpty_nil, Bool.not_true, Bool.false_eq_true,
    if_false, if_pos hsizes]
  refine ⟨_, rfl, rfl, .inr ⟨hstage, _, _, rfl, ?_⟩⟩
  simp only [Sink.seek, littleEndian_length, Zip.checksumOffset, Zip.localHeaderSize]
  omega

theorem close_large (hlarge : Zip.max32 < (e.packed codec).length) (w : Writer) (held : List Entry) :
    ∃ after, (w.filled codec (e :: held)).close codec = (after, .error .tooLarge) ∧ after.Stuck := by
  let header := Zip.localHeader
    { name := Text.encode e.path, unixMode := e.unixMode, offset := (Zip.records codec held.reverse).length }
  let full : Writer := { w.filled codec (e :: held) with
    sink := Sink.full (Zip.records codec held.reverse ++ header ++ e.packed codec), stage := .idle }
  have hcontent : (w.filled codec (e :: held)).closeContent codec = (full, .ok ()) := by
    simp only [closeContent, filled, List.nil_append, Sink.put_full, List.isEmpty_nil, if_true, List.append_assoc, full,
      header, Entry.packed]
  have hsizes : Zip.max32 < full.sink.position - ((Zip.records codec held.reverse).length + Zip.localHeaderSize
      + (Text.encode e.path).length) := by
    simp only [full, header, Sink.full_position, List.length_append, Zip.localHeader_length]
    omega
  obtain ⟨after, hheader, hafter⟩ := closeHeader_stuck (w := full) rfl rfl rfl (.inr hsizes)
  exact ⟨after, by simp only [close, hcontent, hheader], hafter⟩

/-- A content over the limit is refused, and nothing can be written after it. -/
theorem write_large (h : ∀ x ∈ held, x.Fits codec) (hnew : e.path ∉ w.attempted)
    (hlarge : Zip.max32 < e.content.length) :
    ∃ after, (w.filled codec held).write codec e = (after, .error (.sink e.path .tooLarge)) ∧ after.Stuck := by
  have hstart := start_filled h (w.attempting e) e
  rw [← filled_attempting] at hstart
  rw [← filled_attempted codec w held] at hnew
  rcases write_cases codec hnew with ⟨after, cause, hstopped, -⟩ | ⟨started, hstarted, hwrite⟩
  · cases hstopped.symm.trans hstart
  · cases hstarted.symm.trans hstart
    simp only [fill, if_pos hlarge] at hwrite
    rcases hwrite with ⟨after, cause, hfill, hwrite⟩ | ⟨after, hfill, -⟩
    · cases hfill
      exact ⟨_, hwrite, rfl, .inl rfl⟩
    · cases hfill

theorem write_first_large (codec : Codec) (hlarge : Zip.max32 < e.content.length) :
    ∃ after, write codec {} e = (after, .error (.sink e.path .tooLarge)) := by
  have hfits : ∀ x ∈ ([] : List Entry), x.Fits codec := List.forall_mem_nil _
  obtain ⟨after, hwrite, -⟩ := write_large (w := {}) hfits List.not_mem_nil hlarge
  exact ⟨after, hwrite⟩

theorem finish_large (hlarge : Zip.max32 < (e.packed codec).length) :
    (holding codec (e :: held)).finish codec = .error (.sink e.path .tooLarge) := by
  obtain ⟨w, hholding, hopen⟩ : ∃ w : Writer, holding codec (e :: held) = w.filled codec (e :: held) ∧
      (w.filled codec (e :: held)).openPath = some e.path := ⟨_, rfl, rfl⟩
  obtain ⟨after, hclose, -⟩ := close_large hlarge w held
  rw [hholding, finish, hclose, hopen]
  rfl

end Writer

end Scaffold
