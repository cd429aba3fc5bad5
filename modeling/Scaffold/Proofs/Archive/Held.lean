import Scaffold.Proofs.Archive.Paths

/-!
# What a writer can hold

Over a sink without limit only sizes can stop a writer: a content that is too large is refused at once, and one that is
packed over the limit when its entry is closed. After that nothing is written any more and no archive is finished. The
main statements say which entries can be written one after another and which can be finished.
-/

namespace Scaffold

namespace Writer

/-- To close the last entry fails and leaves the writer stuck. -/
def Jams (codec : Codec) (w : Writer) : Prop :=
  ∃ after cause, w.close codec = (after, .error cause) ∧ after.Stuck

/-- A writer that took the given entries, last first. The last may be too large for its header, which is not known
before it is closed. -/
structure Holds (codec : Codec) (held : List Entry) (w : Writer) : Prop where
  state : w.filled codec held = w
  paths : w.paths = held.reverse.map Entry.path
  closed : ∀ e ∈ held.tail, e.Fits codec
  sizes : ∀ e ∈ held, e.content.length ≤ Zip.max32

variable {codec : Codec} {w after : Writer} {e : Entry} {held entries : List Entry} {archive : Bytes}

/-! ## Stuck writers -/

theorem Stuck.attempting (h : w.Stuck) (e : Entry) : (w.attempting e).Stuck :=
  ⟨h.unlimited, h.unclosed⟩

theorem Stuck.jams (codec : Codec) (h : w.Stuck) : w.Jams codec := by
  rcases h.unclosed with hstage | ⟨hstage, last, earlier, hmembers, hposition⟩
  · exact ⟨w, .closed, by simp only [close, closeContent, hstage], h⟩
  · obtain ⟨after, hheader, hafter⟩ := closeHeader_stuck h.unlimited hstage hmembers (.inl hposition)
    exact ⟨after, .tooLarge, by simp only [close, closeContent, hstage, hheader], hafter⟩

theorem Jams.write (hnew : e.path ∉ w.attempted) (h : (w.attempting e).Jams codec) :
    (w.write codec e).1.Stuck ∧ (w.write codec e).2 ≠ .ok () := by
  obtain ⟨after, cause, hclose, hafter⟩ := h
  have hstart := start_unclosed (e := e) hclose
  rcases write_cases codec hnew with ⟨stopped, reason, hstopped, hwrite⟩ | ⟨started, hstarted, -⟩
  · cases hstopped.symm.trans hstart
    rw [hwrite]
    exact ⟨hafter, nofun⟩
  · cases hstarted.symm.trans hstart

theorem Stuck.write (codec : Codec) (h : w.Stuck) (e : Entry) :
    (w.write codec e).1.Stuck ∧ (w.write codec e).2 ≠ .ok () := by
  by_cases hseen : e.path ∈ w.attempted
  · rw [write_repeated w hseen]
    exact ⟨h, nofun⟩
  · exact Jams.write hseen ((h.attempting e).jams codec)

theorem Jams.finish (h : w.Jams codec) : w.finish codec ≠ .ok archive := by
  obtain ⟨after, cause, hclose, -⟩ := h
  intro hok
  simp only [Writer.finish, hclose] at hok
  cases hok

/-! ## Writers that hold entries -/

private theorem filled_jams (hlarge : Zip.max32 < (e.packed codec).length) (w : Writer) :
    (w.filled codec (e :: held)).Jams codec := by
  obtain ⟨after, hclose, hafter⟩ := close_large hlarge w held
  exact ⟨after, .tooLarge, hclose, hafter⟩

theorem Holds.jams (h : w.Holds codec held) (hunfit : ¬∀ e ∈ held, e.Fits codec) : w.Jams codec := by
  cases held with
  | nil => exact absurd (List.forall_mem_nil _) hunfit
  | cons e before =>
    have hlarge : Zip.max32 < (e.packed codec).length := by
      by_contra hpacked
      have hfits : e.Fits codec := ⟨h.sizes e List.mem_cons_self, Nat.not_lt.mp hpacked⟩
      exact hunfit (List.forall_mem_cons.mpr ⟨hfits, h.closed⟩)
    rw [← h.state]
    exact filled_jams hlarge w

theorem Holds.attempting (h : w.Holds codec held) (e : Entry) : (w.attempting e).Holds codec held where
  state := by rw [← filled_attempting, h.state]
  paths := h.paths
  closed := h.closed
  sizes := h.sizes

theorem Holds.write_taken (h : w.Holds codec held) (hfits : ∀ x ∈ held, x.Fits codec) (hnew : e.path ∉ w.attempted)
    (hsize : e.content.length ≤ Zip.max32) :
    (w.write codec e).2 = .ok () ∧ (w.write codec e).1.Holds codec (e :: held) := by
  have hwrite := write_filled hfits hsize hnew
  rw [h.state] at hwrite
  have hpaths := write_paths hwrite
  rw [hwrite]
  refine ⟨rfl, rfl, ?_, hfits, List.forall_mem_cons.mpr ⟨hsize, h.sizes⟩⟩
  rw [hpaths, h.paths, List.reverse_cons, List.map_append]
  rfl

theorem Holds.write_refused (h : w.Holds codec held) (hnew : e.path ∉ w.attempted)
    (hunfit : ¬((∀ x ∈ held, x.Fits codec) ∧ e.content.length ≤ Zip.max32)) :
    (w.write codec e).1.Stuck ∧ (w.write codec e).2 ≠ .ok () := by
  by_cases hfits : ∀ x ∈ held, x.Fits codec
  · have hlarge : Zip.max32 < e.content.length := by
      by_contra hsize
      exact hunfit ⟨hfits, Nat.not_lt.mp hsize⟩
    obtain ⟨after, hwrite, hafter⟩ := write_large hfits hnew hlarge
    rw [h.state] at hwrite
    rw [hwrite]
    exact ⟨hafter, nofun⟩
  · exact Jams.write hnew ((h.attempting e).jams hfits)

theorem Holds.close_ok_iff (h : w.Holds codec held) :
    (w.close codec).2 = .ok () ↔ ∀ x ∈ held, x.Fits codec := by
  by_cases hfits : ∀ x ∈ held, x.Fits codec
  · have hclose := close_filled hfits w
    rw [h.state] at hclose
    rw [hclose]
    exact iff_of_true rfl hfits
  · obtain ⟨after, cause, hclose, -⟩ := h.jams hfits
    refine iff_of_false ?_ hfits
    simp [hclose]

private theorem holds_empty (codec : Codec) : Holds codec [] {} :=
  ⟨rfl, rfl, List.forall_mem_nil _, List.forall_mem_nil _⟩

theorem Holds.write_ok (h : w.Holds codec held) (hwrite : w.write codec e = (after, .ok ())) :
    after.Holds codec (e :: held) := by
  have hnew : e.path ∉ w.attempted := new_of_answer codec (hwrite ▸ nofun)
  by_cases hfit : (∀ x ∈ held, x.Fits codec) ∧ e.content.length ≤ Zip.max32
  · have hafter := (h.write_taken hfit.1 hnew hfit.2).2
    rwa [hwrite] at hafter
  · have hfailed := (h.write_refused hnew hfit).2
    exact absurd (congrArg Prod.snd hwrite) hfailed

theorem Holds.writeAll (h : w.Holds codec held) (hwrite : w.writeAll codec entries = (after, .ok ())) :
    after.Holds codec (entries.reverse ++ held) := by
  induction entries generalizing w held with
  | nil =>
    cases hwrite
    exact h
  | cons e rest ih =>
    obtain ⟨reached, hfirst, hrest⟩ := writeAll_cons_ok hwrite
    rw [List.reverse_cons, List.append_assoc]
    exact ih (h.write_ok hfirst) hrest

/-- An archive that is finished is that of the entries it holds, and none of them was too large. -/
theorem Holds.finish (h : w.Holds codec held) (hfinish : w.finish codec = .ok archive) :
    (∀ e ∈ held.reverse, e.Fits codec) ∧ archive = Zip.archive codec held.reverse := by
  by_cases hfits : ∀ e ∈ held, e.Fits codec
  · have harchive := finish_filled hfits w
    rw [h.state, hfinish] at harchive
    exact ⟨fun e he => hfits e (List.mem_reverse.mp he), Except.ok.inj harchive⟩
  · exact absurd hfinish (h.jams hfits).finish

theorem finish_writeAll (hwrite : Writer.writeAll codec {} entries = (w, .ok ()))
    (hfinish : w.finish codec = .ok archive) :
    (∀ e ∈ entries, e.Fits codec) ∧ archive = Zip.archive codec entries := by
  have hholds := ((holds_empty codec).writeAll hwrite).finish hfinish
  rwa [List.append_nil, List.reverse_reverse] at hholds

/-! ## Any writes -/

/-- What can become of a writer over a sink without limit. -/
def Settled (codec : Codec) (w : Writer) : Prop :=
  (∃ held, w.Holds codec held) ∨ w.Stuck

theorem settled_empty (codec : Codec) : Settled codec {} :=
  .inl ⟨[], holds_empty codec⟩

/-- A write is taken just when its path is new, the entry before can be closed, and its content is not too large. -/
theorem Settled.write_ok_iff (h : w.Settled codec) (e : Entry) :
    (w.write codec e).2 = .ok () ↔
      e.path ∉ w.attempted ∧ (w.close codec).2 = .ok () ∧ e.content.length ≤ Zip.max32 := by
  by_cases hseen : e.path ∈ w.attempted
  · simp [write_repeated w hseen, hseen]
  · rcases h with ⟨held, h⟩ | h
    · rw [h.close_ok_iff]
      by_cases hfit : (∀ x ∈ held, x.Fits codec) ∧ e.content.length ≤ Zip.max32
      · exact iff_of_true (h.write_taken hfit.1 hseen hfit.2).1 ⟨hseen, hfit⟩
      · exact iff_of_false (h.write_refused hseen hfit).2 fun hall => hfit hall.2
    · obtain ⟨after, cause, hclose, -⟩ := h.jams codec
      simp [hclose, (h.write codec e).2]

theorem Settled.write (h : w.Settled codec) (e : Entry) : (w.write codec e).1.Settled codec := by
  by_cases hseen : e.path ∈ w.attempted
  · rw [write_repeated w hseen]
    exact h
  · rcases h with ⟨held, h⟩ | h
    · by_cases hfit : (∀ x ∈ held, x.Fits codec) ∧ e.content.length ≤ Zip.max32
      · exact .inl ⟨_, (h.write_taken hfit.1 hseen hfit.2).2⟩
      · exact .inr (h.write_refused hseen hfit).1
    · exact .inr (h.write codec e).1

theorem Settled.writeEach (h : w.Settled codec) (entries : List Entry) :
    (w.writeEach codec entries).1.Settled codec := by
  induction entries generalizing w with
  | nil => exact h
  | cons e rest ih => exact ih (h.write e)

end Writer

end Scaffold
