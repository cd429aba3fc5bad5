import Mathlib.Data.List.Permutation
import Scaffold.Proofs.Archive.Puts
import Scaffold.Proofs.Text.Encoded

/-!
# Lost bytes

Which entry a failed write is charged to, and when that is the one whose bytes were lost, after any history of writes,
also of failures.
-/

namespace Scaffold.Writer

/-! ## Histories -/

/-- The writers that come about by writes, each with the answers so far, last first. The room of the sink is
arbitrary, and it may change at any time. -/
inductive Reached (codec : Codec) : Writer → List Answer → Prop
  | start (room : Option Nat) : Reached codec { sink := { room } } []
  | write {w answers} (e : Entry) :
    Reached codec w answers → Reached codec (w.write codec e).1 ((w.write codec e).2 :: answers)
  | room {w answers} (room : Option Nat) : Reached codec w answers → Reached codec (w.setRoom room) answers

/-- What holds of a writer after any history: the open entry is the last whose header was written, and a name in
a header is that of a path that was given. Without a failure an entry stays open from the first write on. -/
structure Tracked (w : Writer) (answers : List Answer) : Prop where
  standing : w.Standing
  filling : ∀ content pending, w.stage = .filling content pending → w.members ≠ []
  named : w.members ≠ [] → ∃ path ∈ w.attempted, w.lastName = Text.encode path
  opened : ∀ path, w.openPath = some path → path ∈ w.attempted ∧ w.lastName = Text.encode path
  shut : (∀ path cause, .error (.sink path cause) ∉ answers) → w.openPath = none → w.members = [] ∧ w.stage = .idle

variable {codec : Codec} {w : Writer} {answers : List Answer}

theorem Tracked.not_begun {e : Entry} {after : Writer} {cause : SinkError} (h : w.Tracked answers)
    (hstart : (w.attempting e).start codec e = (after, .error cause)) (path : String) :
    after.Tracked (.error (.sink path cause) :: answers) := by
  obtain ⟨hkept, hstage⟩ := start_failed hstart
  refine ⟨hkept.standing (h.standing.attempting e), ?_, ?_, ?_, ?_⟩
  · exact fun content pending hfilling => absurd hfilling (hstage content pending)
  · intro hmembers
    obtain ⟨before, hbefore, hname⟩ := h.named fun hnil => hmembers (hkept.members_nil.mpr hnil)
    rw [hkept.attempted, hkept.lastName]
    exact ⟨before, List.mem_cons_of_mem _ hbefore, hname⟩
  · intro opened hopen
    rw [hkept.openPath] at hopen
    cases hopen
  · exact fun hanswers => absurd List.mem_cons_self (hanswers _ _)

/-- Once the header of an entry is in the sink everything is as it should be, whatever becomes of the content. -/
theorem tracked_begun {e : Entry} {started after : Writer} (h : w.Standing)
    (hstart : (w.attempting e).start codec e = (started, .ok ()))
    (hkept : Kept { started with openPath := some e.path } after) (answers : List Answer) : after.Tracked answers := by
  obtain ⟨closed, hclosed, hheader, rfl⟩ := start_ok hstart
  have hclose := close_kept codec (w.attempting e)
  rw [hclosed] at hclose
  have hstanding := begin_standing (hclose.standing (h.attempting e)) hheader
  have hlast : after.lastName = Text.encode e.path := hkept.lastName
  have hattempted : e.path ∈ after.attempted := by
    rw [hkept.attempted]
    change e.path ∈ closed.attempted
    rw [hclose.attempted]
    exact List.mem_cons_self
  refine ⟨hkept.standing ⟨hstanding.within, hstanding.header⟩, ?_, ?_, ?_, ?_⟩
  · exact fun _ _ _ hnil => absurd (hkept.members_nil.mp hnil) nofun
  · exact fun _ => ⟨e.path, hattempted, hlast⟩
  · intro path hopen
    rw [hkept.openPath] at hopen
    cases hopen
    exact ⟨hattempted, hlast⟩
  · intro _ hopen
    rw [hkept.openPath] at hopen
    cases hopen

theorem Tracked.write {answers : List Answer} (h : w.Tracked answers) (e : Entry) :
    (w.write codec e).1.Tracked ((w.write codec e).2 :: answers) := by
  by_cases hseen : e.path ∈ w.attempted
  · rw [write_repeated w hseen]
    exact ⟨h.standing, h.filling, h.named, h.opened,
      fun hanswers => h.shut fun path cause hmem => hanswers path cause (List.mem_cons_of_mem _ hmem)⟩
  · rcases write_cases codec hseen with ⟨after, cause, hstart, hwrite⟩ | ⟨started, hstart, hwrite⟩
    · rw [hwrite]
      exact h.not_begun hstart _
    · have hfill := fill_kept codec { started with openPath := some e.path } e.content
      rcases hwrite with ⟨after, cause, hresult, hwrite⟩ | ⟨after, hresult, hwrite⟩
      · rw [hresult] at hfill
        rw [hwrite]
        exact tracked_begun h.standing hstart hfill _
      · rw [hresult] at hfill
        rw [hwrite]
        have htracked := tracked_begun h.standing hstart hfill (.ok () :: answers)
        exact ⟨⟨htracked.standing.within, htracked.standing.header⟩, htracked.filling, htracked.named,
          htracked.opened, htracked.shut⟩

theorem Reached.tracked {answers : List Answer} (h : Reached codec w answers) : w.Tracked answers := by
  induction h with
  | start room => exact ⟨⟨Nat.le_refl 0, nofun⟩, nofun, fun h => absurd rfl h, nofun, fun _ _ => ⟨rfl, rfl⟩⟩
  | write e _ ih => exact ih.write e
  | room room _ ih => exact ⟨⟨ih.standing.within, ih.standing.header⟩, ih.filling, ih.named, ih.opened, ih.shut⟩

/-! ## Owners of lost bytes -/

private theorem members_of_lost {e : Entry} {c : Chunk} (h : w.Tracked answers) (hlost : w.lost codec e = some c)
    (hcloses : c.part.closes = true) : w.members ≠ [] := by
  intro hnil
  obtain ⟨hmem, hdata⟩ := Sink.lost_mem hlost
  rcases mem_chunks hmem with rfl | ⟨last, hlast, -⟩ | ⟨place, rfl | hc⟩
  · refine hdata ?_
    rw [missing]
    cases hstage : w.stage with
    | filling content pending => exact absurd hnil (h.filling content pending hstage)
    | idle => rfl
    | broken => rfl
  · rw [hnil] at hlast
    cases hlast
  · cases hcloses
  · rw [mem_contentChunks hc] at hcloses
    cases hcloses

/-- The charge names the owner of the lost bytes unless a new header is charged to an open entry, or the close of an
entry to the new one. -/
theorem owner_charged {e : Entry} {c : Chunk} (h : w.Tracked answers) (hnew : e.path ∉ w.attempted)
    (hlost : w.lost codec e = some c) :
    c.owner = Text.encode (w.charged e c.part) ↔
      ¬(c.part = .header ∧ w.openPath ≠ none) ∧ ¬(c.part.closes = true ∧ w.openPath = none) := by
  have howner := chunks_owner (Sink.lost_mem hlost).1
  have hother {path : String} (hpath : path ∈ w.attempted) : Text.encode path ≠ Text.encode e.path := fun heq =>
    hnew (Text.encode_injective heq ▸ hpath)
  rcases c.part.closes_or with hcloses | hheader | hcontent
  · have hheader : c.part ≠ .header := fun hpart => absurd (hpart ▸ hcloses) nofun
    have hcontent : c.part ≠ .content := fun hpart => absurd (hpart ▸ hcloses) nofun
    rw [howner, if_pos hcloses, charged, if_neg hcontent]
    cases hopen : w.openPath with
    | some path => simp [hheader, (h.opened path hopen).2]
    | none =>
      obtain ⟨path, hpath, hname⟩ := h.named (members_of_lost h hlost hcloses)
      simp [hcloses, hname, hother hpath]
  · rw [howner, hheader, charged]
    cases hopen : w.openPath with
    | some path => simp [Part.closes, (hother (h.opened path hopen).1).symm]
    | none => simp [Part.closes]
  · rw [howner, hcontent, charged]
    simp [Part.closes]

/-- A write that succeeds leaves its header and its packed content right before the position. -/
theorem write_ok {e : Entry} (h : w.Standing) (hok : (w.write codec e).2 = .ok ()) :
    ∃ before header, header.name = Text.encode e.path ∧
      (w.write codec e).1.sink.bytes.take (w.write codec e).1.sink.position
        = before ++ Zip.localHeader header ++ codec.body e.content := by
  have hnew : e.path ∉ w.attempted := new_of_answer codec (hok ▸ nofun)
  rcases write_cases codec hnew with ⟨after, cause, -, hwrite⟩ | ⟨started, hstart, hwrite⟩
  · rw [hwrite] at hok
    cases hok
  · rcases hwrite with ⟨after, cause, -, hwrite⟩ | ⟨after, hfill, hwrite⟩
    · rw [hwrite] at hok
      cases hok
    · obtain ⟨closed, hclosed, hheader, rfl⟩ := start_ok hstart
      have hclose := close_kept codec (w.attempting e)
      rw [hclosed] at hclose
      have hstanding : closed.Standing := hclose.standing (h.attempting e)
      have hbegun : (closed.begin e).Standing := begin_standing hstanding hheader
      obtain ⟨hput, hafter⟩ := fill_ok hfill
      refine ⟨closed.sink.bytes.take closed.sink.position,
        { name := Text.encode e.path, unixMode := e.unixMode, offset := closed.sink.position }, rfl, ?_⟩
      rw [hwrite, hafter]
      refine (Sink.put_taken hbegun.within hput).trans ?_
      exact congrArg (· ++ codec.body e.content) (Sink.put_taken hstanding.within hheader)

/-- After any history a write that succeeds has brought its header and its packed content into the sink, and one
that fails for want of room lost a chunk. The failure is charged to the entry that the lost bytes belong to, except
in two cases: the header of the new entry is charged to an open entry, which is closed by then; and what closes an
entry is charged to the new one if no entry is open, which only happens after an earlier failure. -/
theorem write_charges (h : Reached codec w answers) (e : Entry) :
    ((w.write codec e).2 = .ok () → w.lost codec e = none ∧
      ∃ before header, header.name = Text.encode e.path ∧
        (w.write codec e).1.sink.bytes.take (w.write codec e).1.sink.position
          = before ++ Zip.localHeader header ++ codec.body e.content) ∧
    (∀ path, (w.write codec e).2 = .error (.sink path .noSpace) →
      ∃ c, w.lost codec e = some c ∧ path = w.charged e c.part ∧
        (c.owner = Text.encode path ↔
          ¬(c.part = .header ∧ w.openPath ≠ none) ∧ ¬(c.part.closes = true ∧ w.openPath = none))) ∧
    (∀ c, w.lost codec e = some c → e.path ∉ w.attempted →
      (w.write codec e).2 = .error (.sink (w.charged e c.part) .noSpace)) ∧
    ((∀ path cause, .error (.sink path cause) ∉ answers) →
      ∀ c, w.lost codec e = some c → c.part.closes = true → w.openPath ≠ none) := by
  have htracked := h.tracked
  refine ⟨?_, ?_, ?_, ?_⟩
  · intro hok
    have hnew : e.path ∉ w.attempted := new_of_answer codec (hok ▸ nofun)
    refine ⟨?_, write_ok htracked.standing hok⟩
    rcases write_lost codec hnew with ⟨c, -, hcharged⟩ | ⟨hnone, -⟩
    · cases hok.symm.trans hcharged
    · exact hnone
  · intro path hanswer
    have hnew : e.path ∉ w.attempted := new_of_answer codec (hanswer ▸ nofun)
    rcases write_lost codec hnew with ⟨c, hlost, hcharged⟩ | ⟨-, hnone⟩
    · rw [hanswer] at hcharged
      cases hcharged
      exact ⟨c, hlost, rfl, owner_charged htracked hnew hlost⟩
    · exact absurd hanswer (hnone path)
  · intro c hlost hnew
    rcases write_lost codec hnew with ⟨c', hlost', hcharged⟩ | ⟨hnone, -⟩
    · cases hlost.symm.trans hlost'
      exact hcharged
    · cases hlost.symm.trans hnone
  · intro hanswers c hlost hcloses hopen
    exact members_of_lost htracked hlost hcloses (htracked.shut hanswers hopen).1

/-- A writer after its first entry, which is empty. -/
def afterEmpty (room : Nat) : Writer where
  sink.bytes := (headerChunk ⟨"a", [], none⟩ 0).data ++ Codec.stored.body []
  sink.position := 41
  sink.room := some room
  attempted := ["a"]
  accepted := ["a"]
  openPath := some "a"
  members := [begun ⟨"a", [], none⟩ 0]
  stage := .filling [] []

private theorem write_empty :
    (({ sink := { room := some 44 } } : Writer).write Codec.stored ⟨"a", [], none⟩) = (afterEmpty 3, .ok ()) := by
  cbv

private theorem reached_afterEmpty (room : Nat) : Reached Codec.stored (afterEmpty room) [.ok ()] := by
  have hwritten := Reached.write ⟨"a", [], none⟩ (@Reached.start Codec.stored (some 44))
  rw [write_empty] at hwritten
  exact .room (some room) hwritten

/-- The room ends in the trailer of the first entry, which is noticed and charged to it when the second is written. -/
theorem write_charges_trailer :
    Reached Codec.stored (afterEmpty 3) [.ok ()] ∧
      ((afterEmpty 3).write Codec.stored ⟨"b", [1], none⟩).2 = .error (.sink "a" .noSpace) ∧
      ∃ c, (afterEmpty 3).lost Codec.stored ⟨"b", [1], none⟩ = some c ∧ c.part = .trailer ∧
        c.owner = Text.encode "a" := by
  have hreached := reached_afterEmpty 3
  have hanswer : ((afterEmpty 3).write Codec.stored ⟨"b", [1], none⟩).2 = .error (.sink "a" .noSpace) := by cbv
  have hpart : ((afterEmpty 3).lost Codec.stored ⟨"b", [1], none⟩).map Chunk.part = some .trailer := by cbv
  obtain ⟨c, hlost, -, howner⟩ := (write_charges hreached ⟨"b", [1], none⟩).2.1 "a" hanswer
  rw [hlost] at hpart
  have htrailer : c.part = .trailer := Option.some.inj hpart
  refine ⟨hreached, hanswer, c, hlost, htrailer, howner.mpr ?_⟩
  simp [htrailer, Part.closes, afterEmpty]

/-- An entry that was closed completely is charged with the header of the next one, for which there is no room. -/
theorem closed_entry_charged :
    Reached Codec.stored (afterEmpty 19) [.ok ()] ∧
      ((afterEmpty 19).close Codec.stored).2 = .ok () ∧
      ((afterEmpty 19).write Codec.stored ⟨"b", [1], none⟩).2 = .error (.sink "a" .noSpace) ∧
      ((afterEmpty 19).lost Codec.stored ⟨"b", [1], none⟩).map (fun c => (c.part, c.owner))
        = some (.header, Text.encode "b") := by
  refine ⟨reached_afterEmpty 19, ?_, ?_, ?_⟩
  · cbv
  · cbv
  · cbv

end Scaffold.Writer
