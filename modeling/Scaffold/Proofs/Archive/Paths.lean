import Scaffold.Proofs.Archive.Steps

/-!
# Paths of a writer

A write that succeeds puts its path after those that are there, and a write that fails leaves them as they are,
whatever state the writer is in and whatever its sink has room for.
-/

namespace Scaffold.Writer

variable {codec : Codec} {w after : Writer} {e : Entry} {entries : List Entry} {cause : WriteError}

private theorem start_records (codec : Codec) (w : Writer) (e : Entry) :
    (w.start codec e).1.accepted = w.accepted ∧ (w.start codec e).1.attempted = w.attempted := by
  have hkept := close_kept codec w
  rcases hclose : w.close codec with ⟨closed, cause | _⟩
  · rw [hclose] at hkept
    rw [start_unclosed hclose]
    exact ⟨hkept.accepted, hkept.attempted⟩
  · rw [hclose] at hkept
    rcases start_closed e hclose with ⟨-, hstart⟩ | ⟨-, hstart⟩
    · rw [hstart]
      exact ⟨hkept.accepted, hkept.attempted⟩
    · rw [hstart]
      exact ⟨hkept.accepted, hkept.attempted⟩

/-- What a write does to the paths. A path that was given before is refused and changes nothing; any other is attempted
from now on, and it is accepted or the sink failed. -/
theorem write_records (codec : Codec) (w : Writer) (e : Entry) :
    (e.path ∈ w.attempted ∧ w.write codec e = (w, .error (.duplicate e.path))) ∨
      e.path ∉ w.attempted ∧ ∃ after, after.attempted = e.path :: w.attempted ∧
        ((w.write codec e = (after, .ok ()) ∧ after.accepted = e.path :: w.accepted) ∨
          ∃ charged cause, w.write codec e = (after, .error (.sink charged cause)) ∧ after.accepted = w.accepted) := by
  by_cases hseen : e.path ∈ w.attempted
  · exact .inl ⟨hseen, write_repeated w hseen⟩
  · refine .inr ⟨hseen, ?_⟩
    obtain ⟨haccepted, hattempted⟩ := start_records codec (w.attempting e) e
    rcases write_cases codec hseen with ⟨after, cause, hstart, hwrite⟩ | ⟨started, hstart, hwrite⟩
    · rw [hstart] at haccepted hattempted
      exact ⟨after, hattempted, .inr ⟨_, cause, hwrite, haccepted⟩⟩
    · rw [hstart] at haccepted hattempted
      have hfilled := fill_kept codec { started with openPath := some e.path } e.content
      rcases hwrite with ⟨after, cause, hfill, hwrite⟩ | ⟨after, hfill, hwrite⟩
      · rw [hfill] at hfilled
        exact ⟨after, hfilled.attempted.trans hattempted, .inr ⟨_, cause, hwrite, hfilled.accepted.trans haccepted⟩⟩
      · rw [hfill] at hfilled
        exact ⟨{ after with accepted := e.path :: after.accepted }, hfilled.attempted.trans hattempted,
          .inl ⟨hwrite, congrArg (e.path :: ·) (hfilled.accepted.trans haccepted)⟩⟩

theorem write_recorded (h : w.write codec e = (after, .ok ())) :
    after.accepted = e.path :: w.accepted ∧ after.attempted = e.path :: w.attempted := by
  rcases write_records codec w e with ⟨-, hwrite⟩ | ⟨-, _, hattempted, ⟨hwrite, haccepted⟩ | ⟨_, _, hwrite, -⟩⟩
  · cases h.symm.trans hwrite
  · cases h.symm.trans hwrite
    exact ⟨haccepted, hattempted⟩
  · cases h.symm.trans hwrite

theorem write_paths (h : w.write codec e = (after, .ok ())) : after.paths = w.paths ++ [e.path] := by
  rw [paths, (write_recorded h).1, List.reverse_cons, paths]

theorem write_failed_paths (h : w.write codec e = (after, .error cause)) : after.paths = w.paths := by
  rcases write_records codec w e with ⟨-, hwrite⟩ | ⟨-, _, -, ⟨hwrite, -⟩ | ⟨_, _, hwrite, haccepted⟩⟩
  · cases h.symm.trans hwrite
    rfl
  · cases h.symm.trans hwrite
  · cases h.symm.trans hwrite
    rw [paths, haccepted, paths]

theorem writeAll_cons_ok (h : w.writeAll codec (e :: entries) = (after, .ok ())) :
    ∃ reached, w.write codec e = (reached, .ok ()) ∧ reached.writeAll codec entries = (after, .ok ()) := by
  rw [writeAll] at h
  rcases hwrite : w.write codec e with ⟨reached, _ | _⟩
  · rw [hwrite] at h
    cases h
  · rw [hwrite] at h
    exact ⟨reached, rfl, h⟩

theorem writeAll_recorded (h : w.writeAll codec entries = (after, .ok ())) :
    after.accepted = (entries.map Entry.path).reverse ++ w.accepted ∧
      after.attempted = (entries.map Entry.path).reverse ++ w.attempted := by
  induction entries generalizing w with
  | nil =>
    cases h
    exact ⟨rfl, rfl⟩
  | cons e rest ih =>
    obtain ⟨reached, hwrite, hrest⟩ := writeAll_cons_ok h
    have hall := ih hrest
    rw [(write_recorded hwrite).1, (write_recorded hwrite).2] at hall
    rw [List.map_cons, List.reverse_cons, List.append_assoc, List.append_assoc]
    exact hall

theorem writeAll_paths (h : w.writeAll codec entries = (after, .ok ())) :
    after.paths = w.paths ++ entries.map Entry.path := by
  rw [paths, (writeAll_recorded h).1, List.reverse_append, List.reverse_reverse, paths]

theorem writeAll_fresh (h : w.writeAll codec entries = (after, .ok ())) :
    (entries.map Entry.path).Nodup ∧ ∀ e ∈ entries, e.path ∉ w.attempted := by
  induction entries generalizing w with
  | nil => exact ⟨List.nodup_nil, List.forall_mem_nil _⟩
  | cons e rest ih =>
    obtain ⟨reached, hwrite, hrest⟩ := writeAll_cons_ok h
    obtain ⟨hnodup, hnew⟩ := ih hrest
    rw [(write_recorded hwrite).2] at hnew
    have hfresh : e.path ∉ w.attempted := by
      intro hseen
      cases hwrite.symm.trans (write_repeated w hseen)
    rw [List.map_cons, List.nodup_cons]
    refine ⟨⟨fun hmem => ?_, hnodup⟩, List.forall_mem_cons.mpr ⟨hfresh, fun x hx hmem => ?_⟩⟩
    · obtain ⟨x, hx, hpath⟩ := List.mem_map.mp hmem
      exact hnew x hx (hpath ▸ List.mem_cons_self)
    · exact hnew x hx (List.mem_cons_of_mem _ hmem)

private theorem write_attempts (codec : Codec) (w : Writer) (e : Entry) :
    e.path ∈ (w.write codec e).1.attempted ∧ w.attempted ⊆ (w.write codec e).1.attempted := by
  rcases write_records codec w e with ⟨hseen, hwrite⟩ | ⟨-, after, hattempted, ⟨hwrite, -⟩ | ⟨_, _, hwrite, -⟩⟩
  · rw [hwrite]
    exact ⟨hseen, List.Subset.refl _⟩
  · rw [hwrite, hattempted]
    exact ⟨List.mem_cons_self, List.subset_cons_self _ _⟩
  · rw [hwrite, hattempted]
    exact ⟨List.mem_cons_self, List.subset_cons_self _ _⟩

theorem writeAll_attempts (codec : Codec) (w : Writer) (entries : List Entry) :
    w.attempted ⊆ (w.writeAll codec entries).1.attempted := by
  induction entries generalizing w with
  | nil => exact List.Subset.refl _
  | cons e rest ih =>
    have hfirst := (write_attempts codec w e).2
    rw [writeAll]
    rcases hwrite : w.write codec e with ⟨reached, _ | _⟩
    · rw [hwrite] at hfirst
      exact hfirst
    · rw [hwrite] at hfirst
      exact List.Subset.trans hfirst (ih reached)

theorem writeAll_attempts_head (codec : Codec) (w : Writer) (e : Entry) (rest : List Entry) :
    e.path ∈ (w.writeAll codec (e :: rest)).1.attempted := by
  have hfirst := (write_attempts codec w e).1
  rw [writeAll]
  rcases hwrite : w.write codec e with ⟨reached, _ | _⟩
  · rw [hwrite] at hfirst
    exact hfirst
  · rw [hwrite] at hfirst
    exact writeAll_attempts codec reached rest hfirst

theorem writeAll_stop {part : List Entry} {reached : Writer} (hpart : w.writeAll codec part = (reached, .ok ()))
    (hrefused : reached.write codec e = (after, .error cause)) (rest : List Entry) :
    w.writeAll codec (part ++ e :: rest) = (after, .error cause) := by
  rw [writeAll_append, hpart]
  simp only [writeAll, hrefused]

/-- Where entries cannot all be written, one of them is the first that is refused. -/
theorem writeAll_refused (h : w.writeAll codec entries = (after, .error cause)) :
    ∃ part e rest reached, entries = part ++ e :: rest ∧ w.writeAll codec part = (reached, .ok ()) ∧
      reached.write codec e = (after, .error cause) := by
  induction entries generalizing w with
  | nil => cases h
  | cons e rest ih =>
    rw [writeAll] at h
    rcases hwrite : w.write codec e with ⟨reached, _ | _⟩
    · rw [hwrite] at h
      cases h
      exact ⟨[], e, rest, w, rfl, rfl, hwrite⟩
    · rw [hwrite] at h
      obtain ⟨part, refused, others, last, rfl, hpart, hrefused⟩ := ih h
      refine ⟨e :: part, refused, others, last, rfl, ?_, hrefused⟩
      simp only [writeAll, hwrite]
      exact hpart

theorem finish_error (h : w.finish codec = .error cause) : ∃ path reason, cause = .sink path reason := by
  rw [finish] at h
  split at h
  · cases h
    exact ⟨_, _, rfl⟩
  · dsimp only at h
    split at h
    · cases h
    · cases h
      exact ⟨_, _, rfl⟩

end Scaffold.Writer
