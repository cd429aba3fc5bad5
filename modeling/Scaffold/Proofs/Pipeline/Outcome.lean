import Mathlib.Control.Monad.Basic
import Mathlib.Logic.ExistsUnique
import Scaffold.Proofs.Archive.Held
import Scaffold.Proofs.Pipeline.Run
import Scaffold.Store.Memory

/-!
# How runs end

A run ends well after all its steps, or it stops at one of them: at its own failure, or at the first of its entries
that the archive refuses. Either way it is known what was written and which lines are in the log.
-/

namespace Scaffold.Pipeline

/-- How a step stops a run that has come to a log and a writer, with the entries of the step that were written, the
writer that is left and the error of the run: it fails itself and nothing of it is written, or the archive refuses one
of its entries after those before it were written. -/
inductive Stops (codec : Codec) (context : StepContext) (log : Log) (step : Step) (w : Writer) :
    List Entry → Writer → Error → Prop
  | failed {e : Error} : (step.body context log).result = .error e → Stops codec context log step w [] w e
  | refused {part rest : List Entry} {entry : Entry} {reached after : Writer} {cause : WriteError} :
    (step.body context log).result = .ok (part ++ entry :: rest) → w.writeAll codec part = (reached, .ok ()) →
      reached.write codec entry = (after, .error cause) →
      Stops codec context log step w part after (Error.ofWrite cause)

/-- A run stopped at the step of an index with an error. All entries of the steps before it were written, and then
`part` of its own; the log has the lines of all these steps; and the whole outcome is that of any run with other steps
after it, so none of them was executed. -/
def StoppedAt (codec : Codec) (p : Pipeline) (context : StepContext) (w : Writer) (log : Log) (i : Nat) (e : Error) :
    Prop :=
  let after := (p.run codec context w log).1
  let attempt := (p.run codec context w log).2
  ∃ before step later, p.steps = before ++ step :: later ∧ before.length = i ∧
    ∃ entries lines reached part, Gives context log before entries lines ∧
      w.writeAll codec entries = (reached, .ok ()) ∧
      Stops codec context ⟨log.lines ++ lines⟩ step reached part after e ∧
      after.paths = w.paths ++ (entries ++ part).map Entry.path ∧
      (attempt.logAfter log).lines = log.lines ++ lines ++ (step.body context ⟨log.lines ++ lines⟩).lines ∧
      ∀ others, (Pipeline.mk (before ++ step :: others)).run codec context w log = p.run codec context w log

variable {codec : Codec} {context : StepContext} {log : Log} {steps before later : List Step} {step : Step}
  {entries part : List Entry} {lines : List String} {w reached after : Writer} {e : Error}

/-! ## One step -/

theorem Stops.paths (h : Stops codec context log step w part after e) :
    after.paths = w.paths ++ part.map Entry.path := by
  cases h with
  | failed => exact (List.append_nil _).symm
  | refused _ hpart hrefused => rw [Writer.write_failed_paths hrefused, Writer.writeAll_paths hpart]

private theorem not_stops_of_written (hstep : (step.body context log).result = .ok entries)
    (hwrite : (w.writeAll codec entries).2 = .ok ()) : ¬Stops codec context log step w part after e := by
  intro h
  cases h with
  | failed hfailed => cases hfailed.symm.trans hstep
  | refused hresult hpart hrefused =>
    cases hstep.symm.trans hresult
    rw [Writer.writeAll_stop hpart hrefused] at hwrite
    cases hwrite

theorem runSteps_stop (h : Stops codec context log step w part after e) :
    ∃ events : List Event, events.filterMap Event.line? = (step.body context log).lines ∧
      ∀ later, runSteps codec context w log (step :: later) = (after, ⟨events, .error e⟩) := by
  cases h with
  | failed hfailed =>
    refine ⟨.step step.name :: (step.body context log).trace, rfl, fun later => ?_⟩
    simp only [runSteps, hfailed]
  | @refused _ rest entry _ _ _ hresult hpart hrefused =>
    let own := written (part ++ entry :: rest) (after.accepted.length - w.accepted.length)
    refine ⟨.step step.name :: (step.body context log).trace ++ own, ?_, fun later => ?_⟩
    · rw [List.filterMap_append, written_lines, List.append_nil]
      rfl
    · simp only [runSteps, hresult, Writer.writeAll_stop hpart hrefused]
      rfl

/-! ## All steps -/

private theorem gives_append_iff :
    Gives context log (before ++ later) entries lines ↔
      ∃ first others front back, Gives context log before first front ∧
        Gives context ⟨log.lines ++ front⟩ later others back ∧ entries = first ++ others ∧ lines = front ++ back := by
  induction before generalizing log entries lines with
  | nil =>
    constructor
    · intro h
      exact ⟨[], entries, [], lines, .nil, by rwa [List.append_nil], rfl, rfl⟩
    · intro h
      obtain ⟨first, others, front, back, hfirst, hothers, rfl, rfl⟩ := h
      obtain ⟨rfl, rfl⟩ := gives_nil_iff.mp hfirst
      rwa [List.append_nil] at hothers
  | cons step rest ih =>
    rw [List.cons_append, gives_cons_iff]
    constructor
    · intro h
      obtain ⟨own, more, front, back, hstep, hmore, rfl, rfl⟩ := h
      obtain ⟨first, others, middle, last, hrest, hlater, rfl, rfl⟩ := ih.mp hmore
      refine ⟨own ++ first, others, front ++ middle, last, .cons hstep hrest, ?_, ?_, ?_⟩
      · rwa [← List.append_assoc]
      · rw [List.append_assoc]
      · rw [List.append_assoc]
    · intro h
      obtain ⟨_, others, _, last, hfirst, hlater, rfl, rfl⟩ := h
      obtain ⟨own, first, front, middle, hstep, hrest, rfl, rfl⟩ := gives_cons_iff.mp hfirst
      rw [← List.append_assoc] at hlater
      exact ⟨own, _, front, _, hstep, ih.mpr ⟨first, others, middle, last, hrest, hlater, rfl, rfl⟩,
        List.append_assoc _ _ _, List.append_assoc _ _ _⟩

/-- A run that fails is stopped by one of its steps, and everything before it was written. -/
theorem stops_of_runSteps (h : (runSteps codec context w log steps).2.result = .error e) :
    ∃ before step later entries lines reached part after, steps = before ++ step :: later ∧
      Gives context log before entries lines ∧ w.writeAll codec entries = (reached, .ok ()) ∧
      Stops codec context ⟨log.lines ++ lines⟩ step reached part after e := by
  induction steps generalizing w log with
  | nil => cases h
  | cons step rest ih =>
    have hhere {part : List Entry} {after : Writer} {e : Error} (h : Stops codec context log step w part after e) :
        Stops codec context ⟨log.lines ++ []⟩ step w part after e := by rwa [List.append_nil]
    rcases hstep : (step.body context log).result with cause | first
    · simp only [runSteps, hstep] at h
      cases h
      exact ⟨[], step, rest, [], [], w, [], w, rfl, .nil, rfl, hhere (.failed hstep)⟩
    · rcases hwrite : w.writeAll codec first with ⟨middle, cause | _⟩
      · simp only [runSteps, hstep, hwrite] at h
        cases h
        obtain ⟨part, entry, others, last, rfl, hpart, hrefused⟩ := Writer.writeAll_refused hwrite
        exact ⟨[], step, rest, [], [], w, part, middle, rfl, .nil, rfl, hhere (.refused hstep hpart hrefused)⟩
      · simp only [runSteps, hstep, hwrite] at h
        obtain ⟨before, stop, later, entries, lines, reached, part, after, rfl, hgives, hrest, hstops⟩ := ih h
        refine ⟨step :: before, stop, later, first ++ entries, _ ++ lines, reached, part, after, rfl,
          .cons ⟨hstep, rfl⟩ hgives, ?_, ?_⟩
        · rw [Writer.writeAll_append, hwrite]
          exact hrest
        · rw [← List.append_assoc]
          exact hstops

/-- A run fails with the error of one of its steps, or with that of a write. -/
theorem error_of_runSteps (h : (runSteps codec context w log steps).2.result = .error e) :
    (∃ step ∈ steps, ∃ log, (step.body context log).result = .error e) ∨ ∃ cause, e = Error.ofWrite cause := by
  obtain ⟨before, step, later, entries, lines, reached, part, after, rfl, -, -, hstops⟩ := stops_of_runSteps h
  cases hstops with
  | failed hfailed => exact .inl ⟨step, List.mem_append_right _ List.mem_cons_self, _, hfailed⟩
  | refused => exact .inr ⟨_, rfl⟩

/-- Where all steps give entries, a run is their writing. -/
theorem runSteps_written (codec : Codec) (hgives : Gives context log steps entries lines) (w : Writer) :
    (runSteps codec context w log steps).1 = (w.writeAll codec entries).1 ∧
      (runSteps codec context w log steps).2.result = (w.writeAll codec entries).2.mapError Error.ofWrite := by
  induction hgives generalizing w with
  | nil => exact ⟨rfl, rfl⟩
  | @cons log step rest first others before after hstep hrest ih =>
    have hlog : (step.body context log).logAfter log = ⟨log.lines ++ before⟩ := by rw [Attempt.logAfter, hstep.2]
    rw [Writer.writeAll_append]
    rcases hfirst : w.writeAll codec first with ⟨reached, cause | _⟩
    · simp only [runSteps, hstep.1, hfirst]
      exact ⟨trivial, rfl⟩
    · simp only [runSteps, hstep.1, hfirst, hlog]
      exact ih reached

private theorem not_stops_before (hsteps : Gives context log (before ++ step :: later) entries lines)
    (hwrite : (w.writeAll codec entries).2 = .ok ()) {first : List Entry} {front : List String}
    (hbefore : Gives context log before first front) (hreached : w.writeAll codec first = (reached, .ok ())) :
    ¬Stops codec context ⟨log.lines ++ front⟩ step reached part after e := by
  obtain ⟨first', others, front', back, hfirst, hothers, rfl, rfl⟩ := gives_append_iff.mp hsteps
  obtain ⟨rfl, rfl⟩ := hfirst.unique hbefore
  obtain ⟨own, more, middle, last, hstep, -, rfl, -⟩ := gives_cons_iff.mp hothers
  rw [Writer.writeAll_append, hreached] at hwrite
  dsimp only at hwrite
  rw [Writer.writeAll_append] at hwrite
  refine not_stops_of_written hstep.1 ?_
  rcases hown : reached.writeAll codec own with ⟨next, cause | _⟩
  · rw [hown] at hwrite
    cases hwrite
  · rfl

theorem StoppedAt.unique {p : Pipeline} {i j : Nat} (hi : StoppedAt codec p context w log i e)
    (hj : StoppedAt codec p context w log j e) : i = j := by
  obtain ⟨before, step, later, hsteps, rfl, entries, lines, reached, part, hgives, hwrite, hstops, -⟩ := hi
  obtain ⟨before', step', later', hsteps', rfl, entries', lines', reached', part', hgives', hwrite', hstops', -⟩ := hj
  rw [hsteps] at hsteps'
  rcases List.append_eq_append_iff.mp hsteps' with ⟨more, rfl, hmore⟩ | ⟨more, rfl, hmore⟩
  · cases more with
    | nil => rw [List.append_nil]
    | cons first others =>
      cases (List.cons.inj hmore).1
      exact absurd hstops (not_stops_before hgives' (by rw [hwrite']) hgives hwrite)
  · cases more with
    | nil => rw [List.append_nil]
    | cons first others =>
      cases (List.cons.inj hmore).1
      exact absurd hstops' (not_stops_before hgives (by rw [hwrite]) hgives' hwrite')

/-! ## Projects -/

/-- Where no project is made, its settings have a problem, its run fails, or its archive cannot be finished. -/
theorem generate_error {p : Pipeline} (h : (p.generate codec context).result = .error e) :
    (∃ problem, context.settings.problem? = some problem ∧ e = .invalidSettings problem) ∨
      (p.run codec context {} {}).2.result = .error e ∨ ∃ path cause, e = .entryLost path cause := by
  rcases hsettings : context.settings.problem? with _ | problem
  · rcases hrun : p.run codec context {} {} with ⟨w, trace, cause | _⟩
    · simp only [generate, hsettings, hrun, Traced.andThen_error] at h
      exact .inr (.inl (congrArg Except.error (Except.error.inj h)))
    · rcases hfinish : w.finish codec with cause | archive
      · simp only [generate, hsettings, hrun, Traced.andThen_ok, hfinish] at h
        obtain ⟨path, reason, rfl⟩ := Writer.finish_error hfinish
        exact .inr (.inr ⟨path, reason, (Except.error.inj h).symm⟩)
      · simp only [generate, hsettings, hrun, Traced.andThen_ok, hfinish] at h
        cases h
  · simp only [generate, hsettings] at h
    exact .inl ⟨problem, rfl, (Except.error.inj h).symm⟩

/-- A project is what its run wrote, in an archive that was finished. -/
theorem run_of_generate {p : Pipeline} {project : Project} (h : (p.generate codec context).result = .ok project) :
    (p.run codec context {} {}).2.result = .ok () ∧ (p.run codec context {} {}).1.finish codec = .ok project.archive ∧
      project.entries = (p.run codec context {} {}).1.paths ∧
      (p.generate codec context).lines = (p.run codec context {} {}).2.lines := by
  rw [generate] at h ⊢
  rcases hsettings : context.settings.problem? with _ | problem
  · simp only [hsettings] at h
    rcases hrun : p.run codec context {} {} with ⟨w, trace, e | _⟩
    · rw [hrun] at h
      cases h
    · rcases hfinish : w.finish codec with e | archive
      · simp only [hrun, Traced.andThen_ok, hfinish] at h
        cases h
      · simp only [hrun, Traced.andThen_ok, hfinish] at h
        cases h
        refine ⟨rfl, rfl, rfl, ?_⟩
        simp only [Traced.andThen_ok, hfinish]
        rw [Attempt.lines, List.filterMap_append]
        exact List.append_nil _
  · rw [hsettings] at h
    cases h

private theorem problem_of_generate {p : Pipeline}
    (h : ∀ problem, (p.generate codec context).result ≠ .error (.invalidSettings problem)) :
    context.settings.problem? = none := by
  rcases hproblem : context.settings.problem? with _ | problem
  · rfl
  · refine absurd ?_ (h problem)
    simp only [generate, hproblem]
    rfl

/-- A project is made just when its settings have no problem, all steps give entries, no path comes twice, and each entry
is small enough for its header, as it is and packed. It is the archive of these entries with their paths. -/
theorem generate_ok_iff {p : Pipeline} {project : Project} :
    (p.generate codec context).result = .ok project ↔
      context.settings.problem? = none ∧ ∃ entries lines, Gives context {} p.steps entries lines ∧
        (entries.map Entry.path).Nodup ∧ (∀ e ∈ entries, e.Fits codec) ∧
        project = ⟨Zip.archive codec entries, entries.map Entry.path⟩ := by
  constructor
  · intro h
    have hsettings := problem_of_generate fun problem hproblem => nomatch h.symm.trans hproblem
    obtain ⟨hrun, hfinish, hpaths, -⟩ := run_of_generate h
    obtain ⟨entries, lines, hgives, hok⟩ := gives_of_runSteps hrun
    have hwrite : Writer.writeAll codec {} entries = ((Writer.writeAll codec {} entries).1, .ok ()) := Prod.ext rfl hok
    have hwriter : (p.run codec context {} {}).1 = (Writer.writeAll codec {} entries).1 :=
      (runSteps_of_gives hgives hwrite).1
    rw [hwriter] at hfinish hpaths
    obtain ⟨hfits, harchive⟩ := Writer.finish_writeAll hwrite hfinish
    rw [Writer.writeAll_paths hwrite] at hpaths
    refine ⟨hsettings, entries, lines, hgives, (Writer.writeAll_fresh hwrite).1, hfits, ?_⟩
    rw [← harchive]
    exact congrArg (Project.mk project.archive) hpaths
  · rintro ⟨hsettings, entries, lines, hgives, hnodup, hfits, rfl⟩
    exact (generate_of_gives hsettings hgives hfits hnodup).1

/-- Where all steps give entries, no project is made just when one of them is refused or the archive cannot be
finished. -/
theorem generate_error_iff {p : Pipeline} (hsettings : context.settings.problem? = none)
    (hgives : Gives context {} p.steps entries lines) :
    (p.generate codec context).result = .error e ↔
      ∃ cause, e = Error.ofWrite cause ∧ ((Writer.writeAll codec {} entries).2 = .error cause ∨
        (Writer.writeAll codec {} entries).2 = .ok () ∧
          (Writer.writeAll codec {} entries).1.finish codec = .error cause) := by
  obtain ⟨hwriter, hresult⟩ := runSteps_written codec hgives {}
  rcases hrun : runSteps codec context {} {} p.steps with ⟨reached, trace, result⟩
  rw [hrun] at hwriter hresult
  have hreached : (Writer.writeAll codec {} entries).1 = reached := hwriter.symm
  have hanswer : result = (Writer.writeAll codec {} entries).2.mapError Error.ofWrite := hresult
  simp only [generate, hsettings, run, hrun, hreached]
  rcases hwrite : (Writer.writeAll codec {} entries).2 with cause | _
  · rw [hanswer, hwrite]
    simp [Except.mapError, eq_comm]
  · rw [hanswer, hwrite]
    rcases reached.finish codec with cause | archive
    · simp [Except.mapError, Traced.fail, eq_comm]
    · simp [Except.mapError]

/-- A run that comes out well put the entries of all its steps into the archive, in order, and their lines into the
log. A run that fails stopped at exactly one step: what the steps before gave is written, of that step nothing or what
comes before the first refused entry, the log ends with its lines, and the steps after it were not executed. -/
theorem run_outcome (codec : Codec) (p : Pipeline) (context : StepContext) (w : Writer) (log : Log) :
    let after := (p.run codec context w log).1
    let attempt := (p.run codec context w log).2
    (attempt.result = .ok () → ∃ entries lines, Gives context log p.steps entries lines ∧
      w.writeAll codec entries = (after, .ok ()) ∧ after.paths = w.paths ++ entries.map Entry.path ∧
      (attempt.logAfter log).lines = log.lines ++ lines) ∧
    ∀ e, attempt.result = .error e → ∃! i, StoppedAt codec p context w log i e := by
  intro after attempt
  constructor
  · intro h
    obtain ⟨entries, lines, hgives, hwrite⟩ := gives_of_runSteps h
    rcases hall : w.writeAll codec entries with ⟨written, _ | _⟩
    · rw [hall] at hwrite
      cases hwrite
    · obtain ⟨hwriter, -, hlines⟩ := runSteps_of_gives hgives hall
      have hafter : after = written := hwriter
      rw [hafter]
      refine ⟨entries, lines, hgives, hall, Writer.writeAll_paths hall, ?_⟩
      rw [Attempt.lines_logAfter]
      exact congrArg (log.lines ++ ·) hlines
  · intro e h
    obtain ⟨before, step, later, entries, lines, reached, part, stopped, hsteps, hgives, hwrite, hstops⟩ :=
      stops_of_runSteps h
    obtain ⟨events, hevents, hbefore⟩ := runSteps_append hgives hwrite
    obtain ⟨last, hlast, hstop⟩ := runSteps_stop hstops
    have hrun (others : List Step) : runSteps codec context w log (before ++ step :: others)
        = (stopped, ⟨events ++ last, .error e⟩) := by
      rw [hbefore, hstop]
    have hown : p.run codec context w log = (stopped, ⟨events ++ last, .error e⟩) := by rw [run, hsteps, hrun]
    have hhere : StoppedAt codec p context w log before.length e := by
      refine ⟨before, step, later, hsteps, rfl, entries, lines, reached, part, hgives, hwrite, ?_, ?_, ?_, ?_⟩
      · rw [hown]
        exact hstops
      · rw [hown, hstops.paths, Writer.writeAll_paths hwrite, List.map_append, List.append_assoc]
      · rw [hown, Attempt.lines_logAfter, Attempt.lines, List.filterMap_append, hevents, hlast, List.append_assoc]
      · intro others
        rw [hown]
        exact hrun others
    exact ⟨before.length, hhere, fun j hj => hj.unique hhere⟩

/-! ## A run that is refused -/

/-- Notes a line, which may tell of those before it, and gives empty entries with these paths. -/
def noting (line : Log → String) (paths : List String) : StepBody := fun _ log => do
  Attempt.note (line log)
  pure (paths.map fun path => ⟨path, [], none⟩)

/-- Default settings without templates and document. -/
def bareContext : StepContext :=
  ⟨{}, MemoryStore.toStore {}, none⟩

/-- Three steps, of which the second has a path of the first between two others and tells how long the log is. -/
def clashing : Pipeline :=
  ⟨[⟨"first", noting (fun _ => "one") ["a"]⟩,
    ⟨"second", noting (fun log => toString log.lines.length) ["b", "a", "c"]⟩,
    ⟨"third", noting (fun _ => "three") ["d"]⟩]⟩

theorem run_outcome_refused :
    let outcome := clashing.run Codec.stored bareContext {} ⟨["old"]⟩
    outcome.2.result = .error (.duplicateEntry "a") ∧ outcome.1.paths = ["a", "b"] ∧
      (outcome.2.logAfter ⟨["old"]⟩).lines = ["old", "one", "2"] ∧
      ∃! i, StoppedAt Codec.stored clashing bareContext {} ⟨["old"]⟩ i (.duplicateEntry "a") := by
  intro outcome
  have hresult : outcome.2.result = .error (.duplicateEntry "a") := by decide +kernel
  refine ⟨hresult, by decide +kernel, by decide +kernel, ?_⟩
  exact (run_outcome Codec.stored clashing bareContext {} ⟨["old"]⟩).2 _ hresult

end Scaffold.Pipeline
