import Scaffold.Pipeline.Basic
import Scaffold.Proofs.Archive.History

/-!
# Runs of a pipeline

What the steps of a pipeline give, one after another, is what its archive gets. A run comes out well just
when every step does and no path comes twice.
-/

namespace Scaffold

namespace Attempt

/-- An attempt comes out well, with a value and these lines of the log. -/
def Yields (attempt : Attempt α) (a : α) (lines : List String) : Prop :=
  attempt.result = .ok a ∧ attempt.lines = lines

theorem yields_pure {a b : α} {lines : List String} :
    (pure a : Attempt α).Yields b lines ↔ b = a ∧ lines = [] := by
  rw [Yields, Traced.result_pure, lines_pure, Except.ok.injEq]
  exact and_congr eq_comm eq_comm

private theorem yields_note {text : String} {u : Unit} {lines : List String} :
    (note text).Yields u lines ↔ lines = [text] := by
  have hresult : (note text).result = .ok u := rfl
  rw [Yields, lines_note, hresult]
  exact ⟨fun h => h.2.symm, fun h => ⟨rfl, h.symm⟩⟩

theorem not_yields_fail {e : Error} {a : α} {lines : List String} :
    ¬Yields (Traced.fail e : Attempt α) a lines := by
  intro h
  cases h.1

theorem yields_ofExcept {result : Except Error α} {a : α} {lines : List String} :
    Yields (Traced.ofExcept result : Attempt α) a lines ↔ result = .ok a ∧ lines = [] := by
  rw [Yields, Traced.result_ofExcept]
  exact and_congr_right fun _ => eq_comm

theorem yields_bind {first : Attempt α} {next : α → Attempt β} {b : β} {lines : List String} :
    (first >>= next).Yields b lines ↔
      ∃ a before after, first.Yields a before ∧ (next a).Yields b after ∧ lines = before ++ after := by
  constructor
  · intro h
    obtain ⟨hresult, hlines⟩ := h
    obtain ⟨a, hfirst, hnext⟩ := Traced.result_bind_eq_ok.mp hresult
    rw [lines_bind_of_ok hfirst] at hlines
    exact ⟨a, _, _, ⟨hfirst, rfl⟩, ⟨hnext, rfl⟩, hlines.symm⟩
  · intro h
    obtain ⟨a, before, after, ⟨hfirst, hbefore⟩, ⟨hnext, hafter⟩, rfl⟩ := h
    refine ⟨Traced.result_bind_eq_ok.mpr ⟨a, hfirst, hnext⟩, ?_⟩
    rw [lines_bind_of_ok hfirst, hbefore, hafter]

theorem yields_note_bind {text : String} {next : Attempt β} {b : β} {lines : List String} :
    (do note text; next).Yields b lines ↔ ∃ after, next.Yields b after ∧ lines = text :: after := by
  rw [yields_bind]
  constructor
  · intro h
    obtain ⟨_, before, after, hnote, hnext, rfl⟩ := h
    rw [yields_note.mp hnote]
    exact ⟨after, hnext, rfl⟩
  · intro h
    obtain ⟨after, hnext, rfl⟩ := h
    exact ⟨(), [text], after, yields_note.mpr rfl, hnext, rfl⟩

/-- An attempt ends with an error, after these lines of the log. -/
def Fails (attempt : Attempt α) (e : Error) (lines : List String) : Prop :=
  attempt.result = .error e ∧ attempt.lines = lines

theorem not_fails_pure {a : α} {e : Error} {lines : List String} : ¬Fails (pure a : Attempt α) e lines := by
  intro h
  cases h.1

theorem fails_fail {e f : Error} {lines : List String} :
    Fails (Traced.fail e : Attempt α) f lines ↔ f = e ∧ lines = [] := by
  constructor
  · intro h
    obtain ⟨hresult, rfl⟩ := h
    exact ⟨(Except.error.inj hresult).symm, rfl⟩
  · intro h
    obtain ⟨rfl, rfl⟩ := h
    exact ⟨rfl, rfl⟩

private theorem lines_bind_of_error {first : Attempt α} {next : α → Attempt β} {e : Error}
    (h : first.result = .error e) :
    (first >>= next).lines = first.lines := by
  obtain ⟨trace, _ | a⟩ := first
  · rfl
  · cases h

theorem fails_bind {first : Attempt α} {next : α → Attempt β} {e : Error} {lines : List String} :
    (first >>= next).Fails e lines ↔
      first.Fails e lines ∨
        ∃ a before after, first.Yields a before ∧ (next a).Fails e after ∧ lines = before ++ after := by
  constructor
  · intro h
    obtain ⟨hresult, rfl⟩ := h
    rcases Traced.result_bind_eq_error.mp hresult with hfirst | ⟨a, hfirst, hnext⟩
    · exact .inl ⟨hfirst, (lines_bind_of_error hfirst).symm⟩
    · exact .inr ⟨a, _, _, ⟨hfirst, rfl⟩, ⟨hnext, rfl⟩, lines_bind_of_ok hfirst⟩
  · intro h
    rcases h with ⟨hfirst, rfl⟩ | ⟨a, before, after, ⟨hfirst, rfl⟩, ⟨hnext, rfl⟩, rfl⟩
    · exact ⟨Traced.result_bind_eq_error.mpr (.inl hfirst), lines_bind_of_error hfirst⟩
    · exact ⟨Traced.result_bind_eq_error.mpr (.inr ⟨a, hfirst, hnext⟩), lines_bind_of_ok hfirst⟩

theorem fails_note_bind {text : String} {next : Attempt β} {e : Error} {lines : List String} :
    (do note text; next).Fails e lines ↔ ∃ after, next.Fails e after ∧ lines = text :: after := by
  rw [fails_bind]
  constructor
  · intro h
    rcases h with ⟨hnote, -⟩ | ⟨_, before, after, hnote, hnext, rfl⟩
    · cases hnote
    · rw [yields_note.mp hnote]
      exact ⟨after, hnext, rfl⟩
  · intro h
    obtain ⟨after, hnext, rfl⟩ := h
    exact .inr ⟨(), [text], after, yields_note.mpr rfl, hnext, rfl⟩

end Attempt

namespace Pipeline

/-- What steps give one after another on a log: their entries, and the lines they add to it. -/
inductive Gives (context : StepContext) : Log → List Step → List Entry → List String → Prop
  | nil {log : Log} : Gives context log [] [] []
  | cons {log : Log} {step : Step} {rest : List Step} {first others : List Entry} {before after : List String} :
    (step.body context log).Yields first before → Gives context ⟨log.lines ++ before⟩ rest others after →
      Gives context log (step :: rest) (first ++ others) (before ++ after)

variable {codec : Codec} {context : StepContext} {log : Log} {steps : List Step} {entries : List Entry}
  {lines : List String}

theorem gives_nil_iff : Gives context log [] entries lines ↔ entries = [] ∧ lines = [] := by
  constructor
  · intro h
    cases h
    exact ⟨rfl, rfl⟩
  · intro h
    obtain ⟨rfl, rfl⟩ := h
    exact .nil

theorem gives_cons_iff {step : Step} :
    Gives context log (step :: steps) entries lines ↔
      ∃ first others before after, (step.body context log).Yields first before ∧
        Gives context ⟨log.lines ++ before⟩ steps others after ∧ entries = first ++ others ∧
        lines = before ++ after := by
  constructor
  · intro h
    cases h with
    | cons hstep hrest => exact ⟨_, _, _, _, hstep, hrest, rfl, rfl⟩
  · intro h
    obtain ⟨first, others, before, after, hstep, hrest, rfl, rfl⟩ := h
    exact .cons hstep hrest

theorem Gives.unique {entries' : List Entry} {lines' : List String} (h : Gives context log steps entries lines)
    (h' : Gives context log steps entries' lines') : entries = entries' ∧ lines = lines' := by
  induction h generalizing entries' lines' with
  | nil =>
    obtain ⟨rfl, rfl⟩ := gives_nil_iff.mp h'
    exact ⟨rfl, rfl⟩
  | cons hstep hrest ih =>
    obtain ⟨first', others', before', after', hstep', hrest', rfl, rfl⟩ := gives_cons_iff.mp h'
    obtain rfl := Except.ok.inj (hstep.1.symm.trans hstep'.1)
    obtain rfl := hstep.2.symm.trans hstep'.2
    obtain ⟨rfl, rfl⟩ := ih hrest'
    exact ⟨rfl, rfl⟩

theorem written_lines (entries : List Entry) (count : Nat) :
    (written entries count).filterMap Event.line? = [] := by
  rw [written, List.filterMap_map, List.filterMap_eq_nil_iff]
  intro e _
  rfl

/-- Steps that give entries which can all be written put them into the archive and go on with the steps after them,
whatever these are. -/
theorem runSteps_append {w reached : Writer} (hgives : Gives context log steps entries lines)
    (hwrite : w.writeAll codec entries = (reached, .ok ())) :
    ∃ events : List Event, events.filterMap Event.line? = lines ∧ ∀ later,
      let more := runSteps codec context reached ⟨log.lines ++ lines⟩ later
      runSteps codec context w log (steps ++ later) = (more.1, ⟨events ++ more.2.trace, more.2.result⟩) := by
  induction hgives generalizing w with
  | @nil log =>
    cases hwrite
    refine ⟨[], rfl, fun later => ?_⟩
    simp only [List.nil_append, List.append_nil]
  | @cons log step rest first others before after hstep hrest ih =>
    have hlog : (step.body context log).logAfter log = ⟨log.lines ++ before⟩ := by rw [Attempt.logAfter, hstep.2]
    rw [Writer.writeAll_append] at hwrite
    rcases hfirst : w.writeAll codec first with ⟨middle, _ | _⟩
    · rw [hfirst] at hwrite
      cases hwrite
    · rw [hfirst] at hwrite
      obtain ⟨events, hlines, hlater⟩ := ih hwrite
      refine ⟨.step step.name :: (step.body context log).trace ++ written first first.length ++ events, ?_, ?_⟩
      · have hbefore : (step.body context log).trace.filterMap Event.line? = before := hstep.2
        rw [List.filterMap_append, List.filterMap_append, List.filterMap_cons_none rfl, written_lines, List.append_nil,
          hbefore, hlines]
      · intro later
        simp only [List.cons_append, runSteps, hstep.1, hfirst, hlog, hlater, List.append_assoc]

theorem runSteps_of_gives {w w' : Writer} (hgives : Gives context log steps entries lines)
    (hwrite : w.writeAll codec entries = (w', .ok ())) :
    (runSteps codec context w log steps).1 = w' ∧ (runSteps codec context w log steps).2.Yields () lines := by
  obtain ⟨events, hlines, hlater⟩ := runSteps_append hgives hwrite
  have hrun := hlater []
  rw [List.append_nil] at hrun
  rw [hrun]
  refine ⟨rfl, rfl, ?_⟩
  rw [Attempt.lines, List.filterMap_append, hlines]
  exact List.append_nil lines

theorem gives_of_runSteps {w : Writer} (h : (runSteps codec context w log steps).2.result = .ok ()) :
    ∃ entries lines, Gives context log steps entries lines ∧ (w.writeAll codec entries).2 = .ok () := by
  induction steps generalizing w log with
  | nil => exact ⟨[], [], .nil, rfl⟩
  | cons step rest ih =>
    rcases hstep : (step.body context log).result with _ | first
    · simp only [runSteps, hstep] at h
      cases h
    · rcases hfirst : w.writeAll codec first with ⟨middle, _ | _⟩
      · simp only [runSteps, hstep, hfirst] at h
        cases h
      · simp only [runSteps, hstep, hfirst] at h
        obtain ⟨others, after, hrest, hwrite⟩ := ih h
        refine ⟨first ++ others, _, .cons ⟨hstep, rfl⟩ hrest, ?_⟩
        rw [Writer.writeAll_append, hfirst]
        exact hwrite

/-- Steps that do the same in two contexts run alike in them. -/
theorem runSteps_congr {other : StepContext}
    (h : ∀ step ∈ steps, ∀ log, step.body other log = step.body context log) (w : Writer) (log : Log) :
    runSteps codec other w log steps = runSteps codec context w log steps := by
  induction steps generalizing w log with
  | nil => rfl
  | cons step rest ih =>
    obtain ⟨hstep, hrest⟩ := List.forall_mem_cons.mp h
    simp only [runSteps, hstep, ih hrest]

/-! ## Projects -/

theorem writeAll_empty (hfits : ∀ e ∈ entries, e.Fits codec)
    (hnodup : (entries.map Entry.path).Nodup) :
    Writer.writeAll codec {} entries = (Writer.holding codec entries.reverse, .ok ()) := by
  have hrun := Writer.writeAll_holding (fun e he => absurd he List.not_mem_nil) entries hfits hnodup
    (fun e _ => List.not_mem_nil)
  rw [List.append_nil] at hrun
  exact hrun

theorem finish_reverse (hfits : ∀ e ∈ entries, e.Fits codec) :
    (Writer.holding codec entries.reverse).finish codec = .ok (Zip.archive codec entries) := by
  rw [Writer.finish_holding fun e he => hfits e (List.mem_reverse.mp he), List.reverse_reverse]

theorem generate_of_gives {p : Pipeline} (hsettings : context.settings.problem? = none)
    (hgives : Gives context {} p.steps entries lines) (hfits : ∀ e ∈ entries, e.Fits codec)
    (hnodup : (entries.map Entry.path).Nodup) :
    (p.generate codec context).Yields ⟨Zip.archive codec entries, entries.map Entry.path⟩ lines := by
  obtain ⟨hwriter, hresult, hlines⟩ := runSteps_of_gives hgives (writeAll_empty hfits hnodup)
  have hfinish := finish_reverse hfits
  have hpaths : (Writer.holding codec entries.reverse).paths = entries.map Entry.path := by
    rw [Writer.holding_paths, List.reverse_reverse]
  rcases hrun : runSteps codec context {} {} p.steps with ⟨w, trace, result⟩
  rw [hrun] at hwriter hresult hlines
  have hheld : w = Writer.holding codec entries.reverse := hwriter
  have hok : result = .ok () := hresult
  simp only [generate, hsettings, run, hrun, hok, Traced.andThen_ok, hheld, hfinish, hpaths]
  refine ⟨rfl, ?_⟩
  rw [Attempt.lines, List.filterMap_append, List.filterMap_cons_none rfl, List.filterMap_nil, List.append_nil]
  exact hlines

end Pipeline

end Scaffold
