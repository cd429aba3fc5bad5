import Scaffold.Proofs.Pipeline.Outcome

/-!
# Runs on the same archive

A pipeline that is run again on the archive of its first run. Where its steps do not look at the log, the archive stays
as the first run left it: the later runs are stopped by the first entry that the first one came to, or they come to
none.
-/

namespace Scaffold.Pipeline

/-- What a step gives, its lines and its error are the same for every log. -/
def Steady (context : StepContext) (step : Step) : Prop :=
  ∀ log other, (step.body context log).result = (step.body context other).result ∧
    (step.body context log).lines = (step.body context other).lines

/-- The first entry that steps emit, with the lines of the steps up to the one that emits it. All of these steps
succeed. -/
def FirstEntry (context : StepContext) (log : Log) (steps : List Step) (e : Entry) (lines : List String) : Prop :=
  ∃ before step later front rest own, steps = before ++ step :: later ∧ Gives context log before [] front ∧
    (step.body context ⟨log.lines ++ front⟩).Yields (e :: rest) own ∧ lines = front ++ own

/-- The archive and the log after a number of runs. -/
def afterRuns (codec : Codec) (p : Pipeline) (context : StepContext) (w : Writer) (log : Log) : Nat → Writer × Log
  | 0 => (w, log)
  | n + 1 =>
    let (reached, log) := afterRuns codec p context w log n
    let (after, attempt) := p.run codec context reached log
    (after, attempt.logAfter log)

variable {codec : Codec} {context : StepContext} {log other : Log} {steps : List Step} {step : Step}
  {entries : List Entry} {lines : List String} {e : Entry} {w : Writer}

/-! ## Steps that do not look at the log -/

theorem Steady.yields (h : Steady context step) (hstep : (step.body context log).Yields entries lines) :
    (step.body context other).Yields entries lines := by
  obtain ⟨hresult, hlines⟩ := h other log
  exact ⟨hresult.trans hstep.1, hlines.trans hstep.2⟩

theorem Gives.steady (h : Gives context log steps entries lines) (hsteady : ∀ step ∈ steps, Steady context step)
    (other : Log) : Gives context other steps entries lines := by
  induction h generalizing other with
  | nil => exact .nil
  | cons hstep _ ih =>
    obtain ⟨hfirst, hrest⟩ := List.forall_mem_cons.mp hsteady
    exact .cons (hfirst.yields hstep) (ih hrest _)

theorem FirstEntry.steady (h : FirstEntry context log steps e lines) (hsteady : ∀ step ∈ steps, Steady context step)
    (other : Log) : FirstEntry context other steps e lines := by
  obtain ⟨before, step, later, front, rest, own, rfl, hbefore, hstep, rfl⟩ := h
  obtain ⟨hfront, hown⟩ := List.forall_mem_append.mp hsteady
  exact ⟨before, step, later, front, rest, own, rfl, hbefore.steady hfront other,
    (hown step List.mem_cons_self).yields hstep, rfl⟩

theorem FirstEntry.cons {front : List String} (hstep : (step.body context log).Yields [] front)
    (h : FirstEntry context ⟨log.lines ++ front⟩ steps e lines) :
    FirstEntry context log (step :: steps) e (front ++ lines) := by
  obtain ⟨before, emitting, later, middle, rest, own, rfl, hbefore, hown, rfl⟩ := h
  refine ⟨step :: before, emitting, later, front ++ middle, rest, own, rfl, .cons hstep hbefore, ?_, ?_⟩
  · rwa [← List.append_assoc]
  · rw [List.append_assoc]

/-! ## Runs that come to no entry -/

/-- Steps that come to no entry leave every archive as it is, and they end the same way on each. -/
theorem runSteps_idle (hsteady : ∀ step ∈ steps, Steady context step)
    (h : ¬∃ e lines, FirstEntry context {} steps e lines) :
    ∃ result lines, ∀ codec w log, (runSteps codec context w log steps).1 = w ∧
      (runSteps codec context w log steps).2.result = result ∧ (runSteps codec context w log steps).2.lines = lines := by
  -- The steps are looked at on the empty log alone; that they are steady carries it to every log.
  induction steps with
  | nil => exact ⟨.ok (), [], fun codec w log => ⟨rfl, rfl, rfl⟩⟩
  | cons step rest ih =>
    obtain ⟨hfirst, hrest⟩ := List.forall_mem_cons.mp hsteady
    rcases hresult : (step.body context {}).result with cause | entries
    · refine ⟨.error cause, (step.body context {}).lines, fun codec w log => ?_⟩
      have hstops : Stops codec context log step w [] w cause := .failed ((hfirst log {}).1.trans hresult)
      obtain ⟨events, hlines, hstop⟩ := runSteps_stop hstops
      rw [hstop]
      exact ⟨rfl, rfl, hlines.trans (hfirst log {}).2⟩
    · cases entries with
      | cons e more => exact absurd ⟨e, _, [], step, rest, [], more, _, rfl, .nil, ⟨hresult, rfl⟩, rfl⟩ h
      | nil =>
        have hidle : ¬∃ e lines, FirstEntry context {} rest e lines := by
          rintro ⟨e, lines, hentry⟩
          exact h ⟨e, _, (hentry.steady hrest _).cons ⟨hresult, rfl⟩⟩
        obtain ⟨result, lines, hlater⟩ := ih hrest hidle
        refine ⟨result, (step.body context {}).lines ++ lines, fun codec w log => ?_⟩
        have hown : Gives context log [step] [] ((step.body context {}).lines ++ []) :=
          .cons (hfirst.yields ⟨hresult, rfl⟩) .nil
        rw [List.append_nil] at hown
        have hnothing : w.writeAll codec [] = (w, .ok ()) := rfl
        obtain ⟨events, hlines, happend⟩ := runSteps_append hown hnothing
        obtain ⟨hw, hend, hmore⟩ := hlater codec w ⟨log.lines ++ (step.body context {}).lines⟩
        have hrun := happend rest
        rw [List.singleton_append] at hrun
        rw [hrun]
        refine ⟨hw, hend, ?_⟩
        rw [Attempt.lines, List.filterMap_append, hlines]
        exact congrArg _ hmore

/-! ## Runs that come to an entry -/

private theorem runSteps_attempts (codec : Codec) (context : StepContext) (w : Writer) (log : Log) (steps : List Step) :
    w.attempted ⊆ (runSteps codec context w log steps).1.attempted := by
  induction steps generalizing w log with
  | nil => exact List.Subset.refl _
  | cons step rest ih =>
    rcases hstep : (step.body context log).result with cause | entries
    · simp only [runSteps, hstep]
      exact List.Subset.refl _
    · have hown := Writer.writeAll_attempts codec w entries
      rcases hwrite : w.writeAll codec entries with ⟨reached, cause | _⟩
      · rw [hwrite] at hown
        simp only [runSteps, hstep, hwrite]
        exact hown
      · rw [hwrite] at hown
        simp only [runSteps, hstep, hwrite]
        exact List.Subset.trans hown (ih reached _)

theorem FirstEntry.attempted (h : FirstEntry context log steps e lines) (codec : Codec) (w : Writer) :
    e.path ∈ (runSteps codec context w log steps).1.attempted := by
  obtain ⟨before, step, later, front, rest, own, rfl, hbefore, hstep, rfl⟩ := h
  have hnothing : w.writeAll codec [] = (w, .ok ()) := rfl
  obtain ⟨events, -, happend⟩ := runSteps_append hbefore hnothing
  rw [happend]
  have hown := Writer.writeAll_attempts_head codec w e rest
  rcases hwrite : w.writeAll codec (e :: rest) with ⟨reached, cause | _⟩
  · rw [hwrite] at hown
    simp only [runSteps, hstep.1, hwrite]
    exact hown
  · rw [hwrite] at hown
    simp only [runSteps, hstep.1, hwrite]
    exact runSteps_attempts codec context reached _ later hown

/-- Where the path of their first entry was attempted before, steps are stopped by it and the archive stays as it is. -/
theorem FirstEntry.refused (h : FirstEntry context log steps e lines) (hseen : e.path ∈ w.attempted) (codec : Codec) :
    (runSteps codec context w log steps).1 = w ∧
      (runSteps codec context w log steps).2.result = .error (.duplicateEntry e.path) ∧
      (runSteps codec context w log steps).2.lines = lines := by
  obtain ⟨before, step, later, front, rest, own, rfl, hbefore, hstep, rfl⟩ := h
  have hnothing : w.writeAll codec [] = (w, .ok ()) := rfl
  obtain ⟨events, hfront, happend⟩ := runSteps_append hbefore hnothing
  have hstops : Stops codec context ⟨log.lines ++ front⟩ step w [] w (Error.ofWrite (.duplicate e.path)) :=
    .refused hstep.1 rfl (Writer.write_repeated w hseen)
  obtain ⟨last, hown, hstop⟩ := runSteps_stop hstops
  rw [happend, hstop]
  refine ⟨rfl, rfl, ?_⟩
  rw [Attempt.lines, List.filterMap_append, hfront, hown, hstep.2]

/-! ## Runs one after another -/

variable {p : Pipeline}

/-- From the first run on, the path of the first entry has been attempted and the archive is that of the first run. -/
theorem FirstEntry.stays (h : FirstEntry context {} p.steps e lines)
    (hsteady : ∀ step ∈ p.steps, Steady context step) (codec : Codec) (w : Writer) (log : Log) (n : Nat) :
    e.path ∈ (p.afterRuns codec context w log (n + 1)).1.attempted ∧
      (p.afterRuns codec context w log (n + 1)).1 = (p.run codec context w log).1 := by
  induction n with
  | zero => exact ⟨(h.steady hsteady log).attempted codec w, rfl⟩
  | succ n ih =>
    obtain ⟨hseen, hfirst⟩ := ih
    have hnext : (p.afterRuns codec context w log (n + 2)).1 = (p.afterRuns codec context w log (n + 1)).1 :=
      ((h.steady hsteady (p.afterRuns codec context w log (n + 1)).2).refused hseen codec).1
    rw [hnext]
    exact ⟨hseen, hfirst⟩

/-- A pipeline whose steps do not look at the log leaves an archive, run on it any number of times, as the first run
left it. Where the run comes to an entry, every later run is refused for the path of the first one, with the lines of
the steps up to its own; and where it comes to none, every run ends as the first did. -/
theorem run_again (codec : Codec) (p : Pipeline) (context : StepContext) (w : Writer) (log : Log)
    (hsteady : ∀ step ∈ p.steps, Steady context step) :
    let reached (n : Nat) := p.afterRuns codec context w log n
    let attempt (n : Nat) := (p.run codec context (reached n).1 (reached n).2).2
    (∀ k, 1 ≤ k → (reached k).1 = (reached 1).1) ∧
    (∀ n, (reached (n + 1)).2.lines = (reached n).2.lines ++ (attempt n).lines) ∧
    (∀ e lines, FirstEntry context log p.steps e lines → ∀ n, 1 ≤ n →
      (attempt n).result = .error (.duplicateEntry e.path) ∧ (attempt n).lines = lines) ∧
    ((¬∃ e lines, FirstEntry context log p.steps e lines) → ∀ n, (reached n).1 = w ∧
      (attempt n).result = (attempt 0).result ∧ (attempt n).lines = (attempt 0).lines) := by
  intro reached attempt
  have hidle (h : ¬∃ e lines, FirstEntry context log p.steps e lines) (n : Nat) : (reached n).1 = w ∧
      (attempt n).result = (attempt 0).result ∧ (attempt n).lines = (attempt 0).lines := by
    have hnone : ¬∃ e lines, FirstEntry context {} p.steps e lines := by
      rintro ⟨e, lines, hentry⟩
      exact h ⟨e, lines, hentry.steady hsteady log⟩
    obtain ⟨result, lines, hall⟩ := runSteps_idle hsteady hnone
    have hend (n : Nat) : (attempt n).result = result ∧ (attempt n).lines = lines := (hall codec _ _).2
    refine ⟨?_, (hend n).1.trans (hend 0).1.symm, (hend n).2.trans (hend 0).2.symm⟩
    induction n with
    | zero => rfl
    | succ n ih => exact (hall codec _ _).1.trans ih
  have hlater {e : Entry} {lines : List String} (h : FirstEntry context log p.steps e lines) (n : Nat) :=
    (h.steady hsteady {}).stays hsteady codec w log n
  refine ⟨?_, fun n => rfl, ?_, hidle⟩
  · intro k hk
    obtain ⟨n, rfl⟩ := Nat.exists_eq_add_of_le' hk
    by_cases h : ∃ e lines, FirstEntry context log p.steps e lines
    · obtain ⟨e, lines, hentry⟩ := h
      exact (hlater hentry n).2
    · exact (hidle h (n + 1)).1.trans (hidle h 1).1.symm
  · intro e lines hentry n hn
    obtain ⟨n, rfl⟩ := Nat.exists_eq_add_of_le' hn
    exact ((hentry.steady hsteady _).refused (hlater hentry n).1 codec).2

/-! ## Runs on an archive that has a path already -/

/-- Three steps, of which the first gives no entry. -/
def threeSteps : Pipeline :=
  ⟨[⟨"none", noting (fun _ => "zero") []⟩, ⟨"some", noting (fun _ => "one") ["a", "b"]⟩,
    ⟨"last", noting (fun _ => "two") ["c"]⟩]⟩

/-- An archive with one entry. -/
def startedWriter : Writer :=
  (Writer.write Codec.stored {} ⟨"b", [1], none⟩).1

/-- The first run is refused for the path that the archive has, after one entry, and the third for that entry. -/
theorem run_again_taken :
    let third := threeSteps.afterRuns Codec.stored bareContext startedWriter {} 2
    let attempt := (threeSteps.run Codec.stored bareContext third.1 third.2).2
    (∀ step ∈ threeSteps.steps, Steady bareContext step) ∧
    (threeSteps.run Codec.stored bareContext startedWriter {}).2.result = .error (.duplicateEntry "b") ∧
    (threeSteps.afterRuns Codec.stored bareContext startedWriter {} 3).1.paths = ["b", "a"] ∧
    attempt.result = .error (.duplicateEntry "a") ∧ attempt.lines = ["zero", "one"] := by
  intro third attempt
  have hsteady : ∀ step ∈ threeSteps.steps, Steady bareContext step := by
    simp only [threeSteps, List.forall_mem_cons]
    exact ⟨fun _ _ => ⟨rfl, rfl⟩, fun _ _ => ⟨rfl, rfl⟩, fun _ _ => ⟨rfl, rfl⟩, nofun⟩
  have hbefore : Gives bareContext {} [⟨"none", noting (fun _ => "zero") []⟩] [] ["zero"] :=
    gives_cons_iff.mpr ⟨[], [], ["zero"], [], ⟨rfl, rfl⟩, .nil, rfl, rfl⟩
  have hfirst : FirstEntry bareContext {} threeSteps.steps ⟨"a", [], none⟩ ["zero", "one"] :=
    ⟨_, _, _, ["zero"], _, ["one"], rfl, hbefore, ⟨rfl, rfl⟩, rfl⟩
  obtain ⟨hsame, -, hrefused, -⟩ := run_again Codec.stored threeSteps bareContext startedWriter {} hsteady
  refine ⟨hsteady, by decide +kernel, ?_, ?_⟩
  · rw [hsame 3 (by decide)]
    decide +kernel
  · have hthird := hrefused _ _ hfirst 2 (by decide)
    beta_reduce at hthird
    simp only [attempt, third]
    exact hthird

end Scaffold.Pipeline
