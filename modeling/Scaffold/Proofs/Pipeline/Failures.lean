import Scaffold.Proofs.Pipeline.Assembled
import Scaffold.Proofs.Pipeline.Outcome

/-!
# Why no project is made

The errors of the steps of a flavor are those of its templates and of its sources. So a project that is not made lacks
one of these, or its settings have a problem, or its archive refuses an entry.
-/

namespace Scaffold.Layout

/-- The error is that of a template of a store: it cannot be had, it is no text, or it does not render. -/
inductive TemplateError (store : Store) : Error → Prop
  | lacking {path : String} {e : Error} : (store.load path).result = .error e → TemplateError store e
  | notText (path : String) (cause : Text.Utf8Fault) : TemplateError store (.templateNotText path cause)
  | failed (fault : Template.Fault) : TemplateError store (.templateFailed fault)

variable {codec : Codec} {flavor : Flavor} {provider : Sources} {context : StepContext} {store : Store} {e : Error}

/-! ## Look-ups -/

private theorem loadText_error {path : String} (h : (store.loadText path).result = .error e) :
    TemplateError store e := by
  rw [Store.loadText] at h
  rcases Traced.result_bind_eq_error.mp h with hload | ⟨content, -, hdecode⟩
  · exact .lacking hload
  · cases hcontent : Text.decode content with
    | ok text =>
      rw [hcontent] at hdecode
      cases hdecode
    | error cause =>
      rw [hcontent] at hdecode
      cases hdecode
      exact .notText path cause

private theorem render_error {path : String} (h : (context.render path).result = .error e) :
    TemplateError context.store e := by
  rw [StepContext.render] at h
  rcases Traced.result_bind_eq_error.mp h with hload | ⟨source, -, hrender⟩
  · exact loadText_error hload
  · cases htext : Template.render source (Template.context context.settings) with
    | ok text =>
      rw [htext] at hrender
      cases hrender
    | error fault =>
      rw [htext] at hrender
      cases hrender
      exact .failed fault

private theorem first_error {α β : Type} {first : Attempt α} {value : α → β}
    (h : (first >>= fun a => pure (value a)).result = .error e) : first.result = .error e := by
  rcases Traced.result_bind_eq_error.mp h with hfirst | ⟨_, -, hpure⟩
  · exact hfirst
  · cases hpure

private theorem copyAll_error {paths : List String} (h : (copyAll store paths).result = .error e) :
    TemplateError store e := by
  induction paths with
  | nil => cases h
  | cons path rest ih =>
    rw [copyAll] at h
    rcases Traced.result_bind_eq_error.mp h with hpath | ⟨_, -, hmore⟩
    · exact .lacking (first_error hpath)
    · exact ih (first_error hmore)

/-! ## Steps -/

private theorem after_note_error {text : String} {next : Attempt α}
    (h : (do Attempt.note text; next).result = .error e) : next.result = .error e := by
  rcases Traced.result_bind_eq_error.mp h with hnote | ⟨_, -, hnext⟩
  · cases hnote
  · exact hnext

private theorem pom_error (log : Log) (h : (pom context log).result = .error e) : TemplateError context.store e := by
  rw [pom] at h
  split at h
  · cases h
  · exact render_error (first_error (after_note_error h))

private theorem application_error (log : Log) (h : (application context log).result = .error e) :
    TemplateError context.store e := by
  rw [application] at h
  split at h
  · cases h
  · exact render_error (first_error (after_note_error h))

private theorem extras_error {s : Settings} (h : (extras s store).result = .error e) : TemplateError store e := by
  rw [extras] at h
  split at h
  · cases h
  · rcases Traced.result_bind_eq_error.mp (after_note_error h) with himages | ⟨_, -, h⟩
    · exact copyAll_error himages
    · rcases Traced.result_bind_eq_error.mp (after_note_error h) with hproperties | ⟨_, -, h⟩
      · exact loadText_error hproperties
      · exact copyAll_error (first_error (after_note_error h))

private theorem document_no_error (log : Log) : (document context log).result ≠ .error e := by
  intro h
  have hyields : (document context log).Yields _ _ := document_yields.mpr ⟨rfl, rfl⟩
  exact nomatch h.symm.trans hyields.1

private theorem step_error {step : Step} (hstep : step ∈ (ofFlavor flavor provider).steps) {log : Log}
    (h : (step.body context log).result = .error e) :
    TemplateError context.store e ∨ (provider context.settings).result = .error e := by
  rw [ofFlavor_steps] at hstep
  simp only [List.mem_cons, List.not_mem_nil, or_false] at hstep
  rcases hstep with rfl | rfl | rfl | rfl
  · exact .inl (pom_error log h)
  · exact .inr h
  · exact absurd h (document_no_error log)
  · cases flavor with
    | jaxrs => exact .inl (application_error log h)
    | quarkus => exact .inl (extras_error h)

/-- Where a flavor makes no project, its settings have a problem, a template or its sources cannot be had, or the
archive refuses an entry. -/
theorem generate_fails (h : ((ofFlavor flavor provider).generate codec context).result = .error e) :
    (∃ problem, context.settings.problem? = some problem ∧ e = .invalidSettings problem) ∨
      TemplateError context.store e ∨ (provider context.settings).result = .error e ∨
      ∃ cause, e = Error.ofWrite cause := by
  rcases Pipeline.generate_error h with hproblem | hrun | ⟨path, cause, rfl⟩
  · exact .inl hproblem
  · rcases Pipeline.error_of_runSteps hrun with ⟨step, hstep, log, hfailed⟩ | hwrite
    · rcases step_error hstep hfailed with htemplate | hsources
      · exact .inr (.inl htemplate)
      · exact .inr (.inr (.inl hsources))
    · exact .inr (.inr (.inr hwrite))
  · exact .inr (.inr (.inr ⟨.sink path cause, rfl⟩))

end Scaffold.Layout
