import Scaffold.Proofs.Pipeline.Assembled

/-!
# What a flavor looks up

Each mode of a flavor reads certain templates, all of its table when a project is made in full. What its steps come to
depends on the answers to these and on no others.
-/

namespace Scaffold

/-- A relation of attempts that holds of equal ones and is kept by whatever comes after them. -/
structure Attempt.Congruence (R : (α : Type) → Attempt α → Attempt α → Prop) : Prop where
  refl {α : Type} (attempt : Attempt α) : R α attempt attempt
  bind {α β : Type} {first other : Attempt α} {next next' : α → Attempt β} :
    R α first other → (∀ a, R β (next a) (next' a)) → R β (first >>= next) (other >>= next')

theorem Attempt.congruence_eq : Attempt.Congruence fun _ first other => first = other where
  refl _ := rfl
  bind h hnext := by rw [h, funext hnext]

namespace Layout

variable {flavor : Flavor} {provider : Sources} {context : StepContext} {store other : Store} {path : String}

/-! ## What is read -/

/-- The template of the build file, where there is to be one. -/
def buildReads (s : Settings) : List String :=
  if s.codeOnly ∨ s.updateOnly then [] else ["pom.xml"]

/-- The templates of the last entries of a flavor. -/
def lastReads : Flavor → Settings → List String
  | .jaxrs, s => if s.updateOnly then [] else ["JaxRsApplication.java"]
  | .quarkus, s => if s.codeOnly ∨ s.updateOnly then [] else extraPaths

/-- The templates that a flavor reads, in order. -/
def readPaths (flavor : Flavor) (s : Settings) : List String :=
  buildReads s ++ lastReads flavor s

/-- The templates of a table, in the order in which the steps of its flavor look them up. -/
theorem paths_eq (flavor : Flavor) :
    Bundled.paths flavor = match flavor with
      | .quarkus => pomPath :: dockerPaths ++ propertiesPath :: projectPaths
      | .jaxrs => [pomPath, applicationName] := by
  cases flavor with
  | quarkus => decide
  | jaxrs => decide

theorem readPaths_sublist (flavor : Flavor) (s : Settings) : (readPaths flavor s).Sublist (Bundled.paths flavor) := by
  rw [readPaths, buildReads, paths_eq]
  cases flavor with
  | quarkus =>
    rw [lastReads, extraPaths_eq]
    split
    · exact List.nil_sublist _
    · exact List.Sublist.refl _
  | jaxrs =>
    rw [lastReads]
    split <;> split <;> decide

theorem readPaths_full {s : Settings} (h : s.isFullProject = true) : readPaths flavor s = Bundled.paths flavor := by
  have hfull := full_iff.mp h
  rw [readPaths, buildReads, if_neg hfull, paths_eq]
  cases flavor with
  | quarkus =>
    rw [lastReads, if_neg hfull, extraPaths_eq]
    rfl
  | jaxrs =>
    rw [lastReads, if_neg fun hupdate => hfull (.inr hupdate)]
    rfl

theorem readPaths_nodup (flavor : Flavor) (s : Settings) : (readPaths flavor s).Nodup := by
  have htable : (Bundled.paths flavor).Nodup := by
    cases flavor with
    | quarkus => decide
    | jaxrs => decide
  exact (readPaths_sublist flavor s).nodup htable

/-! ## What the answers decide -/

section

variable {R : (α : Type) → Attempt α → Attempt α → Prop} (hR : Attempt.Congruence R)

include hR

private theorem loadText_related (h : R _ (store.load path) (other.load path)) :
    R _ (store.loadText path) (other.loadText path) :=
  hR.bind h fun _ => hR.refl _

private theorem render_related (h : R _ (context.store.load path) (other.load path)) :
    R _ (context.render path) (StepContext.render { context with store := other } path) :=
  hR.bind (loadText_related hR h) fun _ => hR.refl _

private theorem copyAll_related {paths : List String} (h : ∀ path ∈ paths, R _ (store.load path) (other.load path)) :
    R _ (copyAll store paths) (copyAll other paths) := by
  induction paths with
  | nil => exact hR.refl _
  | cons path rest ih =>
    obtain ⟨hpath, hrest⟩ := List.forall_mem_cons.mp h
    have hcopy : R _ (copyTemplate store path) (copyTemplate other path) := hR.bind hpath fun _ => hR.refl _
    exact hR.bind hcopy fun _ => hR.bind (ih hrest) fun _ => hR.refl _

private theorem pom_related (h : ∀ path ∈ buildReads context.settings,
    R _ (context.store.load path) (other.load path)) (log : Log) :
    R _ (pom context log) (pom { context with store := other } log) := by
  by_cases hfull : context.settings.isFullProject = true
  · have hread : "pom.xml" ∈ buildReads context.settings := by
      simp only [Settings.isFullProject, Bool.and_eq_true, Bool.not_eq_true'] at hfull
      simp [buildReads, hfull]
    simp only [pom, hfull]
    exact hR.bind (hR.refl _) fun _ => hR.bind (render_related hR (h _ hread)) fun _ => hR.refl _
  · simp only [pom, hfull]
    exact hR.refl _

private theorem application_related (h : ∀ path ∈ lastReads .jaxrs context.settings,
    R _ (context.store.load path) (other.load path)) (log : Log) :
    R _ (application context log) (application { context with store := other } log) := by
  by_cases hupdate : context.settings.updateOnly = true
  · simp only [application, hupdate]
    exact hR.refl _
  · have hread : "JaxRsApplication.java" ∈ lastReads .jaxrs context.settings := by simp [lastReads, hupdate]
    simp only [application, hupdate]
    exact hR.bind (hR.refl _) fun _ => hR.bind (render_related hR (h _ hread)) fun _ => hR.refl _

private theorem extras_related (h : ∀ path ∈ lastReads .quarkus context.settings,
    R _ (context.store.load path) (other.load path)) :
    R _ (extras context.settings context.store) (extras context.settings other) := by
  by_cases hfull : context.settings.isFullProject = true
  · have hreads : lastReads .quarkus context.settings = dockerPaths ++ propertiesPath :: projectPaths := by
      simp only [Settings.isFullProject, Bool.and_eq_true, Bool.not_eq_true'] at hfull
      rw [← extraPaths_eq]
      simp [lastReads, hfull]
    rw [hreads] at h
    have himages := copyAll_related hR fun path hpath => h path (List.mem_append_left _ hpath)
    have hproperties := loadText_related hR (h propertiesPath (by simp))
    have hfiles := copyAll_related hR fun path hpath =>
      h path (List.mem_append_right _ (List.mem_cons_of_mem _ hpath))
    simp only [extras, hfull]
    -- the lines between the files are the same, and so is what is made of them
    refine hR.bind (hR.refl _) fun _ => hR.bind himages fun _ => ?_
    refine hR.bind (hR.refl _) fun _ => hR.bind hproperties fun _ => ?_
    exact hR.bind (hR.refl _) fun _ => hR.bind hfiles fun _ => hR.refl _
  · simp only [extras, hfull]
    exact hR.refl _

/-- A step over two stores whose answers to what its flavor reads are related comes to what is related. -/
theorem step_related (h : ∀ path ∈ readPaths flavor context.settings,
    R _ (context.store.load path) (other.load path)) {step : Step}
    (hstep : step ∈ (ofFlavor flavor provider).steps) (log : Log) :
    R _ (step.body context log) (step.body { context with store := other } log) := by
  have hlast : ∀ path ∈ lastReads flavor context.settings, R _ (context.store.load path) (other.load path) :=
    fun path hpath => h path (List.mem_append_right _ hpath)
  rw [ofFlavor_steps] at hstep
  simp only [List.mem_cons, List.not_mem_nil, or_false] at hstep
  rcases hstep with rfl | rfl | rfl | rfl
  · exact pom_related hR (fun path hpath => h path (List.mem_append_left _ hpath)) log
  · exact hR.refl _
  · exact hR.refl _
  · cases flavor with
    | jaxrs => exact application_related hR hlast log
    | quarkus => exact extras_related hR hlast

end

end Layout

end Scaffold
