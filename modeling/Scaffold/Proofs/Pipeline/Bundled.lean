import Scaffold.Proofs.Pipeline.Lookups
import Scaffold.Proofs.Pipeline.Outcome
import Scaffold.Proofs.Project.Sources
import Scaffold.Proofs.Template.Rendered

/-!
# Projects from bundled templates

The steps of a flavor look up no other templates than those of its table, and all of these are there as texts that
render where they are rendered. So a run over the bundled templates never fails for a template, whatever the settings
are.
-/

namespace Scaffold

/-- The error is that of a template: it is not there, is no text, or does not render. -/
inductive Error.OfTemplates : Error → Prop
  | notFound (path : String) : OfTemplates (.templateNotFound path)
  | notText (path : String) (cause : Text.Utf8Fault) : OfTemplates (.templateNotText path cause)
  | failed (fault : Template.Fault) : OfTemplates (.templateFailed fault)

/-- The sources a program is made with: none, entries that are there already, and the files of a directory. -/
inductive Sources.Own : Sources → Prop
  | empty : Own Sources.empty
  | fixed (entries : List Entry) : Own (Sources.fixed entries)
  | directory (tree : FileTree) (root : Path) : Own (Sources.directory tree root)

theorem Sources.Own.not_ofTemplates {provider : Sources} (h : provider.Own) {s : Settings} {e : Error}
    (he : (provider s).result = .error e) : ¬e.OfTemplates := by
  cases h with
  | empty => cases he
  | fixed entries => cases he
  | directory tree root =>
    rcases Sources.directory_error he with ⟨_, rfl⟩ | ⟨_, rfl⟩ | ⟨_, rfl⟩ <;> exact nofun

theorem Error.not_ofTemplates_ofWrite (cause : WriteError) : ¬(Error.ofWrite cause).OfTemplates := by
  cases cause with
  | duplicate path => exact nofun
  | sink path reason => exact nofun

namespace Layout

variable {codec : Codec} {flavor : Flavor} {provider : Sources} {context : StepContext} {log : Log} {path : String}

/-! ## Look-ups -/

private theorem step_congr {other : Store}
    (h : ∀ path ∈ Bundled.paths flavor, other.load path = context.store.load path)
    {step : Step} (hstep : step ∈ (ofFlavor flavor provider).steps) (log : Log) :
    step.body { context with store := other } log = step.body context log := by
  have hread : ∀ path ∈ readPaths flavor context.settings, context.store.load path = other.load path := by
    intro path hpath
    exact (h path ((readPaths_sublist flavor context.settings).subset hpath)).symm
  exact (step_related Attempt.congruence_eq hread hstep log).symm

/-! ## What the tables hold -/

theorem loadsText_of_lookup {text : String} (h : (Bundled.table flavor).lookup path = some text) :
    LoadsText (Bundled.store flavor) path text := by
  refine ⟨Text.encode text, ?_, Text.decode_encode text⟩
  rw [load_bundled h]
  rfl

theorem lookup_bundled (h : path ∈ Bundled.paths flavor) : ∃ text, (Bundled.table flavor).lookup path = some text := by
  have htable : ∀ path ∈ Bundled.paths flavor, ((Bundled.table flavor).lookup path).isSome = true := by
    cases flavor with
    | quarkus => decide +kernel
    | jaxrs => decide +kernel
  exact Option.isSome_iff_exists.mp (htable path h)

private theorem loadsText_bundled (h : path ∈ Bundled.paths flavor) :
    ∃ text, LoadsText (Bundled.store flavor) path text := by
  obtain ⟨text, htext⟩ := lookup_bundled h
  exact ⟨text, loadsText_of_lookup htext⟩

private theorem extraPaths_bundled : ∀ path ∈ extraPaths, path ∈ Bundled.paths .quarkus := by
  intro path hpath
  rw [paths_eq]
  rw [extraPaths_eq] at hpath
  exact List.mem_cons_of_mem _ hpath

private theorem rendered_bundled (hstore : context.store = Bundled.store flavor)
    (h : path ∈ Bundled.renderedPaths flavor) :
    ∃ text, Rendered context path text := by
  obtain ⟨source, stencil, hlookup, hnamed, hsource⟩ := rendered_named h
  have htext := hnamed.render context.settings
  rw [hsource, String.ofList_toList] at htext
  refine ⟨_, source, ?_, htext⟩
  rw [hstore]
  exact loadsText_of_lookup hlookup

theorem pomEntries_bundled (hstore : context.store = Bundled.store flavor) : ∃ build, PomEntries context build := by
  by_cases hout : context.settings.codeOnly ∨ context.settings.updateOnly
  · exact ⟨[], by rw [PomEntries, if_pos hout]⟩
  · have hpom : "pom.xml" ∈ Bundled.renderedPaths flavor := by
      cases flavor with
      | quarkus => exact List.mem_cons_self
      | jaxrs => exact List.mem_cons_self
    obtain ⟨text, htext⟩ := rendered_bundled hstore hpom
    refine ⟨[⟨"pom.xml", Text.encode text, none⟩], ?_⟩
    rw [PomEntries, if_neg hout]
    exact ⟨text, htext, rfl⟩

theorem applicationEntries_bundled (hstore : context.store = Bundled.store .jaxrs) :
    ∃ last, ApplicationEntries context last := by
  by_cases hupdate : context.settings.updateOnly = true
  · exact ⟨[], by rw [ApplicationEntries, if_pos hupdate]⟩
  · obtain ⟨text, htext⟩ := rendered_bundled hstore (List.mem_cons_of_mem _ List.mem_cons_self)
    simp only [ApplicationEntries, if_neg hupdate]
    exact ⟨_, text, htext, rfl⟩

private theorem extraEntry_bundled (h : path ∈ extraPaths) : ∃ e, ExtraEntry (Bundled.store .quarkus) path e := by
  obtain ⟨text, content, hload, hdecode⟩ := loadsText_bundled (extraPaths_bundled path h)
  by_cases hproperties : path = "src/main/resources/application.properties"
  · simp only [ExtraEntry, if_pos hproperties]
    exact ⟨_, text, ⟨content, hload, hdecode⟩, rfl⟩
  · simp only [ExtraEntry, if_neg hproperties]
    exact ⟨_, content, hload, rfl⟩

private theorem extrasEntries_bundled (hstore : context.store = Bundled.store .quarkus) :
    ∃ last, ExtrasEntries context last := by
  by_cases hout : context.settings.codeOnly ∨ context.settings.updateOnly
  · exact ⟨[], by rw [ExtrasEntries, if_pos hout]⟩
  · simp only [ExtrasEntries, if_neg hout, hstore]
    exact exists_forall₂_iff.mpr fun path hpath => extraEntry_bundled hpath

theorem lastEntries_bundled (hstore : context.store = Bundled.store flavor) :
    ∃ last, LastEntries flavor context last := by
  cases flavor with
  | quarkus => exact extrasEntries_bundled hstore
  | jaxrs => exact applicationEntries_bundled hstore

/-- Over the bundled templates of its flavor a project lacks nothing but its sources. -/
theorem assembled_bundled {sources : List Entry} (hstore : context.store = Bundled.store flavor)
    (h : (provider context.settings).result = .ok sources) : ∃ entries, Assembled flavor provider context entries := by
  obtain ⟨build, hbuild⟩ := pomEntries_bundled hstore
  obtain ⟨last, hlast⟩ := lastEntries_bundled hstore
  exact ⟨_, build, sources, last, hbuild, h, hlast, rfl⟩

/-! ## Runs -/

private theorem step_error_bundled (hstore : context.store = Bundled.store flavor) {step : Step}
    (hstep : step ∈ (ofFlavor flavor provider).steps) {e : Error} (h : (step.body context log).result = .error e) :
    (provider context.settings).result = .error e := by
  rw [ofFlavor_steps] at hstep
  simp only [List.mem_cons, List.not_mem_nil, or_false] at hstep
  rcases hstep with rfl | rfl | rfl | rfl
  · obtain ⟨build, hbuild⟩ := pomEntries_bundled hstore
    have hyields : (pom context log).Yields build _ := pom_yields.mpr ⟨hbuild, rfl⟩
    exact nomatch h.symm.trans hyields.1
  · exact h
  · have hyields : (document context log).Yields _ _ := document_yields.mpr ⟨rfl, rfl⟩
    exact nomatch h.symm.trans hyields.1
  · obtain ⟨last, hlast⟩ := lastEntries_bundled hstore
    have hyields : ((lastStep flavor).body context log).Yields last _ := lastStep_yields.mpr ⟨hlast, rfl⟩
    exact nomatch h.symm.trans hyields.1

private theorem provider_error_of_run (hstore : context.store = Bundled.store flavor) {w : Writer} {e : Error}
    (he : e.OfTemplates) (h : ((ofFlavor flavor provider).run codec context w log).2.result = .error e) :
    (provider context.settings).result = .error e := by
  rcases Pipeline.error_of_runSteps h with ⟨step, hstep, log, hfailed⟩ | ⟨cause, rfl⟩
  · exact step_error_bundled hstore hstep hfailed
  · exact absurd he (Error.not_ofTemplates_ofWrite cause)

private theorem provider_error_of_generate (hstore : context.store = Bundled.store flavor) {e : Error}
    (he : e.OfTemplates)
    (h : ((ofFlavor flavor provider).generate codec context).result = .error e) :
    (provider context.settings).result = .error e := by
  rcases Pipeline.generate_error h with ⟨_, -, rfl⟩ | hrun | ⟨_, _, rfl⟩
  · cases he
  · exact provider_error_of_run hstore he hrun
  · cases he

theorem generate_of_assembled {entries : List Entry} (hvalid : context.settings.validate = .ok ())
    (hassembled : Assembled flavor provider context entries) (hnodup : (entries.map Entry.path).Nodup)
    (hfits : ∀ e ∈ entries, e.Fits codec) :
    ∃ project, ((ofFlavor flavor provider).generate codec context).result = .ok project ∧
      project.entries = entries.map Entry.path :=
  ⟨_, project_iff_assembled.mpr ⟨validate_ok_iff.mp hvalid, entries, hassembled, hnodup, hfits, rfl⟩, rfl⟩

private theorem made_iff_fits {entries : List Entry} (h : Assembled flavor provider context entries) :
    (∃ project, ((ofFlavor flavor provider).generate codec context).result = .ok project) ↔
      context.settings.validate = .ok () ∧ (entries.map Entry.path).Nodup ∧
        ∀ e ∈ entries, e.content.length < 2 ^ 32 ∧
          (codec.body e.content ++ codec.trailer e.content).length < 2 ^ 32 := by
  rw [made_iff_assembled]
  constructor
  · rintro ⟨hvalid, entries', h', hfit⟩
    rw [h'.unique h] at hfit
    exact ⟨hvalid, hfit⟩
  · rintro ⟨hvalid, hfit⟩
    exact ⟨hvalid, entries, h, hfit⟩

private theorem entries_of_made {entries : List Entry} (h : Assembled flavor provider context entries)
    {project : Project}
    (hmade : ((ofFlavor flavor provider).generate codec context).result = .ok project) :
    project.entries = entries.map Entry.path := by
  obtain ⟨-, entries', h', -, -, rfl⟩ := project_iff_assembled.mp hmade
  rw [h'.unique h]

/-- A flavor looks up no template that is not in its table. All of these are texts, and those it renders are plain
stencils of settings. So neither a run nor a project over the bundled templates fails for a template, unless the
sources do, which those of a program never do; and a project lacks nothing but its sources: where these can be had, it is
made just when the settings are valid, no path comes twice, and no content is too large for its header, as it is or
packed. -/
theorem run_bundled (codec : Codec) (flavor : Flavor) (s : Settings) (document : Option Document) (provider : Sources) :
    let context : StepContext := ⟨s, Bundled.store flavor, document⟩
    let p := ofFlavor flavor provider
    (∀ store : Store, (∀ path ∈ Bundled.paths flavor, store.load path = context.store.load path) →
      ∀ w log, p.run codec { context with store } w log = p.run codec context w log) ∧
    (∀ path ∈ Bundled.paths flavor, ∃ text, LoadsText context.store path text) ∧
    (∀ path ∈ Bundled.renderedPaths flavor, ∃ source stencil, LoadsText context.store path source ∧ Named stencil ∧
      stencil.source = source.toList ∧ ∃ text, Template.render source (Template.context s) = .ok text) ∧
    (∀ e : Error, e.OfTemplates →
      (∃ w log, (p.run codec context w log).2.result = .error e) ∨ (p.generate codec context).result = .error e →
      (provider s).result = .error e ∧ ¬provider.Own) ∧
    ∀ sources, (provider s).result = .ok sources → ∃ entries, Assembled flavor provider context entries ∧
      ((∃ project, (p.generate codec context).result = .ok project) ↔
        s.validate = .ok () ∧ (entries.map Entry.path).Nodup ∧ ∀ e ∈ entries, e.content.length < 2 ^ 32 ∧
          (codec.body e.content ++ codec.trailer e.content).length < 2 ^ 32) ∧
      ∀ project, (p.generate codec context).result = .ok project → project.entries = entries.map Entry.path := by
  intro context p
  have hstore : context.store = Bundled.store flavor := rfl
  refine ⟨?_, fun path hpath => loadsText_bundled hpath, ?_, ?_, ?_⟩
  · intro store h w log
    exact Pipeline.runSteps_congr (fun step hstep log => step_congr h hstep log) w log
  · intro path hpath
    obtain ⟨source, stencil, hlookup, hnamed, hsource⟩ := rendered_named hpath
    have htext := hnamed.render s
    rw [hsource, String.ofList_toList] at htext
    exact ⟨source, stencil, loadsText_of_lookup hlookup, hnamed, hsource, _, htext⟩
  · intro e he h
    have hprovider : (provider s).result = .error e := by
      rcases h with ⟨w, log, hrun⟩ | hgenerate
      · exact provider_error_of_run hstore he hrun
      · exact provider_error_of_generate hstore he hgenerate
    exact ⟨hprovider, fun hown => hown.not_ofTemplates hprovider he⟩
  · intro sources hsources
    obtain ⟨entries, hassembled⟩ := assembled_bundled hstore hsources
    exact ⟨entries, hassembled, made_iff_fits hassembled, fun project h => entries_of_made hassembled h⟩

/-- A source over the limit can be read, no path comes twice, and no project is made of it. -/
theorem large_source_lost :
    let source : Entry := ⟨"a", List.replicate 4294967296 0, none⟩
    let provider := Sources.fixed [source]
    let context : StepContext := ⟨{ updateOnly := true }, Bundled.store .quarkus, none⟩
    context.settings.validate = .ok () ∧ (provider context.settings).result = .ok [source] ∧
      (∃ entries, Assembled .quarkus provider context entries ∧ (entries.map Entry.path).Nodup) ∧
      ((ofFlavor .quarkus provider).generate Codec.stored context).result = .error (.entryLost "a" .tooLarge) := by
  -- a content that does not unfold to its bytes
  obtain ⟨content, hcontent⟩ : ∃ content : Bytes, content = List.replicate 4294967296 0 := ⟨_, rfl⟩
  rw [← hcontent]
  intro source provider context
  have hlength : source.content.length = 4294967296 := by
    rw [show source.content = _ from hcontent, List.length_replicate]
  have hlarge : Zip.max32 < source.content.length := Nat.lt_of_lt_of_eq (by decide) hlength.symm
  have hsettings : context.settings.problem? = none := by decide
  have hassembled : Assembled .quarkus provider context [source] := assembled_updated rfl rfl
  obtain ⟨after, hwrite⟩ : ∃ after, Writer.write Codec.stored {} source = (after, .error (.sink "a" .tooLarge)) :=
    Writer.write_first_large Codec.stored hlarge
  refine ⟨validate_ok_iff.mpr hsettings, rfl, ⟨[source], hassembled, List.nodup_singleton _⟩, ?_⟩
  refine (Pipeline.generate_error_iff hsettings (gives_iff_assembled.mpr ⟨hassembled, rfl⟩)).mpr
    ⟨.sink "a" .tooLarge, rfl, .inl ?_⟩
  simp only [Writer.writeAll, hwrite]

end Layout

end Scaffold
