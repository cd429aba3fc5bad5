import Scaffold.Proofs.Pipeline.Outcome
import Scaffold.Proofs.Pipeline.Yielded

/-!
# What a project is assembled of

The entries of a project as its layout asks for them, in order, whatever the mode is. A project is made just when all of
them can be had and each fits into an archive.
-/

namespace Scaffold

namespace Layout

/-- The last entries of a flavor. -/
def LastEntries : Flavor → StepContext → List Entry → Prop
  | .jaxrs => ApplicationEntries
  | .quarkus => ExtrasEntries

/-- All entries of a project, in order. -/
def Assembled (flavor : Flavor) (provider : Sources) (context : StepContext) (entries : List Entry) : Prop :=
  ∃ build sources last, PomEntries context build ∧ (provider context.settings).result = .ok sources ∧
    LastEntries flavor context last ∧ entries = build ++ sources ++ documentEntries context ++ last

/-- The last lines of the log of a flavor. -/
def lastLog (flavor : Flavor) (s : Settings) : List String :=
  match flavor with
  | .jaxrs => if s.updateOnly then [] else ["Generating JAX-RS Application class"]
  | .quarkus =>
    if s.codeOnly ∨ s.updateOnly then []
    else ["Generating Dockerfiles", "Generating application.properties", "Generating project files"]

/-- The lines of the log of a project. -/
def assembledLog (flavor : Flavor) (context : StepContext) : List String :=
  (if context.settings.codeOnly ∨ context.settings.updateOnly then [] else ["Generating pom.xml"]) ++
  ["Generating JAX-RS interfaces and beans"] ++
  (if context.document.isSome ∧ ¬context.settings.updateOnly then ["Generating OpenAPI document"] else []) ++
  lastLog flavor context.settings

variable {context : StepContext} {log : Log} {entries : List Entry} {lines : List String}

/-- The last step of a flavor. -/
def lastStep : Flavor → Step
  | .jaxrs => ⟨applicationStep, application⟩
  | .quarkus => ⟨extrasStep, fun context _ => extras context.settings context.store⟩

theorem ofFlavor_steps (flavor : Flavor) (provider : Sources) :
    (ofFlavor flavor provider).steps =
      [⟨pomStep, pom⟩, ⟨sourcesStep, sources provider⟩, ⟨documentStep, document⟩, lastStep flavor] := by
  cases flavor with
  | quarkus => rfl
  | jaxrs => rfl

theorem lastStep_yields {flavor : Flavor} :
    ((lastStep flavor).body context log).Yields entries lines ↔
      LastEntries flavor context entries ∧ lines = lastLog flavor context.settings := by
  cases flavor with
  | quarkus => exact extras_yields
  | jaxrs =>
    change (application context log).Yields entries lines ↔ _
    exact application_yields

/-- The steps of a flavor give the entries its layout asks for. -/
theorem gives_iff_assembled {flavor : Flavor} {provider : Sources} :
    Pipeline.Gives context log (ofFlavor flavor provider).steps entries lines ↔
      Assembled flavor provider context entries ∧ lines = assembledLog flavor context := by
  rw [ofFlavor_steps]
  simp only [Pipeline.gives_cons_iff, Pipeline.gives_nil_iff, pom_yields, sources_yields, document_yields,
    lastStep_yields]
  constructor
  · intro h
    -- one step after another, in the order of the flavor
    obtain ⟨build, _, _, _, ⟨hbuild, rfl⟩, h, rfl, rfl⟩ := h
    obtain ⟨files, _, _, _, ⟨hfiles, rfl⟩, h, rfl, rfl⟩ := h
    obtain ⟨_, _, _, _, ⟨rfl, rfl⟩, h, rfl, rfl⟩ := h
    obtain ⟨last, _, _, _, ⟨hlast, rfl⟩, ⟨rfl, rfl⟩, rfl, rfl⟩ := h
    refine ⟨⟨build, files, last, hbuild, hfiles, hlast, ?_⟩, ?_⟩
    · simp only [List.append_nil, List.append_assoc]
    · simp only [assembledLog, List.append_nil, List.append_assoc]
  · intro h
    obtain ⟨⟨build, files, last, hbuild, hfiles, hlast, rfl⟩, rfl⟩ := h
    refine ⟨build, _, _, _, ⟨hbuild, rfl⟩, ⟨files, _, _, _, ⟨hfiles, rfl⟩, ⟨_, _, _, _, ⟨rfl, rfl⟩,
      ⟨last, [], _, [], ⟨hlast, rfl⟩, ⟨rfl, rfl⟩, rfl, rfl⟩, rfl, rfl⟩, rfl, rfl⟩, ?_, ?_⟩
    · simp only [List.append_nil, List.append_assoc]
    · simp only [assembledLog, List.append_nil, List.append_assoc]

theorem Assembled.unique {flavor : Flavor} {provider : Sources} {entries' : List Entry}
    (h : Assembled flavor provider context entries) (h' : Assembled flavor provider context entries') :
    entries = entries' :=
  ((gives_iff_assembled.mpr ⟨h, rfl⟩ : Pipeline.Gives context {} _ _ _).unique
    (gives_iff_assembled.mpr ⟨h', rfl⟩)).1

theorem run_assembled {codec : Codec} {flavor : Flavor} {provider : Sources} {w : Writer}
    (h : ((ofFlavor flavor provider).run codec context w log).2.result = .ok ()) :
    ∃ entries, Assembled flavor provider context entries ∧
      w.writeAll codec entries = (((ofFlavor flavor provider).run codec context w log).1, .ok ()) ∧
      ((ofFlavor flavor provider).run codec context w log).2.lines = assembledLog flavor context := by
  obtain ⟨entries, lines, hgives, hwrite⟩ := Pipeline.gives_of_runSteps h
  obtain ⟨hassembled, rfl⟩ := gives_iff_assembled.mp hgives
  have hall : w.writeAll codec entries = ((w.writeAll codec entries).1, .ok ()) := Prod.ext rfl hwrite
  obtain ⟨hwriter, -, hlines⟩ := Pipeline.runSteps_of_gives hgives hall
  exact ⟨entries, hassembled, hall.trans (Prod.ext hwriter.symm rfl), hlines⟩

theorem validate_ok_iff {s : Settings} : s.validate = .ok () ↔ s.problem? = none := by
  rw [Settings.validate]
  cases s.problem? with
  | none => simp
  | some problem => simp

/-- A project is the archive of what its flavor asks for, which no path of it forbids and no size. -/
theorem project_iff_assembled {codec : Codec} {flavor : Flavor} {provider : Sources} {project : Project} :
    ((ofFlavor flavor provider).generate codec context).result = .ok project ↔
      context.settings.problem? = none ∧ ∃ entries, Assembled flavor provider context entries ∧
        (entries.map Entry.path).Nodup ∧ (∀ e ∈ entries, e.Fits codec) ∧
        project = ⟨Zip.archive codec entries, entries.map Entry.path⟩ := by
  simp only [Pipeline.generate_ok_iff, gives_iff_assembled]
  constructor
  · rintro ⟨hsettings, entries, lines, ⟨hassembled, -⟩, hproject⟩
    exact ⟨hsettings, entries, hassembled, hproject⟩
  · rintro ⟨hsettings, entries, hassembled, hproject⟩
    exact ⟨hsettings, entries, _, ⟨hassembled, rfl⟩, hproject⟩

theorem made_iff_assembled {codec : Codec} {flavor : Flavor} {provider : Sources} :
    (∃ project, ((ofFlavor flavor provider).generate codec context).result = .ok project) ↔
      context.settings.validate = .ok () ∧ ∃ entries, Assembled flavor provider context entries ∧
        (entries.map Entry.path).Nodup ∧ ∀ e ∈ entries, e.content.length < 2 ^ 32 ∧
          (codec.body e.content ++ codec.trailer e.content).length < 2 ^ 32 := by
  simp only [project_iff_assembled, validate_ok_iff, ← Entry.fits_iff]
  constructor
  · rintro ⟨project, hsettings, entries, hassembled, hnodup, hfits, -⟩
    exact ⟨hsettings, entries, hassembled, hnodup, hfits⟩
  · rintro ⟨hsettings, entries, hassembled, hnodup, hfits⟩
    exact ⟨_, hsettings, entries, hassembled, hnodup, hfits, rfl⟩

theorem assembled_updated {flavor : Flavor} {provider : Sources} {files : List Entry}
    (hupdate : context.settings.updateOnly = true) (hfiles : (provider context.settings).result = .ok files) :
    Assembled flavor provider context files := by
  have hbuild : PomEntries context [] := by rw [PomEntries, if_pos (.inr hupdate)]
  have hlast : LastEntries flavor context [] := by
    cases flavor with
    | quarkus => rw [LastEntries, ExtrasEntries, if_pos (.inr hupdate)]
    | jaxrs => rw [LastEntries, ApplicationEntries, if_pos hupdate]
  have hdocument : documentEntries context = [] := by
    rw [documentEntries]
    split
    · rfl
    · exact if_pos hupdate
  refine ⟨[], files, [], hbuild, hfiles, hlast, ?_⟩
  rw [hdocument, List.nil_append, List.append_nil, List.append_nil]

end Layout

end Scaffold
