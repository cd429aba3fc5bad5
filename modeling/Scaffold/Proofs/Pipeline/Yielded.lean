import Mathlib.Data.List.Forall2
import Scaffold.Pipeline.Layout
import Scaffold.Proofs.Pipeline.Run
import Scaffold.Proofs.Text.Encoded
import Scaffold.Settings.File
import Scaffold.Store.Memory

/-!
# What the steps of a layout give

Each step of a layout gives its own entries in the modes in which it has any, and leaves its own lines in the log. What a
step needs for that are templates that load and render, and nothing else.
-/

namespace Scaffold

namespace Layout

/-- A template loads as a text. -/
def LoadsText (store : Store) (path text : String) : Prop :=
  ∃ content, (store.load path).result = .ok content ∧ Text.decode content = .ok text

/-- A template loads as a text that renders with the settings. -/
def Rendered (context : StepContext) (path text : String) : Prop :=
  ∃ source, LoadsText context.store path source ∧
    Template.render source (Template.context context.settings) = .ok text

/-- The build file is there unless only sources are made. -/
def PomEntries (context : StepContext) (entries : List Entry) : Prop :=
  if context.settings.codeOnly ∨ context.settings.updateOnly then entries = []
  else ∃ text, Rendered context "pom.xml" text ∧ entries = [⟨"pom.xml", Text.encode text, none⟩]

/-- The document as it was given, unless an old project is updated. -/
def documentEntries (context : StepContext) : List Entry :=
  match context.document with
  | none => []
  | some ⟨format, content⟩ =>
    if context.settings.updateOnly then []
    else
      match format with
      | .json => [⟨"src/main/resources/META-INF/openapi.json", content, none⟩]
      | .yaml => [⟨"src/main/resources/META-INF/openapi.yaml", content, none⟩]

/-- The application class stands in the package of the settings. -/
def ApplicationEntries (context : StepContext) (entries : List Entry) : Prop :=
  if context.settings.updateOnly then entries = []
  else
    ∃ text, Rendered context "JaxRsApplication.java" text ∧
      entries = [⟨"src/main/java/" ++ context.settings.packagePath ++ "/JaxRsApplication.java",
        Text.encode text, none⟩]

/-- The files of a whole application, in order. -/
def extraPaths : List String :=
  ["src/main/docker/Dockerfile.jvm", "src/main/docker/Dockerfile.legacy-jar", "src/main/docker/Dockerfile.native",
   "src/main/docker/Dockerfile.native-micro", "src/main/resources/application.properties",
   ".mvn/wrapper/.gitignore", ".mvn/wrapper/maven-wrapper.properties",
   ".mvn/wrapper/MavenWrapperDownloader.java", ".dockerignore", ".gitignore", "mvnw", "mvnw.cmd", "README.md"]

/-- The lines of the log for the files of a whole application, each with the files it is for. -/
def extraGroups : List (String × List String) :=
  [("Generating Dockerfiles",
    ["src/main/docker/Dockerfile.jvm", "src/main/docker/Dockerfile.legacy-jar", "src/main/docker/Dockerfile.native",
     "src/main/docker/Dockerfile.native-micro"]),
   ("Generating application.properties", ["src/main/resources/application.properties"]),
   ("Generating project files",
    [".mvn/wrapper/.gitignore", ".mvn/wrapper/maven-wrapper.properties", ".mvn/wrapper/MavenWrapperDownloader.java",
     ".dockerignore", ".gitignore", "mvnw", "mvnw.cmd", "README.md"])]

/-- A file of a whole application: the properties with one more line, and every other template as it is. -/
def ExtraEntry (store : Store) (path : String) (e : Entry) : Prop :=
  if path = "src/main/resources/application.properties" then
    ∃ text, LoadsText store path text ∧
      e = ⟨path, Text.encode (text ++ "\nmp.openapi.scan.disable=true\n"), none⟩
  else
    ∃ content, (store.load path).result = .ok content ∧
      e = ⟨path, content, if path = "mvnw" then some 0o755 else none⟩

/-- The files of a whole application are there unless only sources are made. -/
def ExtrasEntries (context : StepContext) (entries : List Entry) : Prop :=
  if context.settings.codeOnly ∨ context.settings.updateOnly then entries = []
  else List.Forall₂ (ExtraEntry context.store) extraPaths entries

variable {context : StepContext} {log : Log} {entries : List Entry} {lines : List String}

/-! ## Templates -/

theorem LoadsText.unique {store : Store} {path text text' : String} (h : LoadsText store path text)
    (h' : LoadsText store path text') : text = text' := by
  obtain ⟨content, hload, htext⟩ := h
  obtain ⟨content', hload', htext'⟩ := h'
  cases hload.symm.trans hload'
  exact Except.ok.inj (htext.symm.trans htext')

theorem Rendered.unique {path text text' : String} (h : Rendered context path text)
    (h' : Rendered context path text') : text = text' := by
  obtain ⟨source, hload, htext⟩ := h
  obtain ⟨source', hload', htext'⟩ := h'
  cases hload.unique hload'
  exact Except.ok.inj (htext.symm.trans htext')

theorem load_yields {store : Store} {path : String} {content : Bytes} :
    (store.load path).Yields content lines ↔ (store.load path).result = .ok content ∧ lines = [] := by
  rw [Attempt.Yields, store.quiet]
  exact and_congr_right fun _ => eq_comm

private theorem loadText_yields {store : Store} {path text : String} :
    (store.loadText path).Yields text lines ↔ LoadsText store path text ∧ lines = [] := by
  rw [Store.loadText, Attempt.yields_bind]
  constructor
  · intro h
    obtain ⟨content, before, after, hload, hdecode, rfl⟩ := h
    obtain ⟨hcontent, rfl⟩ := load_yields.mp hload
    rcases h : Text.decode content with cause | source
    · simp only [h] at hdecode
      exact absurd hdecode Attempt.not_yields_fail
    · simp only [h] at hdecode
      obtain ⟨rfl, rfl⟩ := Attempt.yields_pure.mp hdecode
      exact ⟨⟨content, hcontent, h⟩, rfl⟩
  · intro h
    obtain ⟨⟨content, hload, hdecode⟩, rfl⟩ := h
    refine ⟨content, [], [], load_yields.mpr ⟨hload, rfl⟩, ?_, rfl⟩
    simp only [hdecode]
    exact Attempt.yields_pure.mpr ⟨rfl, rfl⟩

private theorem render_yields {path text : String} :
    (context.render path).Yields text lines ↔ Rendered context path text ∧ lines = [] := by
  rw [StepContext.render, Attempt.yields_bind]
  constructor
  · intro h
    obtain ⟨source, before, after, hload, hrender, rfl⟩ := h
    obtain ⟨hsource, rfl⟩ := loadText_yields.mp hload
    obtain ⟨hresult, rfl⟩ := Attempt.yields_ofExcept.mp hrender
    rcases h : Template.render source (Template.context context.settings) with fault | rendered
    · rw [h] at hresult
      cases hresult
    · rw [h] at hresult
      cases hresult
      exact ⟨⟨source, hsource, h⟩, rfl⟩
  · intro h
    obtain ⟨⟨source, hload, hrender⟩, rfl⟩ := h
    refine ⟨source, [], [], loadText_yields.mpr ⟨hload, rfl⟩, Attempt.yields_ofExcept.mpr ⟨?_, rfl⟩, rfl⟩
    rw [hrender]
    rfl

private theorem renderEntry_yields {note template path : String} :
    (do
      Attempt.note note
      let text ← context.render template
      pure [(⟨path, Text.encode text, none⟩ : Entry)] : Attempt (List Entry)).Yields entries lines ↔
      (∃ text, Rendered context template text ∧ entries = [⟨path, Text.encode text, none⟩]) ∧ lines = [note] := by
  rw [Attempt.yields_note_bind]
  constructor
  · intro h
    obtain ⟨after, h, rfl⟩ := h
    obtain ⟨text, before, rest, hrender, hpure, rfl⟩ := Attempt.yields_bind.mp h
    obtain ⟨htext, rfl⟩ := render_yields.mp hrender
    obtain ⟨rfl, rfl⟩ := Attempt.yields_pure.mp hpure
    exact ⟨⟨text, htext, rfl⟩, rfl⟩
  · intro h
    obtain ⟨⟨text, hrender, rfl⟩, rfl⟩ := h
    refine ⟨[], Attempt.yields_bind.mpr ⟨text, [], [], render_yields.mpr ⟨hrender, rfl⟩, ?_, rfl⟩, rfl⟩
    exact Attempt.yields_pure.mpr ⟨rfl, rfl⟩

/-! ## Steps -/

theorem full_iff {s : Settings} : s.isFullProject = true ↔ ¬(s.codeOnly ∨ s.updateOnly) := by
  simp [Settings.isFullProject]

theorem pom_yields :
    (pom context log).Yields entries lines ↔ PomEntries context entries ∧
      lines = if context.settings.codeOnly ∨ context.settings.updateOnly then [] else ["Generating pom.xml"] := by
  by_cases hout : context.settings.codeOnly ∨ context.settings.updateOnly
  · have hskip : context.settings.isFullProject = false := eq_false_of_ne_true fun h => full_iff.mp h hout
    rw [PomEntries, if_pos hout, if_pos hout, pom, hskip]
    exact Attempt.yields_pure
  · rw [PomEntries, if_neg hout, if_neg hout, pom, full_iff.mpr hout]
    exact renderEntry_yields

theorem sources_yields {provider : Sources} :
    (sources provider context log).Yields entries lines ↔
      (provider context.settings).result = .ok entries ∧ lines = ["Generating JAX-RS interfaces and beans"] := by
  have hquiet := provider.quiet context.settings
  rw [sources, Attempt.yields_note_bind]
  constructor
  · intro h
    obtain ⟨after, ⟨hresult, hlines⟩, rfl⟩ := h
    rw [← hlines, hquiet]
    exact ⟨hresult, rfl⟩
  · intro h
    obtain ⟨hresult, rfl⟩ := h
    exact ⟨[], ⟨hresult, hquiet⟩, rfl⟩

theorem document_yields :
    (document context log).Yields entries lines ↔ entries = documentEntries context ∧
      lines = if context.document.isSome ∧ ¬context.settings.updateOnly then ["Generating OpenAPI document"]
        else [] := by
  rcases hdocument : context.document with _ | ⟨format, content⟩
  · rw [document, documentEntries, hdocument]
    exact Attempt.yields_pure
  · by_cases hupdate : context.settings.updateOnly = true
    · rw [document, documentEntries, hdocument, hupdate]
      exact Attempt.yields_pure
    · have hpath : documentEntries context = [⟨Document.archivePath ⟨format, content⟩, content, none⟩] := by
        rw [documentEntries, hdocument]
        cases format with
        | json => exact if_neg hupdate
        | yaml => exact if_neg hupdate
      have hsome : (some (⟨format, content⟩ : Document)).isSome ∧ ¬context.settings.updateOnly := ⟨rfl, hupdate⟩
      rw [document, hpath, hdocument, if_pos hsome, eq_false_of_ne_true hupdate]
      refine Attempt.yields_note_bind.trans ⟨?_, ?_⟩
      · intro h
        obtain ⟨after, hpure, rfl⟩ := h
        obtain ⟨hentries, rfl⟩ := Attempt.yields_pure.mp hpure
        exact ⟨hentries, rfl⟩
      · intro h
        obtain ⟨hentries, rfl⟩ := h
        exact ⟨[], Attempt.yields_pure.mpr ⟨hentries, rfl⟩, rfl⟩

private theorem applicationPath_eq (s : Settings) :
    applicationPath s = "src/main/java/" ++ s.packagePath ++ "/JaxRsApplication.java" := by
  have happend : applicationPath s = "src/main/java/" ++ s.packagePath ++ "/" ++ "JaxRsApplication.java" := rfl
  rw [happend, String.append_assoc]
  rfl

theorem application_yields :
    (application context log).Yields entries lines ↔ ApplicationEntries context entries ∧
      lines = if context.settings.updateOnly then [] else ["Generating JAX-RS Application class"] := by
  by_cases hupdate : context.settings.updateOnly = true
  · rw [ApplicationEntries, if_pos hupdate, if_pos hupdate, application, if_pos hupdate]
    exact Attempt.yields_pure
  · rw [ApplicationEntries, if_neg hupdate, if_neg hupdate, application, if_neg hupdate, applicationPath_eq]
    exact renderEntry_yields

/-! ## The files of a whole application -/

private theorem copyTemplate_yields {store : Store} {path : String} {e : Entry} (h : path ≠ propertiesPath) :
    (copyTemplate store path).Yields e lines ↔ ExtraEntry store path e ∧ lines = [] := by
  have hentry (content : Bytes) : (if path ∈ executablePaths then Entry.executable path content
      else ⟨path, content, none⟩) = ⟨path, content, if path = "mvnw" then some 0o755 else none⟩ := by
    have hscript : path ∈ executablePaths ↔ path = "mvnw" := List.mem_singleton
    by_cases hname : path = "mvnw"
    · rw [if_pos (hscript.mpr hname), if_pos hname]
      rfl
    · rw [if_neg (mt hscript.mp hname), if_neg hname]
  have hextra : ExtraEntry store path e ↔ ∃ content, (store.load path).result = .ok content ∧
      e = ⟨path, content, if path = "mvnw" then some 0o755 else none⟩ := iff_of_eq (if_neg h)
  rw [copyTemplate, Attempt.yields_bind, hextra]
  constructor
  · intro h
    obtain ⟨content, before, after, hload, hpure, rfl⟩ := h
    obtain ⟨hcontent, rfl⟩ := load_yields.mp hload
    obtain ⟨he, rfl⟩ := Attempt.yields_pure.mp hpure
    exact ⟨⟨content, hcontent, he.trans (hentry content)⟩, rfl⟩
  · intro h
    obtain ⟨⟨content, hload, he⟩, rfl⟩ := h
    refine ⟨content, [], [], load_yields.mpr ⟨hload, rfl⟩, ?_, rfl⟩
    exact Attempt.yields_pure.mpr ⟨he.trans (hentry content).symm, rfl⟩

private theorem forall₂_append_left {R : α → β → Prop} {first rest : List α} {l : List β} :
    List.Forall₂ R (first ++ rest) l ↔ ∃ a b, List.Forall₂ R first a ∧ List.Forall₂ R rest b ∧ l = a ++ b := by
  induction first generalizing l with
  | nil => simp
  | cons x more ih =>
    simp only [List.cons_append, List.forall₂_cons_left_iff, ih]
    constructor
    · intro h
      obtain ⟨y, _, hxy, ⟨a, b, ha, hb, rfl⟩, rfl⟩ := h
      exact ⟨y :: a, b, ⟨y, a, hxy, ha, rfl⟩, hb, rfl⟩
    · intro h
      obtain ⟨_, b, ⟨y, a, hxy, ha, rfl⟩, hb, rfl⟩ := h
      exact ⟨y, a ++ b, hxy, ⟨a, b, ha, hb, rfl⟩, rfl⟩

theorem extraPaths_eq : extraPaths = dockerPaths ++ propertiesPath :: projectPaths := by
  decide

theorem extraGroups_paths : extraGroups.flatMap Prod.snd = extraPaths := by
  decide

private theorem derive_eq (text : String) : text ++ "\nmp.openapi.scan.disable=true\n" = deriveProperties text := by
  rw [deriveProperties, String.append_assoc, String.append_assoc]
  rfl

/-- A file of a whole application: the properties, or a template as it is. -/
def makeExtra (store : Store) (path : String) : Attempt Entry :=
  if path = propertiesPath then do
    let text ← store.loadText path
    pure ⟨path, Text.encode (deriveProperties text), none⟩
  else copyTemplate store path

def makeExtras (store : Store) : List String → Attempt (List Entry)
  | [] => pure []
  | path :: rest => do
    let entry ← makeExtra store path
    let more ← makeExtras store rest
    pure (entry :: more)

/-- The files of some groups, with a line of the log before each group. -/
def makeGroups (store : Store) : List (String × List String) → Attempt (List Entry)
  | [] => pure []
  | (line, paths) :: rest => do
    Attempt.note line
    let entries ← makeExtras store paths
    let more ← makeGroups store rest
    pure (entries ++ more)

private theorem makeExtras_copied {store : Store} {paths : List String} (h : propertiesPath ∉ paths) :
    makeExtras store paths = copyAll store paths := by
  induction paths with
  | nil => rfl
  | cons path rest ih =>
    rw [List.mem_cons, not_or] at h
    rw [makeExtras, copyAll, ih h.2, makeExtra, if_neg fun hpath => h.1 hpath.symm]

theorem extras_grouped {s : Settings} {store : Store} (h : s.isFullProject = true) :
    extras s store = makeGroups store extraGroups := by
  have himages : makeExtras store dockerPaths = copyAll store dockerPaths := makeExtras_copied (by decide)
  have hfiles : makeExtras store projectPaths = copyAll store projectPaths := makeExtras_copied (by decide)
  have hgroups : extraGroups
      = [("Generating Dockerfiles", dockerPaths), ("Generating application.properties", [propertiesPath]),
        ("Generating project files", projectPaths)] := by decide
  rw [hgroups]
  simp [extras, h, makeGroups, himages, hfiles, makeExtras, makeExtra]

theorem makeExtra_yields {store : Store} {path : String} {e : Entry} :
    (makeExtra store path).Yields e lines ↔ ExtraEntry store path e ∧ lines = [] := by
  by_cases hpath : path = propertiesPath
  · have hderived : ExtraEntry store path e ↔ ∃ text, LoadsText store path text ∧
        e = ⟨path, Text.encode (text ++ "\nmp.openapi.scan.disable=true\n"), none⟩ := iff_of_eq (if_pos hpath)
    rw [makeExtra, if_pos hpath, Attempt.yields_bind, hderived]
    constructor
    · intro h
      obtain ⟨text, before, after, hload, hpure, rfl⟩ := h
      obtain ⟨htext, rfl⟩ := loadText_yields.mp hload
      obtain ⟨he, rfl⟩ := Attempt.yields_pure.mp hpure
      exact ⟨⟨text, htext, by rw [he, derive_eq]⟩, rfl⟩
    · intro h
      obtain ⟨⟨text, htext, rfl⟩, rfl⟩ := h
      refine ⟨text, [], [], loadText_yields.mpr ⟨htext, rfl⟩, Attempt.yields_pure.mpr ⟨?_, rfl⟩, rfl⟩
      rw [derive_eq]
  · rw [makeExtra, if_neg hpath]
    exact copyTemplate_yields hpath

theorem makeExtras_yields {store : Store} {paths : List String} :
    (makeExtras store paths).Yields entries lines ↔ List.Forall₂ (ExtraEntry store) paths entries ∧ lines = [] := by
  induction paths generalizing entries lines with
  | nil =>
    rw [makeExtras, Attempt.yields_pure, List.forall₂_nil_left_iff]
  | cons path rest ih =>
    rw [makeExtras, Attempt.yields_bind, List.forall₂_cons_left_iff]
    constructor
    · intro h
      obtain ⟨e, before, after, hmake, hmore, rfl⟩ := h
      obtain ⟨more, between, last, hall, hpure, rfl⟩ := Attempt.yields_bind.mp hmore
      obtain ⟨he, rfl⟩ := makeExtra_yields.mp hmake
      obtain ⟨hentries, rfl⟩ := ih.mp hall
      obtain ⟨rfl, rfl⟩ := Attempt.yields_pure.mp hpure
      exact ⟨⟨e, more, he, hentries, rfl⟩, rfl⟩
    · intro h
      obtain ⟨⟨e, more, he, hentries, rfl⟩, rfl⟩ := h
      refine ⟨e, [], [], makeExtra_yields.mpr ⟨he, rfl⟩, ?_, rfl⟩
      refine Attempt.yields_bind.mpr ⟨more, [], [], ih.mpr ⟨hentries, rfl⟩, ?_, rfl⟩
      exact Attempt.yields_pure.mpr ⟨rfl, rfl⟩

theorem makeGroups_yields {store : Store} {groups : List (String × List String)} :
    (makeGroups store groups).Yields entries lines ↔
      List.Forall₂ (ExtraEntry store) (groups.flatMap Prod.snd) entries ∧ lines = groups.map Prod.fst := by
  induction groups generalizing entries lines with
  | nil =>
    rw [makeGroups, Attempt.yields_pure, List.flatMap_nil, List.forall₂_nil_left_iff]
    rfl
  | cons group rest ih =>
    obtain ⟨line, paths⟩ := group
    rw [makeGroups, Attempt.yields_note_bind, List.flatMap_cons, forall₂_append_left]
    constructor
    · intro h
      obtain ⟨_, hrun, rfl⟩ := h
      obtain ⟨first, before, after, hfirst, hmore, rfl⟩ := Attempt.yields_bind.mp hrun
      obtain ⟨others, between, last, hothers, hpure, rfl⟩ := Attempt.yields_bind.mp hmore
      obtain ⟨hentries, rfl⟩ := makeExtras_yields.mp hfirst
      obtain ⟨hrest, rfl⟩ := ih.mp hothers
      obtain ⟨rfl, rfl⟩ := Attempt.yields_pure.mp hpure
      exact ⟨⟨first, others, hentries, hrest, rfl⟩, by rw [List.nil_append, List.append_nil, List.map_cons]⟩
    · intro h
      obtain ⟨⟨first, others, hentries, hrest, rfl⟩, rfl⟩ := h
      refine ⟨_, Attempt.yields_bind.mpr ⟨first, [], _, makeExtras_yields.mpr ⟨hentries, rfl⟩, ?_, rfl⟩, rfl⟩
      refine Attempt.yields_bind.mpr ⟨others, _, [], ih.mpr ⟨hrest, rfl⟩, ?_, (List.append_nil _).symm⟩
      exact Attempt.yields_pure.mpr ⟨rfl, rfl⟩

theorem extras_yields :
    (extras context.settings context.store).Yields entries lines ↔ ExtrasEntries context entries ∧
      lines = if context.settings.codeOnly ∨ context.settings.updateOnly then []
        else ["Generating Dockerfiles", "Generating application.properties", "Generating project files"] := by
  by_cases hout : context.settings.codeOnly ∨ context.settings.updateOnly
  · have hskip : context.settings.isFullProject = false := eq_false_of_ne_true fun h => full_iff.mp h hout
    rw [ExtrasEntries, if_pos hout, if_pos hout, extras, hskip]
    exact Attempt.yields_pure
  · rw [ExtrasEntries, if_neg hout, if_neg hout, extras_grouped (full_iff.mpr hout), ← extraGroups_paths]
    exact makeGroups_yields

end Layout

end Scaffold
