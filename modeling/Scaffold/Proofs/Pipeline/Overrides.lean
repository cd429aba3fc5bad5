import Scaffold.Proofs.Pipeline.Bundled

/-!
# Templates that are replaced

Each mode of a flavor reads certain templates and makes one entry from each. So a store that answers otherwise to one
path changes the entry that is made from it and nothing else, and nothing at all where that path is not read.
-/

namespace Scaffold

namespace Attempt

/-- Two attempts come to the same and leave the same lines. Their other events may be different. -/
structure Alike (first other : Attempt α) : Prop where
  result : other.result = first.result
  lines : other.lines = first.lines

theorem Alike.refl (attempt : Attempt α) : attempt.Alike attempt :=
  ⟨rfl, rfl⟩

theorem Alike.bind {first first' : Attempt α} {next next' : α → Attempt β} (h : first.Alike first')
    (hnext : ∀ a, (next a).Alike (next' a)) : (first >>= next).Alike (first' >>= next') := by
  obtain ⟨trace, result⟩ := first
  obtain ⟨trace', result'⟩ := first'
  obtain rfl : result' = result := h.result
  cases result' with
  | error e => exact ⟨rfl, h.lines⟩
  | ok a =>
    constructor
    · exact (hnext a).result
    · rw [lines_bind_of_ok rfl, lines_bind_of_ok rfl, h.lines, (hnext a).lines]

private theorem congruence_alike : Congruence fun _ first other => first.Alike other where
  refl := .refl
  bind := .bind

end Attempt

namespace Pipeline

variable {codec : Codec} {context other : StepContext} {steps : List Step}

/-- Steps that come to the same in two contexts, whatever the log is, write the same and come to the same. -/
theorem runSteps_alike (codec : Codec)
    (h : ∀ step ∈ steps, ∀ log, (step.body context log).Alike (step.body other log)) (w : Writer) (log : Log) :
    (runSteps codec other w log steps).1 = (runSteps codec context w log steps).1 ∧
      (runSteps codec context w log steps).2.Alike (runSteps codec other w log steps).2 := by
  induction steps generalizing w log with
  | nil => exact ⟨rfl, .refl _⟩
  | cons step rest ih =>
    obtain ⟨hstep, hrest⟩ := List.forall_mem_cons.mp h
    have hbody := hstep log
    have hlines : (step.body other log).trace.filterMap Event.line?
        = (step.body context log).trace.filterMap Event.line? := hbody.lines
    have hlog : (step.body other log).logAfter log = (step.body context log).logAfter log := by
      rw [Attempt.logAfter, Attempt.logAfter, hbody.lines]
    rcases hresult : (step.body context log).result with e | entries
    · simp only [runSteps, hbody.result, hresult, true_and]
      refine ⟨rfl, ?_⟩
      simp only [Attempt.lines, List.filterMap_cons, hlines]
    · rcases hwrite : w.writeAll codec entries with ⟨after, cause | _⟩
      · simp only [runSteps, hbody.result, hresult, hwrite, true_and]
        refine ⟨rfl, ?_⟩
        simp only [Attempt.lines, List.cons_append, List.filterMap_cons, List.filterMap_append, hlines]
      · obtain ⟨hwriter, hmore⟩ := ih hrest after ((step.body context log).logAfter log)
        have hmoreLines := hmore.lines
        simp only [Attempt.lines] at hmoreLines
        simp only [runSteps, hbody.result, hresult, hwrite, hlog]
        refine ⟨hwriter, hmore.result, ?_⟩
        simp only [Attempt.lines, List.cons_append, List.filterMap_cons, List.filterMap_append, hlines, hmoreLines]

private theorem generate_alike {p : Pipeline} (hsettings : other.settings = context.settings)
    (h : ∀ step ∈ p.steps, ∀ log, (step.body context log).Alike (step.body other log)) :
    (p.generate codec context).Alike (p.generate codec other) := by
  obtain ⟨hwriter, hrun⟩ := runSteps_alike codec h {} {}
  rw [generate, generate, hsettings]
  cases context.settings.problem? with
  | some problem => exact .refl _
  | none =>
    simp only [run, hwriter]
    exact hrun.bind fun _ => .refl _

end Pipeline

namespace Layout

variable {codec : Codec} {flavor : Flavor} {provider : Sources} {context : StepContext} {other : Store} {path : String}

/-! ## What is made of templates -/

/-- The content that is made of a template. Build file and application class are rendered, the properties get one more
line, and every other template is copied. -/
def MadeOf (context : StepContext) (path : String) (content : Bytes) : Prop :=
  if path = "pom.xml" ∨ path = "JaxRsApplication.java" then
    ∃ text, Rendered context path text ∧ content = Text.encode text
  else if path = "src/main/resources/application.properties" then
    ∃ text, LoadsText context.store path text ∧ content = Text.encode (text ++ "\nmp.openapi.scan.disable=true\n")
  else (context.store.load path).result = .ok content

/-- The entry of a template in a project, which is named after it but for the application class. -/
def madeEntry (s : Settings) (path : String) (content : Bytes) : Entry where
  path := if path = "JaxRsApplication.java" then "src/main/java/" ++ s.packagePath ++ "/JaxRsApplication.java" else path
  content
  mode := if path = "mvnw" then some 0o755 else none

def MadeFrom (context : StepContext) (path : String) (e : Entry) : Prop :=
  ∃ content, MadeOf context path content ∧ e = madeEntry context.settings path content

/-- Two lists of entries are the same but for the content of one entry, which in each is made of what its own store
answers to a path. -/
def DifferAt (context : StepContext) (other : Store) (path : String) (entries entries' : List Entry) : Prop :=
  ∃ front content content' back,
    MadeOf context path content ∧ entries = front ++ madeEntry context.settings path content :: back ∧
    MadeOf { context with store := other } path content' ∧
      entries' = front ++ madeEntry context.settings path content' :: back

/-! ## Runs that come to the same -/

private theorem step_alike (h : ∀ path ∈ readPaths flavor context.settings,
    (other.load path).result = (context.store.load path).result) {step : Step}
    (hstep : step ∈ (ofFlavor flavor provider).steps) (log : Log) :
    (step.body context log).Alike (step.body { context with store := other } log) := by
  have hread : ∀ path ∈ readPaths flavor context.settings, (context.store.load path).Alike (other.load path) := by
    intro path hpath
    exact ⟨h path hpath, (other.quiet path).trans (context.store.quiet path).symm⟩
  exact step_related Attempt.congruence_alike hread hstep log

/-! ## One entry from each template -/

theorem MadeOf.unique {content content' : Bytes} (h : MadeOf context path content) (h' : MadeOf context path content') :
    content = content' := by
  rw [MadeOf] at h h'
  by_cases hrendered : path = "pom.xml" ∨ path = "JaxRsApplication.java"
  · rw [if_pos hrendered] at h h'
    obtain ⟨text, htext, rfl⟩ := h
    obtain ⟨text', htext', rfl⟩ := h'
    rw [htext.unique htext']
  · rw [if_neg hrendered] at h h'
    by_cases hproperties : path = "src/main/resources/application.properties"
    · rw [if_pos hproperties] at h h'
      obtain ⟨text, htext, rfl⟩ := h
      obtain ⟨text', htext', rfl⟩ := h'
      rw [htext.unique htext']
    · rw [if_neg hproperties] at h h'
      exact Except.ok.inj (h.symm.trans h')

private theorem madeOf_congr {content : Bytes} (h : (other.load path).result = (context.store.load path).result) :
    MadeOf { context with store := other } path content ↔ MadeOf context path content := by
  simp only [MadeOf, Rendered, LoadsText, h]

private theorem madeFrom_rendered {e : Entry} (h : path = "pom.xml" ∨ path = "JaxRsApplication.java") :
    MadeFrom context path e ↔
      ∃ text, Rendered context path text ∧ e = madeEntry context.settings path (Text.encode text) := by
  simp only [MadeFrom, MadeOf, if_pos h]
  constructor
  · rintro ⟨_, ⟨text, htext, rfl⟩, rfl⟩
    exact ⟨text, htext, rfl⟩
  · rintro ⟨text, htext, rfl⟩
    exact ⟨_, ⟨text, htext, rfl⟩, rfl⟩

private theorem madeFrom_extra {e : Entry} (h : path ∈ extraPaths) :
    MadeFrom context path e ↔ ExtraEntry context.store path e := by
  have hrendered : ¬(path = "pom.xml" ∨ path = "JaxRsApplication.java") := by
    rintro (rfl | rfl)
    · exact absurd h (by decide)
    · exact absurd h (by decide)
  have happlication : path ≠ "JaxRsApplication.java" := fun heq => hrendered (.inr heq)
  simp only [MadeFrom, MadeOf, if_neg hrendered, ExtraEntry, madeEntry, if_neg happlication]
  split
  · rename_i hproperties
    have hscript : path ≠ "mvnw" := by
      rw [hproperties]
      decide
    simp only [if_neg hscript]
    constructor
    · rintro ⟨_, ⟨text, htext, rfl⟩, rfl⟩
      exact ⟨text, htext, rfl⟩
    · rintro ⟨text, htext, rfl⟩
      exact ⟨_, ⟨text, htext, rfl⟩, rfl⟩
  · exact Iff.rfl

private theorem pomEntries_iff {entries : List Entry} :
    PomEntries context entries ↔ List.Forall₂ (MadeFrom context) (buildReads context.settings) entries := by
  rw [PomEntries, buildReads]
  split
  · exact List.forall₂_nil_left_iff.symm
  · simp only [List.forall₂_cons_left_iff, List.forall₂_nil_left_iff, madeFrom_rendered (.inl rfl)]
    constructor
    · rintro ⟨text, htext, rfl⟩
      exact ⟨_, [], ⟨text, htext, rfl⟩, rfl, rfl⟩
    · rintro ⟨_, _, ⟨text, htext, rfl⟩, rfl, rfl⟩
      exact ⟨text, htext, rfl⟩

private theorem applicationEntries_iff {entries : List Entry} :
    ApplicationEntries context entries ↔
      List.Forall₂ (MadeFrom context) (lastReads .jaxrs context.settings) entries := by
  rw [ApplicationEntries, lastReads]
  split
  · exact List.forall₂_nil_left_iff.symm
  · simp only [List.forall₂_cons_left_iff, List.forall₂_nil_left_iff, madeFrom_rendered (.inr rfl)]
    constructor
    · rintro ⟨text, htext, rfl⟩
      exact ⟨_, [], ⟨text, htext, rfl⟩, rfl, rfl⟩
    · rintro ⟨_, _, ⟨text, htext, rfl⟩, rfl, rfl⟩
      exact ⟨text, htext, rfl⟩

private theorem forall₂_congr_left {R S : α → β → Prop} {xs : List α} {ys : List β}
    (h : ∀ x ∈ xs, ∀ y, R x y ↔ S x y) : List.Forall₂ R xs ys ↔ List.Forall₂ S xs ys := by
  induction xs generalizing ys with
  | nil => rw [List.forall₂_nil_left_iff, List.forall₂_nil_left_iff]
  | cons x rest ih =>
    obtain ⟨hx, hrest⟩ := List.forall_mem_cons.mp h
    simp only [List.forall₂_cons_left_iff, hx, ih hrest]

private theorem extrasEntries_iff {entries : List Entry} :
    ExtrasEntries context entries ↔
      List.Forall₂ (MadeFrom context) (lastReads .quarkus context.settings) entries := by
  rw [ExtrasEntries, lastReads]
  split
  · exact List.forall₂_nil_left_iff.symm
  · exact forall₂_congr_left fun path hpath e => (madeFrom_extra hpath).symm

/-- A project has one entry from each template that its flavor reads, in order, with its sources and its document in
between. -/
theorem assembled_iff_made {entries : List Entry} :
    Assembled flavor provider context entries ↔ ∃ build sources last,
      List.Forall₂ (MadeFrom context) (buildReads context.settings) build ∧
      (provider context.settings).result = .ok sources ∧
      List.Forall₂ (MadeFrom context) (lastReads flavor context.settings) last ∧
      entries = build ++ sources ++ documentEntries context ++ last := by
  have hlast {last : List Entry} : LastEntries flavor context last ↔
      List.Forall₂ (MadeFrom context) (lastReads flavor context.settings) last := by
    cases flavor with
    | jaxrs => exact applicationEntries_iff
    | quarkus => exact extrasEntries_iff
  simp only [Assembled, pomEntries_iff, hlast]

/-! ## The one entry that differs -/

theorem DifferAt.append {entries entries' : List Entry} (h : DifferAt context other path entries entries')
    (before after : List Entry) :
    DifferAt context other path (before ++ entries ++ after) (before ++ entries' ++ after) := by
  obtain ⟨front, content, content', back, hcontent, rfl, hcontent', rfl⟩ := h
  refine ⟨before ++ front, content, content', back ++ after, hcontent, ?_, hcontent', ?_⟩
  · simp only [List.append_assoc, List.cons_append]
  · simp only [List.append_assoc, List.cons_append]

theorem DifferAt.paths {entries entries' : List Entry} (h : DifferAt context other path entries entries') :
    entries'.map Entry.path = entries.map Entry.path := by
  obtain ⟨front, content, content', back, -, rfl, -, rfl⟩ := h
  simp only [List.map_append, List.map_cons, madeEntry]

variable {paths : List String} {made made' : List Entry}

private theorem made_same (h : ∀ path ∈ paths, (other.load path).result = (context.store.load path).result)
    (hmade : List.Forall₂ (MadeFrom context) paths made)
    (hmade' : List.Forall₂ (MadeFrom { context with store := other }) paths made') : made' = made := by
  induction hmade generalizing made' with
  | nil => exact List.forall₂_nil_left_iff.mp hmade'
  | cons hfirst _ ih =>
    obtain ⟨hpath, hrest⟩ := List.forall_mem_cons.mp h
    obtain ⟨e', rest', hfirst', hmore', rfl⟩ := List.forall₂_cons_left_iff.mp hmade'
    obtain ⟨content, hcontent, rfl⟩ := hfirst
    obtain ⟨content', hcontent', rfl⟩ := hfirst'
    rw [ih hrest hmore', ((madeOf_congr hpath).mp hcontent').unique hcontent]

private theorem made_differ
    (h : ∀ other', other' ≠ path → (other.load other').result = (context.store.load other').result)
    (hpath : path ∈ paths) (hnodup : paths.Nodup) (hmade : List.Forall₂ (MadeFrom context) paths made)
    (hmade' : List.Forall₂ (MadeFrom { context with store := other }) paths made') :
    DifferAt context other path made made' := by
  induction hmade generalizing made' with
  | nil => cases hpath
  | @cons first e rest more hfirst hmore ih =>
    obtain ⟨hnew, hrest⟩ := List.nodup_cons.mp hnodup
    obtain ⟨e', more', hfirst', hmore', rfl⟩ := List.forall₂_cons_left_iff.mp hmade'
    obtain ⟨content, hcontent, rfl⟩ := hfirst
    obtain ⟨content', hcontent', rfl⟩ := hfirst'
    by_cases hhere : first = path
    · subst hhere
      have hsame : more' = more := made_same (fun p hp => h p fun heq => hnew (heq ▸ hp)) hmore hmore'
      exact ⟨[], content, content', more, hcontent, rfl, hcontent', by rw [hsame]; rfl⟩
    · have hlater := ih ((List.mem_cons.mp hpath).resolve_left (Ne.symm hhere)) hrest hmore'
      have hsame : content' = content := ((madeOf_congr (h first hhere)).mp hcontent').unique hcontent
      rw [hsame]
      simpa using hlater.append [madeEntry context.settings first content] []

private theorem assembled_differ {entries entries' : List Entry}
    (h : ∀ other', other' ≠ path → (other.load other').result = (context.store.load other').result)
    (hpath : path ∈ readPaths flavor context.settings) (hentries : Assembled flavor provider context entries)
    (hentries' : Assembled flavor provider { context with store := other } entries') :
    DifferAt context other path entries entries' := by
  obtain ⟨build, sources, last, hbuild, hsources, hlast, rfl⟩ := assembled_iff_made.mp hentries
  obtain ⟨build', sources', last', hbuild', hsources', hlast', rfl⟩ := assembled_iff_made.mp hentries'
  obtain rfl := Except.ok.inj (hsources.symm.trans hsources')
  obtain ⟨hbuildNodup, hlastNodup, hapart⟩ := List.nodup_append.mp (readPaths_nodup flavor context.settings)
  rcases List.mem_append.mp hpath with hread | hread
  · have hdiffer := made_differ h hread hbuildNodup hbuild hbuild'
    have hsame : last' = last := made_same (fun p hp => h p (Ne.symm (hapart path hread p hp))) hlast hlast'
    rw [hsame]
    change DifferAt context other path _ (build' ++ sources ++ documentEntries context ++ last)
    simpa only [List.nil_append, List.append_assoc] using
      hdiffer.append [] (sources ++ documentEntries context ++ last)
  · have hdiffer := made_differ h hread hlastNodup hlast hlast'
    have hsame : build' = build := made_same (fun p hp => h p (hapart p hp path hread)) hbuild hbuild'
    rw [hsame]
    change DifferAt context other path _ (build ++ sources ++ documentEntries context ++ last')
    simpa only [List.append_nil, List.append_assoc] using
      hdiffer.append (build ++ sources ++ documentEntries context) []

/-- Two stores answer alike to every path but one. Where a flavor reads that path in its mode, two runs that come out
well write the same paths and leave the same lines, and what they write is the same but for the content of the entry
that is made from it; so it is with two projects. Where the path is not read, both runs, and both projects, come to the
same, also to the same error. A whole application reads nothing unless it is made in full, and a full project reads
every template of its table. -/
theorem runs_differ_at (codec : Codec) (flavor : Flavor) (provider : Sources) (s : Settings)
    (document : Option Document) (store other : Store) (path : String)
    (h : ∀ other', other' ≠ path → (other.load other').result = (store.load other').result) :
    let context : StepContext := ⟨s, store, document⟩
    let context' : StepContext := ⟨s, other, document⟩
    let p := ofFlavor flavor provider
    (path ∈ readPaths flavor s →
      (∀ w log, (p.run codec context w log).2.result = .ok () → (p.run codec context' w log).2.result = .ok () →
        (p.run codec context' w log).1.paths = (p.run codec context w log).1.paths ∧
        (p.run codec context' w log).2.lines = (p.run codec context w log).2.lines ∧
        ∃ entries entries', DifferAt context other path entries entries' ∧
          w.writeAll codec entries = ((p.run codec context w log).1, .ok ()) ∧
          w.writeAll codec entries' = ((p.run codec context' w log).1, .ok ())) ∧
      ∀ project project', (p.generate codec context).result = .ok project →
        (p.generate codec context').result = .ok project' →
        project'.entries = project.entries ∧ (p.generate codec context').lines = (p.generate codec context).lines ∧
        ∃ entries entries' w w', DifferAt context other path entries entries' ∧
          Writer.writeAll codec {} entries = (w, .ok ()) ∧ w.finish codec = .ok project.archive ∧
          Writer.writeAll codec {} entries' = (w', .ok ()) ∧ w'.finish codec = .ok project'.archive) ∧
    (path ∉ readPaths flavor s →
      (∀ w log, (p.run codec context' w log).1 = (p.run codec context w log).1 ∧
        (p.run codec context w log).2.Alike (p.run codec context' w log).2) ∧
      (p.generate codec context).Alike (p.generate codec context')) ∧
    (flavor = .quarkus → s.codeOnly ∨ s.updateOnly → readPaths flavor s = []) ∧
    (s.isFullProject = true → readPaths flavor s = Bundled.paths flavor) := by
  intro context context' p
  have hrun (hread : path ∈ readPaths flavor s) (w : Writer) (log : Log)
      (hok : (p.run codec context w log).2.result = .ok ()) (hok' : (p.run codec context' w log).2.result = .ok ()) :
      (p.run codec context' w log).1.paths = (p.run codec context w log).1.paths ∧
        (p.run codec context' w log).2.lines = (p.run codec context w log).2.lines ∧
        ∃ entries entries', DifferAt context other path entries entries' ∧
          w.writeAll codec entries = ((p.run codec context w log).1, .ok ()) ∧
          w.writeAll codec entries' = ((p.run codec context' w log).1, .ok ()) := by
    obtain ⟨entries, hentries, hwrite, hlines⟩ := run_assembled hok
    obtain ⟨entries', hentries', hwrite', hlines'⟩ := run_assembled hok'
    have hdiffer : DifferAt context other path entries entries' := assembled_differ h hread hentries hentries'
    refine ⟨?_, hlines'.trans hlines.symm, entries, entries', hdiffer, hwrite, hwrite'⟩
    rw [Writer.writeAll_paths hwrite', Writer.writeAll_paths hwrite, hdiffer.paths]
  refine ⟨fun hread => ⟨hrun hread, ?_⟩, fun hunread => ?_, ?_, readPaths_full⟩
  · intro project project' hproject hproject'
    obtain ⟨hok, hfinish, hentries, hlog⟩ := Pipeline.run_of_generate hproject
    obtain ⟨hok', hfinish', hentries', hlog'⟩ := Pipeline.run_of_generate hproject'
    obtain ⟨hpaths, hlines, entries, entries', hdiffer, hwrite, hwrite'⟩ := hrun hread {} {} hok hok'
    refine ⟨?_, ?_, entries, entries', _, _, hdiffer, hwrite, hfinish, hwrite', hfinish'⟩
    · rw [hentries', hentries, hpaths]
    · rw [hlog', hlog, hlines]
  · have hsteps : ∀ step ∈ p.steps, ∀ log, (step.body context log).Alike (step.body context' log) := by
      intro step hstep log
      exact step_alike (fun q hq => h q fun heq => hunread (heq ▸ hq)) hstep log
    exact ⟨fun w log => Pipeline.runSteps_alike codec hsteps w log, Pipeline.generate_alike rfl hsteps⟩
  · rintro rfl hout
    rw [readPaths, buildReads, if_pos hout, lastReads, if_pos hout]
    rfl

/-- A full project with an application class that lies over another one, between a build file, a source and a
document that stay as they are. -/
theorem runs_differ_at_class :
    let store := MemoryStore.toStore ⟨[("pom.xml", [0x70]), ("JaxRsApplication.java", [0x63])]⟩
    let other := Store.overlay (MemoryStore.toStore ⟨[("JaxRsApplication.java", [0x64])]⟩) store
    let context : StepContext := ⟨{}, store, some ⟨.json, [0x61]⟩⟩
    let p := ofFlavor .jaxrs (Sources.fixed [Entry.executable "src/main/java/A.java" [1]])
    (∀ path, path ≠ "JaxRsApplication.java" → (other.load path).result = (store.load path).result) ∧
      (p.run Codec.stored context {} {}).2.result = .ok () ∧
      (p.run Codec.stored { context with store := other } {} {}).2.result = .ok () ∧
      (p.run Codec.stored context {} {}).1.paths = ["pom.xml", "src/main/java/A.java",
        "src/main/resources/META-INF/openapi.json", "src/main/java/org/example/api/JaxRsApplication.java"] ∧
      ∃ entries entries', DifferAt context other "JaxRsApplication.java" entries entries' ∧
        Writer.writeAll Codec.stored {} entries = ((p.run Codec.stored context {} {}).1, .ok ()) ∧
        Writer.writeAll Codec.stored {} entries'
          = ((p.run Codec.stored { context with store := other } {} {}).1, .ok ()) := by
  intro store other context p
  have halike : ∀ path, path ≠ "JaxRsApplication.java" → (other.load path).result = (store.load path).result := by
    intro path hpath
    have hmissing : MemoryStore.get? ⟨[("JaxRsApplication.java", [0x64])]⟩ path = none := by
      simp [MemoryStore.get?, List.lookup_cons, beq_false_of_ne hpath]
    simp [other, Store.overlay, MemoryStore.toStore, hmissing, Traced.fail]
  have hok : (p.run Codec.stored context {} {}).2.result = .ok () := by decide +kernel
  have hok' : (p.run Codec.stored { context with store := other } {} {}).2.result = .ok () := by decide +kernel
  obtain ⟨hread, -⟩ := runs_differ_at Codec.stored .jaxrs (Sources.fixed [Entry.executable "src/main/java/A.java" [1]])
    {} (some ⟨.json, [0x61]⟩) store other _ halike
  obtain ⟨-, -, hdiffer⟩ := (hread (by decide)).1 {} {} hok hok'
  exact ⟨halike, hok, hok', by decide +kernel, hdiffer⟩

end Layout

end Scaffold
