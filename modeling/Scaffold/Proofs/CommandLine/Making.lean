import Scaffold.CommandLine.Program
import Scaffold.Proofs.Files.Changes

/-!
# What a run goes through

A run makes its project in memory first. Then it makes the directory of the archive, writes the archive and
writes the log, and stops where one of these fails.
-/

namespace Scaffold.CommandLine.Generate

/-- The sources that options ask for. -/
def sourcesOf (tree : FileTree) (o : GenerateOptions) : Sources :=
  match o.sources with
  | some root => Sources.directory tree root
  | none => Sources.empty

/-- The settings and the document a run works with. -/
structure Given (tree : FileTree) (path : Path) (o : GenerateOptions) (s : Settings) (document : Option Document) :
    Prop where
  settings : (Settings.resolve tree path o.overrides).result = .ok s
  document : match o.openapi with
    | none => document = none
    | some file => ∃ d, Document.load tree file = .ok d ∧ document = some d

/-- What the layout of a run gives in memory. -/
def attempt (codec : Codec) (tree : FileTree) (o : GenerateOptions) (s : Settings) (document : Option Document) :
    Attempt Project :=
  (Layout.ofFlavor s.flavor (sourcesOf tree o)).generate codec ⟨s, store tree s.flavor o, document⟩

variable {codec : Codec} {tree after : FileTree} {path : Path} {o : GenerateOptions} {made : Made}

/-! ## In memory -/

private theorem mapError_ok {ε ε' α : Type} {f : ε → ε'} {result : Except ε α} {a : α} :
    result.mapError f = .ok a ↔ result = .ok a := by
  cases result with
  | error e => exact ⟨nofun, nofun⟩
  | ok b => exact ⟨fun h => congrArg Except.ok (Except.ok.inj h), fun h => congrArg Except.ok (Except.ok.inj h)⟩

private theorem settings_ok {s : Settings} :
    (settings tree path o).result = .ok s ↔ (Settings.resolve tree path o.overrides).result = .ok s := by
  rw [settings]
  constructor
  · intro h
    obtain ⟨_, -, h⟩ := Traced.result_bind_eq_ok.mp h
    obtain ⟨found, hfound, h⟩ := Traced.result_bind_eq_ok.mp h
    obtain ⟨_, -, h⟩ := Traced.result_bind_eq_ok.mp h
    obtain ⟨_, -, h⟩ := Traced.result_bind_eq_ok.mp h
    rcases hmode : mode? found with _ | mode
    · rw [hmode] at h
      cases h
      exact mapError_ok.mp hfound
    · rw [hmode] at h
      cases h
      exact mapError_ok.mp hfound
  · intro h
    refine Traced.result_bind_eq_ok.mpr ⟨(), rfl, ?_⟩
    refine Traced.result_bind_eq_ok.mpr ⟨s, mapError_ok.mpr h, ?_⟩
    refine Traced.result_bind_eq_ok.mpr ⟨(), rfl, ?_⟩
    refine Traced.result_bind_eq_ok.mpr ⟨(), rfl, ?_⟩
    cases mode? s with
    | none => rfl
    | some mode => rfl

private theorem sources_result : (sources tree o).result = .ok (sourcesOf tree o) := by
  rw [sources, sourcesOf]
  cases o.sources with
  | none => rfl
  | some root => rfl

private theorem document_ok {d : Option Document} :
    (document tree o).result = .ok d ↔
      match o.openapi with
      | none => d = none
      | some file => ∃ loaded, Document.load tree file = .ok loaded ∧ d = some loaded := by
  rw [document]
  cases o.openapi with
  | none => exact ⟨fun h => (Except.ok.inj h).symm, fun h => congrArg Except.ok h.symm⟩
  | some file =>
    simp only [Traced.result_ofExcept]
    cases Document.load tree file with
    | error e => exact ⟨nofun, nofun⟩
    | ok loaded =>
      constructor
      · exact fun h => ⟨loaded, rfl, (Except.ok.inj h).symm⟩
      · intro h
        obtain ⟨loaded', hloaded, rfl⟩ := h
        cases hloaded
        rfl

/-- A project is made just when the output is free, the settings and the document are there, and their layout gives the
project; its log is that of the layout. -/
theorem make_ok_iff :
    (make codec tree path o).result = .ok made ↔
      (tree.pathExists o.output && !o.force) = false ∧ ∃ s document, Given tree path o s document ∧
        (attempt codec tree o s document).result = .ok made.project ∧
        made.log = (attempt codec tree o s document).log := by
  rw [make, Traced.result_bind_eq_ok]
  by_cases hthere : (tree.pathExists o.output && !o.force) = true
  · rw [if_pos hthere, hthere]
    exact ⟨nofun, nofun⟩
  · rw [if_neg hthere, eq_false_of_ne_true hthere]
    constructor
    · intro h
      obtain ⟨_, -, h⟩ := h
      obtain ⟨s, hs, h⟩ := Traced.result_bind_eq_ok.mp h
      obtain ⟨d, hd, h⟩ := Traced.result_bind_eq_ok.mp h
      obtain ⟨provider, hprovider, h⟩ := Traced.result_bind_eq_ok.mp h
      obtain ⟨_, -, h⟩ := Traced.result_bind_eq_ok.mp h
      obtain ⟨project, hproject, h⟩ := Traced.result_bind_eq_ok.mp h
      obtain ⟨_, -, h⟩ := Traced.result_bind_eq_ok.mp h
      cases hprovider.symm.trans sources_result
      cases h
      exact ⟨rfl, s, d, ⟨settings_ok.mp hs, document_ok.mp hd⟩, mapError_ok.mp hproject, rfl⟩
    · intro h
      obtain ⟨-, s, d, hgiven, hproject, hlog⟩ := h
      refine ⟨(), rfl, ?_⟩
      refine Traced.result_bind_eq_ok.mpr ⟨s, settings_ok.mpr hgiven.settings, ?_⟩
      refine Traced.result_bind_eq_ok.mpr ⟨d, document_ok.mpr hgiven.document, ?_⟩
      refine Traced.result_bind_eq_ok.mpr ⟨_, sources_result, ?_⟩
      refine Traced.result_bind_eq_ok.mpr ⟨(), rfl, ?_⟩
      refine Traced.result_bind_eq_ok.mpr ⟨made.project, mapError_ok.mpr hproject, ?_⟩
      refine Traced.result_bind_eq_ok.mpr ⟨(), rfl, ?_⟩
      exact congrArg (fun log => Except.ok (Made.mk made.project log)) hlog.symm

private theorem mapError_error {ε ε' α : Type} {f : ε → ε'} {result : Except ε α} {e' : ε'} :
    result.mapError f = .error e' ↔ ∃ e, result = .error e ∧ e' = f e := by
  cases result with
  | error e =>
    constructor
    · exact fun h => ⟨e, rfl, (Except.error.inj h).symm⟩
    · intro h
      obtain ⟨e, he, rfl⟩ := h
      cases he
      rfl
  | ok a => exact ⟨nofun, fun ⟨_, h, _⟩ => nomatch h⟩

private theorem settings_error {r : Report} (h : (settings tree path o).result = .error r) :
    ∃ e, (Settings.resolve tree path o.overrides).result = .error e ∧ r = Report.ofError e := by
  rw [settings] at h
  rcases Traced.result_bind_eq_error.mp h with hstep | ⟨_, -, h⟩
  · cases hstep
  · rcases Traced.result_bind_eq_error.mp h with hresolve | ⟨s, -, h⟩
    · exact mapError_error.mp hresolve
    · rcases hmode : mode? s with _ | mode
      · rw [hmode] at h
        cases h
      · rw [hmode] at h
        cases h

private theorem document_error {r : Report} (h : (document tree o).result = .error r) :
    ∃ file cause, o.openapi = some file ∧
      r = Report.because s!"failed to read OpenAPI document {file.display}" cause := by
  rw [document] at h
  cases hopenapi : o.openapi with
  | none =>
    rw [hopenapi] at h
    cases h
  | some file =>
    rw [hopenapi] at h
    simp only [Traced.result_ofExcept] at h
    cases hload : Document.load tree file with
    | ok loaded =>
      rw [hload] at h
      cases h
    | error e =>
      rw [hload] at h
      exact ⟨file, Report.ofError e, rfl, (Except.error.inj h).symm⟩

theorem make_failed {r : Report} (h : (make codec tree path o).result = .error r) :
    (tree.pathExists o.output = true ∧ o.force = false ∧
        r = ⟨s!"{o.output.display} already exists (use --force to overwrite)", []⟩) ∨
      (∃ e, (Settings.resolve tree path o.overrides).result = .error e ∧ r = Report.ofError e) ∨
      (∃ file cause, o.openapi = some file ∧
        r = Report.because s!"failed to read OpenAPI document {file.display}" cause) ∨
      ∃ s document e, Given tree path o s document ∧ (attempt codec tree o s document).result = .error e ∧
        r = Report.ofError e := by
  rw [make] at h
  rcases Traced.result_bind_eq_error.mp h with hput | ⟨_, -, h⟩
  · cases hput
  · by_cases hthere : (tree.pathExists o.output && !o.force) = true
    · rw [if_pos hthere] at h
      rw [Bool.and_eq_true, Bool.not_eq_true'] at hthere
      exact .inl ⟨hthere.1, hthere.2, (Except.error.inj h).symm⟩
    · rw [if_neg hthere] at h
      rcases Traced.result_bind_eq_error.mp h with hs | ⟨s, hs, h⟩
      · exact .inr (.inl (settings_error hs))
      · rcases Traced.result_bind_eq_error.mp h with hd | ⟨d, hd, h⟩
        · exact .inr (.inr (.inl (document_error hd)))
        · rcases Traced.result_bind_eq_error.mp h with hprovider | ⟨provider, hprovider, h⟩
          · exact nomatch hprovider.symm.trans sources_result
          · cases hprovider.symm.trans sources_result
            rcases Traced.result_bind_eq_error.mp h with hput | ⟨_, -, h⟩
            · cases hput
            · rcases Traced.result_bind_eq_error.mp h with hattempt | ⟨_, -, h⟩
              · obtain ⟨e, he, hr⟩ := mapError_error.mp hattempt
                exact .inr (.inr (.inr ⟨s, d, e, ⟨settings_ok.mp hs, document_ok.mp hd⟩, he, hr⟩))
              · rcases Traced.result_bind_eq_error.mp h with hlines | ⟨_, -, h⟩
                · cases hlines
                · cases h

/-! ## Writing -/

private theorem within_ok {α : Type} (context : String) (a : α) : within context (.ok a) = .ok a :=
  rfl

private theorem within_error {α : Type} {context : String} {result : Except FileError α} {r : Report}
    (h : within context result = .error r) : ∃ e, result = .error e ∧ r = Report.because context ⟨e.message, []⟩ :=
  mapError_error.mp h

theorem makeParent_grown (h : tree.Rooted) (output : Path) :
    ∃ dirs, (∀ dir ∈ dirs, Path.Above dir output) ∧ FileTree.Grown tree (makeParent tree output).1 dirs := by
  rw [makeParent]
  rcases hparent : output.parent? with _ | (_ | ⟨b, rest⟩)
  · exact ⟨[], nofun, .refl ..⟩
  · exact ⟨[], nofun, .refl ..⟩
  · obtain ⟨dirs, hdirs, hgrown⟩ := FileTree.makeDirs_grown h (b :: rest)
    refine ⟨dirs, ?_, hgrown⟩
    intro dir hmem
    rcases hdirs dir hmem with rfl | habove
    · exact .parent hparent
    · exact .step hparent habove

theorem makeParent_of_located {spot : Spot} {output : Path} (h : tree.Rooted)
    (hlocate : tree.locate true output = .ok spot) : makeParent tree output = (tree, .ok ()) := by
  rw [makeParent]
  rcases hparent : output.parent? with _ | (_ | ⟨b, rest⟩)
  · rfl
  · rfl
  · have hdir := FileTree.isDirectory_above h (.parent hparent) (List.cons_ne_nil b rest) hlocate
    simp only [FileTree.makeDirs_of_isDirectory h hdir]
    rfl

theorem makeParent_failed {output : Path} {r : Report} (h : tree.Rooted)
    (hfail : (makeParent tree output).2 = .error r) (spot : Spot) :
    (makeParent tree output).1.locate true output ≠ .ok spot := by
  intro hlocate
  obtain ⟨dirs, -, hgrown⟩ := makeParent_grown h output
  have hafter := hgrown.rooted h
  rw [makeParent] at hfail hlocate hafter
  rcases hparent : output.parent? with _ | (_ | ⟨b, rest⟩)
  · rw [hparent] at hfail
    cases hfail
  · rw [hparent] at hfail
    cases hfail
  · simp only [hparent] at hfail hlocate hafter
    obtain ⟨e, he, -⟩ := within_error hfail
    obtain ⟨dir, hdir, hne, hno⟩ := FileTree.makeDirs_failed h he
    have habove : Path.Above dir output := by
      rcases hdir with rfl | hdir
      · exact .parent hparent
      · exact .step hparent hdir
    have hyes := FileTree.isDirectory_above hafter habove hne hlocate
    exact absurd (hyes.symm.trans hno) (by decide)

/-- What writing comes to when all of it succeeds. -/
structure Written (tree : FileTree) (made : Made) (o : GenerateOptions) (grown archived after : FileTree) : Prop where
  parent : makeParent tree o.output = (grown, .ok ())
  archive : grown.write o.output made.project.archive = .ok archived
  log : match o.logFile with
    | none => after = archived
    | some file => archived.write file (Text.encode made.log.render) = .ok after

theorem write_ok (h : write tree made o = (after, .ok ())) :
    ∃ grown archived, Written tree made o grown archived after := by
  rw [write] at h
  rcases hparent : makeParent tree o.output with ⟨grown, r | _⟩
  · rw [hparent] at h
    cases h
  · simp only [hparent, writeFile] at h
    rcases harchive : within s!"failed to write {o.output.display}" (grown.write o.output made.project.archive) with r |
      archived
    · rw [harchive] at h
      cases h
    · rw [harchive] at h
      refine ⟨grown, archived, hparent, mapError_ok.mp harchive, ?_⟩
      cases hlogFile : o.logFile with
      | none =>
        rw [hlogFile] at h
        exact (Prod.mk.inj h).1.symm
      | some file =>
        rw [hlogFile] at h
        simp only at h
        rcases hlog : within s!"failed to write {file.display}" (archived.write file (Text.encode made.log.render)) with
          r | logged
        · rw [hlog] at h
          cases h
        · rw [hlog] at h
          cases h
          exact mapError_ok.mp hlog

theorem Written.write {grown archived : FileTree} (h : Written tree made o grown archived after) :
    write tree made o = (after, .ok ()) := by
  have hlog := h.log
  simp only [Generate.write, h.parent, writeFile, h.archive, within_ok]
  cases hlogFile : o.logFile with
  | none =>
    simp only [hlogFile] at hlog
    rw [hlog]
  | some file =>
    simp only [hlogFile] at hlog
    simp only [hlog, within_ok]

theorem write_log_failed {grown archived : FileTree} {file : Path} {e : FileError}
    (hparent : makeParent tree o.output = (grown, .ok ()))
    (harchive : grown.write o.output made.project.archive = .ok archived) (hfile : o.logFile = some file)
    (hlog : archived.write file (Text.encode made.log.render) = .error e) :
    ∃ r, write tree made o = (archived, .error r) := by
  simp only [write, hparent, writeFile, harchive, within_ok, hfile, hlog]
  exact ⟨_, rfl⟩

/-- Where writing stops: before the archive, at the archive, or at the log. -/
theorem write_failed {r : Report} (h : write tree made o = (after, .error r)) :
    makeParent tree o.output = (after, .error r) ∨
      makeParent tree o.output = (after, .ok ()) ∧ (∃ e, after.write o.output made.project.archive = .error e ∧
        r = Report.because s!"failed to write {o.output.display}" ⟨e.message, []⟩) ∨
      ∃ grown file e, makeParent tree o.output = (grown, .ok ()) ∧
        grown.write o.output made.project.archive = .ok after ∧ o.logFile = some file ∧
        after.write file (Text.encode made.log.render) = .error e ∧
        r = Report.because s!"failed to write {file.display}" ⟨e.message, []⟩ := by
  rw [write] at h
  rcases hparent : makeParent tree o.output with ⟨grown, cause | _⟩
  · rw [hparent] at h
    exact .inl h
  · simp only [hparent, writeFile] at h
    rcases harchive : within s!"failed to write {o.output.display}" (grown.write o.output made.project.archive) with r |
      archived
    · rw [harchive] at h
      cases h
      exact .inr (.inl ⟨rfl, within_error harchive⟩)
    · rw [harchive] at h
      cases hlogFile : o.logFile with
      | none =>
        rw [hlogFile] at h
        cases h
      | some file =>
        rw [hlogFile] at h
        simp only at h
        rcases hlog : within s!"failed to write {file.display}" (archived.write file (Text.encode made.log.render)) with
          r | logged
        · rw [hlog] at h
          cases h
          obtain ⟨e, he, hr⟩ := within_error hlog
          exact .inr (.inr ⟨grown, file, e, rfl, mapError_ok.mp harchive, rfl, he, hr⟩)
        · rw [hlog] at h
          cases h

theorem makeParent_report {output : Path} {r : Report} (h : makeParent tree output = (after, .error r)) :
    ∃ (parent : Path) (e : FileError), r = Report.because s!"failed to create {parent.display}" ⟨e.message, []⟩ := by
  rw [makeParent] at h
  rcases hparent : output.parent? with _ | (_ | ⟨b, rest⟩)
  · rw [hparent] at h
    cases h
  · rw [hparent] at h
    cases h
  · rw [hparent] at h
    obtain ⟨e, -, hr⟩ := within_error (Prod.mk.inj h).2
    exact ⟨b :: rest, e, hr⟩

/-! ## Both -/

theorem run_generate {terminal : Terminal} {i : Invocation} (hcommand : i.command = .generate o) :
    i.run codec tree terminal
      = ⟨(run codec tree i.settingsFile o).2.trace, (run codec tree i.settingsFile o).1,
          failureOf (run codec tree i.settingsFile o).2.result⟩ := by
  rw [Invocation.run, hcommand]

theorem run_failed {r : Report} (h : (run codec tree path o).2.result = .error r) :
    (make codec tree path o).result = .error r ∨
      ∃ made after, (make codec tree path o).result = .ok made ∧ write tree made o = (after, .error r) := by
  rw [run] at h
  rcases hmake : (make codec tree path o).result with cause | made
  · simp only [hmake] at h
    exact .inl (congrArg Except.error (Except.error.inj h))
  · simp only [hmake] at h
    rcases hwrite : write tree made o with ⟨after, cause | _⟩
    · simp only [hwrite] at h
      cases h
      exact .inr ⟨made, after, rfl, hwrite⟩
    · simp only [hwrite] at h
      cases h

end Scaffold.CommandLine.Generate
