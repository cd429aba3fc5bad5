import Scaffold.Proofs.CommandLine.Asking
import Scaffold.Proofs.CommandLine.Making
import Scaffold.Proofs.Pipeline.Failures
import Scaffold.Proofs.Project.Sources

/-!
# From one command to the other

The settings that the command for settings writes are those that a later run works with, but for what that run is asked
for besides. So no later run fails for its settings.
-/

namespace Scaffold

/-- The error is about the settings of a run: they cannot be had, or they have a problem. -/
inductive Error.OfSettings : Error → Prop
  | notFound (path : Path) (cause : FileError) : OfSettings (.settingsNotFound path cause)
  | unreadable (path : Path) (document : Bytes) (cause : Json.Fault) :
      OfSettings (.settingsUnreadable path document cause)
  | invalid (problem : SettingsProblem) : OfSettings (.invalidSettings problem)

theorem Error.not_ofSettings_ofWrite (cause : WriteError) : ¬(Error.ofWrite cause).OfSettings := by
  intro hsettings
  cases cause with
  | duplicate path => cases hsettings
  | sink path reason => cases hsettings

/-! ## Texts of reports -/

namespace CommandLine

def Starts (start text : String) : Prop :=
  start.toList <+: text.toList

instance (start text : String) : Decidable (Starts start text) :=
  inferInstanceAs (Decidable (start.toList <+: text.toList))

/-- How the messages of errors about settings start. -/
def settingsStarts : List String :=
  ["config file not found at ", "failed to parse config at ", "invalid settings: "]

/-- A text that starts like this does not start like the message of an error about settings. -/
def Apart (start : String) : Prop :=
  ∀ other ∈ settingsStarts, ¬Starts other start ∧ ¬Starts start other

instance (start : String) : Decidable (Apart start) :=
  inferInstanceAs (Decidable (∀ other ∈ settingsStarts, ¬Starts other start ∧ ¬Starts start other))

private theorem starts_append (start rest : String) : Starts start (start ++ rest) :=
  ⟨rest.toList, String.toList_append.symm⟩

theorem Starts.append {start text : String} (h : Starts start text) (rest : String) : Starts start (text ++ rest) := by
  rw [Starts, String.toList_append]
  exact h.trans (List.prefix_append _ _)

private theorem settings_starts {e : Error} (h : e.OfSettings) : ∃ start ∈ settingsStarts, Starts start e.message := by
  cases h with
  | notFound path cause => exact ⟨_, .head _, starts_append "config file not found at " _⟩
  | unreadable path document cause => exact ⟨_, .tail _ (.head _), starts_append "failed to parse config at " _⟩
  | invalid problem => exact ⟨_, .tail _ (.tail _ (.head _)), starts_append "invalid settings: " _⟩

private theorem ne_of_starts {r : Report} {e : Error} (he : e.OfSettings) {start : String} (hapart : Apart start)
    (h : Starts start r.message) : r ≠ Report.ofError e := by
  rintro rfl
  obtain ⟨other, hother, hstarts⟩ := settings_starts he
  rcases List.prefix_or_prefix_of_prefix hstarts h with hbefore | hbefore
  · exact (hapart other hother).1 hbefore
  · exact (hapart other hother).2 hbefore

private theorem file_starts (cause : FileError) : Apart cause.message := by
  cases cause <;> decide

private theorem other_starts {e : Error} (h : ¬e.OfSettings) : ∃ start, Apart start ∧ Starts start e.message := by
  cases e with
  | settingsNotFound path cause => exact absurd (.notFound path cause) h
  | settingsUnreadable path document cause => exact absurd (.unreadable path document cause) h
  | invalidSettings problem => exact absurd (.invalid problem) h
  | unknownFlavor name => exact ⟨"unknown flavor: ", by decide, (starts_append _ _).append _⟩
  | templateNotFound path => exact ⟨"template resource not found: ", by decide, starts_append _ _⟩
  | templateNotText path cause => exact ⟨"template ", by decide, (starts_append _ _).append _⟩
  | templateFailed fault => exact ⟨"template rendering failed: ", by decide, starts_append _ _⟩
  | sourcesNotFound root => exact ⟨"sources directory not found: ", by decide, starts_append _ _⟩
  | sourceNameNotText path => exact ⟨"source path is not valid UTF-8: ", by decide, starts_append _ _⟩
  | entryLost path cause => exact ⟨"failed to write archive entry ", by decide, starts_append _ _⟩
  | duplicateEntry path => exact ⟨"duplicate archive entry: ", by decide, starts_append _ _⟩
  | file cause => exact ⟨cause.message, file_starts cause, List.prefix_rfl⟩

private theorem last_append (text : String) {tail : String} {c : Char} (h : tail.toList.getLast? = some c) :
    (text ++ tail).toList.getLast? = some c := by
  rw [String.toList_append, List.getLast?_append, h]
  rfl

private theorem existing_ne {e : Error} (he : e.OfSettings) (output : String) :
    (⟨s!"{output} already exists (use --force to overwrite)", []⟩ : Report) ≠ Report.ofError e := by
  intro h
  have hlast : e.message.toList.getLast? = some ')' := by
    rw [← (Report.mk.inj h).1]
    exact last_append _ (by decide)
  cases he with
  | notFound path cause => cases (Report.mk.inj h).2
  | unreadable path document cause => cases (Report.mk.inj h).2
  | invalid problem =>
    cases problem with
    | javaPackage name =>
      have hname : (Error.invalidSettings (.javaPackage name)).message.toList.getLast? = some 'e' :=
        last_append _ (last_append _ (by decide))
      cases hlast.symm.trans hname
    | artifactId => exact absurd hlast (by decide)

/-! ## Runs -/

namespace Generate

variable {codec : Codec} {tree : FileTree} {path : Path} {o : GenerateOptions} {e : Error}

private theorem sourcesOf_error {s : Settings} (h : (sourcesOf tree o s).result = .error e) : ¬e.OfSettings := by
  rw [sourcesOf] at h
  cases hroot : o.sources with
  | none =>
    rw [hroot] at h
    cases h
  | some root =>
    rw [hroot] at h
    intro hsettings
    rcases Sources.directory_error h with ⟨_, rfl⟩ | ⟨_, rfl⟩ | ⟨_, rfl⟩
    · cases hsettings
    · cases hsettings
    · cases hsettings

private theorem bundled_error {flavor : Flavor} {name : String}
    (h : ((Bundled.store flavor).load name).result = .error e) : ¬e.OfSettings := by
  intro hsettings
  simp only [Bundled.store] at h
  split at h
  · cases h
  · cases h
    cases hsettings

private theorem directory_error {root : Path} {name : String}
    (h : ((Store.directory tree root).load name).result = .error e) : ¬e.OfSettings := by
  intro hsettings
  simp only [Store.directory] at h
  split at h
  · cases h
  · cases h
    cases hsettings
  · cases h
    cases hsettings

private theorem overlay_error {primary fallback : Store} {name : String}
    (h : ((primary.overlay fallback).load name).result = .error e) :
    (primary.load name).result = .error e ∨ (fallback.load name).result = .error e := by
  simp only [Store.overlay] at h
  split at h
  · exact .inr h
  · exact .inl h

private theorem store_error {flavor : Flavor} {name : String}
    (h : ((store tree flavor o).load name).result = .error e) :
    ¬e.OfSettings := by
  rw [store] at h
  cases hroot : o.templates with
  | none =>
    rw [hroot] at h
    exact bundled_error h
  | some root =>
    rw [hroot] at h
    rcases overlay_error h with hfirst | hsecond
    · exact directory_error hfirst
    · exact bundled_error hsecond

private theorem attempt_error {s : Settings} {document : Option Document} (hproblem : s.problem? = none)
    (h : (attempt codec tree o s document).result = .error e) : ¬e.OfSettings := by
  intro hsettings
  rcases Layout.generate_fails h with ⟨problem, hsome, -⟩ | htemplate | hsources | ⟨cause, rfl⟩
  · cases hproblem.symm.trans hsome
  · cases htemplate with
    | lacking hload => exact store_error hload hsettings
    | notText => cases hsettings
    | failed => cases hsettings
  · exact sourcesOf_error hsources hsettings
  · exact Error.not_ofSettings_ofWrite cause hsettings

/-- A run whose settings can be had and have no problem may fail, but its report is not one about settings. -/
theorem run_report {s : Settings} (hresolve : (Settings.resolve tree path o.overrides).result = .ok s)
    (hproblem : s.problem? = none) {r : Report} (h : (run codec tree path o).2.result = .error r) (he : e.OfSettings) :
    r ≠ Report.ofError e := by
  rcases run_failed h with hmake | ⟨made, after, -, hwrite⟩
  · rcases make_failed hmake with ⟨-, -, rfl⟩ | ⟨e', hnot, -⟩ | ⟨file, cause, -, rfl⟩ |
      ⟨s', document, e', hgiven, hattempt, rfl⟩
    · exact existing_ne he _
    · cases hresolve.symm.trans hnot
    · exact ne_of_starts he (by decide) (starts_append "failed to read OpenAPI document " _)
    · cases hresolve.symm.trans hgiven.settings
      obtain ⟨start, hapart, hstarts⟩ := other_starts (attempt_error hproblem hattempt)
      exact ne_of_starts he hapart hstarts
  · rcases write_failed hwrite with hparent | ⟨-, cause, -, rfl⟩ | ⟨_, file, cause, -, -, -, -, rfl⟩
    · obtain ⟨parent, cause, rfl⟩ := makeParent_report hparent
      exact ne_of_starts he (by decide) (starts_append "failed to create " _)
    · exact ne_of_starts he (by decide) (starts_append "failed to write " _)
    · exact ne_of_starts he (by decide) (starts_append "failed to write " _)

end Generate

/-! ## Settings -/

namespace Init

variable {tree : FileTree} {path : Path}

private theorem pathExists_of_readable {content : Bytes} (h : tree.read path = .ok content) :
    tree.pathExists path = true := by
  rw [FileTree.read] at h
  rw [FileTree.pathExists]
  cases hfind : tree.find path with
  | error e =>
    rw [hfind] at h
    cases h
  | ok node => rfl

private theorem read_of_load {s : Settings} (h : Settings.load tree path = .ok s) :
    ∃ content, tree.read path = .ok content := by
  rw [Settings.load, FileTree.readText] at h
  cases hread : tree.read path with
  | error e =>
    rw [hread] at h
    cases h
  | ok content => exact ⟨content, rfl⟩

private theorem load_congr {later : FileTree} (h : later.read path = tree.read path) :
    Settings.load later path = Settings.load tree path := by
  rw [Settings.load, Settings.load, FileTree.readText, FileTree.readText, h]

/-- Whatever strings the command for settings is given, with a name among them: where it writes its file, a later run
that finds the bytes of the file unchanged works with just these strings, with defaults for those that are not given,
and with what it is asked for itself. These settings are valid, and however such a run fails, it is not for them. -/
theorem written_settings_resolve (codec : Codec) (path : Path) (o : InitOptions) (terminal : Terminal) (verbosity : Nat)
    {name : String} (hroot : tree.Rooted) (hname : o.choices.projectName = some name)
    (hwrote : Wrote path (Invocation.run codec tree terminal ⟨.init o, path, verbosity⟩)) :
    let after := (Invocation.run codec tree terminal ⟨.init o, path, verbosity⟩).tree
    ∀ (later : FileTree) (g : GenerateOptions), later.read path = after.read path →
      let s : Settings :=
        { projectName := name
          groupId := o.choices.groupId.getD "org.example"
          artifactId := o.choices.artifactId.getD name
          version := "1.0.0-SNAPSHOT"
          javaPackage := o.choices.javaPackage.getD "org.example.api"
          flavor := g.overrides.flavor.getD o.choices.flavor
          codeOnly := g.overrides.codeOnly
          updateOnly := g.overrides.updateOnly }
      (Settings.resolve later path g.overrides).result = .ok s ∧ s.validate = .ok () ∧
        ∀ (codec : Codec) (terminal : Terminal) (verbosity : Nat) (report : Report),
          (Invocation.run codec later terminal ⟨.generate g, path, verbosity⟩).failure = some report →
            ∀ e : Error, e.OfSettings → report ≠ Report.ofError e := by
  intro after later g hsame s
  have hending := run_ending codec tree path o terminal verbosity
  obtain ⟨left, typed, -, hnamed, hproblem, hsave⟩ := hending.of_wrote hwrote
  have htyped : typed = name := by simpa only [Named, hname] using hnamed
  rw [htyped] at hproblem hsave
  have hload : Settings.load later path = .ok (merged o.choices name) :=
    (load_congr hsame).trans (Settings.save_load hroot hsave)
  obtain ⟨content, hread⟩ := read_of_load hload
  have hresolve : (Settings.resolve later path g.overrides).result = .ok s := by
    rw [Settings.resolve, if_pos (pathExists_of_readable hread), hload]
    rfl
  have hvalid : s.problem? = none := hproblem
  refine ⟨hresolve, Layout.validate_ok_iff.mpr hvalid, ?_⟩
  intro codec terminal verbosity report hfailed e he
  rw [Generate.run_generate rfl] at hfailed
  rcases hrun : (Generate.run codec later path g).2.result with r | _
  · simp only [hrun, failureOf, Option.some.injEq] at hfailed
    rw [← hfailed]
    exact Generate.run_report hresolve hvalid hrun he
  · simp only [hrun, failureOf] at hfailed
    cases hfailed

/-- Choices with strings that need escapes, in an empty directory. -/
def hardChoices : Settings.Choices where
  projectName := some "\"\u00e4\u2028\\"
  groupId := some "\x00\n"
  flavor := .jaxrs

theorem written_settings_resolve_hard :
    let path := Path.ofString "s.json"
    let tree : FileTree := ⟨.dir [], []⟩
    let r := Invocation.run Codec.stored tree .absent ⟨.init ⟨hardChoices, false⟩, path, 0⟩
    tree.Rooted ∧ hardChoices.projectName = some "\"\u00e4\u2028\\" ∧ Wrote path r ∧
      (Settings.resolve r.tree path { flavor := some .quarkus, updateOnly := true }).result = .ok
        { projectName := "\"\u00e4\u2028\\", groupId := "\x00\n", artifactId := "\"\u00e4\u2028\\"
          updateOnly := true } := by
  intro path tree r
  have hroot : tree.Rooted := rfl
  have hlocate : tree.locate true path = .ok (.entry [] path none false) :=
    FileTree.locate_ok_iff.mpr ⟨by decide, .missing ⟨by decide, by decide, by decide⟩ rfl⟩
  have hmissing : ¬(tree.pathExists path = true ∧ false = false) := by
    rw [FileTree.pathExists, FileTree.find, hlocate]
    intro h
    cases h.1
  have hagreed : Agreed tree path false .absent .absent := by
    rw [Agreed, if_neg hmissing]
  have hsave : (merged hardChoices "\"\u00e4\u2028\\").save tree path
      = .ok ⟨.dir [(path, .file (Text.encode (merged hardChoices "\"\u00e4\u2028\\").write))], []⟩ := by
    rw [Settings.save, FileTree.write_ok_iff.mpr ⟨_, _, _, hlocate, rfl⟩]
    rfl
  have hwrote : Wrote path r :=
    (wrote_iff Codec.stored 0).mpr ⟨_, _, _, hagreed, rfl, by decide, hsave⟩
  obtain ⟨hresolve, -⟩ := written_settings_resolve Codec.stored path ⟨hardChoices, false⟩ .absent 0 hroot rfl hwrote
    r.tree { output := [], overrides := { flavor := some .quarkus, updateOnly := true } } rfl
  exact ⟨hroot, rfl, hwrote, hresolve⟩

end Init

end CommandLine

end Scaffold
