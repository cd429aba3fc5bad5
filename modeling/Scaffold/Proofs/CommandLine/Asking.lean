import Scaffold.CommandLine.Program
import Scaffold.Proofs.Pipeline.Assembled
import Scaffold.Proofs.Settings.File

/-!
# What is asked before settings are written

Every run of the command for settings ends in one of a few ways. It writes in only one of them, after the question
whether to write over a file was answered with yes, where it was put, and with settings that are valid.
-/

namespace Scaffold.CommandLine.Init

/-- The answer that a key gives to a question for yes or no, if it counts. -/
def answer? (key : Char) : Option Bool :=
  if key ∈ ['y', 'Y'] then some true
  else if key ∈ ['n', 'N', '\n', '\r'] then some false
  else none

/-- Keys answer a question for yes or no: the first of them that counts does, and `rest` comes after it. -/
def Answers (answer : Bool) (keys rest : List Char) : Prop :=
  ∃ before key, keys = before ++ key :: rest ∧ answer? key = some answer ∧ ∀ k ∈ before, answer? k = none

/-- The file may be written: it is new, or that is forced, or the question is answered with yes. The terminal is left
for further questions. -/
def Agreed (tree : FileTree) (path : Path) (force : Bool) (terminal left : Terminal) : Prop :=
  if tree.pathExists path = true ∧ force = false then
    ∃ keys rest, terminal = .typed keys ∧ left = .typed rest ∧ Answers true keys rest
  else left = terminal

/-- The name of the project: the one that is given, or else what is typed, where nothing stands for the default. -/
def Named (given : Option String) (terminal : Terminal) (name : String) : Prop :=
  match given with
  | some s => name = s
  | none => ∃ left, terminal.line "generated-api" = .ok (name, left)

/-- The settings that are written for a project of a name. -/
def merged (c : Settings.Choices) (name : String) : Settings where
  projectName := name
  groupId := c.groupId.getD "org.example"
  artifactId := c.artifactId.getD name
  version := "1.0.0-SNAPSHOT"
  javaPackage := c.javaPackage.getD "org.example.api"
  flavor := c.flavor
  codeOnly := false
  updateOnly := false

/-- What is shown before a file is written. -/
def writing (path : Path) : Output :=
  .step 1 1 s!"Writing {path.display}"

def opening : Output :=
  .header "quarkus-codegen init"

/-- How a run ends: a question is not answered, or the one whether to write is answered with no, or the settings have
a problem, or they cannot be written, or they are. -/
inductive Ending (tree : FileTree) (path : Path) (o : InitOptions) (terminal : Terminal) : Run → Prop
  | unasked {e : NoAnswer} : tree.pathExists path = true → o.force = false → terminal.confirm = .error e →
      Ending tree path o terminal ⟨[opening], tree, some e.report⟩
  | declined {keys rest : List Char} : tree.pathExists path = true → o.force = false → terminal = .typed keys →
      Answers false keys rest →
      Ending tree path o terminal ⟨[opening, .warning "Left existing settings untouched"], tree, none⟩
  | unnamed {left : Terminal} {e : NoAnswer} : Agreed tree path o.force terminal left → o.choices.projectName = none →
      left.line "generated-api" = .error e → Ending tree path o terminal ⟨[opening], tree, some e.report⟩
  | invalid {left : Terminal} {name : String} {problem : SettingsProblem} : Agreed tree path o.force terminal left →
      Named o.choices.projectName left name → (merged o.choices name).problem? = some problem →
      Ending tree path o terminal ⟨[opening], tree, some (Report.ofError (.invalidSettings problem))⟩
  | unsaved {left : Terminal} {name : String} {cause : FileError} : Agreed tree path o.force terminal left →
      Named o.choices.projectName left name → (merged o.choices name).problem? = none →
      (merged o.choices name).save tree path = .error (.file cause) →
      Ending tree path o terminal ⟨[opening, writing path], tree, some (Report.ofError (.file cause))⟩
  | written {left : Terminal} {name : String} {after : FileTree} : Agreed tree path o.force terminal left →
      Named o.choices.projectName left name → (merged o.choices name).problem? = none →
      (merged o.choices name).save tree path = .ok after →
      Ending tree path o terminal ⟨[opening, writing path] ++ (summary (merged o.choices name)).trace, after, none⟩

variable {tree : FileTree} {path : Path} {o : InitOptions} {terminal left : Terminal}

/-! ## Questions -/

private theorem confirmKeys_cons (key : Char) (keys : List Char) :
    Terminal.confirmKeys (key :: keys) = match answer? key with
      | some answer => .ok (answer, keys)
      | none => Terminal.confirmKeys keys := by
  rw [Terminal.confirmKeys, answer?]
  simp only [Terminal.isEnter, List.mem_cons, List.not_mem_nil, or_false, Bool.or_eq_true, decide_eq_true_eq, or_assoc]
  split
  · rfl
  · split
    · rfl
    · rfl

private theorem answers_cons {answer : Bool} {key : Char} {keys rest : List Char} :
    Answers answer (key :: keys) rest ↔
      answer? key = some answer ∧ rest = keys ∨ answer? key = none ∧ Answers answer keys rest := by
  constructor
  · intro h
    obtain ⟨before, last, hkeys, hlast, hbefore⟩ := h
    cases before with
    | nil =>
      cases hkeys
      exact .inl ⟨hlast, rfl⟩
    | cons first before =>
      cases hkeys
      have ⟨hfirst, hrest⟩ := List.forall_mem_cons.mp hbefore
      exact .inr ⟨hfirst, before, last, rfl, hlast, hrest⟩
  · intro h
    rcases h with ⟨hkey, rfl⟩ | ⟨hkey, before, last, rfl, hlast, hbefore⟩
    · exact ⟨[], key, rfl, hkey, nofun⟩
    · exact ⟨key :: before, last, rfl, hlast, List.forall_mem_cons.mpr ⟨hkey, hbefore⟩⟩

private theorem confirmKeys_ok_iff {keys rest : List Char} {answer : Bool} :
    Terminal.confirmKeys keys = .ok (answer, rest) ↔ Answers answer keys rest := by
  induction keys with
  | nil =>
    have hnone : ¬Answers answer [] rest := by
      intro h
      obtain ⟨before, key, hkeys, -⟩ := h
      exact absurd hkeys.symm (List.append_ne_nil_of_right_ne_nil before (List.cons_ne_nil key rest))
    exact ⟨nofun, fun h => absurd h hnone⟩
  | cons key keys ih =>
    rw [confirmKeys_cons, answers_cons]
    cases answer? key with
    | none => simp [ih]
    | some given => simp [eq_comm]

/-- The question whether to write over a file, which is only put where there is one and that is not forced. -/
private theorem mayWrite_cases (tree : FileTree) (path : Path) (force : Bool) (terminal : Terminal) :
    (∃ left, mayWrite tree path force terminal = pure (true, left) ∧ Agreed tree path force terminal left) ∨
      tree.pathExists path = true ∧ force = false ∧
        ((∃ keys rest, mayWrite tree path force terminal = pure (false, .typed rest) ∧ terminal = .typed keys ∧
            Answers false keys rest) ∨
          ∃ e, mayWrite tree path force terminal = Traced.fail e.report ∧ terminal.confirm = .error e) := by
  by_cases hasks : tree.pathExists path = true ∧ force = false
  · have hmay : mayWrite tree path force terminal = answered terminal.confirm := by
      rw [mayWrite, hasks.1, hasks.2]
      rfl
    rw [hmay]
    cases terminal with
    | absent => exact .inr ⟨hasks.1, hasks.2, .inr ⟨.noTerminal, rfl, rfl⟩⟩
    | typed keys =>
      rcases hkeys : Terminal.confirmKeys keys with e | ⟨answer, rest⟩
      · have hconfirm : (Terminal.typed keys).confirm = .error e := by
          rw [Terminal.confirm, Terminal.ask, hkeys]
          rfl
        rw [hconfirm]
        exact .inr ⟨hasks.1, hasks.2, .inr ⟨e, rfl, rfl⟩⟩
      · have hconfirm : (Terminal.typed keys).confirm = .ok (answer, .typed rest) := by
          rw [Terminal.confirm, Terminal.ask, hkeys]
          rfl
        have hanswers := confirmKeys_ok_iff.mp hkeys
        rw [hconfirm]
        cases answer with
        | false => exact .inr ⟨hasks.1, hasks.2, .inl ⟨keys, rest, rfl, rfl, hanswers⟩⟩
        | true =>
          refine .inl ⟨.typed rest, rfl, ?_⟩
          rw [Agreed, if_pos hasks]
          exact ⟨keys, rest, rfl, rfl, hanswers⟩
  · have hmay : (tree.pathExists path && !force) = false := by
      cases hexists : tree.pathExists path with
      | false => rfl
      | true =>
        have hforce : force = true := eq_true_of_ne_false fun hforce => hasks ⟨hexists, hforce⟩
        rw [hforce]
        rfl
    refine .inl ⟨terminal, ?_, ?_⟩
    · rw [mayWrite, hmay]
      rfl
    · rw [Agreed, if_neg hasks]

private theorem projectName_cases (c : Settings.Choices) (terminal : Terminal) :
    (∃ name, projectName c terminal = pure name ∧ Named c.projectName terminal name) ∨
      ∃ e, projectName c terminal = Traced.fail e.report ∧ c.projectName = none ∧
        terminal.line "generated-api" = .error e := by
  rw [projectName]
  cases hgiven : c.projectName with
  | some name => exact .inl ⟨name, rfl, rfl⟩
  | none =>
    rcases hline : terminal.line "generated-api" with e | ⟨name, left⟩
    · exact .inr ⟨e, rfl, rfl, rfl⟩
    · exact .inl ⟨name, rfl, left, hline⟩

/-! ## Runs -/

private theorem ofChoices_named (c : Settings.Choices) (name : String) :
    Settings.ofChoices { c with projectName := some name } = merged c name :=
  rfl

private theorem save_error {s : Settings} {e : Error} (h : s.save tree path = .error e) : ∃ cause, e = .file cause := by
  rw [Settings.save] at h
  cases hwrite : tree.write path (Text.encode s.write) with
  | error cause =>
    rw [hwrite] at h
    exact ⟨cause, (Except.error.inj h).symm⟩
  | ok after =>
    rw [hwrite] at h
    cases h

private theorem run_saved {s : Settings} {after : FileTree} {shown : List Output}
    (h : settings tree path o terminal = ⟨shown, .ok (some s)⟩) (hsave : s.save tree path = .ok after) :
    run tree path o terminal = ⟨shown ++ writing path :: (summary s).trace, .ok after⟩ := by
  simp only [run, h, Traced.bind_eq, Traced.andThen_ok, hsave]
  rfl

private theorem run_unsaved {s : Settings} {e : Error} {shown : List Output}
    (h : settings tree path o terminal = ⟨shown, .ok (some s)⟩) (hsave : s.save tree path = .error e) :
    run tree path o terminal = ⟨shown ++ [writing path], .error (Report.ofError e)⟩ := by
  simp only [run, h, Traced.bind_eq, Traced.andThen_ok, hsave]
  rfl

/-- A run of the command for settings ends in one of the ways an ending can be. -/
theorem run_ending (codec : Codec) (tree : FileTree) (path : Path) (o : InitOptions) (terminal : Terminal)
    (verbosity : Nat) :
    Ending tree path o terminal (Invocation.run codec tree terminal ⟨.init o, path, verbosity⟩) := by
  rw [Invocation.run]
  rcases mayWrite_cases tree path o.force terminal with ⟨left, hmay, hagreed⟩ |
    ⟨hexists, hforce, ⟨keys, rest, hmay, hkeys, hanswers⟩ | ⟨e, hmay, hconfirm⟩⟩
  · rcases projectName_cases o.choices left with ⟨name, hname, hnamed⟩ | ⟨e, hname, hnone, hline⟩
    · have hsettings : settings tree path o terminal = ⟨[opening],
          ((merged o.choices name).validate.mapError Report.ofError).map fun _ => some (merged o.choices name)⟩ := by
        simp only [settings, hmay, pure_bind, if_true, hname, ofChoices_named]
        cases (merged o.choices name).validate with
        | error e => rfl
        | ok _ => rfl
      rcases hproblem : (merged o.choices name).problem? with _ | problem
      · have hvalid : (merged o.choices name).validate = .ok () := by rw [Settings.validate, hproblem]
        rw [hvalid] at hsettings
        rcases hsave : (merged o.choices name).save tree path with e | after
        · obtain ⟨cause, rfl⟩ := save_error hsave
          simp only [run_unsaved hsettings hsave]
          exact .unsaved hagreed hnamed hproblem hsave
        · simp only [run_saved hsettings hsave]
          exact .written hagreed hnamed hproblem hsave
      · have hinvalid : (merged o.choices name).validate = .error (.invalidSettings problem) := by
          rw [Settings.validate, hproblem]
        rw [hinvalid] at hsettings
        simp only [run, hsettings]
        exact .invalid hagreed hnamed hproblem
    · simp only [run, settings, hmay, hname, pure_bind, if_true]
      exact .unnamed hagreed hnone hline
  · simp only [run, settings, hmay, pure_bind]
    exact .declined hexists hforce hkeys hanswers
  · simp only [run, settings, hmay]
    exact .unasked hexists hforce hconfirm

/-- The file is written: that is shown, and the run does not fail. -/
def Wrote (path : Path) (r : Run) : Prop :=
  writing path ∈ r.output ∧ r.failure = none

private theorem writing_not_opening (path : Path) : writing path ∉ [opening] := by
  simp [writing, opening]

theorem Ending.of_wrote {r : Run} (h : Ending tree path o terminal r) (hwrote : Wrote path r) :
    ∃ left name, Agreed tree path o.force terminal left ∧ Named o.choices.projectName left name ∧
      (merged o.choices name).problem? = none ∧ (merged o.choices name).save tree path = .ok r.tree := by
  obtain ⟨hshown, hended⟩ := hwrote
  cases h with
  | unasked | unnamed | invalid | unsaved => cases hended
  | declined => exact absurd hshown (by simp [writing, opening])
  | written hagreed hnamed hproblem hsave => exact ⟨_, _, hagreed, hnamed, hproblem, hsave⟩

theorem Agreed.unique {force : Bool} {other : Terminal} (h : Agreed tree path force terminal left)
    (h' : Agreed tree path force terminal other) : other = left := by
  by_cases hasks : tree.pathExists path = true ∧ force = false
  · rw [Agreed, if_pos hasks] at h h'
    obtain ⟨keys, rest, hkeys, rfl, hanswers⟩ := h
    obtain ⟨keys', rest', hkeys', rfl, hanswers'⟩ := h'
    cases hkeys.symm.trans hkeys'
    cases (confirmKeys_ok_iff.mpr hanswers).symm.trans (confirmKeys_ok_iff.mpr hanswers')
    rfl
  · rw [Agreed, if_neg hasks] at h h'
    rw [h, h']

theorem Named.unique {given : Option String} {name other : String} (h : Named given left name)
    (h' : Named given left other) : other = name := by
  cases given with
  | some text => exact Eq.trans h' (Eq.symm h)
  | none =>
    obtain ⟨rest, hline⟩ := h
    obtain ⟨rest', hline'⟩ := h'
    cases hline.symm.trans hline'
    rfl

/-- A run writes just when it may, there is a name, the settings have no problem, and they can be saved. -/
theorem wrote_iff (codec : Codec) (verbosity : Nat) :
    Wrote path (Invocation.run codec tree terminal ⟨.init o, path, verbosity⟩) ↔
      ∃ left name after, Agreed tree path o.force terminal left ∧ Named o.choices.projectName left name ∧
        (merged o.choices name).problem? = none ∧ (merged o.choices name).save tree path = .ok after := by
  have hending := run_ending codec tree path o terminal verbosity
  constructor
  · intro hwrote
    obtain ⟨left, name, hagreed, hnamed, hproblem, hsave⟩ := hending.of_wrote hwrote
    exact ⟨left, name, _, hagreed, hnamed, hproblem, hsave⟩
  · intro h
    obtain ⟨left, name, after, hagreed, hnamed, hproblem, hsave⟩ := h
    generalize Invocation.run codec tree terminal ⟨.init o, path, verbosity⟩ = r at hending
    cases hending with
    | unasked hexists hforce hconfirm =>
      rw [Agreed, if_pos ⟨hexists, hforce⟩] at hagreed
      obtain ⟨keys, rest, rfl, -, hanswers⟩ := hagreed
      rw [Terminal.confirm, Terminal.ask, confirmKeys_ok_iff.mpr hanswers] at hconfirm
      cases hconfirm
    | declined hexists hforce hkeys hno =>
      rw [Agreed, if_pos ⟨hexists, hforce⟩] at hagreed
      obtain ⟨keys, rest, rfl, -, hyes⟩ := hagreed
      cases hkeys
      cases (confirmKeys_ok_iff.mpr hyes).symm.trans (confirmKeys_ok_iff.mpr hno)
    | unnamed hagreed' hnone hline =>
      cases hagreed.unique hagreed'
      rw [hnone] at hnamed
      obtain ⟨rest, hnamed⟩ := hnamed
      cases hline.symm.trans hnamed
    | invalid hagreed' hnamed' hproblem' =>
      cases hagreed.unique hagreed'
      cases hnamed.unique hnamed'
      cases hproblem.symm.trans hproblem'
    | unsaved hagreed' hnamed' _ hsave' =>
      cases hagreed.unique hagreed'
      cases hnamed.unique hnamed'
      cases hsave.symm.trans hsave'
    | written => exact ⟨by simp, rfl⟩

theorem Ending.tree_of_not_wrote {r : Run} (h : Ending tree path o terminal r) (hwrote : ¬Wrote path r) :
    r.tree = tree := by
  cases h with
  | written => exact absurd ⟨by simp, rfl⟩ hwrote
  | unasked | declined | unnamed | invalid | unsaved => rfl

/-- A run that fails leaves the tree as it was. Where a question or the settings end it, it has not turned to the file
yet. -/
theorem Ending.of_failed {r : Run} {report : Report} (h : Ending tree path o terminal r)
    (hfailed : r.failure = some report) :
    r.tree = tree ∧
      (writing path ∉ r.output ∧
          ((∃ e : NoAnswer, report = e.report) ∨ ∃ problem, report = Report.ofError (.invalidSettings problem)) ∨
        writing path ∈ r.output ∧ ∃ cause, report = Report.ofError (.file cause)) := by
  cases h with
  | @unasked e =>
    cases hfailed
    exact ⟨rfl, .inl ⟨writing_not_opening path, .inl ⟨e, rfl⟩⟩⟩
  | declined => cases hfailed
  | @unnamed _ e =>
    cases hfailed
    exact ⟨rfl, .inl ⟨writing_not_opening path, .inl ⟨e, rfl⟩⟩⟩
  | @invalid _ _ problem =>
    cases hfailed
    exact ⟨rfl, .inl ⟨writing_not_opening path, .inr ⟨problem, rfl⟩⟩⟩
  | @unsaved _ _ cause =>
    cases hfailed
    exact ⟨rfl, .inr ⟨List.mem_cons_of_mem _ List.mem_cons_self, cause, rfl⟩⟩
  | written => cases hfailed

/-- A file is only ever written over, without being forced, after the question whether to is answered with yes. No run
that fails changes the tree; one that fails at a question or for its settings does so before it turns to the file. A
run that writes leaves a file that is loaded as the settings it was to write, and these are valid; all other runs leave
the tree as it was. And a run does write where it may, there is a name, and the settings have no problem and can be
saved. -/
theorem run_writes (codec : Codec) (path : Path) (o : InitOptions) (terminal : Terminal) (verbosity : Nat)
    (hroot : tree.Rooted) :
    let r := Invocation.run codec tree terminal ⟨.init o, path, verbosity⟩
    (tree.pathExists path = true → o.force = false → r.tree ≠ tree →
      ∃ keys rest, terminal = .typed keys ∧ Answers true keys rest) ∧
    (∀ report, r.failure = some report → r.tree = tree ∧
      (writing path ∉ r.output ∧
          ((∃ e : NoAnswer, report = e.report) ∨ ∃ problem, report = Report.ofError (.invalidSettings problem)) ∨
        writing path ∈ r.output ∧ ∃ cause, report = Report.ofError (.file cause))) ∧
    (Wrote path r → ∃ left name, Agreed tree path o.force terminal left ∧ Named o.choices.projectName left name ∧
      Settings.load r.tree path = .ok (merged o.choices name) ∧ (merged o.choices name).validate = .ok ()) ∧
    (¬Wrote path r → r.tree = tree) ∧
    ∀ left name after, Agreed tree path o.force terminal left → Named o.choices.projectName left name →
      (merged o.choices name).validate = .ok () → (merged o.choices name).save tree path = .ok after →
        Wrote path r := by
  intro r
  have hending : Ending tree path o terminal r := run_ending codec tree path o terminal verbosity
  refine ⟨?_, ?_, ?_, hending.tree_of_not_wrote, ?_⟩
  · intro hexists hforce hchanged
    have hwrote : Wrote path r := by
      by_contra hnot
      exact hchanged (hending.tree_of_not_wrote hnot)
    obtain ⟨left, name, hagreed, -⟩ := hending.of_wrote hwrote
    rw [Agreed, if_pos ⟨hexists, hforce⟩] at hagreed
    obtain ⟨keys, rest, hkeys, -, hanswers⟩ := hagreed
    exact ⟨keys, rest, hkeys, hanswers⟩
  · exact fun report hreport => hending.of_failed hreport
  · intro hwrote
    obtain ⟨left, name, hagreed, hnamed, hproblem, hsave⟩ := hending.of_wrote hwrote
    exact ⟨left, name, hagreed, hnamed, Settings.save_load hroot hsave, Layout.validate_ok_iff.mpr hproblem⟩
  · intro left name after hagreed hnamed hvalid hsave
    exact (wrote_iff codec verbosity).mpr ⟨left, name, after, hagreed, hnamed, Layout.validate_ok_iff.mp hvalid, hsave⟩

/-- A directory with an empty file of settings. -/
def oldTree : FileTree :=
  ⟨.dir [(Path.ofString "s.json", .file [])], []⟩

/-- A key that does not count, a yes, and then the name. -/
theorem run_writes_typed :
    let r := Invocation.run Codec.stored oldTree (.typed ['x', 'Y', 'a', '\r'])
      ⟨.init ⟨{}, false⟩, Path.ofString "s.json", 0⟩
    oldTree.Rooted ∧ oldTree.read (Path.ofString "s.json") = .ok [] ∧
      Settings.load r.tree (Path.ofString "s.json") = .ok { projectName := "a", artifactId := "a" } := by
  intro r
  have hroot : oldTree.Rooted := rfl
  have hlocate : oldTree.locate true (Path.ofString "s.json")
      = .ok (.entry [] (Path.ofString "s.json") (some (.file [])) false) :=
    FileTree.locate_ok_iff.mpr ⟨by decide, .file ⟨by decide, by decide, by decide⟩ rfl⟩
  have hexists : oldTree.pathExists (Path.ofString "s.json") = true := by
    rw [FileTree.pathExists, FileTree.find_ok_iff.mpr (.inr ⟨_, _, hlocate⟩)]
    rfl
  have hanswers : Answers true ['x', 'Y', 'a', '\r'] ['a', '\r'] :=
    ⟨['x'], 'Y', rfl, rfl, List.forall_mem_singleton.mpr rfl⟩
  have hagreed : Agreed oldTree (Path.ofString "s.json") false (.typed ['x', 'Y', 'a', '\r'])
      (.typed ['a', '\r']) := by
    rw [Agreed, if_pos ⟨hexists, rfl⟩]
    exact ⟨_, _, rfl, rfl, hanswers⟩
  have hnamed : Named none (.typed ['a', '\r']) "a" := ⟨.typed [], rfl⟩
  have hsave : (merged {} "a").save oldTree (Path.ofString "s.json")
      = .ok ⟨.dir [(Path.ofString "s.json", .file (Text.encode (merged {} "a").write))], []⟩ := by
    rw [Settings.save, FileTree.write_ok_iff.mpr ⟨_, _, _, hlocate, rfl⟩]
    rfl
  have hwrote : Wrote (Path.ofString "s.json") r :=
    (wrote_iff Codec.stored 0).mpr ⟨_, "a", _, hagreed, hnamed, by decide, hsave⟩
  obtain ⟨-, -, hwritten, -⟩ := run_writes Codec.stored (Path.ofString "s.json") ⟨{}, false⟩
    (.typed ['x', 'Y', 'a', '\r']) 0 hroot
  obtain ⟨left, name, hagreed', hnamed', hload, -⟩ := hwritten hwrote
  cases hagreed.unique hagreed'
  cases hnamed.unique hnamed'
  exact ⟨hroot, (FileTree.read_ok_iff hroot).mpr ⟨_, _, hlocate⟩, hload⟩

end Scaffold.CommandLine.Init
