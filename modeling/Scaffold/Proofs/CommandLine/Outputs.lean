import Scaffold.Proofs.CommandLine.Making
import Scaffold.Proofs.Pipeline.Assembled

/-!
# What a run leaves behind

A run that fails leaves the output as it was, unless only the log was left to write: then the archive is
there already. A run that succeeds leaves the archive and the log, and no other file is touched.
-/

namespace Scaffold

namespace FileTree

variable {path : Path}

private theorem locate_name {tree : FileTree} {follow : Bool} {path : Path} {spot : Spot}
    (hpath : (0 ∉ path ∧ path ≠ [] ∧ path.length ≤ maxPath) ∧ path.isAbsolute = false ∧ path.names = [path] ∧
      path.endsInSeparator = false)
    (hwalks : Walks tree.root follow maxLinks tree.cwd.reverse [path] false spot) :
    tree.locate follow path = .ok spot := by
  obtain ⟨hpath, hrelative, hnames, hend⟩ := hpath
  rw [locate_ok_iff, hrelative, hnames, hend]
  exact ⟨hpath, hwalks⟩

private theorem find_missing {tree : FileTree} {parent : List Bytes} {name : Bytes} {slash : Bool}
    (h : tree.locate true path = .ok (.entry parent name none slash)) : tree.find path = .error .notFound := by
  rw [find, h]
  rfl

end FileTree

namespace CommandLine.Generate

variable {codec : Codec} {tree grown archived after : FileTree} {path : Path} {o : GenerateOptions} {made : Made}

/-! ## Runs -/

private theorem run_of_make_failed {r : Report} (h : (make codec tree path o).result = .error r) :
    run codec tree path o = (tree, ⟨(make codec tree path o).trace, .error r⟩) := by
  rw [run]
  simp only [h]

private theorem run_of_make (h : (make codec tree path o).result = .ok made) :
    (run codec tree path o).1 = (write tree made o).1 ∧ (run codec tree path o).2.result = (write tree made o).2 := by
  rw [run]
  simp only [h]
  rcases write tree made o with ⟨after, _ | _⟩
  · exact ⟨rfl, rfl⟩
  · exact ⟨rfl, rfl⟩

private theorem run_trace (h : (make codec tree path o).result = .ok made)
    (hwrite : (write tree made o).2 = .ok ()) :
    ∃ before, (run codec tree path o).2.trace = before ++ summary made.project := by
  rw [run]
  simp only [h]
  rcases hresult : write tree made o with ⟨after, _ | _⟩
  · rw [hresult] at hwrite
    cases hwrite
  · exact ⟨_, rfl⟩

/-! ## Updates without sources -/

/-- Options that ask for an update without sources, with a log. -/
def updating (output logFile : String) : GenerateOptions :=
  { output := Path.ofString output, overrides := { updateOnly := true }, logFile := some (Path.ofString logFile) }

/-- The command line of an update without sources. -/
def update (output logFile : String) : Invocation :=
  ⟨.generate (updating output logFile), Path.ofString defaultSettingsFile, 0⟩

/-- What an update without sources makes. -/
def nothingMade (codec : Codec) : Made :=
  ⟨⟨Zip.archive codec [], []⟩, ⟨["Generating JAX-RS interfaces and beans"]⟩⟩

private theorem attempt_updating (codec : Codec) (tree : FileTree) (output logFile : String) :
    (attempt codec tree (updating output logFile) { updateOnly := true } none).Yields (nothingMade codec).project
      (nothingMade codec).log.lines := by
  have hassembled : Layout.Assembled .quarkus Sources.empty
      ⟨{ updateOnly := true }, Bundled.store .quarkus, none⟩ [] := ⟨[], [], [], rfl, rfl, rfl, rfl⟩
  have hsettings : ({ updateOnly := true } : Settings).problem? = none := by decide
  exact Pipeline.generate_of_gives hsettings (Layout.gives_iff_assembled.mpr ⟨hassembled, rfl⟩) nofun List.nodup_nil

private theorem given_updating (output logFile : String) (hsettings : tree.find path = .error .notFound) :
    Given tree path (updating output logFile) { updateOnly := true } none := by
  refine ⟨?_, rfl⟩
  rw [updating, Settings.resolve, FileTree.pathExists, hsettings]
  rfl

private theorem make_updating (codec : Codec) {output : String} (logFile : String)
    (houtput : tree.find (Path.ofString output) = .error .notFound) (hsettings : tree.find path = .error .notFound) :
    (make codec tree path (updating output logFile)).result = .ok (nothingMade codec) := by
  obtain ⟨hresult, hlines⟩ := attempt_updating codec tree output logFile
  refine make_ok_iff.mpr ⟨?_, _, _, given_updating output logFile hsettings, hresult, congrArg Log.mk hlines.symm⟩
  rw [updating, FileTree.pathExists, houtput]
  rfl

/-! ## Failures -/

/-- The archive of a run was written, where it had not been before, and then its log could not be. -/
def LogLost (codec : Codec) (tree : FileTree) (path : Path) (o : GenerateOptions) : Prop :=
  ∃ made grown archived file e, (make codec tree path o).result = .ok made ∧
    makeParent tree o.output = (grown, .ok ()) ∧ grown.write o.output made.project.archive = .ok archived ∧
    o.logFile = some file ∧ archived.write file (Text.encode made.log.render) = .error e ∧
    tree.read o.output ≠ .ok made.project.archive

private theorem read_same_of_unread (h : tree.Rooted) (hparent : (makeParent tree o.output).1 = after)
    (hafter : ∀ content, after.read o.output ≠ .ok content) (content : Bytes) :
    after.read o.output = .ok content ↔ tree.read o.output = .ok content := by
  constructor
  · intro hread
    exact absurd hread (hafter content)
  · intro hread
    obtain ⟨parent, name, hlocate⟩ := (FileTree.read_ok_iff h).mp hread
    rw [makeParent_of_located h hlocate] at hparent
    exact absurd (hparent ▸ hread) (hafter content)

private theorem unread_of_parent_failed {r : Report} (h : tree.Rooted)
    (hparent : makeParent tree o.output = (after, .error r)) (content : Bytes) : after.read o.output ≠ .ok content := by
  intro hread
  obtain ⟨dirs, -, hgrown⟩ := makeParent_grown h o.output
  have hfail := makeParent_failed h (congrArg Prod.snd hparent)
  rw [hparent] at hgrown hfail
  obtain ⟨parent, name, hlocate⟩ := (FileTree.read_ok_iff (hgrown.rooted h)).mp hread
  exact hfail _ hlocate

private theorem unread_of_archive_failed {e : FileError} {archive : Bytes} (h : tree.Rooted)
    (hparent : makeParent tree o.output = (after, .ok ())) (harchive : after.write o.output archive = .error e)
    (content : Bytes) : after.read o.output ≠ .ok content := by
  intro hread
  obtain ⟨dirs, -, hgrown⟩ := makeParent_grown h o.output
  rw [hparent] at hgrown
  obtain ⟨new, hnew⟩ := FileTree.write_of_read (hgrown.rooted h) hread archive
  cases hnew.symm.trans harchive

private theorem read_archived (h : tree.Rooted) (hparent : makeParent tree o.output = (grown, .ok ()))
    (harchive : grown.write o.output made.project.archive = .ok archived) :
    archived.read o.output = .ok made.project.archive := by
  obtain ⟨dirs, -, hgrown⟩ := makeParent_grown h o.output
  rw [hparent] at hgrown
  exact FileTree.read_write (hgrown.rooted h) harchive

end CommandLine.Generate

namespace CommandLine

open Generate

variable {codec : Codec} {tree : FileTree} {terminal : Terminal} {i : Invocation} {o : GenerateOptions}

private theorem run_of_made {made : Made} (hcommand : i.command = .generate o)
    (hmake : (make codec tree i.settingsFile o).result = .ok made) :
    (i.run codec tree terminal).tree = (write tree made o).1 ∧
      (i.run codec tree terminal).failure = failureOf (write tree made o).2 := by
  obtain ⟨htree, hresult⟩ := run_of_make hmake
  rw [run_generate hcommand]
  exact ⟨htree, congrArg failureOf hresult⟩

/-- Where a run fails, the output is as it was before it, and this wherever it fails but for one case: only the log was
left to write. Then the archive is at the output. -/
theorem failed_run_output (codec : Codec) (tree : FileTree) (terminal : Terminal) (i : Invocation)
    (o : GenerateOptions) (hcommand : i.command = .generate o) (hroot : tree.Rooted)
    (hfail : (i.run codec tree terminal).failure ≠ none) :
    ((∀ content, (i.run codec tree terminal).tree.read o.output = .ok content ↔ tree.read o.output = .ok content) ↔
      ¬LogLost codec tree i.settingsFile o) ∧
    (LogLost codec tree i.settingsFile o → ∃ made, (make codec tree i.settingsFile o).result = .ok made ∧
      (i.run codec tree terminal).tree.read o.output = .ok made.project.archive) := by
  rw [run_generate hcommand] at hfail ⊢
  simp only at hfail ⊢
  rcases hmake : (make codec tree i.settingsFile o).result with r | made
  · rw [run_of_make_failed hmake]
    have hnot : ¬LogLost codec tree i.settingsFile o := by
      intro h
      obtain ⟨made, _, _, _, _, hmade, _⟩ := h
      cases hmake.symm.trans hmade
    exact ⟨⟨fun _ => hnot, fun _ content => Iff.rfl⟩, fun h => absurd h hnot⟩
  · obtain ⟨htree, hresult⟩ := run_of_make hmake
    rw [hresult] at hfail
    rw [htree]
    rcases hwrite : write tree made o with ⟨after, r | _⟩
    · rcases write_failed hwrite with hparent | ⟨hparent, e, harchive, -⟩ |
        ⟨grown, file, e, hparent, harchive, hfile, hlog, -⟩
      · have hnot : ¬LogLost codec tree i.settingsFile o := by
          intro h
          obtain ⟨_, _, _, _, _, _, hparent', _⟩ := h
          cases hparent.symm.trans hparent'
        have hunread := unread_of_parent_failed hroot hparent
        have hsame := read_same_of_unread hroot (congrArg Prod.fst hparent) hunread
        exact ⟨⟨fun _ => hnot, fun _ => hsame⟩, fun h => absurd h hnot⟩
      · have hnot : ¬LogLost codec tree i.settingsFile o := by
          intro h
          obtain ⟨made', grown, archived, _, _, hmade, hparent', harchive', _⟩ := h
          cases hmake.symm.trans hmade
          cases hparent.symm.trans hparent'
          cases harchive.symm.trans harchive'
        have hunread := unread_of_archive_failed hroot hparent harchive
        have hsame := read_same_of_unread hroot (congrArg Prod.fst hparent) hunread
        exact ⟨⟨fun _ => hnot, fun _ => hsame⟩, fun h => absurd h hnot⟩
      · have hread := read_archived hroot hparent harchive
        have hlost : LogLost codec tree i.settingsFile o ↔ tree.read o.output ≠ .ok made.project.archive := by
          constructor
          · intro h
            obtain ⟨made', _, _, _, _, hmade, _, _, _, _, hbefore⟩ := h
            cases hmake.symm.trans hmade
            exact hbefore
          · exact fun hbefore => ⟨made, grown, after, file, e, hmake, hparent, harchive, hfile, hlog, hbefore⟩
        refine ⟨?_, fun _ => ⟨made, rfl, hread⟩⟩
        rw [hlost, Classical.not_not]
        constructor
        · exact fun hsame => (hsame _).mp hread
        · intro hbefore content
          rw [hread, hbefore]
    · rw [hwrite] at hfail
      exact absurd rfl hfail

/-- A directory where a directory stands at the path of a log. -/
def logsTree : FileTree :=
  ⟨.dir [(Path.ofString "logs", .dir [])], []⟩

private theorem logsTree_lost :
    (∀ content, logsTree.read (Path.ofString "p.zip") ≠ .ok content) ∧
      LogLost Codec.stored logsTree (Path.ofString defaultSettingsFile) (updating "p.zip" "logs") ∧
      ((update "p.zip" "logs").run Codec.stored logsTree .absent).failure ≠ none ∧
      ((update "p.zip" "logs").run Codec.stored logsTree .absent).tree.read (Path.ofString "p.zip")
        = .ok (Zip.archive Codec.stored []) := by
  have hroot : logsTree.Rooted := rfl
  have hplain : FileTree.Plain (Path.ofString "p.zip") := ⟨by decide, by decide, by decide⟩
  have hsettingsPlain : FileTree.Plain (Path.ofString defaultSettingsFile) := ⟨by decide, by decide, by decide⟩
  have hlogsPlain : FileTree.Plain (Path.ofString "logs") := ⟨by decide, by decide, by decide⟩
  have hlocate : logsTree.locate true (Path.ofString "p.zip") = .ok (.entry [] (Path.ofString "p.zip") none false) :=
    FileTree.locate_name (by decide) (.missing hplain rfl)
  have hsettings : logsTree.locate true (Path.ofString defaultSettingsFile)
      = .ok (.entry [] (Path.ofString defaultSettingsFile) none false) :=
    FileTree.locate_name (by decide) (.missing hsettingsPlain rfl)
  have hfind := FileTree.find_missing hlocate
  have hmake := make_updating Codec.stored "logs" hfind (FileTree.find_missing hsettings)
  have hparent : makeParent logsTree (Path.ofString "p.zip") = (logsTree, .ok ()) := rfl
  let archived : FileTree :=
    ⟨.dir [(Path.ofString "logs", .dir []), (Path.ofString "p.zip", .file (Zip.archive Codec.stored []))], []⟩
  have harchive : logsTree.write (Path.ofString "p.zip") (Zip.archive Codec.stored []) = .ok archived :=
    FileTree.write_ok_iff.mpr ⟨_, _, _, hlocate, rfl⟩
  have hlogs : archived.locate true (Path.ofString "logs") = .ok (.dir [Path.ofString "logs"]) :=
    FileTree.locate_name (by decide) (.dir hlogsPlain rfl .done)
  have hlog (text : Bytes) : archived.write (Path.ofString "logs") text = .error .isDirectory := by
    have hend : (!Path.endsInSeparator (Path.ofString "logs")) = true := by decide
    rw [FileTree.write, hend, hlogs]
    rfl
  have hunread (content : Bytes) : logsTree.read (Path.ofString "p.zip") ≠ .ok content := by
    rw [FileTree.read, hfind]
    intro hread
    cases hread
  have hfailed : ∃ r, write logsTree (nothingMade Codec.stored) (updating "p.zip" "logs") = (archived, .error r) :=
    write_log_failed hparent harchive rfl (hlog _)
  obtain ⟨r, hwrite⟩ := hfailed
  obtain ⟨htree, hfailure⟩ := run_of_made (i := update "p.zip" "logs") rfl hmake
  refine ⟨hunread, ⟨_, _, _, _, _, hmake, hparent, harchive, rfl, hlog _, hunread _⟩, ?_, ?_⟩
  · rw [hfailure, hwrite]
    intro hnone
    cases hnone
  · rw [htree, hwrite]
    exact FileTree.read_write hroot harchive

/-- The log of a run is asked for where there is a directory. -/
theorem failed_run_output_logs :
    (update "p.zip" "logs").command = .generate (updating "p.zip" "logs") ∧ logsTree.Rooted ∧
      ((update "p.zip" "logs").run Codec.stored logsTree .absent).failure ≠ none ∧
      ∃ content, ((update "p.zip" "logs").run Codec.stored logsTree .absent).tree.read (Path.ofString "p.zip")
        = .ok content := by
  obtain ⟨-, hlost, hfail, -⟩ := logsTree_lost
  obtain ⟨-, hthere⟩ := failed_run_output Codec.stored logsTree .absent (update "p.zip" "logs")
    (updating "p.zip" "logs") rfl rfl hfail
  obtain ⟨made, -, hread⟩ := hthere hlost
  exact ⟨rfl, rfl, hfail, _, hread⟩

/-- A failed run leaves a new file at its output. -/
theorem failed_run_leaves_archive :
    ¬∀ (codec : Codec) (tree : FileTree) (terminal : Terminal) (i : Invocation) (o : GenerateOptions),
      i.command = .generate o → tree.Rooted → (i.run codec tree terminal).failure ≠ none →
        ∀ content, (i.run codec tree terminal).tree.read o.output = .ok content ↔ tree.read o.output = .ok content := by
  intro h
  obtain ⟨hunread, -, hfail, hread⟩ := logsTree_lost
  have hsame := h Codec.stored logsTree .absent (update "p.zip" "logs") (updating "p.zip" "logs") rfl rfl hfail
  exact hunread _ ((hsame _).mp hread)

/-! ## Successes -/

private theorem written_log {grown archived after : FileTree} {made : Made}
    (h : Written tree made o grown archived after) (hroot : archived.Rooted) :
    after.cwd = archived.cwd ∧ archived.root.Extends after.root ∧
      (∀ other, (∀ file, o.logFile = some file → ¬after.LeadsTo file other) →
        after.root.viewAt? other = archived.root.viewAt? other) ∧
      ∀ file, o.logFile = some file → ∃ place, after.LeadsTo file place ∧
        after.root.viewAt? place = some (.file (Text.encode made.log.render)) := by
  have hlog := h.log
  rcases hlogFile : o.logFile with _ | file
  · simp only [hlogFile] at hlog
    rw [hlog]
    exact ⟨rfl, FileTree.Grown.refl archived [] |>.larger, fun _ _ => rfl, nofun⟩
  · simp only [hlogFile] at hlog
    obtain ⟨place, hplaced, hleads⟩ := FileTree.write_placed hroot hlog
    refine ⟨hplaced.cwd, hplaced.larger, ?_, ?_⟩
    · intro other hother
      have hne : other ≠ place := by
        rintro rfl
        exact hother file rfl hleads
      rw [hplaced.view, if_neg hne]
    · intro other hother
      cases hother
      exact ⟨place, hleads, by rw [hplaced.view, if_pos rfl]⟩

/-- Where a run succeeds, the file that the output leads to holds the archive, the file that the log leads to holds the
log, and what is shown at the end is the size and the digest of the archive. Where both lead to one file, it holds the
log. Every other file is as it was, and all new directories are above the output. -/
theorem successful_run_files (codec : Codec) (tree : FileTree) (terminal : Terminal) (i : Invocation)
    (o : GenerateOptions) (hcommand : i.command = .generate o) (hroot : tree.Rooted)
    (hok : (i.run codec tree terminal).failure = none) :
    let after := (i.run codec tree terminal).tree
    ∃ s document project place, Given tree i.settingsFile o s document ∧
      (attempt codec tree o s document).result = .ok project ∧
      let log := Text.encode (attempt codec tree o s document).log.render
      after.LeadsTo o.output place ∧
      ((∀ file, o.logFile = some file → ¬after.LeadsTo file place) → after.read o.output = .ok project.archive) ∧
      (∀ file, o.logFile = some file → after.read file = .ok log ∧
        (after.LeadsTo file place → after.read o.output = .ok log)) ∧
      (∃ before, (i.run codec tree terminal).output = before ++
        [.success "Project archive complete", .pair "Entries" (toString project.entries.length),
          .pair "Size" (Size.format project.archive.length), .pair "SHA-256" (Digest.sha256 project.archive)]) ∧
      after.cwd = tree.cwd ∧
      ∀ other, other ≠ place → (∀ file, o.logFile = some file → ¬after.LeadsTo file other) →
        after.root.viewAt? other = tree.root.viewAt? other ∨
          tree.root.viewAt? other = none ∧ after.root.viewAt? other = some .dir ∧
            ∃ dir, Path.Above dir o.output ∧ after.locate true dir = .ok (.dir other.reverse) := by
  rw [run_generate hcommand] at hok ⊢
  simp only at hok ⊢
  rcases hmake : (make codec tree i.settingsFile o).result with r | made
  · rw [run_of_make_failed hmake] at hok
    cases hok
  · obtain ⟨htree, hresult⟩ := run_of_make hmake
    rw [hresult] at hok
    rcases hwrite : write tree made o with ⟨after, r | _⟩
    · rw [hwrite] at hok
      cases hok
    · rw [htree, hwrite]
      obtain ⟨-, s, document, hgiven, hproject, hlog⟩ := make_ok_iff.mp hmake
      obtain ⟨grown, archived, hwritten⟩ := write_ok hwrite
      obtain ⟨dirs, hdirs, hgrown⟩ := makeParent_grown hroot o.output
      rw [hwritten.parent] at hgrown
      have hgrownRoot := hgrown.rooted hroot
      obtain ⟨place, hplaced, hleads⟩ := FileTree.write_placed hgrownRoot hwritten.archive
      have harchivedRoot := hplaced.rooted hgrownRoot
      obtain ⟨hcwd, hlarger, hview, hlogged⟩ := written_log hwritten harchivedRoot
      have hafterRoot := FileTree.rooted_larger hcwd hlarger harchivedRoot
      have hfile : archived.root.viewAt? place = some (.file made.project.archive) := by
        rw [hplaced.view, if_pos rfl]
      have hafterLeads := hleads.larger hcwd hlarger hfile
      refine ⟨s, document, made.project, place, hgiven, hproject, hafterLeads, ?_, ?_, ?_, ?_, ?_⟩
      · intro hother
        exact FileTree.read_of_leadsTo hafterRoot hafterLeads ((hview place hother).trans hfile)
      · intro file hlogFile
        obtain ⟨logPlace, hlogLeads, hlogView⟩ := hlogged file hlogFile
        rw [← hlog]
        refine ⟨FileTree.read_of_leadsTo hafterRoot hlogLeads hlogView, ?_⟩
        intro hsame
        rw [hlogLeads.unique hsame] at hlogView
        exact FileTree.read_of_leadsTo hafterRoot hafterLeads hlogView
      · exact run_trace hmake (congrArg Prod.snd hwrite)
      · exact hcwd.trans (hplaced.cwd.trans hgrown.cwd)
      · intro other hne hother
        have harchived : archived.root.viewAt? other = grown.root.viewAt? other := by
          rw [hplaced.view, if_neg hne]
        have hsame := (hview other hother).trans harchived
        rcases hgrown.view other with hold | ⟨hnone, hdir, dir, hmem, hlocate⟩
        · exact .inl (hsame.trans hold)
        · have hthen := FileTree.locate_larger hplaced.cwd hplaced.larger hlocate
          have hlast := FileTree.locate_larger hcwd hlarger hthen
          exact .inr ⟨hnone, hsame.trans hdir, dir, hdirs dir hmem, hlast⟩

/-- An empty directory. -/
def emptyTree : FileTree :=
  ⟨.dir [], []⟩

/-- The directory with the archive of an update without sources. -/
def archivedTree : FileTree :=
  ⟨.dir [(Path.ofString "p.zip", .file (Zip.archive Codec.stored []))], []⟩

private theorem emptyTree_missing (name : Path) (h : (0 ∉ name ∧ name ≠ [] ∧ name.length ≤ FileTree.maxPath) ∧
    name.isAbsolute = false ∧ name.names = [name] ∧ name.endsInSeparator = false) (hplain : FileTree.Plain name) :
    emptyTree.locate true name = .ok (.entry [] name none false) :=
  FileTree.locate_name h (.missing hplain rfl)

private theorem emptyTree_updated {logFile : String} {after : FileTree}
    (hlog : archivedTree.write (Path.ofString logFile) (Text.encode (nothingMade Codec.stored).log.render)
      = .ok after) :
    Given emptyTree (Path.ofString defaultSettingsFile) (updating "p.zip" logFile) { updateOnly := true } none ∧
      ((update "p.zip" logFile).run Codec.stored emptyTree .absent).failure = none ∧
      ((update "p.zip" logFile).run Codec.stored emptyTree .absent).tree = after := by
  have hlocate := emptyTree_missing (Path.ofString "p.zip") (by decide) ⟨by decide, by decide, by decide⟩
  have hsettings := FileTree.find_missing
    (emptyTree_missing (Path.ofString defaultSettingsFile) (by decide) ⟨by decide, by decide, by decide⟩)
  have hmake := make_updating Codec.stored logFile (FileTree.find_missing hlocate) hsettings
  have hparent : makeParent emptyTree (Path.ofString "p.zip") = (emptyTree, .ok ()) := rfl
  have harchive : emptyTree.write (Path.ofString "p.zip") (Zip.archive Codec.stored []) = .ok archivedTree :=
    FileTree.write_ok_iff.mpr ⟨_, _, _, hlocate, rfl⟩
  have hwrite : write emptyTree (nothingMade Codec.stored) (updating "p.zip" logFile) = (after, .ok ()) :=
    Written.write ⟨hparent, harchive, hlog⟩
  obtain ⟨htree, hfailure⟩ := run_of_made (i := update "p.zip" logFile) rfl hmake
  refine ⟨given_updating "p.zip" logFile hsettings, ?_, ?_⟩
  · rw [hfailure, hwrite]
    rfl
  · rw [htree, hwrite]

/-- An archive and its log, next to each other. -/
theorem successful_run_files_log :
    (update "p.zip" "g.log").command = .generate (updating "p.zip" "g.log") ∧ emptyTree.Rooted ∧
      ((update "p.zip" "g.log").run Codec.stored emptyTree .absent).failure = none ∧
      ∃ content, ((update "p.zip" "g.log").run Codec.stored emptyTree .absent).tree.read (Path.ofString "g.log")
        = .ok content := by
  have hplain : FileTree.Plain (Path.ofString "g.log") := ⟨by decide, by decide, by decide⟩
  have hlocate : archivedTree.locate true (Path.ofString "g.log")
      = .ok (.entry [] (Path.ofString "g.log") none false) :=
    FileTree.locate_name (by decide) (.missing hplain rfl)
  obtain ⟨-, hok, -⟩ := emptyTree_updated (FileTree.write_ok_iff.mpr ⟨_, _, _, hlocate, rfl⟩)
  obtain ⟨s, document, project, place, -, -, -, -, hlog, -⟩ := successful_run_files Codec.stored emptyTree .absent
    (update "p.zip" "g.log") (updating "p.zip" "g.log") rfl rfl hok
  exact ⟨rfl, rfl, hok, _, (hlog _ rfl).1⟩

/-- A log that is asked for at the output takes the place of the archive. -/
theorem successful_run_loses_archive :
    ¬∀ (codec : Codec) (tree : FileTree) (terminal : Terminal) (i : Invocation) (o : GenerateOptions),
      i.command = .generate o → tree.Rooted → (i.run codec tree terminal).failure = none →
        ∀ s document project, Given tree i.settingsFile o s document →
          (attempt codec tree o s document).result = .ok project →
            (i.run codec tree terminal).tree.read o.output = .ok project.archive := by
  intro h
  have hplain : FileTree.Plain (Path.ofString "p.zip") := ⟨by decide, by decide, by decide⟩
  have hroot : archivedTree.Rooted := rfl
  have hlocate : archivedTree.locate true (Path.ofString "p.zip")
      = .ok (.entry [] (Path.ofString "p.zip") (some (.file (Zip.archive Codec.stored []))) false) :=
    FileTree.locate_name (by decide) (.file hplain rfl)
  have hlog : archivedTree.write (Path.ofString "p.zip") (Text.encode (nothingMade Codec.stored).log.render) = .ok _ :=
    FileTree.write_ok_iff.mpr ⟨_, _, _, hlocate, rfl⟩
  obtain ⟨hgiven, hok, htree⟩ := emptyTree_updated hlog
  have hread := h Codec.stored emptyTree .absent (update "p.zip" "p.zip") (updating "p.zip" "p.zip") rfl rfl hok _ _ _
    hgiven (attempt_updating Codec.stored emptyTree "p.zip" "p.zip").1
  rw [htree] at hread
  have hboth := (FileTree.read_write hroot hlog).symm.trans hread
  exact absurd (Except.ok.inj hboth) (by decide)

end CommandLine

end Scaffold
