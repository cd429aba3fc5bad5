import Scaffold.Proofs.CommandLine.Asking
import Scaffold.Proofs.CommandLine.Making
import Scaffold.Proofs.Files.Named
import Scaffold.Proofs.Project.Sources

/-!
# Sessions

Commands run one after another, each in the tree that the one before left. Whatever they are asked to do and however
they end, they keep the tree tidy, so what is known of the sources in a tidy tree holds for every command of a session.
-/

namespace Scaffold.CommandLine

variable {codec : Codec} {tree after : FileTree}

/-- Runs commands one after another, each with the terminal it is run at. -/
def session (codec : Codec) (tree : FileTree) : List (Invocation × Terminal) → List Run
  | [] => []
  | (i, terminal) :: rest =>
    let r := i.run codec tree terminal
    r :: session codec r.tree rest

/-! ## One command -/

private theorem makeParent_tidy (h : tree.Tidy) (output : Path) : (Generate.makeParent tree output).1.Tidy := by
  rw [Generate.makeParent]
  rcases output.parent? with _ | (_ | ⟨b, rest⟩)
  · exact h
  · exact h
  · exact h.makeDirs (b :: rest)

private theorem write_tidy {made : Generate.Made} {o : GenerateOptions} {result : Except Report Unit} (h : tree.Tidy)
    (hwrite : Generate.write tree made o = (after, result)) : after.Tidy := by
  have hparent := makeParent_tidy h o.output
  rcases result with r | _
  · rcases Generate.write_failed hwrite with hfailed | ⟨hfailed, -⟩ | ⟨grown, file, e, hgrown, harchive, -⟩
    · rwa [hfailed] at hparent
    · rwa [hfailed] at hparent
    · rw [hgrown] at hparent
      exact hparent.write harchive
  · obtain ⟨grown, archived, hwritten⟩ := Generate.write_ok hwrite
    rw [hwritten.parent] at hparent
    have harchived := hparent.write hwritten.archive
    have hlog := hwritten.log
    cases hfile : o.logFile with
    | none =>
      simp only [hfile] at hlog
      rwa [hlog]
    | some file =>
      simp only [hfile] at hlog
      exact harchived.write hlog

private theorem generate_tidy (h : tree.Tidy) (path : Path) (o : GenerateOptions) :
    (Generate.run codec tree path o).1.Tidy := by
  rw [Generate.run]
  rcases (Generate.make codec tree path o).result with r | made
  · exact h
  · rcases hwrite : Generate.write tree made o with ⟨after, r | _⟩
    · simp only [hwrite]
      exact write_tidy h hwrite
    · simp only [hwrite]
      exact write_tidy h hwrite

private theorem init_tidy {path : Path} {o : InitOptions} {terminal : Terminal} {r : Run} (h : tree.Tidy)
    (hending : Init.Ending tree path o terminal r) : r.tree.Tidy := by
  cases hending with
  | unasked => exact h
  | declined => exact h
  | unnamed => exact h
  | invalid => exact h
  | unsaved => exact h
  | @written _ name after _ _ _ hsave =>
    rw [Settings.save] at hsave
    cases hwrite : tree.write path (Text.encode (Init.merged o.choices name).write) with
    | error cause =>
      rw [hwrite] at hsave
      cases hsave
    | ok written =>
      rw [hwrite] at hsave
      cases hsave
      exact h.write hwrite

/-- A command keeps a tree tidy, also when it fails. -/
theorem run_tidy (codec : Codec) (h : tree.Tidy) (terminal : Terminal) (i : Invocation) :
    (i.run codec tree terminal).tree.Tidy := by
  obtain ⟨command, path, verbosity⟩ := i
  cases command with
  | init o => exact init_tidy h (Init.run_ending codec tree path o terminal verbosity)
  | generate o => exact generate_tidy h path o
  | templates flavor => exact h

/-! ## Sessions -/

private theorem session_tidy (codec : Codec) (h : tree.Tidy) (commands : List (Invocation × Terminal)) :
    ∀ r ∈ session codec tree commands, r.tree.Tidy := by
  induction commands generalizing tree with
  | nil => exact List.forall_mem_nil _
  | cons command rest ih =>
    have hrun := run_tidy codec h command.2 command.1
    exact List.forall_mem_cons.mpr ⟨hrun, ih hrun⟩

/-- After any command of a session the sources of a directory have paths that differ from each other. -/
theorem session_sources_nodup (codec : Codec) (h : tree.Tidy) (commands : List (Invocation × Terminal)) {r : Run}
    (hr : r ∈ session codec tree commands) {root : Path} {s : Settings} {files : List Entry}
    (hfiles : (Sources.directory r.tree root s).result = .ok files) : (files.map Entry.path).Nodup :=
  Sources.directory_paths_nodup (session_tidy codec h commands r hr).named hfiles

end Scaffold.CommandLine
