import Scaffold.Proofs.Files.Halts
import Scaffold.Proofs.Pipeline.Bundled
import Scaffold.Proofs.Store.Overlays

/-!
# Directories over bundled templates

A directory laid over the bundled templates has the files that stand in it. Where a name is missing the bundled template
is there instead. But where the way to a template is blocked, by a file where there had to be a directory say, nothing
stands either, and this is an error.
-/

namespace Scaffold.Store

/-- The bundled templates of a flavor with a directory over them. -/
def overridden (tree : FileTree) (root : Path) (flavor : Flavor) : Store :=
  overlay (directory tree root) (Bundled.store flavor)

/-- A template is taken from a directory where a file is found, and from the bundled ones where nothing stands. Files
are only to blame for an error where something stands. -/
structure FallsBack (tree : FileTree) (root : Path) (flavor : Flavor) (path : String) : Prop where
  bundled : tree.Vacant (root.join (Path.ofString path)) → ∃ text, (Bundled.table flavor).lookup path = some text ∧
    ((overridden tree root flavor).load path).result = .ok (Text.encode text)
  file (content : Bytes) : tree.find (root.join (Path.ofString path)) = .ok (.file content) →
    ((overridden tree root flavor).load path).result = .ok content
  error (cause : FileError) : ((overridden tree root flavor).load path).result = .error (.file cause) →
    ¬tree.Vacant (root.join (Path.ofString path))

variable {tree : FileTree} {root : Path} {flavor : Flavor} {path : String} {cause : FileError}

/-! ## One template -/

private theorem overridden_of_load {answer : Attempt Bytes} (h : (directory tree root).load path = answer)
    (hanswer : ∀ missing, answer.result ≠ .error (.templateNotFound missing)) :
    (overridden tree root flavor).load path = answer := by
  have hthere : ¬(directory tree root).Lacks path := by
    rintro ⟨missing, hmissing⟩
    rw [h] at hmissing
    exact hanswer missing hmissing
  rw [overridden, overlay_of_not_lacks hthere, h]

private theorem overridden_ok {content : Bytes} (h : tree.read (root.join (Path.ofString path)) = .ok content) :
    ((overridden tree root flavor).load path).result = .ok content := by
  have hload : (directory tree root).load path = pure content := by simp only [directory, h]
  rw [overridden_of_load hload nofun]
  rfl

private theorem overridden_notFound (h : tree.read (root.join (Path.ofString path)) = .error .notFound) :
    ((overridden tree root flavor).load path).result = ((Bundled.store flavor).load path).result := by
  have hload : (directory tree root).load path = Traced.fail (.templateNotFound path) := by simp only [directory, h]
  have hlacks : (directory tree root).Lacks path := ⟨path, by rw [hload]; rfl⟩
  rw [overridden, overlay_of_lacks hlacks]

private theorem overridden_error (h : tree.read (root.join (Path.ofString path)) = .error cause)
    (hne : cause ≠ .notFound) :
    ((overridden tree root flavor).load path).result = .error (.file cause) := by
  have hload : (directory tree root).load path = Traced.fail (.file cause) := by simp only [directory, h]
  rw [overridden_of_load hload nofun]
  rfl

private theorem overridden_missing (hpath : path ∈ Bundled.paths flavor)
    (h : tree.read (root.join (Path.ofString path)) = .error .notFound) :
    ∃ text, (Bundled.table flavor).lookup path = some text ∧
      ((overridden tree root flavor).load path).result = .ok (Text.encode text) := by
  obtain ⟨text, hlookup⟩ := Layout.lookup_bundled hpath
  refine ⟨text, hlookup, ?_⟩
  rw [overridden_notFound h, load_bundled hlookup]
  rfl

private theorem overridden_fileOnWay (h : tree.FileOnWay (root.join (Path.ofString path))) :
    ((overridden tree root flavor).load path).result = .error (.file .notDirectory) :=
  overridden_error (FileTree.read_of_find_error (FileTree.find_of_locate_error (FileTree.locate_error_followed h.locate)))
    nofun

/-! ## Falling back -/

/-- A bundled template stands in for what is not there just when the way to it is not blocked. A file on the way blocks
it, and the error is that it is no directory. -/
theorem fallsBack_iff (tree : FileTree) (root : Path) (flavor : Flavor) (path : String)
    (hpath : path ∈ Bundled.paths flavor) :
    (FallsBack tree root flavor path ↔ ¬tree.Blocked (root.join (Path.ofString path))) ∧
      (tree.FileOnWay (root.join (Path.ofString path)) →
        ((overridden tree root flavor).load path).result = .error (.file .notDirectory)) := by
  refine ⟨⟨fun hfalls hblocked => ?_, fun hclear => ?_⟩, overridden_fileOnWay⟩
  · obtain ⟨cause, hcause, hfind⟩ := hblocked.find
    exact hfalls.error cause (overridden_error (FileTree.read_of_find_error hfind) hcause) hblocked.vacant
  · have hmissing (hvacant : tree.Vacant (root.join (Path.ofString path))) :=
      overridden_missing hpath (FileTree.read_of_find_error (hvacant.find hclear))
    refine ⟨hmissing, fun content hfind => ?_, fun cause herror hvacant => ?_⟩
    · apply overridden_ok
      rw [FileTree.read, hfind]
      rfl
    · obtain ⟨text, -, hok⟩ := hmissing hvacant
      cases herror.symm.trans hok

/-! ## A file on the way -/

/-- A directory for templates in which a file stands where their directories had to be. -/
def wayTree : FileTree :=
  ⟨.dir [(Path.ofString "o", .dir [(Path.ofString "src", .file (Text.encode "x"))])], []⟩

private theorem wayTree_fileOnWay :
    wayTree.FileOnWay (Path.join (Path.ofString "o") (Path.ofString "src/main/resources/application.properties")) := by
  have ho : FileTree.Plain (Path.ofString "o") := ⟨by decide, by decide, by decide⟩
  have hsrc : FileTree.Plain (Path.ofString "src") := ⟨by decide, by decide, by decide⟩
  refine ⟨by decide, [Path.ofString "o", Path.ofString "src"],
    [Path.ofString "main", Path.ofString "resources", Path.ofString "application.properties"], _, _, _, _, by decide,
    by decide, .dir ho rfl (.file hsrc rfl)⟩

private theorem properties_mem : "src/main/resources/application.properties" ∈ Bundled.paths .quarkus := by
  rw [Layout.paths_eq]
  decide

theorem fallsBack_iff_way :
    "src/main/resources/application.properties" ∈ Bundled.paths .quarkus ∧
      ¬FallsBack wayTree (Path.ofString "o") .quarkus "src/main/resources/application.properties" ∧
      ((overridden wayTree (Path.ofString "o") .quarkus).load "src/main/resources/application.properties").result
        = .error (.file .notDirectory) := by
  obtain ⟨hiff, hway⟩ := fallsBack_iff wayTree (Path.ofString "o") .quarkus _ properties_mem
  exact ⟨properties_mem, fun hfalls => hiff.mp hfalls wayTree_fileOnWay.blocked, hway wayTree_fileOnWay⟩

/-- Nothing stands at the path of a template, and the bundled one is not there instead. -/
theorem not_fallsBack :
    ¬∀ (tree : FileTree) (root : Path) (flavor : Flavor) (path : String), path ∈ Bundled.paths flavor →
      FallsBack tree root flavor path := by
  intro h
  have hfalls := h wayTree (Path.ofString "o") .quarkus _ properties_mem
  obtain ⟨text, -, hok⟩ := hfalls.bundled wayTree_fileOnWay.blocked.vacant
  cases hok.symm.trans (overridden_fileOnWay wayTree_fileOnWay)

end Scaffold.Store
