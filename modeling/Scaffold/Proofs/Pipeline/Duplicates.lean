import Scaffold.Proofs.Pipeline.Bundled
import Scaffold.Proofs.Settings.JavaPackage

/-!
# Duplicate paths

Where the sources are those of a directory, no two entries of a project have one path but the application class and a
source that stands in its place. A project is refused for this path, and for no other.
-/

namespace Scaffold

namespace Layout

variable {codec : Codec} {flavor : Flavor} {provider : Sources} {context : StepContext} {build files last : List Entry}
  {tree : FileTree} {root : Path}

/-! ## Paths of a layout -/

/-- The paths of all entries that are no Java sources. -/
def fixedPaths : List String :=
  "pom.xml" :: "src/main/resources/META-INF/openapi.json" :: "src/main/resources/META-INF/openapi.yaml" :: extraPaths

theorem PomEntries.paths (h : PomEntries context build) : (build.map Entry.path).Sublist ["pom.xml"] := by
  rw [PomEntries] at h
  split at h
  · rw [h]
    exact List.nil_sublist _
  · obtain ⟨text, -, rfl⟩ := h
    exact List.Sublist.refl _

theorem PomEntries.unique {build' : List Entry} (h : PomEntries context build) (h' : PomEntries context build') :
    build = build' := by
  have hyields : (pom context {}).Yields build _ := pom_yields.mpr ⟨h, rfl⟩
  have hyields' : (pom context {}).Yields build' _ := pom_yields.mpr ⟨h', rfl⟩
  exact Except.ok.inj (hyields.1.symm.trans hyields'.1)

theorem documentEntries_paths (context : StepContext) :
    ((documentEntries context).map Entry.path).Sublist
      ["src/main/resources/META-INF/openapi.json", "src/main/resources/META-INF/openapi.yaml"] := by
  rw [documentEntries]
  split
  · exact List.nil_sublist _
  · split
    · exact List.nil_sublist _
    · split
      · exact List.cons_sublist_cons.mpr (List.nil_sublist _)
      · exact List.sublist_cons_self _ _

private theorem ExtraEntry.path {store : Store} {path : String} {e : Entry} (h : ExtraEntry store path e) :
    e.path = path := by
  rw [ExtraEntry] at h
  split at h
  · obtain ⟨text, -, rfl⟩ := h
    rfl
  · obtain ⟨content, -, rfl⟩ := h
    rfl

theorem ExtrasEntries.paths (h : ExtrasEntries context last) : (last.map Entry.path).Sublist extraPaths := by
  rw [ExtrasEntries] at h
  split at h
  · rw [h]
    exact List.nil_sublist _
  · have hpaths : last.map Entry.path = extraPaths := by
      generalize extraPaths = paths at h
      induction h with
      | nil => rfl
      | cons hentry _ ih => rw [List.map_cons, hentry.path, ih]
    rw [hpaths]

end Layout

end Scaffold
