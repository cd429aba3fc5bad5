import Scaffold.Proofs.Files.Joined
import Scaffold.Settings.Basic

/-!
# Directories of packages

The directory of a package has the names of the package, and those of a valid one are names of a path.
-/

namespace Scaffold

namespace JavaPackage

private theorem intercalate_splitOn (cs : List Char) :
    ['/'].intercalate (cs.splitOn '.') = cs.map fun c => if c = '.' then '/' else c := by
  induction cs with
  | nil => rfl
  | cons c rest ih =>
    rw [List.splitOn_cons_eq_if_modifyHead, List.map_cons, ← ih]
    rcases hrest : rest.splitOn '.' with _ | ⟨first, others⟩
    · exact absurd hrest (List.splitOn_ne_nil _ _)
    · by_cases hc : c = '.'
      · rw [if_pos (beq_iff_eq.mpr hc), if_pos hc, List.intercalate_cons_cons]
        rfl
      · rw [if_neg (fun h => hc (beq_iff_eq.mp h)), if_neg hc, List.modifyHead_cons]
        cases others with
        | nil => rw [List.intercalate_singleton, List.intercalate_singleton]
        | cons second more =>
          rw [List.intercalate_cons_cons, List.intercalate_cons_cons]
          rfl

theorem path_eq (name : String) : path name = "/".intercalate ((segments name).map String.ofList) := by
  apply String.toList_inj.mp
  rw [path, String.toList_ofList, String.toList_intercalate, List.map_map, segments, ← intercalate_splitOn]
  have hlist : (String.toList ∘ String.ofList) = id := funext fun cs => String.toList_ofList
  rw [hlist, List.map_id]
  rfl

end JavaPackage

namespace Settings

theorem isValid_of_problem {s : Settings} (h : s.problem? = none) : JavaPackage.isValid s.javaPackage = true := by
  by_cases hvalid : JavaPackage.isValid s.javaPackage = true
  · exact hvalid
  · simp [problem?, hvalid] at h

end Settings

end Scaffold
