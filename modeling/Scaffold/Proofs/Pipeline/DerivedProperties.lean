import Mathlib.Logic.Function.Iterate
import Scaffold.Pipeline.Layout
import Scaffold.Proofs.Text.Cut

/-!
# Derived properties

Deriving properties keeps the text that is there and adds one directive, on a line of its own. Nothing is looked at before:
each time one more is added.
-/

namespace Scaffold.Layout

open Text

private theorem deriveProperties_toList (text : String) :
    (deriveProperties text).toList = (text.toList ++ ['\n']) ++ scanDirective.toList ++ ['\n'] := by
  simp [deriveProperties]

private theorem directive_sharp : Sharp scanDirective.toList := by
  decide

private theorem newline_sharp : Sharp ['\n'] := by
  decide

private theorem newline_not_mem : '\n' ∉ scanDirective.toList := by
  decide

/-- One more directive, whatever the text ends with: the line end before it is in no directive. -/
theorem occurrences_deriveProperties (text : String) :
    occurrences scanDirective (deriveProperties text) = occurrences scanDirective text + 1 := by
  have hend : cut scanDirective.toList ['\n'] = .plain ['\n'] := cut_of_not_infix (by decide)
  have htext : cut scanDirective.toList (text.toList ++ ['\n']) = cut scanDirective.toList text.toList ++ .plain ['\n'] := by
    rw [cut_append (seamless_of_not_mem newline_not_mem), hend]
  rw [occurrences, deriveProperties_toList, directive_sharp.cut_append_mark, htext, hend]
  simp [Cut.length_pieces_append, Cut.plain, Cut.single, occurrences]

private theorem splitAfter_deriveProperties (text : String) :
    ∃ before, splitAfter "\n" (deriveProperties text) = (before ++ [scanDirective], "") := by
  have hdirective : cut ['\n'] (scanDirective.toList ++ ['\n']) = ⟨[scanDirective.toList], []⟩ := by
    have hlines : cut ['\n'] ([scanDirective.toList].flatMap (· ++ ['\n'])) = ⟨[scanDirective.toList], []⟩ :=
      newline_sharp.cut_lines (by decide)
    simpa using hlines
  have hcut : cut ['\n'] (deriveProperties text).toList
      = ⟨((cut ['\n'] text.toList).pieces ++ [(cut ['\n'] text.toList).rest]) ++ [scanDirective.toList], []⟩ := by
    rw [deriveProperties_toList, List.append_assoc, newline_sharp.cut_append_mark, hdirective, Cut.append_single,
      Cut.ended_append]
  refine ⟨((cut ['\n'] text.toList).pieces ++ [(cut ['\n'] text.toList).rest]).map String.ofList, ?_⟩
  have hmark : "\n".toList = ['\n'] := rfl
  simp [splitAfter, hmark, hcut]

private theorem iterate_eq_append (text : String) (n : Nat) :
    deriveProperties^[n] text = text ++ String.join (List.replicate n ("\n" ++ scanDirective ++ "\n")) := by
  induction n with
  | zero => simp
  | succ n ih =>
    rw [Function.iterate_succ_apply', ih, List.replicate_succ']
    simp [deriveProperties, String.append_assoc]

private theorem occurrences_iterate (text : String) (n : Nat) :
    occurrences scanDirective (deriveProperties^[n] text) = occurrences scanDirective text + n := by
  induction n with
  | zero => rfl
  | succ n ih => rw [Function.iterate_succ_apply', occurrences_deriveProperties, ih, Nat.add_assoc]

/-- Deriving properties any number of times adds so many directives, each with a line end on both sides. The text stays in
front, and so many more directives stand in it than before. From the first time on the directive is the last line. -/
theorem deriveProperties_iterate (text : String) (n : Nat) :
    deriveProperties^[n] text = text ++ String.join (List.replicate n ("\n" ++ scanDirective ++ "\n")) ∧
      text.toList <+: (deriveProperties^[n] text).toList ∧
      occurrences scanDirective (deriveProperties^[n] text) = occurrences scanDirective text + n ∧
      ∃ before, splitAfter "\n" (deriveProperties^[n + 1] text) = (before ++ [scanDirective], "") := by
  refine ⟨iterate_eq_append text n, ?_, occurrences_iterate text n, ?_⟩
  · rw [iterate_eq_append, String.toList_append]
    exact List.prefix_append _ _
  · rw [Function.iterate_succ_apply']
    exact splitAfter_deriveProperties _

end Scaffold.Layout
