import Scaffold.Log
import Scaffold.Proofs.Text.Cut
import Scaffold.Proofs.Text.Encoded

/-!
# Lines of rendered logs

A rendered log is split into its lines again after each carriage return with a line feed, if no line has both one after
the other. Single ones may stand in the lines, also at their ends: what ends a line never starts in it.
-/

namespace Scaffold.Log

open Text

/-- The end of a rendered line does not stand in a line. -/
def Splittable (lines : List String) : Prop :=
  ∀ line ∈ lines, ¬['\r', '\n'] <:+: line.toList

instance (lines : List String) : Decidable (Splittable lines) :=
  inferInstanceAs (Decidable (∀ line ∈ lines, _))

variable {lines : List String}

private theorem lineEnd_sharp : Sharp ['\r', '\n'] := by
  decide

private theorem lines_appends (log : Log) (lines : List String) :
    (lines.foldl append log).lines = log.lines ++ lines := by
  induction lines generalizing log with
  | nil => simp
  | cons line lines ih => simp [ih]

private theorem render_appends (log : Log) (lines : List String) :
    (lines.foldl append log).render = log.render ++ crlfLines lines := by
  rw [render, lines_appends, crlfLines_append]
  rfl

private theorem crlfLines_toList (lines : List String) :
    (crlfLines lines).toList = (lines.map String.toList).flatMap (· ++ ['\r', '\n']) := by
  simp [crlfLines, List.flatMap_map, String.toList_join]

private theorem splitAfter_crlfLines (h : Splittable lines) : splitAfter "\r\n" (crlfLines lines) = (lines, "") := by
  have hcut : cut ['\r', '\n'] (crlfLines lines).toList = ⟨lines.map String.toList, []⟩ := by
    rw [crlfLines_toList]
    apply lineEnd_sharp.cut_lines
    simpa [Splittable] using h
  have hmark : "\r\n".toList = ['\r', '\n'] := rfl
  simp [splitAfter, hmark, hcut]

private theorem render_of_empty (lines : List String) : (lines.foldl append {}).render = crlfLines lines := by
  rw [render_appends]
  rfl

/-- A log of lines in which no carriage return is followed by a line feed is split into just these lines after each of
these pairs, and nothing is left. So no other such log has the same file, and what is rendered stays in front when more
lines are appended, whatever they are. -/
theorem render_splits (lines : List String) (h : Splittable lines) :
    splitAfter "\r\n" (lines.foldl append {}).render = (lines, "") ∧
      (∀ others, Splittable others →
        encode (others.foldl append {}).render = encode (lines.foldl append {}).render →
          others.foldl append {} = lines.foldl append {}) ∧
      ∀ more : List String,
        (lines.foldl append {}).render.toList <+: (more.foldl append (lines.foldl append {})).render.toList := by
  refine ⟨?_, ?_, ?_⟩
  · rw [render_of_empty]
    exact splitAfter_crlfLines h
  · intro others hothers hfile
    have hrender := encode_injective hfile
    rw [render_of_empty, render_of_empty] at hrender
    have hsplit := splitAfter_crlfLines hothers
    rw [hrender, splitAfter_crlfLines h] at hsplit
    simp only [Prod.mk.injEq, and_true] at hsplit
    rw [hsplit]
  · intro more
    rw [render_appends (lines.foldl append {}) more, String.toList_append]
    exact List.prefix_append _ _

/-- Lines that border on the ends of lines, and empty ones, are found again. -/
theorem render_splits_seams :
    Splittable ["a\r", "\nb", "", "\r", "\n\r", "\r\r", "\n"] ∧
      splitAfter "\r\n" (["a\r", "\nb", "", "\r", "\n\r", "\r\r", "\n"].foldl append {}).render
        = (["a\r", "\nb", "", "\r", "\n\r", "\r\r", "\n"], "") := by
  have hlines : Splittable ["a\r", "\nb", "", "\r", "\n\r", "\r\r", "\n"] := by decide
  obtain ⟨hsplit, -, -⟩ := render_splits _ hlines
  exact ⟨hlines, hsplit⟩

end Scaffold.Log
