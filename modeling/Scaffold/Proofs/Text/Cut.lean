import Mathlib.Data.List.Infix

/-!
# Texts cut at marks

A text is cut after each mark in it, read from the left. Two texts one after the other are cut each on its own, unless a
mark stands across the seam, and a mark that overlaps no other one always stands on its own.
-/

namespace Scaffold.Text

/-- The pieces of a text that a mark ends, without it, and what follows the last mark. -/
structure Cut where
  pieces : List (List Char)
  rest : List Char
  deriving DecidableEq, Repr

namespace Cut

/-- A text without marks. -/
def plain (text : List Char) : Cut :=
  ⟨[], text⟩

/-- A mark alone: it ends a piece in which nothing stands. -/
def single : Cut :=
  ⟨[[]], []⟩

/-- A cut text after another: what is left of the first belongs to the next piece. -/
def append (first next : Cut) : Cut :=
  match next.pieces with
  | [] => ⟨first.pieces, first.rest ++ next.rest⟩
  | piece :: pieces => ⟨first.pieces ++ (first.rest ++ piece) :: pieces, next.rest⟩

instance : Append Cut :=
  ⟨append⟩

private theorem append_eq (first next : Cut) : first ++ next = first.append next :=
  rfl

private theorem plain_nil_append (c : Cut) : plain [] ++ c = c := by
  obtain ⟨_ | ⟨piece, pieces⟩, rest⟩ := c <;> rfl

theorem append_assoc (a b c : Cut) : a ++ b ++ c = a ++ (b ++ c) := by
  obtain ⟨_ | ⟨first, more⟩, left⟩ := b <;> obtain ⟨_ | ⟨piece, pieces⟩, rest⟩ := c <;> simp [append_eq, append]

theorem length_pieces_append (first next : Cut) :
    (first ++ next).pieces.length = first.pieces.length + next.pieces.length := by
  obtain ⟨_ | ⟨piece, pieces⟩, rest⟩ := next <;> simp [append_eq, append]

private theorem plain_append_plain (first next : List Char) : plain first ++ plain next = plain (first ++ next) :=
  rfl

theorem ended_append (pieces : List (List Char)) (next : Cut) :
    (⟨pieces, []⟩ : Cut) ++ next = ⟨pieces ++ next.pieces, next.rest⟩ := by
  obtain ⟨_ | ⟨piece, more⟩, rest⟩ := next <;> simp [append_eq, append]

theorem append_single (c : Cut) : c ++ single = ⟨c.pieces ++ [c.rest], []⟩ := by
  simp [append_eq, append, single]

end Cut

/-- A text cut after each mark. What belongs to one mark is not looked at for the next one. -/
def cut (mark : List Char) : List Char → Cut
  | [] => .plain []
  | c :: cs =>
    if mark <+: c :: cs then .single ++ cut mark (cs.drop (mark.length - 1)) else .plain [c] ++ cut mark cs
termination_by text => text.length
decreasing_by
  · simp only [List.length_drop, List.length_cons]
    omega
  · simp only [List.length_cons]
    omega

/-- The pieces of a text that end with a mark, and what follows the last one. -/
def splitAfter (mark text : String) : List String × String :=
  let c := cut mark.toList text.toList
  (c.pieces.map String.ofList, String.ofList c.rest)

/-- How often a mark stands in a text, if what is counted once is not counted again. -/
def occurrences (mark text : String) : Nat :=
  (cut mark.toList text.toList).pieces.length

variable {mark first next line : List Char}

/-! ## Seams -/

/-- No mark starts in the first text and ends in the next one. -/
def Seamless (mark first next : List Char) : Prop :=
  ∀ tail, tail <:+ first → tail ≠ [] → mark <+: tail ++ next → mark <+: tail

theorem Seamless.of_suffix {tail : List Char} (h : Seamless mark first next) (htail : tail <:+ first) :
    Seamless mark tail next :=
  fun more hmore => h more (hmore.trans htail)

/-- Two texts with no mark across their seam are cut each on its own. -/
theorem cut_append (h : Seamless mark first next) : cut mark (first ++ next) = cut mark first ++ cut mark next := by
  fun_induction cut mark first with
  | case1 => rw [List.nil_append, Cut.plain_nil_append]
  | case2 c cs hmark ih =>
    have hfront : mark <+: c :: (cs ++ next) := hmark.trans (List.prefix_append (c :: cs) next)
    have hlength := hmark.length_le
    have hdrop : (cs ++ next).drop (mark.length - 1) = cs.drop (mark.length - 1) ++ next := by
      apply List.drop_append_of_le_length
      simp only [List.length_cons] at hlength
      omega
    have htail : cs.drop (mark.length - 1) <:+ c :: cs := (List.drop_suffix _ cs).trans (List.suffix_cons c cs)
    rw [List.cons_append, cut, if_pos hfront, hdrop, ih (h.of_suffix htail), Cut.append_assoc]
  | case3 c cs hmark ih =>
    have hfront : ¬mark <+: c :: (cs ++ next) := fun hfront =>
      hmark (h (c :: cs) (List.suffix_refl _) (List.cons_ne_nil c cs) hfront)
    rw [List.cons_append, cut, if_neg hfront, ih (h.of_suffix (List.suffix_cons c cs)), Cut.append_assoc]

theorem seamless_of_not_mem {c : Char} (hc : c ∉ mark) : Seamless mark first (c :: next) := by
  intro tail _ _ hmark
  have hfront : tail ++ [c] <+: tail ++ c :: next := by simp
  obtain hshort | hlong := List.prefix_or_prefix_of_prefix hmark hfront
  · obtain hall | hshort := List.prefix_concat_iff.mp hshort
    · simp [hall] at hc
    · exact hshort
  · exact absurd (hlong.subset (by simp)) hc

/-! ## Marks -/

/-- Two marks do not overlap: no end of the mark is a start of it, but for all of it. -/
def Sharp (mark : List Char) : Prop :=
  mark ≠ [] ∧ ∀ n < mark.length, n ≠ 0 → ¬mark.drop n <+: mark

instance (mark : List Char) : Decidable (Sharp mark) :=
  inferInstanceAs (Decidable (_ ∧ _))

theorem Sharp.seamless (h : Sharp mark) : Seamless mark first (mark ++ next) := by
  intro tail _ hne hmark
  obtain hfront | ⟨more, rfl⟩ := List.prefix_or_prefix_of_prefix hmark (List.prefix_append tail (mark ++ next))
  · exact hfront
  · by_cases hmore : more = []
    · simp [hmore]
    · -- The tail is a start of the mark, so the next mark would start with what is missing after the tail.
      have hstart : more <+: tail ++ more := by
        have hmore : more <+: tail ++ more ++ next := (List.prefix_append_right_inj tail).mp hmark
        exact List.prefix_of_prefix_length_le hmore (List.prefix_append _ next) (by simp)
      have hshort : tail.length < (tail ++ more).length := by
        simp [List.length_pos_iff.mpr hmore]
      have hsharp := h.2 tail.length hshort (by simp [hne])
      rw [List.drop_left] at hsharp
      exact absurd hstart hsharp

private theorem cut_mark (h : mark ≠ []) (next : List Char) : cut mark (mark ++ next) = .single ++ cut mark next := by
  obtain ⟨c, cs, rfl⟩ := List.exists_cons_of_ne_nil h
  have hfront : c :: cs <+: c :: (cs ++ next) := List.prefix_append (c :: cs) next
  rw [List.cons_append, cut, if_pos hfront]
  simp

theorem cut_of_not_infix (h : ¬mark <:+: line) : cut mark line = .plain line := by
  induction line with
  | nil => rw [cut]
  | cons c cs ih =>
    have hfront : ¬mark <+: c :: cs := fun hfront => h hfront.isInfix
    have hrest : ¬mark <:+: cs := fun hrest => h (hrest.trans (List.suffix_cons c cs).isInfix)
    rw [cut, if_neg hfront, ih hrest, Cut.plain_append_plain, List.singleton_append]

theorem Sharp.cut_append_mark (h : Sharp mark) (first next : List Char) :
    cut mark (first ++ mark ++ next) = cut mark first ++ .single ++ cut mark next := by
  rw [List.append_assoc, cut_append h.seamless, cut_mark h.1, Cut.append_assoc]

/-- Lines without a sharp mark that each end with it are found again. -/
theorem Sharp.cut_lines (h : Sharp mark) {lines : List (List Char)} (hlines : ∀ line ∈ lines, ¬mark <:+: line) :
    cut mark (lines.flatMap (· ++ mark)) = ⟨lines, []⟩ := by
  induction lines with
  | nil =>
    rw [List.flatMap_nil, cut]
    rfl
  | cons line lines ih =>
    obtain ⟨hline, hrest⟩ := List.forall_mem_cons.mp hlines
    rw [List.flatMap_cons, h.cut_append_mark, cut_of_not_infix hline, ih hrest, Cut.append_single,
      Cut.ended_append]
    rfl

end Scaffold.Text
