import Scaffold.Files.Path

/-!
# Parents of a path

The parent of a path is a front part of it, and names of the path are left after it.
-/

namespace Scaffold.Path

/-- The path of a directory on the way to another path. -/
inductive Above : Path → Path → Prop
  | parent {dir path : Path} : path.parent? = some dir → Above dir path
  | step {dir middle path : Path} : path.parent? = some middle → Above dir middle → Above dir path

theorem not_mem_piece (p : Path) : ∀ piece ∈ p.splitOn separator, separator ∉ piece := by
  induction p with
  | nil => simp
  | cons b rest ih =>
    intro piece hpiece
    rw [List.splitOn_cons_eq_if_modifyHead] at hpiece
    rcases hrest : rest.splitOn separator with _ | ⟨first, others⟩
    · exact absurd hrest (List.splitOn_ne_nil _ _)
    · rw [hrest] at hpiece ih
      by_cases hb : b = separator
      · rw [if_pos (beq_iff_eq.mpr hb)] at hpiece
        rcases List.mem_cons.mp hpiece with rfl | hpiece
        · exact List.not_mem_nil
        · exact ih piece hpiece
      · rw [if_neg (fun h => hb (beq_iff_eq.mp h)), List.modifyHead_cons] at hpiece
        rcases List.mem_cons.mp hpiece with rfl | hpiece
        · intro hmem
          rcases List.mem_cons.mp hmem with h | hmem
          · exact hb h.symm
          · exact ih first List.mem_cons_self hmem
        · exact ih piece (List.mem_cons_of_mem _ hpiece)

theorem intercalate_append (first : Bytes) (before more : List Bytes) (h : more ≠ []) :
    [separator].intercalate (first :: before ++ more)
      = [separator].intercalate (first :: before) ++ separator :: [separator].intercalate more := by
  induction before generalizing first with
  | nil =>
    rw [List.cons_append, List.nil_append, List.intercalate_cons_of_ne_nil h, List.intercalate_singleton,
      List.append_assoc]
    rfl
  | cons second others ih =>
    have hrest := ih second
    rw [List.cons_append] at hrest
    rw [List.cons_append, List.cons_append, List.intercalate_cons_cons, hrest, List.intercalate_cons_cons]
    simp only [List.append_assoc]

private theorem dropWhile_parts {p : Bytes → Bool} {l before : List Bytes} {last : Bytes}
    (h : l.dropWhile p = last :: before) : p last = false ∧ l = l.takeWhile p ++ last :: before := by
  have hlast := List.head_dropWhile_not p (by rw [h]; exact List.cons_ne_nil _ _)
  simp only [h, List.head_cons] at hlast
  refine ⟨hlast, ?_⟩
  rw [← h, List.takeWhile_append_dropWhile]

theorem names_intercalate {pieces : List Bytes} (h : ∀ piece ∈ pieces, separator ∉ piece)
    (hne : pieces ≠ []) : names ([separator].intercalate pieces) = pieces.filter (· ≠ []) := by
  rw [names, List.splitOn_intercalate _ h hne]

private theorem parent?_pieces {p q : Path} (h : p.parent? = some q) (hq : q ≠ []) :
    ∃ first before more, p.splitOn separator = first :: before ++ more ∧ (∃ piece ∈ more, piece ≠ []) ∧
      q = if first == [] && before.isEmpty then [separator] else [separator].intercalate (first :: before) := by
  rw [parent?, pieces] at h
  rcases hp : p.splitOn separator with _ | ⟨first, rest⟩
  · exact absurd hp (List.splitOn_ne_nil _ _)
  · simp only [hp] at h
    rcases hkept : rest.reverse.dropWhile isIdle with _ | ⟨last, before⟩
    · -- without a name the parent is nothing at all
      simp only [hkept, List.reverse_nil, List.isEmpty_nil, Bool.and_true] at h
      by_cases hfirst : (first == []) = true
      · rw [if_pos hfirst] at h
        cases h
      · rw [if_neg hfirst] at h
        exact absurd (Option.some.inj h).symm hq
    · obtain ⟨hlast, hrest⟩ := dropWhile_parts hkept
      have hnotEmpty : (last :: before).reverse.isEmpty = false := by
        rw [List.isEmpty_reverse]
        rfl
      simp only [hkept, hnotEmpty, Bool.and_false, Bool.false_eq_true, if_false, List.reverse_reverse] at h
      refine ⟨first, (before.dropWhile isIdle).reverse,
        (rest.reverse.takeWhile isIdle ++ last :: before.takeWhile isIdle).reverse, ?_, ⟨last, ?_, ?_⟩,
        (Option.some.inj h).symm⟩
      · rw [List.cons_append, ← List.reverse_append, List.append_assoc, List.cons_append,
          List.takeWhile_append_dropWhile, ← hrest, List.reverse_reverse]
      · rw [List.mem_reverse, List.mem_append]
        exact .inr List.mem_cons_self
      · rintro rfl
        cases hlast

private theorem parent?_front {p q : Path} (h : p.parent? = some q) (hq : q ≠ []) :
    ∃ after, p.names = q.names ++ after ∧ after ≠ [] ∧ q <+: p := by
  obtain ⟨first, before, more, hpieces, ⟨piece, hmem, hpiece⟩, hparent⟩ := parent?_pieces h hq
  have hmore : more ≠ [] := List.ne_nil_of_mem hmem
  have hclean : ∀ piece ∈ first :: before, separator ∉ piece := fun piece hmem =>
    not_mem_piece p piece (by rw [hpieces]; exact List.mem_append_left _ hmem)
  have hpath : p = [separator].intercalate (first :: before) ++ separator :: [separator].intercalate more := by
    rw [← intercalate_append first before more hmore, ← hpieces, List.intercalate_splitOn]
  have hnames : p.names = (first :: before).filter (· ≠ []) ++ more.filter (· ≠ []) := by
    rw [names, hpieces, List.filter_append]
  have hafter : more.filter (· ≠ []) ≠ [] :=
    List.ne_nil_of_mem (List.mem_filter.mpr ⟨hmem, decide_eq_true hpiece⟩)
  by_cases hroot : (first == [] && before.isEmpty) = true
  · rw [if_pos hroot] at hparent
    simp only [Bool.and_eq_true, beq_iff_eq, List.isEmpty_iff] at hroot
    rw [hroot.1, hroot.2] at hnames hpath
    refine ⟨_, ?_, hafter, ?_⟩
    · rw [hnames, hparent]
      rfl
    · rw [hparent, hpath]
      exact ⟨_, rfl⟩
  · rw [if_neg hroot] at hparent
    refine ⟨_, ?_, hafter, ?_⟩
    · rw [hnames, hparent, names_intercalate hclean (List.cons_ne_nil _ _)]
    · rw [hparent]
      exact ⟨_, hpath.symm⟩

theorem Above.ne_nil {dir path : Path} (h : Above dir path) : path ≠ [] := by
  rintro rfl
  cases h with
  | parent h => cases h
  | step h _ => cases h

theorem Above.front {dir path : Path} (h : Above dir path) (hdir : dir ≠ []) :
    ∃ after, path.names = dir.names ++ after ∧ after ≠ [] ∧ dir <+: path := by
  induction h with
  | parent h => exact parent?_front h hdir
  | step h habove ih =>
    obtain ⟨after, hnames, hafter, hfront⟩ := ih
    obtain ⟨more, hmore, -, hpath⟩ := parent?_front h habove.ne_nil
    refine ⟨after ++ more, ?_, ?_, hfront.trans hpath⟩
    · rw [hmore, hnames, List.append_assoc]
    · exact List.append_ne_nil_of_left_ne_nil hafter more

end Scaffold.Path
