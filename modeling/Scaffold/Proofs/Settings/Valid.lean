import Scaffold.Proofs.Settings.JavaPackage
import Scaffold.Settings.File

/-!
# Valid settings

The package of valid settings is a sequence of identifiers joined by points, and their artifact has a name that is not
blank. The directory of such a package has the identifiers as its names, and determines the package.
-/

namespace Scaffold

namespace JavaPackage

/-- A word of letters, digits and underscores of ASCII that starts with no digit and is not reserved. -/
def Identifier (word : String) : Prop :=
  (∃ first rest, word.toList = first :: rest ∧ (first.isAlpha ∨ first = '_') ∧ ∀ c ∈ rest, c.isAlphanum ∨ c = '_') ∧
    word ∉ reservedWords

/-- A name that is made of identifiers, with one point between any two. -/
structure Qualified (words : List String) (name : String) : Prop where
  nonempty : words ≠ []
  identifiers : ∀ word ∈ words, Identifier word
  joined : name = ".".intercalate words

variable {name other word : String} {words others : List String}

/-! ## Words -/

private theorem isLetter_eq (c : Char) : isLetter c = c.isAlpha := by
  have hlower : ('a' ≤ c && c ≤ 'z') = c.isLower := rfl
  have hupper : ('A' ≤ c && c ≤ 'Z') = c.isUpper := (Bool.decide_and _ _).symm
  rw [isLetter, hlower, hupper]
  exact Bool.or_comm _ _

private theorem isStart_iff (c : Char) : isStart c = true ↔ c.isAlpha ∨ c = '_' := by
  rw [isStart, isLetter_eq, Bool.or_eq_true, beq_iff_eq]

private theorem isPart_iff (c : Char) : isPart c = true ↔ c.isAlphanum ∨ c = '_' := by
  rw [isPart, Bool.or_eq_true, isStart_iff, or_right_comm, ← Bool.or_eq_true]
  exact Iff.rfl

private theorem isSegment_iff (word : String) : isSegment word.toList = true ↔ Identifier word := by
  rw [Identifier]
  rcases hword : word.toList with _ | ⟨first, rest⟩
  · simp [isSegment]
  · have hself : String.ofList (first :: rest) = word := by rw [← hword, String.ofList_toList]
    rw [isSegment, hself]
    simp only [Bool.and_eq_true, isStart_iff, List.all_eq_true, isPart_iff, Bool.not_eq_true', List.contains_eq_mem,
      decide_eq_false_iff_not]
    constructor
    · rintro ⟨⟨hfirst, hrest⟩, hreserved⟩
      exact ⟨⟨first, rest, rfl, hfirst, hrest⟩, hreserved⟩
    · rintro ⟨⟨_, _, heq, hfirst, hrest⟩, hreserved⟩
      cases heq
      exact ⟨⟨hfirst, hrest⟩, hreserved⟩

theorem Identifier.chars (h : Identifier word) : ∀ c ∈ word.toList, c.isAlphanum ∨ c = '_' := by
  obtain ⟨⟨first, rest, hword, hfirst, hrest⟩, -⟩ := h
  rw [hword]
  exact List.forall_mem_cons.mpr ⟨hfirst.imp_left fun halpha => Bool.or_eq_true_iff.mpr (.inl halpha), hrest⟩

theorem Identifier.not_mem (h : Identifier word) {c : Char} (hplain : c.isAlphanum = false) (hunderscore : c ≠ '_') :
    c ∉ word.toList := by
  intro hmem
  rcases h.chars c hmem with hword | hword
  · rw [hplain] at hword
    cases hword
  · exact hunderscore hword

theorem Identifier.encode_ne (h : Identifier word) :
    Text.encode word ≠ [] ∧ Text.encode word ≠ Path.self ∧ Text.encode word ≠ Path.up := by
  have hpoint : '.' ∉ word.toList := h.not_mem (by decide) (by decide)
  obtain ⟨⟨first, rest, hword, -⟩, -⟩ := h
  refine ⟨fun heq => ?_, fun heq => ?_, fun heq => ?_⟩
  · have hempty : word = "" := Text.encode_injective heq
    rw [hempty] at hword
    cases hword
  · have hself : word = "." := Text.encode_injective heq
    exact hpoint (by rw [hself]; decide)
  · have hup : word = ".." := Text.encode_injective heq
    exact hpoint (by rw [hup]; decide)

/-! ## Names -/

private theorem mem_intercalate {c sep : Char} {texts : List (List Char)} (h : c ∈ [sep].intercalate texts) :
    c = sep ∨ ∃ text ∈ texts, c ∈ text := by
  induction texts with
  | nil => cases h
  | cons text rest ih =>
    cases rest with
    | nil =>
      rw [List.intercalate_singleton] at h
      exact .inr ⟨text, List.mem_cons_self, h⟩
    | cons next more =>
      rw [List.intercalate_cons_cons, List.mem_append, List.mem_append, List.mem_singleton] at h
      rcases h with h | h
      · rcases h with h | h
        · exact .inr ⟨text, List.mem_cons_self, h⟩
        · exact .inl h
      · rcases ih h with h | ⟨other, hother, hc⟩
        · exact .inl h
        · exact .inr ⟨other, List.mem_cons_of_mem _ hother, hc⟩

theorem Qualified.segments (h : Qualified words name) : segments name = words.map String.toList := by
  have hclean : ∀ cs ∈ words.map String.toList, '.' ∉ cs := by
    intro cs hcs
    obtain ⟨word, hword, rfl⟩ := List.mem_map.mp hcs
    exact (h.identifiers word hword).not_mem (by decide) (by decide)
  rw [JavaPackage.segments, h.joined, String.toList_intercalate]
  exact List.splitOn_intercalate '.' hclean (fun hnil => h.nonempty (List.map_eq_nil_iff.mp hnil))

/-- The valid names are those made of identifiers. -/
theorem isValid_iff : isValid name = true ↔ ∃ words, Qualified words name := by
  rw [isValid, List.all_eq_true]
  constructor
  · intro h
    refine ⟨(JavaPackage.segments name).map String.ofList, ?_, ?_, ?_⟩
    · rw [Ne, List.map_eq_nil_iff]
      exact List.splitOn_ne_nil _ _
    · intro word hword
      obtain ⟨cs, hcs, rfl⟩ := List.mem_map.mp hword
      rw [← isSegment_iff, String.toList_ofList]
      exact h cs hcs
    · apply String.toList_inj.mp
      rw [String.toList_intercalate, List.map_map]
      have hlist : String.toList ∘ String.ofList = id := funext fun cs => String.toList_ofList
      rw [hlist, List.map_id]
      exact (List.intercalate_splitOn '.').symm
  · rintro ⟨words, h⟩ cs hcs
    rw [h.segments] at hcs
    obtain ⟨word, hword, rfl⟩ := List.mem_map.mp hcs
    exact (isSegment_iff word).mpr (h.identifiers word hword)

theorem Qualified.chars (h : Qualified words name) : ∀ c ∈ name.toList, (c.isAlphanum ∨ c = '_') ∨ c = '.' := by
  intro c hc
  rw [h.joined, String.toList_intercalate] at hc
  rcases mem_intercalate hc with rfl | ⟨cs, hcs, hc⟩
  · exact .inr rfl
  · obtain ⟨word, hword, rfl⟩ := List.mem_map.mp hcs
    exact .inl ((h.identifiers word hword).chars c hc)

theorem Qualified.not_mem (h : Qualified words name) {c : Char} (hplain : c.isAlphanum = false) (hunderscore : c ≠ '_')
    (hpoint : c ≠ '.') : c ∉ name.toList := by
  intro hmem
  rcases h.chars c hmem with (hword | hword) | hword
  · rw [hplain] at hword
    cases hword
  · exact hunderscore hword
  · exact hpoint hword

/-! ## Directories -/

theorem Qualified.path (h : Qualified words name) : path name = "/".intercalate words := by
  rw [path_eq, h.segments, List.map_map]
  have hlist : String.ofList ∘ String.toList = id := funext fun word => String.ofList_toList
  rw [hlist, List.map_id]

/-- The package is found again in its directory. -/
theorem Qualified.of_path (h : Qualified words name) :
    String.ofList ((JavaPackage.path name).toList.map fun c => if c = '/' then '.' else c) = name := by
  have hback : ∀ c ∈ name.toList, (if (if c = '.' then '/' else c) = '/' then '.' else if c = '.' then '/' else c) = c := by
    intro c hc
    by_cases hpoint : c = '.'
    · rw [if_pos hpoint, if_pos rfl, hpoint]
    · have hslash : c ≠ '/' := fun h' => h.not_mem (by decide) (by decide) (by decide) (h' ▸ hc)
      rw [if_neg hpoint, if_neg hslash]
  rw [JavaPackage.path, String.toList_ofList, List.map_map]
  refine (congrArg String.ofList ?_).trans String.ofList_toList
  exact (List.map_congr_left hback).trans (List.map_id' _)

theorem Qualified.path_injective (h : Qualified words name) (h' : Qualified others other)
    (heq : JavaPackage.path other = JavaPackage.path name) : other = name := by
  rw [← h.of_path, ← h'.of_path, heq]

end JavaPackage

namespace Settings

variable {s : Settings} {words : List String}

private theorem splitOn_packagePath (h : JavaPackage.Qualified words s.javaPackage) :
    (Path.ofString s.packagePath).splitOn Path.separator = words.map Text.encode := by
  have hclean : ∀ piece ∈ words.map Text.encode, Path.separator ∉ piece := by
    intro piece hpiece
    obtain ⟨word, hword, rfl⟩ := List.mem_map.mp hpiece
    exact Text.separator_not_mem_encode ((h.identifiers word hword).not_mem (by decide) (by decide))
  rw [Path.ofString, packagePath, h.path, Text.encode_intercalate]
  exact List.splitOn_intercalate _ hclean (fun hnil => h.nonempty (List.map_eq_nil_iff.mp hnil))

private theorem packagePath_piece (h : JavaPackage.Qualified words s.javaPackage) :
    ∀ piece ∈ (Path.ofString s.packagePath).splitOn Path.separator,
      piece ≠ [] ∧ piece ≠ Path.self ∧ piece ≠ Path.up := by
  intro piece hpiece
  rw [splitOn_packagePath h] at hpiece
  obtain ⟨word, hword, rfl⟩ := List.mem_map.mp hpiece
  exact (h.identifiers word hword).encode_ne

private theorem packagePath_relative (h : JavaPackage.Qualified words s.javaPackage) :
    (Path.ofString s.packagePath).isAbsolute = false := by
  have hpieces := packagePath_piece h
  rcases hpath : Path.ofString s.packagePath with _ | ⟨b, rest⟩
  · rfl
  · rw [hpath, List.splitOn_cons_eq_if_modifyHead] at hpieces
    by_cases hb : b = Path.separator
    · rw [if_pos (beq_iff_eq.mpr hb)] at hpieces
      exact absurd rfl (hpieces [] List.mem_cons_self).1
    · simp [Path.isAbsolute, hb]

/-! ## Validity -/

/-- Settings are valid just when their package is a sequence of identifiers joined by points and their artifact's name
has a character that is not blank; otherwise they are refused for the package, or else for the artifact. The directory
of such a package has its identifiers joined by separators: with points for them it is the package again, so packages
that differ have directories that differ, and it is a relative path in which each piece is the name of something. -/
theorem validate_cases (s : Settings) :
    let qualified := ∃ words, JavaPackage.Qualified words s.javaPackage
    let named := ∃ c ∈ s.artifactId.toList, Text.isBlank c = false
    (s.validate = .ok () ↔ qualified ∧ named) ∧
    (¬qualified → s.validate = .error (.invalidSettings (.javaPackage s.javaPackage))) ∧
    (qualified → ¬named → s.validate = .error (.invalidSettings .artifactId)) ∧
    ∀ words, JavaPackage.Qualified words s.javaPackage →
      s.packagePath = "/".intercalate words ∧
      String.ofList (s.packagePath.toList.map fun c => if c = '/' then '.' else c) = s.javaPackage ∧
      (∀ other : Settings, (∃ others, JavaPackage.Qualified others other.javaPackage) →
        other.packagePath = s.packagePath → other.javaPackage = s.javaPackage) ∧
      (Path.ofString s.packagePath).isAbsolute = false ∧
      ∀ piece ∈ (Path.ofString s.packagePath).splitOn Path.separator,
        piece ≠ [] ∧ piece ≠ Path.self ∧ piece ≠ Path.up := by
  intro qualified named
  have hqualified : JavaPackage.isValid s.javaPackage = true ↔ qualified := JavaPackage.isValid_iff
  have hnamed : s.artifactId.toList.all Text.isBlank = false ↔ named := by
    rw [List.all_eq_false]
    simp only [Bool.not_eq_true]
    exact Iff.rfl
  have hunqualified (h : ¬qualified) : s.validate = .error (.invalidSettings (.javaPackage s.javaPackage)) := by
    have hinvalid := eq_false_of_ne_true fun hvalid => h (hqualified.mp hvalid)
    rw [validate, problem?, hinvalid]
    rfl
  have hunnamed (h : qualified) (hblank : ¬named) : s.validate = .error (.invalidSettings .artifactId) := by
    have hall := eq_true_of_ne_false fun hall => hblank (hnamed.mp hall)
    rw [validate, problem?, hqualified.mpr h, hall]
    rfl
  refine ⟨⟨fun h => ?_, fun h => ?_⟩, hunqualified, hunnamed, fun words h => ?_⟩
  · by_cases hq : qualified
    · by_cases hn : named
      · exact ⟨hq, hn⟩
      · cases h.symm.trans (hunnamed hq hn)
    · cases h.symm.trans (hunqualified hq)
  · rw [validate, problem?, hqualified.mpr h.1, hnamed.mpr h.2]
    rfl
  · refine ⟨h.path, h.of_path, ?_, packagePath_relative h, packagePath_piece h⟩
    rintro other ⟨others, hother⟩ heq
    exact h.path_injective hother heq

end Settings

end Scaffold
