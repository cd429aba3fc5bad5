import Scaffold.Template.Helper
import Scaffold.Template.Piece

/-!
# Tags that are names

A tag that holds nothing but a plain name is read as the reference to it: it is no call, no constant, no block and
no else tag.
-/

namespace Scaffold.Template

/-- The words that mean something else where a name could stand, also at its start. -/
def keywords : List String :=
  ["as", "else", "this", "true", "false", "null"]

def isWord (c : Char) : Bool :=
  c.isAlphanum || c == '_'

/-- An identifier that starts with no keyword and is no helper. -/
def PlainName (name : String) : Prop :=
  (name.toList.head?.any fun c => isWord c && !c.isDigit) = true ∧ name.toList.all isWord = true ∧
    (∀ word ∈ keywords, ¬word.toList <+: name.toList) ∧ Helper.ofName? name = none

instance (name : String) : Decidable (PlainName name) :=
  inferInstanceAs (Decidable (_ ∧ _ ∧ _ ∧ _))

/-- The reference of a tag that holds only a name. -/
def nameReference (name : String) : Reference where
  raw := name
  origin := .scope
  ups := 0
  names := [name]

/-- A name between two braces on each side, as it is read. -/
def nameTag (name : String) : Marked where
  tag := .shown (.value (.reference (nameReference name))) true
  trimsBefore := false
  trimsAfter := false

variable {name : String} {c : Char} {rest cs : List Char}

/-! ## Characters of names -/

theorem isWord_ne (h : isWord c = true) {d : Char} (hd : isWord d = false) : c ≠ d := by
  rintro rfl
  rw [h] at hd
  cases hd

private theorem isSymbol_word (h : isWord c = true) : isSymbol c = true := by
  simp only [isWord, Bool.or_eq_true, beq_iff_eq] at h
  rcases h with h | h <;> simp [isSymbol, h]

private theorem isGap_word (h : isWord c = true) : isGap c = false := by
  have hspace := isWord_ne h (d := ' ') rfl
  have htab := isWord_ne h (d := '\t') rfl
  have hline := isWord_ne h (d := '\n') rfl
  have hreturn := isWord_ne h (d := '\r') rfl
  simp [isGap, hspace, htab, hline, hreturn]

theorem PlainName.cons (h : PlainName name) :
    ∃ c tail, name.toList = c :: tail ∧ isWord c = true ∧ c.isDigit = false ∧ ∀ d ∈ c :: tail, isWord d = true := by
  obtain ⟨hhead, hall, -, -⟩ := h
  cases hname : name.toList with
  | nil =>
    rw [hname] at hhead
    cases hhead
  | cons c tail =>
    rw [hname] at hhead hall
    simp only [List.head?_cons, Option.any_some, Bool.and_eq_true, Bool.not_eq_true'] at hhead
    exact ⟨c, tail, rfl, hhead.1, hhead.2, List.all_eq_true.mp hall⟩

private theorem after?_ne {w : Char} {word : List Char} (h : w ≠ c) : after? (w :: word) (c :: cs) = none := by
  simp [after?, h]

theorem before_append (cs rest : List Char) : before (cs ++ rest) rest = cs := by
  rw [before, List.length_append, Nat.add_sub_cancel, List.take_left]

private theorem prefix_before {word : List Char} (hc : c ∉ word) (h : word <+: cs ++ c :: rest) : word <+: cs := by
  induction word generalizing cs with
  | nil => exact List.nil_prefix
  | cons w word ih =>
    cases cs with
    | nil =>
      obtain ⟨more, hmore⟩ := h
      exact absurd (List.mem_cons.mpr (.inl (List.cons.inj hmore).1.symm)) hc
    | cons d cs =>
      obtain ⟨rfl, htail⟩ := List.cons_prefix_cons.mp h
      exact List.cons_prefix_cons.mpr ⟨rfl, ih (fun hmem => hc (List.mem_cons_of_mem _ hmem)) htail⟩

private theorem after?_keyword (h : PlainName name) {word : String} (hword : word ∈ keywords) :
    after? word.toList (name.toList ++ '}' :: rest) = none := by
  have hbrace : ∀ word ∈ keywords, '}' ∉ word.toList := by decide
  rw [after?, if_neg]
  intro hbefore
  exact h.2.2.1 word hword (prefix_before (hbrace word hword) ( List.isPrefixOf_iff_prefix.mp hbefore))

private theorem readName_plain (h : PlainName name) (rest : List Char) :
    readName (name.toList ++ '}' :: rest) = some (name, '}' :: rest) := by
  obtain ⟨c, tail, hname, -, -, hall⟩ := h.cons
  have hsymbols : ∀ d ∈ name.toList, isSymbol d = true := fun d hd => isSymbol_word (hall d (hname ▸ hd))
  have htake : (name.toList ++ '}' :: rest).takeWhile isSymbol = name.toList := by
    rw [List.takeWhile_append_of_pos hsymbols]
    simp [isSymbol]
  have hdrop : (name.toList ++ '}' :: rest).dropWhile isSymbol = '}' :: rest := by
    rw [List.dropWhile_append_of_pos hsymbols]
    rfl
  have hempty : name.toList.isEmpty = false := by
    rw [hname]
    rfl
  rw [readName, htake, hdrop]
  simp only [hempty, Bool.false_eq_true, if_false, String.ofList_toList]

/-! ## Nothing at the end of a tag -/

private theorem readItem_closing (rest : List Char) : readItem ('}' :: rest) = none :=
  rfl

private theorem skipStays_ne {fuel : Nat} (hthis : after? "this".toList cs = none)
    (hdot : after? "./".toList cs = none) :
    skipStays fuel cs = cs := by
  cases fuel with
  | zero => rfl
  | succ fuel =>
    rw [skipStays, hthis, hdot]
    rfl

private theorem readUps_ne {fuel : Nat} (hdots : after? "..".toList cs = none) : readUps fuel cs = (0, cs) := by
  cases fuel with
  | zero => rfl
  | succ fuel =>
    rw [readUps, hdots]
    rfl

private theorem readReference_closing (rest : List Char) : readReference ('}' :: rest) = none := by
  have hstays : skipStays ('}' :: rest).length ('}' :: rest) = '}' :: rest := skipStays_ne rfl rfl
  have hups : readUps ('}' :: rest).length ('}' :: rest) = (0, '}' :: rest) := readUps_ne rfl
  have hroot : after? "@root".toList ('}' :: rest) = none := rfl
  have hmark : after? ['@'] ('}' :: rest) = none := rfl
  simp only [readReference, hstays, hroot, Option.bind_none, Option.getD_none, hmark, hups, readItem_closing]
  rfl

private theorem readConstant?_closing (rest : List Char) : readConstant? ('}' :: rest) = none :=
  rfl

private theorem readValue_closing (rest : List Char) : readValue ('}' :: rest) = none := by
  have hkeyword : atKeyword ('}' :: rest) = false := rfl
  rw [readValue, readParam, hkeyword, readConstant?_closing, readReference_closing]
  rfl

private theorem readArguments_closing (fuel : Nat) (rest : List Char) :
    readArguments readValue fuel ('}' :: rest) = ([], '}' :: rest) := by
  cases fuel with
  | zero => rfl
  | succ fuel =>
    have hgap : skipGap ('}' :: rest) = '}' :: rest := rfl
    have hname : readName ('}' :: rest) = none := rfl
    have hargument : readArgument readValue ('}' :: rest) = none := by
      rw [readArgument, hname, readValue_closing]
      rfl
    rw [readArguments, hgap, hargument]

/-! ## Names as tags -/

private theorem readReference_plain (h : PlainName name) (rest : List Char) :
    readReference (name.toList ++ '}' :: rest) = some (nameReference name, '}' :: rest) := by
  obtain ⟨c, tail, hname, hc, -, hall⟩ := h.cons
  have hne {w : Char} (hw : isWord w = false) (word : List Char) :
      after? (w :: word) (name.toList ++ '}' :: rest) = none := by
    rw [hname]
    exact after?_ne (isWord_ne hc hw).symm
  have hstays (fuel : Nat) : skipStays fuel (name.toList ++ '}' :: rest) = name.toList ++ '}' :: rest :=
    skipStays_ne (after?_keyword h (by decide)) (hne rfl ['/'])
  have hups (fuel : Nat) : readUps fuel (name.toList ++ '}' :: rest) = (0, name.toList ++ '}' :: rest) :=
    readUps_ne (hne rfl ['.'])
  have hroot : after? "@root".toList (name.toList ++ '}' :: rest) = none := hne rfl ['r', 'o', 'o', 't']
  have hmark : after? ['@'] (name.toList ++ '}' :: rest) = none := hne rfl []
  have hitem : readItem (name.toList ++ '}' :: rest) = some (name, '}' :: rest) := by
    have hread := readName_plain h rest
    rw [readName] at hread
    rw [hname, List.cons_append] at hread ⊢
    rw [readItem]
    · exact hread
    · rintro more hmore
      exact isWord_ne hc (d := '[') rfl (List.cons.inj hmore).1
  have hitems (fuel : Nat) : readItems fuel ('}' :: rest) = ([], '}' :: rest) := by
    cases fuel with
    | zero => rfl
    | succ fuel => rfl
  have hraw : before (name.toList ++ '}' :: rest) ('}' :: rest) = name.toList := before_append _ _
  have hthis : name ≠ selfName := by
    rintro rfl
    exact h.2.2.1 "this" (by decide) List.prefix_rfl
  simp only [readReference, hstays, hroot, Option.getD_none, hmark, hups, hitem, hitems, bind, Option.bind, hraw, String.ofList_toList, Option.isSome_none]
  simp [nameReference, hthis, pure]

private theorem readShown_plain (h : PlainName name) (rest : List Char) :
    readShown (name.toList ++ '}' :: rest)
      = some (.value (.reference (nameReference name)), '}' :: rest) := by
  obtain ⟨c, tail, hname, hc, -, -⟩ := h.cons
  have hcall : readCall readValue (name.toList ++ '}' :: rest) = none := by
    simp only [readCall, readName_plain h, bind, Option.bind, readArguments_closing]
    rfl
  have hnested : readNested readValue (name.toList ++ '}' :: rest) = none := by
    have hopen : after? ['('] (name.toList ++ '}' :: rest) = none := by
      rw [hname]
      exact after?_ne (isWord_ne hc rfl).symm
    simp only [readNested, hopen, bind, Option.bind]
  rw [readShown, hcall, hnested, readReference_plain h]
  rfl

private theorem skipGap_plain (h : PlainName name) (rest : List Char) :
    skipGap (name.toList ++ rest) = name.toList ++ rest := by
  obtain ⟨c, tail, hname, hc, -, -⟩ := h.cons
  rw [hname, List.cons_append, skipGap, List.dropWhile_cons_of_neg (by simp [isGap_word hc])]

private theorem readMark_plain (h : PlainName name) (rest : List Char) :
    readMark (name.toList ++ rest) = (false, name.toList ++ rest) := by
  obtain ⟨c, tail, hname, hc, -, -⟩ := h.cons
  rw [readMark, skipGap_plain h, hname, List.cons_append]
  split
  · rename_i heq
    exact absurd (List.cons.inj heq).1 (isWord_ne hc rfl)
  · rfl

private theorem readInner_plain (h : PlainName name) (rest : List Char) :
    readInner (name.toList ++ '}' :: rest)
      = some (.shown (.value (.reference (nameReference name))) true, '}' :: rest) := by
  obtain ⟨c, tail, hname, hc, -, -⟩ := h.cons
  have hshown := readShown_plain h rest
  have hfirst {d : Char} {more : List Char} (hd : isWord d = false) :
      name.toList ++ '}' :: rest ≠ d :: more := by
    rw [hname, List.cons_append]
    intro heq
    exact isWord_ne hc hd (List.cons.inj heq).1
  rw [readInner]
  · rw [hshown]
    rfl
  all_goals exact fun _ => hfirst rfl

private theorem readElse_plain (h : PlainName name) (rest : List Char) :
    readElse (name.toList ++ '}' :: rest) = none := by
  obtain ⟨c, tail, hname, hc, -, -⟩ := h.cons
  have hcaret : after? ['^'] (name.toList ++ '}' :: rest) = none := by
    rw [hname]
    exact after?_ne (isWord_ne hc rfl).symm
  rw [readElse, after?_keyword h (by decide), hcaret]
  rfl

/-- A plain name between two braces on each side is a tag that shows what the name refers to. -/
theorem readTag_plain (h : PlainName name) (rest : List Char) :
    readTag (name.toList ++ (closing ++ rest)) = some (nameTag name, rest) := by
  change readTag (name.toList ++ '}' :: '}' :: rest) = _
  have hend : readEnd closing ('}' :: '}' :: rest) = some (false, rest) := rfl
  have hbraced : readBraced (name.toList ++ '}' :: '}' :: rest) = some (nameTag name, rest) := by
    simp only [readBraced, readMark_plain h, readElse_plain h, readInner_plain h, hend, bind, Option.bind]
    rfl
  rw [readTag, hbraced]
  rfl

end Scaffold.Template
