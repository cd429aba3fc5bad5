import Scaffold.Proofs.Template.Stencil

/-!
# Values in markup

An escaped value in a document of markup: it holds no character that markup is made of, a reader of references gets
the value back from it, and around it the tags of the document stay as they are. Where markup follows each value,
the document determines the values.
-/

namespace Scaffold.Template

/-! ## References -/

/-- The value of a digit below `base`. -/
def digit? (base : Nat) (c : Char) : Option Nat :=
  let n :=
    if c.isDigit then c.toNat - '0'.toNat
    else if 'a' ≤ c ∧ c ≤ 'f' then c.toNat - 'a'.toNat + 10
    else if 'A' ≤ c ∧ c ≤ 'F' then c.toNat - 'A'.toNat + 10
    else base
  if n < base then some n else none

def number? (base : Nat) (cs : List Char) : Option Nat :=
  if cs.isEmpty then none else cs.foldlM (fun n c => (digit? base c).map (n * base + ·)) 0

/-- The character of a code point. -/
def charOf? (n : Nat) : Option Char :=
  if n.isValidChar then some (Char.ofNat n) else none

/-- The character that a reference stands for, given what is between the ampersand and the semicolon: a code point
in hexadecimal or decimal digits, or one of the five names. -/
def reference? : List Char → Option Char
  | '#' :: 'x' :: digits => (number? 16 digits).bind charOf?
  | '#' :: digits => (number? 10 digits).bind charOf?
  | name =>
    [("amp".toList, '&'), ("lt".toList, '<'), ("gt".toList, '>'), ("quot".toList, '"'), ("apos".toList, '\'')].lookup name

/-- A text with its references replaced, if every ampersand starts one. The first argument is the part of a reference
that was read so far, last first. -/
def unescape : Option (List Char) → List Char → Option (List Char)
  | none, [] => some []
  | none, c :: rest => if c = '&' then unescape (some []) rest else (unescape none rest).map (c :: ·)
  | some _, [] => none
  | some body, c :: rest =>
    if c = ';' then (reference? body.reverse).bind fun d => (unescape none rest).map (d :: ·)
    else unescape (some (c :: body)) rest

/-- The characters that start or end tags and the values of attributes. -/
def markup : List Char :=
  ['<', '>', '"', '\'']

/-- The characters that are escaped. -/
def special : List Char :=
  ['&', '<', '>', '"', '\'', '`', '=']

theorem escapeChar_plain {c : Char} (h : c ∉ special) : escapeChar c = [c] := by
  simp only [special, List.mem_cons, List.not_mem_nil, or_false, not_or] at h
  obtain ⟨hamp, hless, hgreater, hquote, hapostrophe, htick, hequals⟩ := h
  rw [escapeChar, if_neg hamp, if_neg hless, if_neg hgreater, if_neg hquote, if_neg hapostrophe, if_neg htick,
    if_neg hequals]

theorem escape_plain {value : String} (h : ∀ c ∈ value.toList, c ∉ special) : escape value = value := by
  have hchars : value.toList.flatMap escapeChar = value.toList := by
    rw [List.flatMap_def, List.map_congr_left fun c hc => escapeChar_plain (h c hc), ← List.flatMap_def]
    exact List.flatMap_singleton' _
  rw [escape, hchars, String.ofList_toList]

private theorem escapeChar_markup (c : Char) : ∀ d ∈ escapeChar c, d ∉ markup := by
  by_cases h : c ∈ special
  · have hspecial : special.all (fun c => (escapeChar c).all (· ∉ markup)) = true := by decide
    simpa using List.all_eq_true.mp hspecial c h
  · rw [escapeChar_plain h]
    intro d hd hmarkup
    rw [List.mem_singleton.mp hd] at hmarkup
    have hsub : markup ⊆ special := by decide
    exact h (hsub hmarkup)

theorem escape_markup (value : String) : ∀ c ∈ (escape value).toList, c ∉ markup := by
  intro c hc
  rw [escape, String.toList_ofList, List.mem_flatMap] at hc
  obtain ⟨d, -, hcd⟩ := hc
  exact escapeChar_markup d c hcd

private theorem unescape_char (c : Char) (rest : List Char) :
    unescape none (escapeChar c ++ rest) = (unescape none rest).map (c :: ·) := by
  by_cases h : c ∈ special
  · simp only [special, List.mem_cons, List.not_mem_nil, or_false] at h
    rcases h with rfl | rfl | rfl | rfl | rfl | rfl | rfl <;> rfl
  · have hamp : c ≠ '&' := fun hc => h (hc ▸ by decide)
    rw [escapeChar_plain h, List.cons_append, List.nil_append, unescape, if_neg hamp]

/-- In an escaped value every ampersand starts a reference, and its references stand for the value. -/
theorem unescape_escape (value : String) : unescape none (escape value).toList = some value.toList := by
  rw [escape, String.toList_ofList]
  induction value.toList with
  | nil => rfl
  | cons c cs ih =>
    rw [List.flatMap_cons, unescape_char, ih]
    rfl

theorem escape_injective {value other : String} (h : escape value = escape other) : value = other := by
  have hunescape := unescape_escape value
  rw [h, unescape_escape] at hunescape
  exact (String.toList_inj.mp (Option.some.inj hunescape)).symm

/-! ## Tags -/

/-- What stands in the tags of a document, from each `<` to the next `>`. The first argument is the part of a tag that
was read so far, last first. -/
def tags : Option (List Char) → List Char → List (List Char)
  | none, [] => []
  | none, c :: rest => if c = '<' then tags (some []) rest else tags none rest
  | some body, [] => [body.reverse]
  | some body, c :: rest => if c = '>' then body.reverse :: tags none rest else tags (some (c :: body)) rest

/-- A text ends inside a tag, given whether it starts in one. -/
def endsInTag : Bool → List Char → Bool
  | inTag, [] => inTag
  | false, c :: rest => endsInTag (c = '<') rest
  | true, c :: rest => endsInTag (c ≠ '>') rest

private theorem tags_append_aux (body : Option (List Char)) {text : List Char} (h : endsInTag body.isSome text = false)
    (rest : List Char) : tags body (text ++ rest) = tags body text ++ tags none rest := by
  induction text generalizing body with
  | nil =>
    cases body with
    | none => rfl
    | some body => cases h
  | cons c text ih =>
    cases body with
    | none =>
      rw [List.cons_append, tags, tags]
      rw [Option.isSome_none, endsInTag] at h
      by_cases hc : c = '<'
      · rw [if_pos hc, if_pos hc]
        exact ih (some []) (by simpa [hc] using h)
      · rw [if_neg hc, if_neg hc]
        exact ih none (by simpa [hc] using h)
    | some body =>
      rw [List.cons_append, tags, tags]
      rw [Option.isSome_some, endsInTag] at h
      by_cases hc : c = '>'
      · rw [if_pos hc, if_pos hc, List.cons_append]
        exact congrArg _ (ih none (by simpa [hc] using h))
      · rw [if_neg hc, if_neg hc]
        exact ih (some (c :: body)) (by simpa [hc] using h)

private theorem tags_append {text : List Char} (h : endsInTag false text = false) (rest : List Char) :
    tags none (text ++ rest) = tags none text ++ tags none rest :=
  tags_append_aux none h rest

private theorem tags_none {text : List Char} (h : '<' ∉ text) (rest : List Char) :
    tags none (text ++ rest) = tags none rest := by
  induction text with
  | nil => rfl
  | cons c text ih =>
    rw [List.mem_cons, not_or] at h
    rw [List.cons_append, tags, if_neg (Ne.symm h.1)]
    exact ih h.2

/-- Each text of a stencil is markup that no name stands in. -/
def Stencil.Outside (stencil : Stencil) : Prop :=
  endsInTag false stencil.head = false ∧
    ∀ slot ∈ stencil.slots, endsInTag false slot.2 = false ∧ slot.2.head? = some '<' ∧ '<' ∉ slot.1.toList

variable {slots : List (String × List Char)}

private theorem tags_fillSlots {value : String → List Char}
    (h : ∀ slot ∈ slots, endsInTag false slot.2 = false ∧ slot.2.head? = some '<' ∧ '<' ∉ slot.1.toList)
    (hvalue : ∀ name, '<' ∉ value name) :
    tags none (Stencil.fillSlots value slots) = tags none (Stencil.slotsSource slots) := by
  induction slots with
  | nil => rfl
  | cons slot slots ih =>
    obtain ⟨name, text⟩ := slot
    obtain ⟨hslot, hslots⟩ := List.forall_mem_cons.mp h
    have htext : endsInTag false text = false := hslot.1
    have hname : '<' ∉ name.toList := hslot.2.2
    have hfill : Stencil.fillSlots value ((name, text) :: slots)
        = value name ++ (text ++ Stencil.fillSlots value slots) := by
      rw [Stencil.fillSlots, List.flatMap_cons, List.append_assoc]
      rfl
    have hopening : '<' ∉ opening := by decide
    have hclosing : '<' ∉ closing := by decide
    rw [hfill, slotsSource_cons, tags_none (hvalue name), tags_none hopening, tags_none hname, tags_none hclosing,
      tags_append htext, tags_append htext, ih hslots]

/-- Values without markup leave the tags as they are in the source. -/
theorem tags_fill {stencil : Stencil} (h : stencil.Outside) {value : String → List Char}
    (hvalue : ∀ name, '<' ∉ value name) : tags none (stencil.fill value) = tags none stencil.source := by
  rw [Stencil.fill, Stencil.source, tags_append h.1, tags_append h.1, tags_fillSlots h.2 hvalue]

/-! ## Values found again -/

private theorem append_cancel {c : Char} {first second rest other : List Char} (hfirst : c ∉ first)
    (hsecond : c ∉ second) (h : first ++ c :: rest = second ++ c :: other) : first = second ∧ rest = other := by
  induction first generalizing second with
  | nil =>
    cases second with
    | nil => exact ⟨rfl, (List.cons.inj h).2⟩
    | cons d second =>
      have hd := (List.cons.inj h).1
      exact absurd (List.mem_cons.mpr (.inl hd)) hsecond
  | cons d first ih =>
    rw [List.mem_cons, not_or] at hfirst
    cases second with
    | nil => exact absurd (List.cons.inj h).1.symm hfirst.1
    | cons e second =>
      rw [List.mem_cons, not_or] at hsecond
      obtain ⟨rfl, htail⟩ := List.cons.inj h
      obtain ⟨rfl, hrest⟩ := ih hfirst.2 hsecond.2 htail
      exact ⟨rfl, hrest⟩

private theorem fillSlots_injective {value other : String → List Char}
    (h : ∀ slot ∈ slots, slot.2.head? = some '<') (hvalue : ∀ name, '<' ∉ value name) (hother : ∀ name, '<' ∉ other name)
    (heq : Stencil.fillSlots value slots = Stencil.fillSlots other slots) :
    ∀ slot ∈ slots, value slot.1 = other slot.1 := by
  induction slots with
  | nil => exact nofun
  | cons slot slots ih =>
    obtain ⟨name, text⟩ := slot
    obtain ⟨hslot, hslots⟩ := List.forall_mem_cons.mp h
    obtain ⟨more, rfl⟩ : ∃ more, text = '<' :: more := by
      cases text with
      | nil => cases hslot
      | cons c more =>
        cases hslot
        exact ⟨more, rfl⟩
    simp only [Stencil.fillSlots, List.flatMap_cons, List.append_assoc, List.cons_append] at heq
    obtain ⟨hname, hrest⟩ := append_cancel (hvalue name) (hother name) heq
    have hmore := List.append_cancel_left hrest
    exact List.forall_mem_cons.mpr ⟨hname, ih hslots hmore⟩

/-- Where markup follows each name, values without markup are determined by the text that they fill. -/
theorem fill_injective {stencil : Stencil} (h : stencil.Outside) {value other : String → List Char}
    (hvalue : ∀ name, '<' ∉ value name) (hother : ∀ name, '<' ∉ other name)
    (heq : stencil.fill value = stencil.fill other) : ∀ slot ∈ stencil.slots, value slot.1 = other slot.1 :=
  fillSlots_injective (fun slot hslot => (h.2 slot hslot).2.1) hvalue hother (List.append_cancel_left heq)

/-! ## Markup in parts -/

/-- Whether slots end inside a tag, if none of their names stands in one and markup follows each. The first argument
says whether they start in one. -/
def scanSlots : Bool → List (String × List Char) → Option Bool
  | inTag, [] => some inTag
  | inTag, (name, text) :: slots =>
    if inTag ∨ text.head? ≠ some '<' ∨ '<' ∈ name.toList then none else scanSlots (endsInTag false text) slots

def Stencil.scan (inTag : Bool) (stencil : Stencil) : Option Bool :=
  scanSlots (endsInTag inTag stencil.head) stencil.slots

private theorem endsInTag_append (inTag : Bool) (text rest : List Char) :
    endsInTag inTag (text ++ rest) = endsInTag (endsInTag inTag text) rest := by
  induction text generalizing inTag with
  | nil => rfl
  | cons c text ih =>
    cases inTag with
    | false => exact ih (c = '<')
    | true => exact ih (c ≠ '>')

private theorem scanSlots_cons {inTag last : Bool} {name : String} {text : List Char}
    (h : scanSlots inTag ((name, text) :: slots) = some last) :
    inTag = false ∧ text.head? = some '<' ∧ '<' ∉ name.toList ∧ scanSlots (endsInTag false text) slots = some last := by
  rw [scanSlots] at h
  split at h
  · cases h
  · rename_i hnot
    rw [not_or, not_or, Classical.not_not] at hnot
    exact ⟨eq_false_of_ne_true hnot.1, hnot.2.1, hnot.2.2, h⟩

private theorem scanSlots_outside {inTag : Bool} (h : scanSlots inTag slots = some false) :
    inTag = false ∧ ∀ slot ∈ slots, endsInTag false slot.2 = false ∧ slot.2.head? = some '<' ∧ '<' ∉ slot.1.toList := by
  induction slots generalizing inTag with
  | nil => exact ⟨Option.some.inj h, nofun⟩
  | cons slot slots ih =>
    obtain ⟨name, text⟩ := slot
    obtain ⟨hinTag, hhead, hname, hrest⟩ := scanSlots_cons h
    obtain ⟨htext, hslots⟩ := ih hrest
    exact ⟨hinTag, List.forall_mem_cons.mpr ⟨⟨htext, hhead, hname⟩, hslots⟩⟩

theorem outside_of_scan {stencil : Stencil} (h : stencil.scan false = some false) : stencil.Outside :=
  scanSlots_outside h

private theorem scan_joinSlots {inTag middle last : Bool} {text : List Char} {next : Stencil}
    (h : Stencil.scan inTag ⟨text, slots⟩ = some middle) (hnext : next.scan middle = some last) :
    (Stencil.joinSlots text slots next).scan inTag = some last := by
  induction slots generalizing inTag text with
  | nil =>
    cases h
    rw [Stencil.joinSlots, Stencil.scan, endsInTag_append]
    exact hnext
  | cons slot slots ih =>
    obtain ⟨name, after⟩ := slot
    obtain ⟨hinTag, hhead, hname, hrest⟩ := scanSlots_cons h
    have hjoined : (Stencil.joinSlots after slots next).head.head? = some '<' := by
      obtain ⟨c, more, rfl⟩ := List.exists_cons_of_ne_nil (l := after) (by rintro rfl; cases hhead)
      cases slots with
      | nil => exact hhead
      | cons slot slots => exact hhead
    rw [Stencil.joinSlots, Stencil.scan, hinTag, scanSlots, if_neg (by simp [hjoined, hname])]
    exact ih hrest

theorem scan_join {stencils : List Stencil} {inTag last : Bool}
    (h : stencils.foldlM (fun inTag stencil => stencil.scan inTag) inTag = some last) :
    (Stencil.join stencils).scan inTag = some last := by
  induction stencils generalizing inTag with
  | nil => exact h
  | cons stencil stencils ih =>
    rw [List.foldlM_cons] at h
    obtain ⟨middle, hfirst, hrest⟩ := Option.bind_eq_some_iff.mp h
    exact scan_joinSlots hfirst (ih hrest)

end Scaffold.Template
