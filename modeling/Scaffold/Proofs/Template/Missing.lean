import Scaffold.Error
import Scaffold.Proofs.Template.Stencil

/-!
# Names without values

A stencil renders just when its data has a text for every name in it. The first name that has none is the one the error
is about, at the place where it stands.
-/

namespace Scaffold.Template

def textMembers (values : List (String × String)) : List (String × Json) :=
  values.map fun (name, value) => (name, .string value)

/-- Data that has a text under each of some names. -/
def texts (values : List (String × String)) : Json :=
  .object (textMembers values)

variable {name : String} {slots before after : List (String × List Char)} {members : List (String × Json)}

/-! ## Looking up -/

private theorem lookup_texts (values : List (String × String)) (name : String) :
    (textMembers values).lookup name = (values.lookup name).map Json.string := by
  induction values with
  | nil => rfl
  | cons entry rest ih =>
    obtain ⟨key, value⟩ := entry
    rw [textMembers] at ih ⊢
    rw [List.map_cons, List.lookup_cons, List.lookup_cons, ih]
    cases name == key with
    | true => rfl
    | false => rfl

private theorem lookup_eq_none {values : List (String × String)} :
    values.lookup name = none ↔ name ∉ values.map Prod.fst := by
  rw [List.lookup_eq_none_iff]
  simp only [List.mem_map, not_exists, not_and, bne_iff_ne, ne_eq]
  constructor
  · intro h entry hentry heq
    exact h entry hentry heq.symm
  · intro h entry hentry heq
    exact h entry hentry heq.symm

/-! ## The first name without a value -/

private theorem renderValue_missing (h : PlainName name) (hmissing : members.lookup name = none) :
    renderValue (.reference (nameReference name)) true (Scope.start (.object members))
      = .error (Problem.missing (some name)).toError := by
  have hraw : Helper.ofName? (nameReference name).raw = none := h.2.2.2
  simp only [renderValue, bind, Except.bind, hraw, operandOf, resolve_name, hmissing]
  rfl

open Stencil in
/-- The induction is on the slots before the one that has no value; all of them are shown before it is come to. -/
theorem renderAll_missing (place : Place) (text : List Char) (after : List (String × List Char))
    {value : String → String}
    (hbefore : ∀ slot ∈ before, PlainName slot.1 ∧ members.lookup slot.1 = some (.string (value slot.1)))
    (hname : PlainName name) (hmissing : members.lookup name = none) :
    renderAll (slotElements place (before ++ (name, text) :: after)) (Scope.start (.object members))
      = .error ⟨.missing (some name), some (place.after (slotsSource before))⟩ := by
  induction before generalizing place with
  | nil =>
    rw [List.nil_append, slotElements, renderAll, renderElement, renderValue_missing hname hmissing]
    rfl
  | cons slot before ih =>
    obtain ⟨shown, next⟩ := slot
    obtain ⟨hslot, hbefore⟩ := List.forall_mem_cons.mp hbefore
    have hplace : (place.after (tagSource shown ++ next)).after (slotsSource before)
        = place.after (slotsSource ((shown, next) :: before)) := by
      rw [← Place.after_append, slotsSource_cons, tagSource]
      simp only [List.append_assoc]
    rw [List.cons_append, slotElements, renderAll, renderElement, renderValue_name hslot.1 hslot.2, renderAll_text,
      ih _ hbefore, hplace]
    rfl

private theorem render_missing {stencil : Stencil} (h : stencil.Plain) {text : List Char} {value : String → String}
    (hslots : stencil.slots = before ++ (name, text) :: after)
    (hbefore : ∀ slot ∈ before, members.lookup slot.1 = some (.string (value slot.1)))
    (hmissing : members.lookup name = none) :
    render (String.ofList stencil.source) (.object members)
      = .error (.failed ⟨.missing (some name),
          some (Place.after ⟨1, 1⟩ (stencil.head ++ Stencil.slotsSource before))⟩) := by
  have hplain := h.2
  have hname : PlainName name := (hplain (name, text) (by simp [hslots])).1
  have hshown : ∀ slot ∈ before, PlainName slot.1 ∧ members.lookup slot.1 = some (.string (value slot.1)) :=
    fun slot hslot => ⟨(hplain slot (by simp [hslots, hslot])).1, hbefore slot hslot⟩
  have hfails := renderAll_missing (Place.after ⟨1, 1⟩ stencil.head) text after hshown hname hmissing
  rw [render, parse?_stencil h, hslots]
  simp only [renderAll_text, hfails, ← Place.after_append]
  rfl

/-! ## Messages -/

private theorem isWord_range {c : Char} (h : isWord c = true) : 0x30 ≤ c.toNat ∧ c.toNat ≤ 0x7A := by
  have hcases : (c.isUpper || c.isLower || c.isDigit || c == '_') = true := h
  rw [Bool.or_eq_true, Bool.or_eq_true, Bool.or_eq_true, beq_iff_eq] at hcases
  rcases hcases with ((hupper | hlower) | hdigit) | hunderscore
  · have hrange : 'A'.val ≤ c.val ∧ c.val ≤ 'Z'.val := of_decide_eq_true hupper
    have hfirst : 0x41 ≤ c.toNat := UInt32.le_iff_toNat_le.mp hrange.1
    have hlast : c.toNat ≤ 0x5A := UInt32.le_iff_toNat_le.mp hrange.2
    omega
  · have hrange := Bool.and_eq_true_iff.mp hlower
    have hfirst : 0x61 ≤ c.toNat := UInt32.le_iff_toNat_le.mp (of_decide_eq_true hrange.1)
    have hlast : c.toNat ≤ 0x7A := UInt32.le_iff_toNat_le.mp (of_decide_eq_true hrange.2)
    omega
  · have hrange := Bool.and_eq_true_iff.mp hdigit
    have hfirst : 0x30 ≤ c.toNat := UInt32.le_iff_toNat_le.mp (of_decide_eq_true hrange.1)
    have hlast : c.toNat ≤ 0x39 := UInt32.le_iff_toNat_le.mp (of_decide_eq_true hrange.2)
    omega
  · rw [hunderscore]
    decide

private theorem quoteChar_word {c : Char} (h : isWord c = true) : Text.quoteChar c = [c] := by
  have hprintable : Text.isPrintable c = true := by
    have hrange := isWord_range h
    rw [Text.isPrintable, if_pos (by omega), decide_eq_true_iff]
    omega
  rw [Text.quoteChar, if_neg (isWord_ne h rfl), if_neg (isWord_ne h rfl), if_neg (isWord_ne h rfl),
    if_neg (isWord_ne h rfl), if_neg (isWord_ne h rfl), if_neg (isWord_ne h rfl), if_pos hprintable]

private theorem quote_plain (h : PlainName name) : Text.quote name = "\"" ++ name ++ "\"" := by
  have hchars : name.toList.flatMap Text.quoteChar = name.toList := by
    rw [List.flatMap_def, List.map_congr_left fun c hc => quoteChar_word (List.all_eq_true.mp h.2.1 c hc),
      ← List.flatMap_def]
    exact List.flatMap_singleton' _
  apply String.toList_inj.mp
  simp [Text.quote, hchars]

/-- The literal texts of the message, cut where its parts meet. They are variables in the proof of `missing_message`, as
they would be computed with there otherwise. -/
private theorem message_texts :
    "template rendering failed: " ++ "Error rendering \"Unnamed template\" line "
        = "template rendering failed: Error rendering \"Unnamed template\" line " ∧
      ": " ++ "Failed to access variable in strict mode Some(" ++ "\""
        = ": Failed to access variable in strict mode Some(\"" ∧
      "\"" ++ ")" = "\")" := by
  decide

private theorem missing_message (h : PlainName name) (place : Place) :
    (Error.templateFailed (.failed ⟨.missing (some name), some place⟩)).message
      = "template rendering failed: Error rendering \"Unnamed template\" line " ++ toString place.line ++ ", col " ++
        toString place.column ++ ": Failed to access variable in strict mode Some(\"" ++ name ++ "\")" := by
  obtain ⟨hstart, hopen, hclose⟩ := message_texts
  rw [← hstart, ← hopen, ← hclose]
  show "template rendering failed: " ++ ("Error rendering \"Unnamed template\" line " ++ toString place.line ++ ", col " ++
    toString place.column ++ ": " ++ ("Failed to access variable in strict mode Some(" ++ Text.quote name ++ ")")) = _
  rw [quote_plain h]
  generalize "template rendering failed: " = failed
  generalize "Error rendering \"Unnamed template\" line " = line
  generalize "Failed to access variable in strict mode Some(" = missing
  generalize "\"" = mark
  simp only [String.append_assoc]

/-! ## Rendering with texts -/

/-- Where a stencil cannot be rendered, some name in it is the first that has no value. -/
theorem missing_or_shown (stencil : Stencil) (values : List (String × String)) :
    (∀ slot ∈ stencil.slots, slot.1 ∈ values.map Prod.fst) ∨
      ∃ before name text after, stencil.slots = before ++ (name, text) :: after ∧
        (∀ slot ∈ before, slot.1 ∈ values.map Prod.fst) ∧ name ∉ values.map Prod.fst := by
  rcases hfind : stencil.slots.find? (fun slot => decide (slot.1 ∉ values.map Prod.fst)) with _ | ⟨name, text⟩
  · left
    intro slot hslot
    simpa using List.find?_eq_none.mp hfind slot hslot
  · right
    obtain ⟨hname, before, after, hslots, hbefore⟩ := List.find?_eq_some_iff_append.mp hfind
    refine ⟨before, name, text, after, hslots, fun slot hslot => ?_, by simpa using hname⟩
    simpa using hbefore slot hslot

private theorem lookup_shown {values : List (String × String)} {value : String → String}
    (h : ∀ slot ∈ slots, values.lookup slot.1 = some (value slot.1)) :
    ∀ slot ∈ slots, (textMembers values).lookup slot.1 = some (.string (value slot.1)) := by
  intro slot hslot
  rw [lookup_texts, h slot hslot]
  rfl

private theorem render_shown {stencil : Stencil} (h : stencil.Plain) {values : List (String × String)}
    {value : String → String} (hvalue : ∀ slot ∈ stencil.slots, values.lookup slot.1 = some (value slot.1)) :
    render (String.ofList stencil.source) (texts values)
      = .ok (String.ofList (stencil.fill fun name => (escape (value name)).toList)) :=
  render_stencil h (lookup_shown hvalue)

private theorem exists_value {values : List (String × String)} (h : ∀ slot ∈ slots, slot.1 ∈ values.map Prod.fst) :
    ∃ value : String → String, ∀ slot ∈ slots, values.lookup slot.1 = some (value slot.1) := by
  refine ⟨fun name => (values.lookup name).getD "", fun slot hslot => ?_⟩
  cases hlookup : values.lookup slot.1 with
  | none => exact absurd (h slot hslot) (lookup_eq_none.mp hlookup)
  | some value => simp [hlookup]

private theorem render_first {stencil : Stencil} (h : stencil.Plain) {values : List (String × String)}
    {text : List Char}
    (hslots : stencil.slots = before ++ (name, text) :: after)
    (hbefore : ∀ slot ∈ before, slot.1 ∈ values.map Prod.fst) (hname : name ∉ values.map Prod.fst) :
    render (String.ofList stencil.source) (texts values)
      = .error (.failed ⟨.missing (some name),
          some (Place.after ⟨1, 1⟩ (stencil.head ++ Stencil.slotsSource before))⟩) := by
  obtain ⟨value, hvalue⟩ := exists_value hbefore
  apply render_missing h hslots (lookup_shown hvalue)
  rw [lookup_texts, lookup_eq_none.mpr hname]
  rfl

/-- A stencil renders with texts just when there is one for every name in it: then what comes out are the stencil's own
texts as they stand and between them the escaped values, whatever these hold. If a name has none, the error is about the
first such name and the place of its tag. -/
theorem render_texts {stencil : Stencil} (h : stencil.Plain) (values : List (String × String)) :
    let outcome := render (String.ofList stencil.source) (texts values)
    ((∃ text, outcome = .ok text) ↔ ∀ slot ∈ stencil.slots, slot.1 ∈ values.map Prod.fst) ∧
      (∀ text, outcome = .ok text ↔
        ∃ value : String → String, (∀ slot ∈ stencil.slots, values.lookup slot.1 = some (value slot.1)) ∧
          text = String.ofList (stencil.fill fun name => (escape (value name)).toList)) ∧
      ∀ fault, outcome = .error fault ↔
        ∃ before name text after place, stencil.slots = before ++ (name, text) :: after ∧
          (∀ slot ∈ before, slot.1 ∈ values.map Prod.fst) ∧ name ∉ values.map Prod.fst ∧
          place = Place.after ⟨1, 1⟩ (stencil.head ++ Stencil.slotsSource before) ∧
          fault = .failed ⟨.missing (some name), some place⟩ ∧
          (Error.templateFailed fault).message
            = "template rendering failed: Error rendering \"Unnamed template\" line " ++ toString place.line ++ ", col " ++
              toString place.column ++ ": Failed to access variable in strict mode Some(\"" ++ name ++ "\")" := by
  intro outcome
  rcases missing_or_shown stencil values with hall | ⟨before, name, text, after, hslots, hbefore, hname⟩
  · obtain ⟨value, hvalue⟩ := exists_value hall
    have hshown : outcome = .ok _ := render_shown h hvalue
    refine ⟨⟨fun _ => hall, fun _ => ⟨_, hshown⟩⟩, fun text => ⟨fun htext => ?_, ?_⟩, fun fault => ⟨fun hfault => ?_, ?_⟩⟩
    · exact ⟨value, hvalue, Except.ok.inj (htext.symm.trans hshown)⟩
    · rintro ⟨other, hother, rfl⟩
      exact render_shown h hother
    · cases hshown.symm.trans hfault
    · rintro ⟨before, name, text, after, -, hslots, -, hname, -⟩
      exact absurd (hall (name, text) (by simp [hslots])) hname
  · have hfails : outcome = .error _ := render_first h hslots hbefore hname
    have hplain : PlainName name := (h.2 (name, text) (by simp [hslots])).1
    refine ⟨⟨?_, fun hall => ?_⟩, fun shown => ⟨fun hshown => ?_, ?_⟩, fun fault => ⟨fun hfault => ?_, ?_⟩⟩
    · rintro ⟨shown, hshown⟩
      cases hshown.symm.trans hfails
    · exact absurd (hall (name, text) (by simp [hslots])) hname
    · cases hshown.symm.trans hfails
    · rintro ⟨value, hvalue, -⟩
      have hnone := lookup_eq_none.mpr hname
      rw [hvalue (name, text) (by simp [hslots])] at hnone
      cases hnone
    · cases hfails.symm.trans hfault
      exact ⟨before, name, text, after, _, hslots, hbefore, hname, rfl, rfl, missing_message hplain _⟩
    · rintro ⟨before, name, text, after, place, hslots, hbefore, hname, rfl, rfl, -⟩
      exact render_first h hslots hbefore hname

/-- A value with braces in it is not read again, and a name without a value is not left empty. -/
theorem render_texts_braces :
    let stencil : Stencil := ⟨" <".toList, [("x", "\x7d\n\t".toList), ("_y", "\n\n".toList), ("x", [])]⟩
    stencil.Plain ∧
      render (String.ofList stencil.source) (texts [("_y", "{{x}}&"), ("x", "1")])
        = .ok " <1\x7d\n\t{{x}}&amp;\n\n1" ∧
      render (String.ofList stencil.source) (texts [("x", "1")])
        = .error (.failed ⟨.missing (some "_y"), some ⟨2, 2⟩⟩) := by
  intro stencil
  have hplain : stencil.Plain := by decide
  refine ⟨hplain, ?_, ?_⟩
  · apply ((render_texts hplain [("_y", "{{x}}&"), ("x", "1")]).2.1 _).mpr
    refine ⟨fun name => if name = "x" then "1" else "{{x}}&", by decide, ?_⟩
    decide
  · apply ((render_texts hplain [("x", "1")]).2.2 _).mpr
    refine ⟨[("x", "\x7d\n\t".toList)], "_y", "\n\n".toList, [("x", [])], ⟨2, 2⟩, rfl, by simp, by simp, by decide, rfl, ?_⟩
    exact missing_message (by decide) _

end Scaffold.Template
