import Scaffold.Proofs.Template.Names
import Scaffold.Template.Render

/-!
# Stencils

Templates of literal texts and names, without blocks. Such a template is read as just these, whatever blanks and
line ends its texts hold, and it renders as its texts with the escaped values between them.
-/

namespace Scaffold.Template

/-- A text, and then names that stand for values, each with the text after it. -/
structure Stencil where
  head : List Char
  slots : List (String × List Char)
  deriving DecidableEq, Repr

/-- A text that no tag can be found in, also together with a tag after it. -/
def PlainText (text : List Char) : Prop :=
  '\\' ∉ text ∧ ¬opening <:+: text ∧ text.getLast? ≠ some '{'

instance (text : List Char) : Decidable (PlainText text) :=
  inferInstanceAs (Decidable (_ ∧ _ ∧ _))

namespace Stencil

/-- The source of a name between its braces. -/
def tagSource (name : String) : List Char :=
  opening ++ (name.toList ++ closing)

/-- The source of the names and the texts after them. -/
def slotsSource (slots : List (String × List Char)) : List Char :=
  slots.flatMap fun (name, text) => opening ++ name.toList ++ closing ++ text

def source (stencil : Stencil) : List Char :=
  stencil.head ++ slotsSource stencil.slots

/-- The names replaced by values. -/
def fillSlots (value : String → List Char) (slots : List (String × List Char)) : List Char :=
  slots.flatMap fun (name, text) => value name ++ text

def fill (value : String → List Char) (stencil : Stencil) : List Char :=
  stencil.head ++ fillSlots value stencil.slots

/-- All texts and names are plain. -/
def Plain (stencil : Stencil) : Prop :=
  PlainText stencil.head ∧ ∀ slot ∈ stencil.slots, PlainName slot.1 ∧ PlainText slot.2

instance (stencil : Stencil) : Decidable stencil.Plain :=
  inferInstanceAs (Decidable (_ ∧ _))

/-- The runs of characters between double braces: texts and names in turn, a text first. -/
def runs : Bool → List Char → List (List Char)
  | _, [] => [[]]
  | false, '{' :: '{' :: rest => [] :: runs true rest
  | true, '}' :: '}' :: rest => [] :: runs false rest
  | inName, c :: rest =>
    match runs inName rest with
    | [] => [[c]]
    | run :: more => (c :: run) :: more

def ofRuns : List (List Char) → Stencil
  | [] => ⟨[], []⟩
  | [text] => ⟨text, []⟩
  | text :: name :: more =>
    let rest := ofRuns more
    ⟨text, (String.ofList name, rest.head) :: rest.slots⟩

/-- A source cut at its double braces. -/
def cut (source : List Char) : Stencil :=
  ofRuns (runs false source)

/-- A text and slots with another stencil after them. -/
def joinSlots : List Char → List (String × List Char) → Stencil → Stencil
  | text, [], next => ⟨text ++ next.head, next.slots⟩
  | text, (name, after) :: slots, next =>
    let rest := joinSlots after slots next
    ⟨text, (name, rest.head) :: rest.slots⟩

/-- Stencils one after another. -/
def join (stencils : List Stencil) : Stencil :=
  stencils.foldr (fun stencil next => joinSlots stencil.head stencil.slots next) ⟨[], []⟩

end Stencil

/-- The place after a text that starts at this one. -/
def Place.after (place : Place) (text : List Char) : Place :=
  text.foldl Place.step place

variable {text rest : List Char} {slots : List (String × List Char)} {place : Place}

theorem Place.after_append (place : Place) (text rest : List Char) :
    place.after (text ++ rest) = (place.after text).after rest :=
  List.foldl_append

/-! ## Pieces -/

theorem PlainText.cons {c : Char} (h : PlainText (c :: text)) :
    c ≠ '\\' ∧ (c = '{' → ∃ d more, text = d :: more ∧ d ≠ '{') ∧ PlainText text := by
  obtain ⟨hbackslash, hopening, hlast⟩ := h
  rw [List.mem_cons, not_or] at hbackslash
  have htext : PlainText text := by
    refine ⟨hbackslash.2, fun hsub => hopening (hsub.trans (List.infix_cons List.infix_rfl)), fun hbrace => ?_⟩
    cases text with
    | nil => cases hbrace
    | cons d more => exact hlast hbrace
  refine ⟨fun hc => hbackslash.1 hc.symm, ?_, htext⟩
  rintro rfl
  cases text with
  | nil => exact absurd rfl hlast
  | cons d more =>
    refine ⟨d, more, rfl, ?_⟩
    rintro rfl
    exact hopening (List.prefix_append opening more).isInfix

private theorem startsTag_false {c : Char} (h : PlainText (c :: text)) (rest : List Char) :
    startsTag (c :: (text ++ rest)) = false := by
  obtain ⟨-, hbrace, -⟩ := h.cons
  by_cases hc : c = '{'
  · obtain ⟨d, more, rfl, hd⟩ := hbrace hc
    simp [startsTag, opening, List.isPrefixOf_cons_cons, hd.symm]
  · simp [startsTag, opening, List.isPrefixOf_cons_cons, Ne.symm hc]

private theorem readText_plain (h : PlainText text) (hrest : rest = [] ∨ startsTag rest = true)
    (seen behind : List Char) :
    readText startsTag false seen behind (text ++ rest) = ⟨seen.reverse ++ text, text.reverse ++ behind, rest⟩ := by
  induction text generalizing seen behind with
  | nil =>
    rw [List.nil_append, List.append_nil, List.reverse_nil, List.nil_append]
    rcases hrest with rfl | hrest
    · rw [readText]
    · cases rest with
      | nil => rw [readText]
      | cons c rest =>
        rw [readText.eq_def]
        exact if_pos hrest
  | cons c text ih =>
    obtain ⟨hc, -, htext⟩ := h.cons
    have hstep (seen behind : List Char) : readText startsTag false seen behind (c :: (text ++ rest))
        = readText startsTag false (c :: seen) (c :: behind) (text ++ rest) := by
      rw [readText.eq_def]
      simp only [startsTag_false h, Bool.false_eq_true, if_false, if_pos hc]
    rw [List.cons_append, hstep, ih htext]
    simp only [List.reverse_cons, List.append_assoc, List.cons_append, List.nil_append]

/-- The pieces of slots from a place on: for each a tag of its name where the slot stands, alone there or not, and the
text after it. -/
inductive SlotPieces : Place → List (String × List Char) → List Piece → Prop
  | nil {place : Place} : SlotPieces place [] []
  | slot {place : Place} {name : String} {text : List Char} {slots : List (String × List Char)} {pieces : List Piece}
    (alone : Bool) : SlotPieces (place.after (Stencil.tagSource name ++ text)) slots pieces →
      SlotPieces place ((name, text) :: slots) (.tag ⟨nameTag name, place, alone⟩ :: (Piece.ofText text ++ pieces))

open Stencil in
theorem slotsSource_cons (name : String) (text : List Char) (slots : List (String × List Char)) :
    slotsSource ((name, text) :: slots) = opening ++ (name.toList ++ (closing ++ (text ++ slotsSource slots))) := by
  simp only [slotsSource, List.flatMap_cons, List.append_assoc]

private theorem slotsSource_starts (slots : List (String × List Char)) :
    Stencil.slotsSource slots = [] ∨ startsTag (Stencil.slotsSource slots) = true := by
  cases slots with
  | nil => exact .inl rfl
  | cons slot slots =>
    obtain ⟨name, text⟩ := slot
    rw [slotsSource_cons]
    exact .inr rfl

theorem length_le_slotsSource (slots : List (String × List Char)) :
    slots.length ≤ (Stencil.slotsSource slots).length := by
  induction slots with
  | nil => exact Nat.le_refl 0
  | cons slot slots ih =>
    obtain ⟨name, text⟩ := slot
    rw [slotsSource_cons]
    simp only [List.length_cons, List.length_append, opening]
    omega

private theorem readPieces_slot {name : String} (h : PlainName name) (cursor : Cursor) (rest : List Char) :
    ∃ alone, readPieces cursor (opening ++ (name.toList ++ (closing ++ rest)))
      = some ([.tag ⟨nameTag name, cursor.place, alone⟩], cursor.move (Stencil.tagSource name), rest) := by
  have hdrop : (opening ++ (name.toList ++ (closing ++ rest))).drop 2 = name.toList ++ (closing ++ rest) := rfl
  have hbefore : before (opening ++ (name.toList ++ (closing ++ rest))) rest = Stencil.tagSource name := by
    rw [← List.append_assoc name.toList, ← List.append_assoc opening, before_append, Stencil.tagSource]
  rw [readPieces, hdrop, readTag_plain h]
  simp only [hbefore]
  exact ⟨_, rfl⟩

private theorem atEnd_place (cursor : Cursor) (text shown rest : List Char) :
    (cursor.atEnd ⟨shown, text.reverse ++ cursor.behind, rest⟩).place = cursor.place.after text := by
  have hfresh : (text.reverse ++ cursor.behind).take ((text.reverse ++ cursor.behind).length - cursor.behind.length)
      = text.reverse := by simp
  rw [Cursor.atEnd, hfresh, List.reverse_reverse, Place.after]

/-- A plain text and slots are read as such. The induction is on the slots, at any place of the source. -/
theorem piecesFrom_slots {fuel : Nat} (cursor : Cursor) (htext : PlainText text)
    (hslots : ∀ slot ∈ slots, PlainName slot.1 ∧ PlainText slot.2) (hfuel : slots.length < fuel) :
    ∃ pieces, SlotPieces (cursor.place.after text) slots pieces ∧
      piecesFrom fuel cursor (text ++ Stencil.slotsSource slots) = some (Piece.ofText text ++ pieces) := by
  induction slots generalizing fuel cursor text with
  | nil =>
    obtain ⟨fuel, rfl⟩ : ∃ n, fuel = n + 1 := ⟨fuel - 1, by omega⟩
    refine ⟨[], .nil, ?_⟩
    simp only [piecesFrom, readText_plain htext (slotsSource_starts [])]
    simp [Stencil.slotsSource]
  | cons slot slots ih =>
    obtain ⟨name, after⟩ := slot
    obtain ⟨hslot, hslots⟩ := List.forall_mem_cons.mp hslots
    have hname : PlainName name := hslot.1
    have hafter : PlainText after := hslot.2
    obtain ⟨fuel, rfl⟩ : ∃ n, fuel = n + 1 := ⟨fuel - 1, by omega⟩
    have hscanned := readText_plain htext (slotsSource_starts ((name, after) :: slots)) [] cursor.behind
    rw [slotsSource_cons, List.reverse_nil, List.nil_append] at hscanned
    rw [slotsSource_cons]
    generalize hmore : after ++ Stencil.slotsSource slots = more at hscanned ⊢
    generalize hend : cursor.atEnd ⟨text, text.reverse ++ cursor.behind, opening ++ (name.toList ++ (closing ++ more))⟩
      = atEnd
    have hplace : atEnd.place = cursor.place.after text := by rw [← hend, atEnd_place]
    obtain ⟨alone, hread⟩ := readPieces_slot hname atEnd more
    obtain ⟨pieces, hpieces, hrest⟩ := ih (atEnd.move (Stencil.tagSource name)) hafter hslots
      (Nat.lt_of_succ_lt_succ hfuel)
    have hmoved : (atEnd.move (Stencil.tagSource name)).place.after after
        = (cursor.place.after text).after (Stencil.tagSource name ++ after) := by
      rw [Place.after_append, ← hplace, Cursor.move, Place.after, Place.after, Place.after]
    rw [hmoved] at hpieces
    rw [hmore] at hrest
    have hstarts : (opening ++ (name.toList ++ (closing ++ more))).isEmpty = false := rfl
    refine ⟨_, .slot alone hpieces, ?_⟩
    simp only [piecesFrom, hscanned, hstarts, Bool.false_eq_true, if_false, hend, hread, hrest, bind, Option.bind]
    simp [pure, hplace]

/-! ## Blanks -/

private theorem trimBack_slots {pieces : List Piece} (h : SlotPieces place slots pieces) (text : List Char) :
    trimBack pieces.head? text = text := by
  cases h with
  | nil => rfl
  | slot alone _ => cases alone <;> rfl

private theorem settle_slots {pieces : List Piece} (h : SlotPieces place slots pieces) (text : List Char) :
    settle false false (Piece.ofText text ++ pieces) = Piece.ofText text ++ pieces := by
  have htext {pieces : List Piece} (hback : ∀ text, trimBack pieces.head? text = text)
      (hsettle : settle false false pieces = pieces) (text : List Char) :
      settle false false (Piece.ofText text ++ pieces) = Piece.ofText text ++ pieces := by
    rw [Piece.ofText]
    split
    · exact hsettle
    · rw [List.cons_append, List.nil_append, settle, hsettle]
      simp [trimFront, hback]
  induction h generalizing text with
  | nil => exact htext (fun _ => rfl) rfl text
  | @slot place name after slots pieces alone hpieces ih =>
    apply htext (trimBack_slots (.slot alone hpieces))
    rw [settle]
    exact congrArg _ (ih after)

/-! ## Elements -/

/-- A text as elements: none if it is empty. -/
def textElements (text : List Char) : List Element :=
  if text.isEmpty then [] else [.text (String.ofList text)]

/-- The elements of slots from a place on: for each a value by its name where the slot stands, and the text after it. -/
def slotElements : Place → List (String × List Char) → List Element
  | _, [] => []
  | place, (name, text) :: slots =>
    .value place (.reference (nameReference name)) true ::
      (textElements text ++ slotElements (place.after (Stencil.tagSource name ++ text)) slots)

private theorem assemble_text (text : List Char) (done : List Element) (pieces : List Piece) :
    assemble [] done (Piece.ofText text ++ pieces) = assemble [] ((textElements text).reverse ++ done) pieces := by
  rw [Piece.ofText, textElements]
  split
  · rfl
  · rfl

private theorem assemble_slots {pieces : List Piece} (h : SlotPieces place slots pieces) (done : List Element) :
    assemble [] done pieces = some (done.reverse ++ slotElements place slots) := by
  induction h generalizing done with
  | nil => rw [assemble, slotElements, List.append_nil]
  | @slot place name text slots pieces alone _ ih =>
    rw [nameTag, assemble, assemble_text, ih, slotElements]
    simp

/-- A plain stencil is read as its texts and names, each where it stands. -/
theorem parse?_stencil {stencil : Stencil} (h : stencil.Plain) :
    parse? (String.ofList stencil.source)
      = some (textElements stencil.head ++ slotElements (Place.after ⟨1, 1⟩ stencil.head) stencil.slots) := by
  obtain ⟨hhead, hslots⟩ := h
  have hfuel : stencil.slots.length < stencil.source.length + 1 := by
    have hlength := length_le_slotsSource stencil.slots
    rw [Stencil.source, List.length_append]
    omega
  obtain ⟨pieces, hpieces, hread⟩ := piecesFrom_slots ⟨[], ⟨1, 1⟩⟩ hhead hslots hfuel
  rw [Stencil.source] at hread ⊢
  rw [parse?, Template.pieces, String.toList_ofList, hread, Option.bind_some, settle_slots hpieces, assemble_text,
    assemble_slots hpieces]
  simp

/-! ## Rendering -/

theorem resolve_name (name : String) (members : List (String × Json)) :
    (Scope.start (.object members)).resolve (nameReference name)
      = .ok { value? := members.lookup name, path := (members.lookup name).map fun _ => [name], raw := some name } := by
  have hpath : (Scope.start (.object members)).atPath [name]
      = .ok { value? := members.lookup name, path := (members.lookup name).map fun _ => [name] } := by
    rw [Scope.atPath]
    cases hlookup : members.lookup name with
    | none => simp [follow, step, Scope.start, hlookup, bind, Except.bind, pure, Except.pure]
    | some v => simp [follow, step, Scope.start, hlookup, bind, Except.bind, pure, Except.pure]
  have hlook : (Scope.start (.object members)).look 0 [name] = (Scope.start (.object members)).atPath [name] := rfl
  simp only [Scope.resolve, nameReference, hlook, hpath, bind, Except.bind]
  rfl

theorem renderValue_name {name : String} {members : List (String × Json)} {value : String} (h : PlainName name)
    (hvalue : members.lookup name = some (.string value)) :
    renderValue (.reference (nameReference name)) true (Scope.start (.object members)) = .ok (escape value) := by
  have hraw : Helper.ofName? (nameReference name).raw = none := h.2.2.2
  simp only [renderValue, bind, Except.bind, hraw, operandOf, resolve_name, hvalue]
  rfl

theorem renderAll_text (text : List Char) (elements : List Element) (scope : Scope) :
    renderAll (textElements text ++ elements) scope
      = (renderAll elements scope).map fun shown => String.ofList text ++ shown := by
  rw [textElements]
  split
  · next hempty =>
    rw [List.isEmpty_iff.mp hempty, List.nil_append, String.ofList_nil]
    cases renderAll elements scope with
    | error e => rfl
    | ok shown => exact congrArg Except.ok String.empty_append.symm
  · rw [List.cons_append, List.nil_append, renderAll, renderElement]
    cases renderAll elements scope with
    | error e => rfl
    | ok shown => rfl

open Stencil in
private theorem renderAll_slots (place : Place) {members : List (String × Json)} {value : String → String}
    (hslots : ∀ slot ∈ slots, PlainName slot.1 ∧ members.lookup slot.1 = some (.string (value slot.1))) :
    renderAll (slotElements place slots) (Scope.start (.object members))
      = .ok (String.ofList (fillSlots (fun name => (escape (value name)).toList) slots)) := by
  induction slots generalizing place with
  | nil => rfl
  | cons slot slots ih =>
    obtain ⟨name, text⟩ := slot
    obtain ⟨hslot, hslots⟩ := List.forall_mem_cons.mp hslots
    have hrest : renderAll (textElements text ++ slotElements (place.after (tagSource name ++ text)) slots)
        (Scope.start (.object members))
          = .ok (String.ofList text ++ String.ofList (fillSlots (fun name => (escape (value name)).toList) slots)) := by
      rw [renderAll_text, ih _ hslots]
      rfl
    have hfirst : renderElement (.value place (.reference (nameReference name)) true) (Scope.start (.object members))
        = .ok (escape (value name)) := by
      rw [renderElement, renderValue_name hslot.1 hslot.2]
      rfl
    rw [slotElements, renderAll, hfirst, hrest]
    simp only [bind, Except.bind, pure, Except.pure, fillSlots, List.flatMap_cons, List.append_assoc,
      String.ofList_append, String.ofList_toList]

/-- A plain stencil renders as its texts with the escaped values in the places of their names. -/
theorem render_stencil {stencil : Stencil} (h : stencil.Plain) {members : List (String × Json)}
    {value : String → String} (hvalue : ∀ slot ∈ stencil.slots, members.lookup slot.1 = some (.string (value slot.1))) :
    render (String.ofList stencil.source) (.object members)
      = .ok (String.ofList (stencil.fill fun name => (escape (value name)).toList)) := by
  have hslots := renderAll_slots (Place.after ⟨1, 1⟩ stencil.head) fun slot hslot =>
    ⟨(h.2 slot hslot).1, hvalue slot hslot⟩
  rw [render, parse?_stencil h]
  simp only [renderAll_text, hslots, Stencil.fill, String.ofList_append]
  rfl

/-! ## Stencils one after another -/

theorem PlainText.append (h : PlainText text) (hrest : PlainText rest) : PlainText (text ++ rest) := by
  induction text with
  | nil => exact hrest
  | cons c text ih =>
    obtain ⟨hc, hbrace, htext⟩ := h.cons
    obtain ⟨hbackslash, hopening, hlast⟩ := ih htext
    refine ⟨?_, fun hsub => ?_, fun hend => ?_⟩
    · rw [List.cons_append, List.mem_cons, not_or]
      exact ⟨hc.symm, hbackslash⟩
    · rcases List.infix_cons_iff.mp hsub with hstart | hsub
      · obtain ⟨hc, htail⟩ := List.cons_prefix_cons.mp hstart
        obtain ⟨d, more, rfl, hd⟩ := hbrace hc.symm
        exact hd (List.cons_prefix_cons.mp htail).1.symm
      · exact hopening hsub
    · rw [List.cons_append, List.getLast?_cons] at hend
      cases hmore : (text ++ rest).getLast? with
      | none =>
        obtain ⟨rfl, -⟩ := List.append_eq_nil_iff.mp (List.getLast?_eq_none_iff.mp hmore)
        rw [hmore] at hend
        exact h.2.2 hend
      | some d =>
        rw [hmore] at hend
        exact hlast (hmore.trans hend)

namespace Stencil

variable {next : Stencil}

private theorem joinSlots_source (text : List Char) (slots : List (String × List Char)) (next : Stencil) :
    (joinSlots text slots next).source = text ++ slotsSource slots ++ next.source := by
  induction slots generalizing text with
  | nil => simp [joinSlots, source, slotsSource]
  | cons slot slots ih =>
    obtain ⟨name, after⟩ := slot
    have hrest := ih after
    rw [source] at hrest
    rw [joinSlots, source, slotsSource_cons, slotsSource_cons, hrest]
    simp only [List.append_assoc]

private theorem joinSlots_plain (htext : PlainText text) (hslots : ∀ slot ∈ slots, PlainName slot.1 ∧ PlainText slot.2)
    (hnext : next.Plain) : (joinSlots text slots next).Plain := by
  induction slots generalizing text with
  | nil => exact ⟨htext.append hnext.1, hnext.2⟩
  | cons slot slots ih =>
    obtain ⟨name, after⟩ := slot
    obtain ⟨hslot, hslots⟩ := List.forall_mem_cons.mp hslots
    have hrest := ih hslot.2 hslots
    exact ⟨htext, List.forall_mem_cons.mpr ⟨⟨hslot.1, hrest.1⟩, hrest.2⟩⟩

private theorem joinSlots_names (text : List Char) (slots : List (String × List Char)) (next : Stencil) :
    (joinSlots text slots next).slots.map Prod.fst = slots.map Prod.fst ++ next.slots.map Prod.fst := by
  induction slots generalizing text with
  | nil => rfl
  | cons slot slots ih =>
    obtain ⟨name, after⟩ := slot
    rw [joinSlots]
    exact congrArg _ (ih after)

private theorem joinSlots_fill (value : String → List Char) (text : List Char) (slots : List (String × List Char))
    (next : Stencil) : (joinSlots text slots next).fill value = text ++ fillSlots value slots ++ next.fill value := by
  induction slots generalizing text with
  | nil => simp [joinSlots, fill, fillSlots]
  | cons slot slots ih =>
    obtain ⟨name, after⟩ := slot
    have hrest := ih after
    rw [fill] at hrest
    simp only [joinSlots, fill, fillSlots, List.flatMap_cons, List.append_assoc] at hrest ⊢
    rw [hrest]

theorem join_source (stencils : List Stencil) : (join stencils).source = stencils.flatMap source := by
  induction stencils with
  | nil => rfl
  | cons stencil stencils ih =>
    rw [List.flatMap_cons, ← ih]
    exact joinSlots_source stencil.head stencil.slots (join stencils)

theorem join_fill (value : String → List Char) (stencils : List Stencil) :
    (join stencils).fill value = stencils.flatMap (fill value) := by
  induction stencils with
  | nil => rfl
  | cons stencil stencils ih =>
    rw [List.flatMap_cons, ← ih]
    exact joinSlots_fill value stencil.head stencil.slots (join stencils)

theorem fill_length_le {value : String → List Char} {k : Nat} (h : ∀ name, (value name).length ≤ k)
    (stencil : Stencil) : (stencil.fill value).length ≤ stencil.source.length + k * stencil.slots.length := by
  have hslots (slots : List (String × List Char)) :
      (fillSlots value slots).length ≤ (slotsSource slots).length + k * slots.length := by
    induction slots with
    | nil => exact Nat.zero_le _
    | cons slot slots ih =>
      obtain ⟨name, text⟩ := slot
      have hname := h name
      simp only [fillSlots, slotsSource, List.flatMap_cons, List.length_append, List.length_cons, Nat.mul_succ] at ih ⊢
      omega
  have hrest := hslots stencil.slots
  simp only [fill, source, List.length_append]
  omega

theorem join_plain {stencils : List Stencil} (h : ∀ stencil ∈ stencils, stencil.Plain) : (join stencils).Plain := by
  induction stencils with
  | nil => decide
  | cons stencil stencils ih =>
    obtain ⟨hfirst, hrest⟩ := List.forall_mem_cons.mp h
    exact joinSlots_plain hfirst.1 hfirst.2 (ih hrest)

theorem join_names (stencils : List Stencil) :
    (join stencils).slots.map Prod.fst = stencils.flatMap fun stencil => stencil.slots.map Prod.fst := by
  induction stencils with
  | nil => rfl
  | cons stencil stencils ih =>
    rw [List.flatMap_cons, ← ih]
    exact joinSlots_names stencil.head stencil.slots (join stencils)

end Stencil

end Scaffold.Template
