import Mathlib.Data.List.DropRight
import Scaffold.Proofs.Json.Strings

/-!
# Skipping values

A value of the grammar is skipped, whatever its depth, up to the byte after it. The induction is on the derivation
of its text, for any brackets that are open around it.
-/

namespace Scaffold.Json

open Text (bytes)

/-! ## Blanks -/

private theorem isSpace_blank {blank : List Char} (h : Blank blank) {b : UInt8} (hb : b ∈ bytes blank) :
    isSpace b = true := by
  obtain ⟨c, hc, hbc⟩ := List.mem_flatMap.mp hb
  have hblank := h c hc
  simp only [List.mem_cons, List.not_mem_nil, or_false] at hblank
  rcases hblank with rfl | rfl | rfl | rfl
  all_goals
    rw [Text.encodeChar_ascii (by decide), List.mem_singleton] at hbc
    rw [hbc]
    decide

theorem skipSpace_blank {blank : List Char} (h : Blank blank) (rest : Bytes) :
    skipSpace (bytes blank ++ rest) = skipSpace rest :=
  List.dropWhile_append_of_pos fun _ hb => isSpace_blank h hb

private theorem skipSpace_cons {b : UInt8} (h : isSpace b = false) (rest : Bytes) : skipSpace (b :: rest) = b :: rest :=
  List.dropWhile_cons_of_neg (by simp [h])

private theorem skipSpace_idem (rest : Bytes) : skipSpace (skipSpace rest) = skipSpace rest :=
  List.dropWhile_idempotent isSpace rest

/-- The bytes that may follow a value, after blanks or at once. -/
def Ended (rest : Bytes) : Prop :=
  ∀ b ∈ rest.head?, isSpace b = true ∨ b ∈ [',', ']', '}'].map ascii

theorem ended_cons {c : Char} (h : c ∈ [',', ']', '}']) (rest : Bytes) : Ended (ascii c :: rest) := by
  intro b hb
  cases hb
  exact .inr (List.mem_map_of_mem h)

theorem ended_blank {blank : List Char} (h : Blank blank) {rest : Bytes} (hrest : Ended rest) :
    Ended (bytes blank ++ rest) := by
  intro b hb
  cases hbytes : bytes blank with
  | nil =>
    rw [hbytes] at hb
    exact hrest b hb
  | cons b' more =>
    rw [hbytes] at hb
    cases hb
    exact .inl (isSpace_blank h (hbytes ▸ List.mem_cons_self))

/-! ## Numbers -/

private theorem isDigit_ascii {c : Char} (h : c.isDigit = true) : c.toNat < 0x80 ∧ isDigit (ascii c) = true := by
  simp only [Char.isDigit, Bool.and_eq_true, decide_eq_true_eq, UInt32.le_iff_toNat_le] at h
  have hlow : 48 ≤ c.toNat := h.1
  have hhigh : c.toNat ≤ 57 := h.2
  refine ⟨by omega, ?_⟩
  simp only [isDigit, ascii, Bool.and_eq_true, decide_eq_true_eq, UInt8.le_iff_toNat_le, UInt8.toNat_ofNat',
    UInt8.reduceToNat]
  omega

private theorem ended_head {b : UInt8} {rest : Bytes} (h : Ended (b :: rest)) :
    isDigit b = false ∧ b ≠ ascii '.' ∧ b ≠ ascii 'e' ∧ b ≠ ascii 'E' := by
  rcases h b rfl with hspace | hseparator
  · simp only [isSpace, Bool.or_eq_true, beq_iff_eq] at hspace
    rcases hspace with ((rfl | rfl) | rfl) | rfl <;> decide
  · simp only [List.map_cons, List.map_nil, List.mem_cons, List.not_mem_nil, or_false] at hseparator
    rcases hseparator with rfl | rfl | rfl <;> decide

private theorem digits_dropWhile {cs : List Char} (h : Digits cs) {rest : Bytes}
    (hrest : startsWithDigit rest = false) :
    (bytes cs ++ rest).dropWhile isDigit = rest := by
  induction cs with
  | nil =>
    cases rest with
    | nil => rfl
    | cons b rest => exact List.dropWhile_cons_of_neg (by simpa [startsWithDigit] using hrest)
  | cons c cs ih =>
    obtain ⟨hascii, hdigit⟩ := isDigit_ascii (h c List.mem_cons_self)
    rw [Text.bytes_ascii _ hascii, List.cons_append, List.dropWhile_cons_of_pos hdigit]
    exact ih fun c hc => h c (List.mem_cons_of_mem _ hc)

private theorem skipPower_digits {sign cs : List Char} (hsign : sign ∈ [[], ['+'], ['-']]) (hcs : cs ≠ [])
    (h : Digits cs)
    {rest : Bytes} (hrest : startsWithDigit rest = false) : skipPower (bytes (sign ++ cs) ++ rest) = .ok rest := by
  obtain ⟨c, cs, rfl⟩ := List.exists_cons_of_ne_nil hcs
  obtain ⟨hascii, hdigit⟩ := isDigit_ascii (h c List.mem_cons_self)
  have hdrop := digits_dropWhile (fun d hd => h d (List.mem_cons_of_mem _ hd)) hrest
  have hplus : ascii c ≠ ascii '+' := fun heq => absurd (heq ▸ hdigit) (by decide)
  have hminus : ascii c ≠ ascii '-' := fun heq => absurd (heq ▸ hdigit) (by decide)
  simp only [List.mem_cons, List.not_mem_nil, or_false] at hsign
  rcases hsign with rfl | rfl | rfl
  · rw [List.nil_append, Text.bytes_ascii _ hascii]
    simp only [List.cons_append, skipPower, hplus, hminus, or_self, if_false, hdigit, if_true, hdrop]
  · rw [List.cons_append, List.nil_append, Text.bytes_ascii _ (by decide), Text.bytes_ascii _ hascii]
    simp only [List.cons_append, skipPower, true_or, if_true, hdigit, hdrop]
  · rw [List.cons_append, List.nil_append, Text.bytes_ascii _ (by decide), Text.bytes_ascii _ hascii]
    simp only [List.cons_append, skipPower, or_true, if_true, hdigit, hdrop]

private theorem ended_startsWithDigit {rest : Bytes} (h : Ended rest) : startsWithDigit rest = false := by
  cases rest with
  | nil => rfl
  | cons b rest => exact (ended_head h).1

private theorem skipAfterDigits_power {power : List Char} (h : PowerText power) {rest : Bytes} (hrest : Ended rest) :
    skipAfterDigits (bytes power ++ rest) = .ok rest ∧ startsWithDigit (bytes power ++ rest) = false := by
  have hdigit := ended_startsWithDigit hrest
  cases h with
  | none =>
    refine ⟨?_, hdigit⟩
    cases rest with
    | nil => rfl
    | cons b rest =>
      obtain ⟨-, -, he, hE⟩ := ended_head hrest
      rw [Text.bytes_nil, List.nil_append, skipAfterDigits, if_neg (not_or.mpr ⟨he, hE⟩)]
  | @digits e sign cs he hsign hcs hdigits =>
    have hletter : e.toNat < 0x80 ∧ (ascii e = ascii 'e' ∨ ascii e = ascii 'E') ∧ isDigit (ascii e) = false := by
      simp only [List.mem_cons, List.not_mem_nil, or_false] at he
      rcases he with rfl | rfl <;> decide
    rw [Text.bytes_ascii _ hletter.1, List.cons_append]
    refine ⟨?_, hletter.2.2⟩
    rw [skipAfterDigits, if_pos hletter.2.1]
    exact skipPower_digits hsign hcs hdigits hdigit

private theorem skipAfterWhole_parts {fraction power : List Char} (hfraction : FractionText fraction)
    (hpower : PowerText power)
    {rest : Bytes} (hrest : Ended rest) :
    skipAfterWhole (bytes (fraction ++ power) ++ rest) = .ok rest ∧
      startsWithDigit (bytes (fraction ++ power) ++ rest) = false := by
  obtain ⟨hskip, hdigit⟩ := skipAfterDigits_power hpower hrest
  cases hfraction with
  | none =>
    rw [List.nil_append]
    refine ⟨?_, hdigit⟩
    -- without a fraction no point comes next
    cases hbytes : bytes power ++ rest with
    | nil =>
      rw [hbytes] at hskip
      exact hskip
    | cons b more =>
      have hpoint : b ≠ ascii '.' := by
        rintro rfl
        cases hpower with
        | none =>
          rw [Text.bytes_nil, List.nil_append] at hbytes
          exact (ended_head (hbytes ▸ hrest)).2.1 rfl
        | @digits e sign cs he _ _ _ =>
          have hletter : e.toNat < 0x80 ∧ ascii e ≠ ascii '.' := by
            simp only [List.mem_cons, List.not_mem_nil, or_false] at he
            rcases he with rfl | rfl <;> decide
          rw [Text.bytes_ascii _ hletter.1] at hbytes
          exact hletter.2 (List.cons.inj hbytes).1
      rw [skipAfterWhole, if_neg hpoint, ← hbytes, hskip]
  | @digits cs hcs hdigits =>
    obtain ⟨c, cs, rfl⟩ := List.exists_cons_of_ne_nil hcs
    obtain ⟨hascii, hc⟩ := isDigit_ascii (hdigits c List.mem_cons_self)
    rw [List.cons_append, Text.bytes_ascii _ (by decide), List.cons_append]
    refine ⟨?_, rfl⟩
    have hdrop := digits_dropWhile hdigits hdigit
    rw [← List.append_assoc, ← Text.bytes_append] at hdrop
    have hstart : startsWithDigit (bytes (c :: cs ++ power) ++ rest) = true := by
      rw [List.cons_append, Text.bytes_ascii _ hascii]
      exact hc
    rw [skipAfterWhole, if_pos rfl, skipFraction, if_pos hstart, hdrop]
    exact hskip

private theorem skipNumber_parts {whole fraction power : List Char} (hwhole : WholeText whole)
    (hfraction : FractionText fraction) (hpower : PowerText power) {rest : Bytes} (hrest : Ended rest) :
    skipNumber (bytes (whole ++ (fraction ++ power)) ++ rest) = .ok rest := by
  obtain ⟨hskip, hdigit⟩ := skipAfterWhole_parts hfraction hpower hrest
  rw [Text.bytes_append, List.append_assoc]
  cases hwhole with
  | zero =>
    rw [Text.bytes_ascii _ (by decide), Text.bytes_nil, List.cons_append, List.nil_append, skipNumber, if_pos rfl, hdigit]
    exact hskip
  | @digits c cs hzero hdigits =>
    obtain ⟨hascii, hc⟩ := isDigit_ascii (hdigits c List.mem_cons_self)
    have hdrop := digits_dropWhile (fun d hd => hdigits d (List.mem_cons_of_mem _ hd)) hdigit
    have hne : ascii c ≠ ascii '0' := fun heq => hzero (ascii_inj hascii (by decide) heq)
    rw [Text.bytes_ascii _ hascii, List.cons_append, skipNumber, if_neg hne, if_pos hc, hdrop]
    exact hskip

/-! ## Values inside brackets -/

/-- Goes on at the place where a bracket needs its next value or name. -/
def goOn : List Bracket × Bytes → Except Fault Bytes
  | ([], rest) => .ok rest
  | (top :: below, rest) => (skipName top rest).bind (skipInside (top :: below))

/-- Goes on after a value. -/
def resume (brackets : List Bracket) (rest : Bytes) : Except Fault Bytes :=
  (closeBrackets true brackets rest).bind goOn

variable {brackets : List Bracket} {b : UInt8} {body rest : Bytes}

private theorem skipInside_step (body : Bytes) :
    skipInside brackets body =
      match skipStep brackets body with
      | .error fault => .error fault
      | .ok ([], rest) => .ok rest
      | .ok (top :: below, rest) => skipInside (top :: below) rest := by
  rw [skipInside.eq_def]
  split
  · rename_i hstep
    rw [hstep]
  · rename_i hstep
    rw [hstep]
  · rename_i hstep
    rw [hstep]

private theorem skipInside_token (h : skipSpace body = b :: rest) :
    skipInside brackets body = (skipToken brackets b rest).bind goOn := by
  rw [skipInside_step, skipStep, h]
  dsimp only
  cases htoken : skipToken brackets b rest with
  | error fault => rfl
  | ok left =>
    obtain ⟨left, more⟩ := left
    cases left with
    | nil => rfl
    | cons top below =>
      dsimp only [Except.bind]
      rw [goOn]
      cases skipName top more with
      | error fault => rfl
      | ok after => rfl

private theorem skipInside_space (body : Bytes) : skipInside brackets (skipSpace body) = skipInside brackets body := by
  cases h : skipSpace body with
  | nil => rw [skipInside_step, skipInside_step, skipStep, skipStep, h, skipSpace, List.dropWhile_nil]
  | cons b more =>
    have hspace : skipSpace (b :: more) = b :: more := by rw [← h, skipSpace_idem]
    rw [skipInside_token hspace, skipInside_token h]

private theorem goOn_space (top : Bracket) (body : Bytes) :
    goOn (top :: brackets, skipSpace body) = goOn (top :: brackets, body) := by
  cases top with
  | list => exact skipInside_space body
  | object => rw [goOn, goOn, skipName, skipName, skipSpace_idem]

private theorem skipInside_scalar (hspace : isSpace b = false) (hopens : Bracket.opens? b = none)
    (h : skipScalar b body = .ok rest) : skipInside brackets (b :: body) = resume brackets rest := by
  rw [skipInside_token (skipSpace_cons hspace body), skipToken, hopens, h]
  rfl

private theorem skipInside_empty (bracket : Bracket) {blank : List Char} (hspace : isSpace b = false)
    (hopens : Bracket.opens? b = some bracket) (h : Blank blank) :
    skipInside brackets (b :: (bytes blank ++ bracket.close :: rest)) = resume brackets rest := by
  have hclose : skipSpace (bracket.close :: rest) = bracket.close :: rest := by
    cases bracket with
    | list => rfl
    | object => rfl
  rw [skipInside_token (skipSpace_cons hspace _), skipToken, hopens]
  dsimp only
  rw [closeBrackets, skipSpace_blank h, hclose]
  simp only [if_true, resume]

private theorem skipInside_open {bracket : Bracket} {c : UInt8} {more : Bytes} (hspace : isSpace b = false)
    (hopens : Bracket.opens? b = some bracket) (hbody : skipSpace body = c :: more) (hc : c ≠ bracket.close) :
    skipInside brackets (b :: body) = goOn (bracket :: brackets, body) := by
  rw [skipInside_token (skipSpace_cons hspace _), skipToken, hopens, ← goOn_space, hbody]
  dsimp only
  rw [closeBrackets, hbody]
  simp only [if_neg hc, Bool.not_false, if_true]
  rfl

private theorem resume_comma {blank : List Char} (top : Bracket) (h : Blank blank) :
    resume (top :: brackets) (bytes blank ++ ascii ',' :: rest) = goOn (top :: brackets, rest) := by
  have hcomma : skipSpace (ascii ',' :: rest) = ascii ',' :: rest := rfl
  have hclose : ascii ',' ≠ top.close := by
    cases top with
    | list => decide
    | object => decide
  rw [resume, closeBrackets, skipSpace_blank h, hcomma]
  simp only [if_neg hclose, Bool.not_true, Bool.false_eq_true, if_false, if_true]
  rfl

private theorem resume_close {blank : List Char} (top : Bracket) (h : Blank blank) :
    resume (top :: brackets) (bytes blank ++ top.close :: rest) = resume brackets rest := by
  have hclose : skipSpace (top.close :: rest) = top.close :: rest := by
    cases top with
    | list => rfl
    | object => rfl
  rw [resume, closeBrackets, skipSpace_blank h, hclose]
  simp only [if_true, resume]

/-! ## Values of the grammar -/

/-- What skipping does with a text of each form, inside any brackets. -/
def Skipped : Form → List Char → Prop
  | .value, text => ∀ brackets rest, Ended rest → skipInside brackets (bytes text ++ rest) = resume brackets rest
  | .items, text => ∀ brackets rest, goOn (.list :: brackets, bytes text ++ ascii ']' :: rest) = resume brackets rest
  | .members, text =>
    ∀ brackets rest, goOn (.object :: brackets, bytes text ++ ascii '}' :: rest) = resume brackets rest

private theorem WholeText.head {whole : List Char} (h : WholeText whole) :
    ∃ c more, whole = c :: more ∧ c.isDigit = true := by
  cases h with
  | zero => exact ⟨'0', [], rfl, rfl⟩
  | @digits c more _ hdigits => exact ⟨c, more, rfl, hdigits c List.mem_cons_self⟩

private theorem digit_ne {b : UInt8} (h : isDigit b = true) {other : UInt8} (hother : isDigit other = false) :
    b ≠ other := by
  rintro rfl
  rw [h] at hother
  cases hother

private theorem isSpace_digit {b : UInt8} (h : isDigit b = true) : isSpace b = false := by
  rw [← Bool.not_eq_true]
  intro hspace
  simp only [isSpace, Bool.or_eq_true, beq_iff_eq] at hspace
  rcases hspace with ((rfl | rfl) | rfl) | rfl <;> exact absurd h (by decide)

private theorem skipInside_number {text : List Char} (h : NumberText text) (hrest : Ended rest) :
    skipInside brackets (bytes text ++ rest) = resume brackets rest := by
  obtain ⟨hsign, hwhole, hfraction, hpower⟩ := h
  have hskip := skipNumber_parts hwhole hfraction hpower hrest
  simp only [List.mem_cons, List.not_mem_nil, or_false] at hsign
  rcases hsign with rfl | rfl
  · obtain ⟨c, more, rfl, hc⟩ := hwhole.head
    obtain ⟨hascii, hdigit⟩ := isDigit_ascii hc
    rw [List.nil_append, List.cons_append, Text.bytes_ascii _ hascii, List.cons_append]
    rw [List.cons_append, Text.bytes_ascii _ hascii, List.cons_append] at hskip
    refine skipInside_scalar (isSpace_digit hdigit) ?_ ?_
    · rw [Bracket.opens?, if_neg (digit_ne hdigit rfl), if_neg (digit_ne hdigit rfl)]
    · rw [skipScalar, if_neg (digit_ne hdigit rfl), if_neg (digit_ne hdigit rfl), if_neg (digit_ne hdigit rfl),
        if_neg (digit_ne hdigit rfl), if_pos hdigit]
      exact hskip
  · rw [List.cons_append, List.nil_append, Text.bytes_ascii _ (by decide), List.cons_append]
    exact skipInside_scalar rfl rfl hskip

private theorem skipSpace_append {b : UInt8} {more : Bytes} (h : skipSpace body = b :: more) (rest : Bytes) :
    skipSpace (body ++ rest) = b :: (more ++ rest) := by
  rw [skipSpace, List.dropWhile_append]
  change (if (skipSpace body).isEmpty then _ else skipSpace body ++ rest) = _
  rw [h]
  rfl

/-- The first byte of a text that is no blank does not close a bracket. -/
def Starts (text : List Char) : Prop :=
  ∃ b more, skipSpace (bytes text) = b :: more ∧ ∀ bracket : Bracket, b ≠ bracket.close

private theorem starts_ascii {c : Char} {cs : List Char} (hc : c.toNat < 0x80) (hspace : isSpace (ascii c) = false)
    (hlist : ascii c ≠ ascii ']') (hobject : ascii c ≠ ascii '}') : Starts (c :: cs) := by
  refine ⟨ascii c, bytes cs, ?_, ?_⟩
  · rw [Text.bytes_ascii _ hc, skipSpace_cons hspace]
  · intro bracket
    cases bracket with
    | list => exact hlist
    | object => exact hobject

private theorem Starts.after_blank {blank cs : List Char} (hblank : Blank blank) (h : Starts cs) :
    Starts (blank ++ cs) := by
  rw [Starts, Text.bytes_append, skipSpace_blank hblank]
  exact h

private theorem Starts.append {cs : List Char} (h : Starts cs) (ds : List Char) : Starts (cs ++ ds) := by
  obtain ⟨b, more, hb, hclose⟩ := h
  rw [Starts, Text.bytes_append, skipSpace_append hb]
  exact ⟨b, _, rfl, hclose⟩

/-- A value, items or members do not start with what closes a bracket. -/
theorem Derives.starts {form : Form} {text : List Char} (h : Derives form text) : Starts text := by
  induction h with
  | nullWord => exact starts_ascii (by decide) rfl (by decide) (by decide)
  | trueWord => exact starts_ascii (by decide) rfl (by decide) (by decide)
  | falseWord => exact starts_ascii (by decide) rfl (by decide) (by decide)
  | number hnumber =>
    obtain ⟨hsign, hwhole, -, -⟩ := hnumber
    simp only [List.mem_cons, List.not_mem_nil, or_false] at hsign
    rcases hsign with rfl | rfl
    · obtain ⟨c, more, rfl, hc⟩ := hwhole.head
      obtain ⟨hc, hdigit⟩ := isDigit_ascii hc
      exact starts_ascii hc (isSpace_digit hdigit) (digit_ne hdigit rfl) (digit_ne hdigit rfl)
    · exact starts_ascii (by decide) rfl (by decide) (by decide)
  | string _ => exact starts_ascii (by decide) rfl (by decide) (by decide)
  | emptyList _ => exact starts_ascii (by decide) rfl (by decide) (by decide)
  | list _ _ => exact starts_ascii (by decide) rfl (by decide) (by decide)
  | emptyObject _ => exact starts_ascii (by decide) rfl (by decide) (by decide)
  | object _ _ => exact starts_ascii (by decide) rfl (by decide) (by decide)
  | lastItem hbefore _ _ ih => exact .after_blank hbefore (ih.append _)
  | item hbefore _ _ _ ih _ => exact .after_blank hbefore (ih.append _)
  | lastMember hbefore _ _ _ _ _ _ => exact .after_blank hbefore (starts_ascii (by decide) rfl (by decide) (by decide))
  | member hbefore _ _ _ _ _ _ _ _ => exact .after_blank hbefore (starts_ascii (by decide) rfl (by decide) (by decide))

private theorem goOn_name {before name colon : List Char} (hbefore : Blank before) (hname : StringText name)
    (hcolon : Blank colon) (value : List Char) (rest : Bytes) :
    goOn (.object :: brackets, bytes (before ++ '"' :: (name ++ '"' :: (colon ++ ':' :: value))) ++ rest)
      = skipInside (.object :: brackets) (bytes value ++ rest) := by
  have hquote (rest : Bytes) : skipSpace (ascii '"' :: rest) = ascii '"' :: rest := rfl
  have hmark (rest : Bytes) : skipSpace (ascii ':' :: rest) = ascii ':' :: rest := rfl
  rw [goOn, skipName, Text.bytes_append, List.append_assoc, skipSpace_blank hbefore, Text.bytes_ascii _ (by decide),
    List.cons_append, hquote]
  dsimp only
  rw [if_pos rfl, Text.bytes_append, List.append_assoc, Text.bytes_ascii _ (by decide), List.cons_append,
    skipString_text hname, Text.bytes_append, List.append_assoc]
  simp only [bind, Except.bind]
  rw [skipSpace_blank hcolon, Text.bytes_ascii _ (by decide), List.cons_append, hmark]
  rfl

private theorem skipInside_blank {blank : List Char} (h : Blank blank) (rest : Bytes) :
    skipInside brackets (bytes blank ++ rest) = skipInside brackets rest := by
  rw [← skipInside_space, skipSpace_blank h, skipInside_space]

theorem Derives.skipped {form : Form} {text : List Char} (h : Derives form text) : Skipped form text := by
  induction h with
  | nullWord => exact fun _ _ _ => skipInside_scalar rfl rfl rfl
  | trueWord => exact fun _ _ _ => skipInside_scalar rfl rfl rfl
  | falseWord => exact fun _ _ _ => skipInside_scalar rfl rfl rfl
  | number hnumber => exact fun _ _ hrest => skipInside_number hnumber hrest
  | string hstring =>
    intro brackets rest _
    rw [Text.bytes_ascii _ (by decide), Text.bytes_append, List.cons_append, List.append_assoc]
    exact skipInside_scalar rfl rfl (skipString_text hstring rest)
  | emptyList hblank =>
    intro brackets rest _
    rw [Text.bytes_ascii _ (by decide), Text.bytes_append, List.cons_append, List.append_assoc]
    exact skipInside_empty .list rfl rfl hblank
  | list hitems ih =>
    intro brackets rest _
    obtain ⟨b, more, hb, hclose⟩ := hitems.starts
    rw [Text.bytes_ascii _ (by decide), Text.bytes_append, List.cons_append, List.append_assoc]
    exact (skipInside_open rfl rfl (skipSpace_append hb _) (hclose .list)).trans (ih brackets rest)
  | emptyObject hblank =>
    intro brackets rest _
    rw [Text.bytes_ascii _ (by decide), Text.bytes_append, List.cons_append, List.append_assoc]
    exact skipInside_empty .object rfl rfl hblank
  | object hmembers ih =>
    intro brackets rest _
    obtain ⟨b, more, hb, hclose⟩ := hmembers.starts
    rw [Text.bytes_ascii _ (by decide), Text.bytes_append, List.cons_append, List.append_assoc]
    exact (skipInside_open rfl rfl (skipSpace_append hb _) (hclose .object)).trans (ih brackets rest)
  | lastItem hbefore _ hafter ih =>
    intro brackets rest
    rw [Text.bytes_append, Text.bytes_append, List.append_assoc, List.append_assoc]
    refine (skipInside_blank hbefore _).trans ?_
    rw [ih _ _ (ended_blank hafter (ended_cons (by decide) rest))]
    exact resume_close .list hafter
  | item hbefore _ hafter _ ih ihItems =>
    intro brackets rest
    rw [Text.bytes_append, Text.bytes_append, Text.bytes_append, Text.bytes_ascii _ (by decide)]
    simp only [List.append_assoc, List.cons_append]
    refine (skipInside_blank hbefore _).trans ?_
    rw [ih _ _ (ended_blank hafter (ended_cons (by decide) _)), resume_comma .list hafter]
    exact ihItems brackets rest
  | lastMember hbefore hname hcolon hblank _ hafter ih =>
    intro brackets rest
    rw [goOn_name hbefore hname hcolon, Text.bytes_append, Text.bytes_append, List.append_assoc, List.append_assoc,
      skipInside_blank hblank, ih _ _ (ended_blank hafter (ended_cons (by decide) rest))]
    exact resume_close .object hafter
  | member hbefore hname hcolon hblank _ hafter _ ih ihMembers =>
    intro brackets rest
    rw [goOn_name hbefore hname hcolon, Text.bytes_append, Text.bytes_append, Text.bytes_append,
      Text.bytes_ascii _ (by decide)]
    simp only [List.append_assoc, List.cons_append]
    rw [skipInside_blank hblank, ih _ _ (ended_blank hafter (ended_cons (by decide) _)), resume_comma .object hafter]
    exact ihMembers brackets rest

/-- A value of the grammar is skipped up to what ends it. -/
theorem skipValue_derives {blank text : List Char} (hblank : Blank blank) (h : Derives .value text)
    (hrest : Ended rest) : skipValue (bytes (blank ++ text) ++ rest) = .ok rest := by
  rw [skipValue, Text.bytes_append, List.append_assoc, skipInside_blank hblank]
  exact h.skipped [] rest hrest

end Scaffold.Json
