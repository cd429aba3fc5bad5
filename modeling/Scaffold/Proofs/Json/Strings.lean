import Scaffold.Json.Skip
import Scaffold.Proofs.Json.Grammar

/-!
# Reading strings

A string is read as the text that it spells, whichever spelling is used for each character, and the reading ends
right after its closing quote. A string that is skipped need not spell anything.
-/

namespace Scaffold.Json

open Text (bytes)

/-! ## Bytes -/

theorem ascii_inj {c d : Char} (hc : c.toNat < 0x80) (hd : d.toNat < 0x80) (h : ascii c = ascii d) : c = d := by
  have hnat := congrArg UInt8.toNat h
  simp only [ascii, UInt8.toNat_ofNat'] at hnat
  exact Char.toNat_inj.mp (by omega)

private theorem encodeChar_plain {c : Char} (h : Plain c) {b : UInt8} (hb : b ∈ String.utf8EncodeChar c) :
    b ≠ ascii '"' ∧ b ≠ ascii '\\' ∧ ¬b < 0x20 := by
  obtain ⟨hcontrol, hquote, hbackslash⟩ := h
  by_cases hc : c.toNat < 0x80
  · rw [Text.encodeChar_ascii hc, List.mem_singleton] at hb
    subst hb
    refine ⟨fun heq => hquote (ascii_inj hc (by decide) heq), fun heq => hbackslash (ascii_inj hc (by decide) heq), ?_⟩
    simp only [UInt8.lt_iff_toNat_lt, ascii, UInt8.toNat_ofNat', UInt8.reduceToNat]
    omega
  · have habove := Text.encodeChar_above hc hb
    refine ⟨?_, ?_, UInt8.not_lt.mpr (UInt8.le_trans (by decide) habove)⟩
    · rintro rfl
      exact absurd habove (by decide)
    · rintro rfl
      exact absurd habove (by decide)

/-! ## Escapes -/

private theorem hexDigit_byte {n : Nat} {c : Char} (h : HexDigit n c) :
    c.toNat < 0x80 ∧ hexValue (ascii c) = some n := by
  let read (c : Char) : Bool × Option Nat := (c.toNat < 0x80, hexValue (ascii c))
  have hlower : ∀ k : Fin 16, "0123456789abcdef".toList[k.val]?.map read = some (true, some k.val) := by decide
  have hupper : ∀ k : Fin 16, "0123456789ABCDEF".toList[k.val]?.map read = some (true, some k.val) := by decide
  have hread : (some c).map read = some (true, some n) := by
    rcases h with h | h
    · exact h ▸ hlower ⟨n, (List.getElem?_eq_some_iff.mp h).1⟩
    · exact h ▸ hupper ⟨n, (List.getElem?_eq_some_iff.mp h).1⟩
  simpa [read] using hread

private theorem readHex4_bytes {n : Nat} {hex : List Char} (h : Hex4 n hex) (rest : Bytes) :
    readHex4 (bytes hex ++ rest) = .ok (n, rest) := by
  obtain ⟨ha, hb, hc, hd⟩ := h
  obtain ⟨ha, hva⟩ := hexDigit_byte ha
  obtain ⟨hb, hvb⟩ := hexDigit_byte hb
  obtain ⟨hc, hvc⟩ := hexDigit_byte hc
  obtain ⟨hd, hvd⟩ := hexDigit_byte hd
  rw [Text.bytes_ascii _ ha, Text.bytes_ascii _ hb, Text.bytes_ascii _ hc, Text.bytes_ascii _ hd, Text.bytes_nil]
  simp only [List.cons_append, List.nil_append, readHex4, hva, hvb, hvc, hvd]

private theorem shortForm_byte {c letter : Char} (h : (c, letter) ∈ shortForms) :
    letter.toNat < 0x80 ∧ ascii letter ≠ ascii 'u' ∧ shortEscape (ascii letter) = some c := by
  have hforms : ∀ p ∈ shortForms,
      p.2.toNat < 0x80 ∧ ascii p.2 ≠ ascii 'u' ∧ shortEscape (ascii p.2) = some p.1 := by decide
  exact hforms (c, letter) h

private theorem char_valid (c : Char) : c.toNat < 0xD800 ∨ 0xDFFF < c.toNat ∧ c.toNat < 0x110000 :=
  c.valid

theorem Spells.cases_read {c : Char} {text : List Char} (h : Spells c text) :
    (Plain c ∧ text = [c]) ∨
      ∃ escape, text = '\\' :: escape ∧ ∀ rest, readEscape (bytes escape ++ rest) = .ok (c, rest) := by
  cases h with
  | plain hplain => exact .inl ⟨hplain, rfl⟩
  | @short letter hshort =>
    obtain ⟨hascii, hu, hletter⟩ := shortForm_byte hshort
    refine .inr ⟨[letter], rfl, fun rest => ?_⟩
    rw [Text.bytes_ascii _ hascii, Text.bytes_nil]
    simp only [List.cons_append, List.nil_append, readEscape, if_neg hu, hletter]
  | @unit hex hhex =>
    refine .inr ⟨'u' :: hex, rfl, fun rest => ?_⟩
    have hvalid := char_valid c
    rw [Text.bytes_ascii _ (by decide)]
    simp only [List.cons_append, readEscape, if_true, readHex4_bytes hhex, bind, Except.bind]
    rw [if_neg (by omega), if_neg (by omega)]
    exact congrArg (fun d => Except.ok (d, rest)) (Char.ofNat_toNat c)
  | @pair high low hlarge hhigh hlow =>
    refine .inr ⟨'u' :: (high ++ ['\\', 'u'] ++ low), by simp, fun rest => ?_⟩
    have hvalid := char_valid c
    have hpair : 0x10000 + (0xD800 + (c.toNat - 0x10000) / 0x400 - 0xD800) * 0x400
        + (0xDC00 + (c.toNat - 0x10000) % 0x400 - 0xDC00) = c.toNat := by omega
    have hread : readPair (0xD800 + (c.toNat - 0x10000) / 0x400) (bytes (['\\', 'u'] ++ low) ++ rest)
        = .ok (c, rest) := by
      rw [List.cons_append, List.cons_append, List.nil_append, Text.bytes_ascii _ (by decide),
        Text.bytes_ascii _ (by decide)]
      simp only [List.cons_append, readPair, bne_self_eq_false, Bool.false_eq_true, if_false, readHex4_bytes hlow, bind,
        Except.bind]
      rw [if_neg (by omega), hpair, Char.ofNat_toNat]
    rw [Text.bytes_ascii _ (by decide), List.append_assoc, Text.bytes_append, List.cons_append, List.append_assoc]
    simp only [readEscape, if_true, readHex4_bytes hhigh, bind, Except.bind]
    rw [if_neg (by omega), if_pos (by omega)]
    exact hread

/-! ## Reading -/

private theorem readChars_escape {seen : List Char} {bytes rest : Bytes} {c : Char}
    (h : readEscape bytes = .ok (c, rest)) : readChars seen (ascii '\\' :: bytes) = readChars (c :: seen) rest := by
  rw [readChars, if_neg (by decide), if_pos rfl]
  split
  · rename_i heq
    rw [h] at heq
    cases heq
    rfl
  · rename_i heq
    rw [h] at heq
    cases heq

private theorem readChars_plain {c : Char} (h : Plain c) (seen : List Char) (rest : Bytes) :
    readChars seen (String.utf8EncodeChar c ++ rest) = readChars (c :: seen) rest := by
  have hdecode := Text.decodeChar_encoded c rest
  obtain ⟨b, tail, hbytes⟩ := List.exists_cons_of_ne_nil (Text.encodeChar_ne_nil c)
  obtain ⟨hquote, hbackslash, hcontrol⟩ := encodeChar_plain h (b := b) (by rw [hbytes]; exact List.mem_cons_self)
  rw [hbytes, List.cons_append] at hdecode ⊢
  rw [readChars, if_neg hquote, if_neg hbackslash, if_neg hcontrol]
  split
  · rename_i heq
    rw [hdecode] at heq
    cases heq
    rfl
  · rename_i heq
    rw [hdecode] at heq
    cases heq

private theorem readChars_spells {c : Char} {text : List Char} (h : Spells c text) (seen : List Char) (rest : Bytes) :
    readChars seen (bytes text ++ rest) = readChars (c :: seen) rest := by
  rcases h.cases_read with ⟨hplain, rfl⟩ | ⟨escape, rfl, hread⟩
  · rw [Text.bytes_cons, Text.bytes_nil, List.append_nil]
    exact readChars_plain hplain seen rest
  · rw [Text.bytes_ascii _ (by decide)]
    exact readChars_escape (hread rest)

private theorem readChars_spelled {cs text : List Char} (h : Spelled cs text) (seen : List Char) (rest : Bytes) :
    readChars seen (bytes text ++ ascii '"' :: rest) = .ok (seen.reverse ++ cs, rest) := by
  induction h generalizing seen with
  | nil =>
    rw [Text.bytes_nil, List.nil_append, readChars, if_pos rfl, List.append_nil]
  | cons hchar _ ih =>
    rw [Text.bytes_append, List.append_assoc, readChars_spells hchar, ih, List.reverse_cons, List.append_assoc]
    rfl

/-- A string is read as the text it spells, up to its closing quote. -/
theorem readString_spelled {cs text : List Char} (h : Spelled cs text) (rest : Bytes) :
    readString (bytes text ++ ascii '"' :: rest) = .ok (String.ofList cs, rest) := by
  simp only [readString, readChars_spelled h, bind, Except.bind]
  rfl

/-! ## Skipping -/

private theorem skipString_inner {inner : Bytes}
    (h : ∀ b ∈ inner, b ≠ ascii '"' ∧ b ≠ ascii '\\' ∧ ¬b < 0x20) (rest : Bytes) :
    skipString (inner ++ rest) = skipString rest := by
  induction inner with
  | nil => rfl
  | cons b inner ih =>
    obtain ⟨hquote, hbackslash, hcontrol⟩ := h b List.mem_cons_self
    rw [List.cons_append, skipString.eq_def]
    simp only [if_neg hquote, if_neg hbackslash, if_neg hcontrol]
    exact ih fun b hb => h b (List.mem_cons_of_mem _ hb)

private theorem skipString_short {c letter : Char} (h : (c, letter) ∈ shortForms) (rest : Bytes) :
    skipString (ascii '\\' :: ascii letter :: rest) = skipString rest := by
  obtain ⟨-, hu, hletter⟩ := shortForm_byte h
  rw [skipString, if_neg (by decide), if_pos rfl]
  simp only [if_neg hu, hletter, Option.isSome_some, if_true]

private theorem skipString_unit {n : Nat} {bytes rest : Bytes} (h : readHex4 bytes = .ok (n, rest)) :
    skipString (ascii '\\' :: ascii 'u' :: bytes) = skipString rest := by
  rw [skipString, if_neg (by decide), if_pos rfl]
  simp only [if_true]
  split
  · rename_i heq
    rw [h] at heq
    cases heq
    rfl
  · rename_i heq
    rw [h] at heq
    cases heq

theorem skipString_text {text : List Char} (h : StringText text) (rest : Bytes) :
    skipString (bytes text ++ ascii '"' :: rest) = .ok rest := by
  induction h with
  | nil =>
    rw [Text.bytes_nil, List.nil_append, skipString.eq_def]
    exact if_pos rfl
  | plain hplain _ ih =>
    rw [Text.bytes_cons, List.append_assoc, skipString_inner fun b hb => encodeChar_plain hplain hb]
    exact ih
  | short hshort _ ih =>
    rw [List.cons_append, List.cons_append, List.nil_append, Text.bytes_ascii _ (by decide),
      Text.bytes_ascii _ (shortForm_byte hshort).1, List.cons_append, List.cons_append, skipString_short hshort]
    exact ih
  | unit hhex _ ih =>
    rw [List.append_assoc, List.cons_append, List.cons_append, List.nil_append, Text.bytes_ascii _ (by decide),
      Text.bytes_ascii _ (by decide), List.cons_append, List.cons_append, Text.bytes_append, List.append_assoc,
      skipString_unit (readHex4_bytes hhex _)]
    exact ih

end Scaffold.Json
