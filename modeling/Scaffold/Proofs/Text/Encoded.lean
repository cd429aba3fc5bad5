import Scaffold.Text.Utf8

/-!
# Encoded texts

A text is found again in its bytes, so texts with the same bytes are the same. Characters of ASCII are single
bytes, and every other character takes bytes above them.
-/

namespace Scaffold.Text

/-! ## Bytes of one character -/

private theorem toNat_ofNat {n : Nat} (h : n < 256) : (UInt8.ofNat n).toNat = n := by
  rw [UInt8.toNat_ofNat', Nat.mod_eq_of_lt h]

private theorem tail_toNat {n : Nat} (h : n < 64) : (UInt8.ofNat (n + 128)).toNat % 64 = n := by
  rw [toNat_ofNat (by omega)]
  omega

private theorem isTail_ofNat {n : Nat} (h : n < 64) : isTail (UInt8.ofNat (n + 128)) = true := by
  have hn : (UInt8.ofNat (n + 128)).toNat = n + 128 := toNat_ofNat (by omega)
  simp only [isTail, Bool.and_eq_true, decide_eq_true_eq, UInt8.le_iff_toNat_le, hn, UInt8.reduceToNat]
  omega

private theorem width?_ofNat {n : Nat} (h : n < 256) :
    width? (UInt8.ofNat n)
      = if n < 128 then some 1
        else if 194 ≤ n ∧ n ≤ 223 then some 2
        else if 224 ≤ n ∧ n ≤ 239 then some 3
        else if 240 ≤ n ∧ n ≤ 244 then some 4
        else none := by
  simp only [width?, Bool.and_eq_true, decide_eq_true_eq, UInt8.le_iff_toNat_le, UInt8.lt_iff_toNat_lt,
    toNat_ofNat h, UInt8.reduceToNat]

private theorem isSecond_ofNat {lead n : Nat} (hlead : lead < 256) (h : n < 64) (hE0 : lead = 224 → 32 ≤ n)
    (hED : lead = 237 → n < 32) (hF0 : lead = 240 → 16 ≤ n) (hF4 : lead = 244 → n < 16) :
    isSecond (UInt8.ofNat lead) (UInt8.ofNat (n + 128)) = true := by
  have hn : (UInt8.ofNat (n + 128)).toNat = n + 128 := toNat_ofNat (by omega)
  simp only [isSecond, isTail_ofNat h, UInt8.le_iff_toNat_le,
    ← UInt8.toNat_inj, toNat_ofNat hlead, hn, UInt8.reduceToNat]
  split
  · simp only [Bool.and_eq_true, decide_eq_true_eq]; omega
  · split
    · simp only [Bool.and_eq_true, decide_eq_true_eq]; omega
    · split
      · simp only [Bool.and_eq_true, decide_eq_true_eq]; omega
      · split
        · simp only [Bool.and_eq_true, decide_eq_true_eq]; omega
        · rfl

private theorem valid_val (c : Char) :
    c.val.toNat < 0xD800 ∨ 0xDFFF < c.val.toNat ∧ c.val.toNat < 0x110000 :=
  c.valid

theorem decodeChar_encoded (c : Char) (rest : Bytes) :
    decodeChar (String.utf8EncodeChar c ++ rest) = .ok (c, rest) := by
  have hvalid := valid_val c
  have hchar {n : Nat} (h : n = c.val.toNat) : Char.ofNat n = c := h ▸ Char.ofNat_toNat c
  rw [String.utf8EncodeChar]
  generalize c.val.toNat = v at hvalid hchar
  -- one case for each number of bytes
  split
  · have hwidth : width? (UInt8.ofNat v) = some 1 := by rw [width?_ofNat (by omega), if_pos (by omega)]
    simp only [List.cons_append, List.nil_append, decodeChar, hwidth, charOfBits, List.foldl_nil]
    rw [hchar (toNat_ofNat (by omega))]
  · split
    · have hwidth : width? (UInt8.ofNat (v / 64 % 32 + 192)) = some 2 := by
        rw [width?_ofNat (by omega), if_neg (by omega), if_pos (by omega)]
      have hlead : (UInt8.ofNat (v / 64 % 32 + 192)).toNat = v / 64 % 32 + 192 := toNat_ofNat (by omega)
      simp only [List.cons_append, List.nil_append, decodeChar, hwidth, isTail_ofNat (Nat.mod_lt v (by decide)),
        if_true, charOfBits, List.foldl_cons, List.foldl_nil, hlead, tail_toNat (Nat.mod_lt v (by decide))]
      rw [hchar (by omega)]
    · have hlow : v % 64 < 64 := Nat.mod_lt _ (by decide)
      have hmiddle : v / 64 % 64 < 64 := Nat.mod_lt _ (by decide)
      split
      · have hwidth : width? (UInt8.ofNat (v / 4096 % 16 + 224)) = some 3 := by
          rw [width?_ofNat (by omega), if_neg (by omega), if_neg (by omega), if_pos (by omega)]
        have hlead : (UInt8.ofNat (v / 4096 % 16 + 224)).toNat = v / 4096 % 16 + 224 := toNat_ofNat (by omega)
        have hsecond : isSecond (UInt8.ofNat (v / 4096 % 16 + 224)) (UInt8.ofNat (v / 64 % 64 + 128)) = true :=
          isSecond_ofNat (by omega) hmiddle (by omega) (by omega) (by omega) (by omega)
        simp only [List.cons_append, List.nil_append, decodeChar, hwidth, hsecond, isTail_ofNat hlow, if_true,
          charOfBits, List.foldl_cons, List.foldl_nil, hlead, tail_toNat hlow, tail_toNat hmiddle]
        rw [hchar (by omega)]
      · have hhigh : v / 4096 % 64 < 64 := Nat.mod_lt _ (by decide)
        have hwidth : width? (UInt8.ofNat (v / 262144 % 8 + 240)) = some 4 := by
          rw [width?_ofNat (by omega), if_neg (by omega), if_neg (by omega), if_neg (by omega), if_pos (by omega)]
        have hlead : (UInt8.ofNat (v / 262144 % 8 + 240)).toNat = v / 262144 % 8 + 240 := toNat_ofNat (by omega)
        have hsecond : isSecond (UInt8.ofNat (v / 262144 % 8 + 240)) (UInt8.ofNat (v / 4096 % 64 + 128)) = true :=
          isSecond_ofNat (by omega) hhigh (by omega) (by omega) (by omega) (by omega)
        simp only [List.cons_append, List.nil_append, decodeChar, hwidth, hsecond, isTail_ofNat hlow,
          isTail_ofNat hmiddle, if_true, charOfBits, List.foldl_cons, List.foldl_nil, hlead, tail_toNat hlow,
          tail_toNat hmiddle, tail_toNat hhigh]
        rw [hchar (by omega)]

/-! ## Texts -/

theorem encodeChar_ne_nil (c : Char) : String.utf8EncodeChar c ≠ [] := by
  intro h
  have hchar := decodeChar_encoded c []
  rw [h] at hchar
  cases hchar

private theorem decodeFrom_encoded (index : Nat) (seen cs : List Char) :
    decodeFrom index seen (cs.flatMap String.utf8EncodeChar) = .ok (seen.reverse ++ cs) := by
  induction cs generalizing index seen with
  | nil =>
    rw [List.flatMap_nil, decodeFrom, List.append_nil]
  | cons c cs ih =>
    have hchar := decodeChar_encoded c (cs.flatMap String.utf8EncodeChar)
    rw [List.flatMap_cons]
    obtain ⟨b, tail, hbytes⟩ := List.exists_cons_of_ne_nil (encodeChar_ne_nil c)
    rw [hbytes, List.cons_append] at hchar ⊢
    rw [decodeFrom]
    split
    · rename_i heq
      rw [hchar] at heq
      cases heq
      rw [ih, List.reverse_cons, List.append_assoc]
      rfl
    · rename_i heq
      rw [hchar] at heq
      cases heq

/-- A text is found again in its bytes. -/
theorem decode_encode (s : String) : decode (encode s) = .ok s := by
  rw [decode, encode, decodeFrom_encoded]
  exact congrArg Except.ok (String.ofList_toList)

theorem length_encode (s : String) : (encode s).length = s.utf8ByteSize := by
  have hbytes := @String.toByteArray_ofList s.toList
  rw [String.ofList_toList] at hbytes
  rw [encode, String.utf8ByteSize, ← List.size_toByteArray, hbytes]
  rfl

theorem length_flatMap_encodeChar (cs : List Char) :
    cs.length ≤ (cs.flatMap String.utf8EncodeChar).length ∧
      (cs.flatMap String.utf8EncodeChar).length ≤ 4 * cs.length := by
  induction cs with
  | nil => decide
  | cons c cs ih =>
    have hpos := c.utf8Size_pos
    have hle := c.utf8Size_le_four
    rw [List.flatMap_cons, List.length_append, String.length_utf8EncodeChar, List.length_cons]
    omega

theorem encode_injective {s t : String} (h : encode s = encode t) : s = t := by
  have hdecode := decode_encode s
  rw [h, decode_encode t] at hdecode
  exact (Except.ok.inj hdecode).symm

end Scaffold.Text
