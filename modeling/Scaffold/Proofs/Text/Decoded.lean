import Scaffold.Proofs.Text.Encoded

/-!
# Decoded bytes

Only the bytes of a text decode to it, so two strings of bytes never decode to the same text.
-/

namespace Scaffold.Text

/-! ## Bytes of one character -/

private theorem isTail_range {b : UInt8} (h : isTail b = true) : 128 ≤ b.toNat ∧ b.toNat ≤ 191 := by
  simpa only [isTail, Bool.and_eq_true, decide_eq_true_eq, UInt8.le_iff_toNat_le, UInt8.reduceToNat] using h

/-- The bounds on a second byte keep out what has a shorter form, the surrogates, and what is above all characters. -/
private theorem isSecond_range {lead b : UInt8} (h : isSecond lead b = true) :
    128 ≤ b.toNat ∧ b.toNat ≤ 191 ∧ (lead.toNat = 224 → 160 ≤ b.toNat) ∧ (lead.toNat = 237 → b.toNat ≤ 159) ∧
      (lead.toNat = 240 → 144 ≤ b.toNat) ∧ (lead.toNat = 244 → b.toNat ≤ 143) := by
  simp only [isSecond, isTail, ← UInt8.toNat_inj, UInt8.le_iff_toNat_le, UInt8.reduceToNat] at h
  split at h
  · simp only [Bool.and_eq_true, decide_eq_true_eq] at h; omega
  · split at h
    · simp only [Bool.and_eq_true, decide_eq_true_eq] at h; omega
    · split at h
      · simp only [Bool.and_eq_true, decide_eq_true_eq] at h; omega
      · split at h
        · simp only [Bool.and_eq_true, decide_eq_true_eq] at h; omega
        · simp only [Bool.and_eq_true, decide_eq_true_eq] at h; omega

private theorem width?_range {a : UInt8} {n : Nat} (h : width? a = some n) :
    n = 1 ∧ a.toNat < 128 ∨ n = 2 ∧ 194 ≤ a.toNat ∧ a.toNat ≤ 223 ∨ n = 3 ∧ 224 ≤ a.toNat ∧ a.toNat ≤ 239 ∨
      n = 4 ∧ 240 ≤ a.toNat ∧ a.toNat ≤ 244 := by
  simp only [width?, Bool.and_eq_true, decide_eq_true_eq, UInt8.le_iff_toNat_le, UInt8.lt_iff_toNat_lt,
    UInt8.reduceToNat] at h
  repeat' split at h
  all_goals cases h
  all_goals omega

theorem encodeChar_ofNat {n : Nat} (h : n.isValidChar) :
    String.utf8EncodeChar (Char.ofNat n)
      = if n ≤ 127 then [UInt8.ofNat n]
        else if n ≤ 2047 then [UInt8.ofNat (n / 64 % 32 + 192), UInt8.ofNat (n % 64 + 128)]
        else if n ≤ 65535 then
          [UInt8.ofNat (n / 4096 % 16 + 224), UInt8.ofNat (n / 64 % 64 + 128), UInt8.ofNat (n % 64 + 128)]
        else
          [UInt8.ofNat (n / 262144 % 8 + 240), UInt8.ofNat (n / 4096 % 64 + 128), UInt8.ofNat (n / 64 % 64 + 128),
            UInt8.ofNat (n % 64 + 128)] := by
  have hval : (Char.ofNat n).val.toNat = n := by
    rw [Char.ofNat, dif_pos h]
    rfl
  rw [String.utf8EncodeChar, hval]

private theorem ofNat_eq (b : UInt8) {n : Nat} (h : n = b.toNat) : UInt8.ofNat n = b := by
  rw [h, UInt8.ofNat_toNat]

private theorem encodeChar_one {a : UInt8} (ha : width? a = some 1) :
    String.utf8EncodeChar (charOfBits a.toNat []) = [a] := by
  have ha := width?_range ha
  simp only [charOfBits, List.foldl_nil]
  rw [encodeChar_ofNat (.inl (by omega)), if_pos (by omega), ofNat_eq a rfl]

private theorem encodeChar_two {a b : UInt8} (ha : width? a = some 2) (hb : isTail b = true) :
    String.utf8EncodeChar (charOfBits (a.toNat % 32) [b]) = [a, b] := by
  have ha := width?_range ha
  have hb := isTail_range hb
  simp only [charOfBits, List.foldl_cons, List.foldl_nil]
  rw [encodeChar_ofNat (.inl (by omega)), if_neg (by omega), if_pos (by omega), ofNat_eq a (by omega),
    ofNat_eq b (by omega)]

private theorem encodeChar_three {a b c : UInt8} (ha : width? a = some 3) (hb : isSecond a b = true)
    (hc : isTail c = true) : String.utf8EncodeChar (charOfBits (a.toNat % 16) [b, c]) = [a, b, c] := by
  have ha := width?_range ha
  have hb := isSecond_range hb
  have hc := isTail_range hc
  simp only [charOfBits, List.foldl_cons, List.foldl_nil]
  rw [encodeChar_ofNat (by simp only [Nat.isValidChar]; omega), if_neg (by omega), if_neg (by omega),
    if_pos (by omega), ofNat_eq a (by omega), ofNat_eq b (by omega), ofNat_eq c (by omega)]

private theorem encodeChar_four {a b c d : UInt8} (ha : width? a = some 4) (hb : isSecond a b = true)
    (hc : isTail c = true) (hd : isTail d = true) :
    String.utf8EncodeChar (charOfBits (a.toNat % 8) [b, c, d]) = [a, b, c, d] := by
  have ha := width?_range ha
  have hb := isSecond_range hb
  have hc := isTail_range hc
  have hd := isTail_range hd
  simp only [charOfBits, List.foldl_cons, List.foldl_nil]
  rw [encodeChar_ofNat (by simp only [Nat.isValidChar]; omega), if_neg (by omega), if_neg (by omega),
    if_neg (by omega), ofNat_eq a (by omega), ofNat_eq b (by omega), ofNat_eq c (by omega), ofNat_eq d (by omega)]

theorem decodeChar_eq {bytes rest : Bytes} {c : Char} (h : decodeChar bytes = .ok (c, rest)) :
    bytes = String.utf8EncodeChar c ++ rest := by
  unfold decodeChar at h
  -- one case for each number of bytes, and within it one for each byte that is missing or wrong
  split at h
  · cases h
  · split at h
    · rename_i ha
      cases h
      rw [encodeChar_one ha]
      rfl
    · cases h
    · rename_i ha
      split at h
      · rename_i hb
        cases h
        rw [encodeChar_two ha hb]
        rfl
      · cases h
    · cases h
    · rename_i ha
      split at h
      · rename_i hb
        split at h
        · cases h
        · split at h
          · rename_i hc
            cases h
            rw [encodeChar_three ha hb hc]
            rfl
          · cases h
      · cases h
    · cases h
    · rename_i n _ _ hone htwo hthree ha
      have hn : n = 4 := by
        rcases width?_range ha with ⟨h, -⟩ | ⟨h, -⟩ | ⟨h, -⟩ | ⟨h, -⟩
        · exact (hone h).elim
        · exact (htwo h).elim
        · exact (hthree h).elim
        · exact h
      rw [hn] at ha
      split at h
      · rename_i hb
        split at h
        · cases h
        · split at h
          · rename_i hc
            split at h
            · cases h
            · split at h
              · rename_i hd
                cases h
                rw [encodeChar_four ha hb hc hd]
                rfl
              · cases h
          · cases h
      · cases h
    · cases h

/-! ## Texts -/

private theorem decodeFrom_eq {index : Nat} {seen cs : List Char} {bytes : Bytes}
    (h : decodeFrom index seen bytes = .ok cs) :
    ∃ own, cs = seen.reverse ++ own ∧ bytes = own.flatMap String.utf8EncodeChar := by
  induction index, seen, bytes using decodeFrom.induct with
  | case1 index seen =>
    rw [decodeFrom] at h
    cases h
    exact ⟨[], (List.append_nil _).symm, rfl⟩
  | case2 index seen b tail c rest hchar ih =>
    rw [decodeFrom] at h
    split at h
    · rename_i heq
      cases hchar.symm.trans heq
      obtain ⟨own, hcs, hrest⟩ := ih h
      refine ⟨c :: own, ?_, ?_⟩
      · rw [hcs, List.reverse_cons, List.append_assoc]
        rfl
      · rw [decodeChar_eq hchar, hrest, List.flatMap_cons]
    · rename_i heq
      cases hchar.symm.trans heq
  | case3 index seen b tail bad hchar =>
    rw [decodeFrom] at h
    split at h
    · rename_i heq
      cases hchar.symm.trans heq
    · cases h

theorem encode_of_decode {bytes : Bytes} {s : String} (h : decode bytes = .ok s) : encode s = bytes := by
  rw [decode] at h
  rcases hfrom : decodeFrom 0 [] bytes with _ | cs
  · rw [hfrom] at h
    cases h
  · rw [hfrom] at h
    cases h
    obtain ⟨own, rfl, hbytes⟩ := decodeFrom_eq hfrom
    rw [encode, String.toList_ofList, hbytes]

/-- A text is decoded from its own bytes and from no others. -/
theorem decode_eq_iff {bytes : Bytes} {s : String} : decode bytes = .ok s ↔ encode s = bytes := by
  constructor
  · exact encode_of_decode
  · rintro rfl
    exact decode_encode s

end Scaffold.Text
