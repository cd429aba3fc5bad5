import Scaffold.Proofs.Text.Decoded

/-!
# Well-formed bytes

UTF-8 as a way to write numbers, with the rule which numbers may be written and how: in the shortest form, no
surrogates, and nothing above all characters. The bytes of texts are those that keep the rule from end to end, and where
there is no text the decoder says how far they keep it.
-/

namespace Scaffold.Text

/-- A number in one to four bytes. The first byte says how many there are and has the highest bits, and each byte after
it has six more. -/
inductive Form : Nat → Nat → Bytes → Prop where
  | one {v : Nat} (h : v < 0x80) : Form 1 v [UInt8.ofNat v]
  | two {v : Nat} (h : v < 0x800) : Form 2 v [UInt8.ofNat (0xC0 + v / 64), UInt8.ofNat (0x80 + v % 64)]
  | three {v : Nat} (h : v < 0x10000) :
      Form 3 v [UInt8.ofNat (0xE0 + v / 4096), UInt8.ofNat (0x80 + v / 64 % 64), UInt8.ofNat (0x80 + v % 64)]
  | four {v : Nat} (h : v < 0x200000) :
      Form 4 v [UInt8.ofNat (0xF0 + v / 262144), UInt8.ofNat (0x80 + v / 4096 % 64), UInt8.ofNat (0x80 + v / 64 % 64),
        UInt8.ofNat (0x80 + v % 64)]

/-- A number may not be written in so many bytes. -/
inductive Barred (width v : Nat) : Prop where
  | overlong {n : Nat} {bytes : Bytes} (h : Form n v bytes) (hn : n < width)
  | surrogate (low : 0xD800 ≤ v) (high : v ≤ 0xDFFF)
  | tooLarge (h : 0x10FFFF < v)

inductive WellFormed : Bytes → Prop where
  | nil : WellFormed []
  | cons {width v : Nat} {front rest : Bytes} (h : Form width v front) (allowed : ¬Barred width v)
      (hrest : WellFormed rest) : WellFormed (front ++ rest)

/-- So many bytes from the start are well formed, and no more. -/
structure WellFormedUpTo (bytes : Bytes) (n : Nat) : Prop where
  inside : n ≤ bytes.length
  wellFormed : WellFormed (bytes.take n)
  longest : ∀ front, front <+: bytes → WellFormed front → front.length ≤ n

variable {n m v w : Nat} {front other before after bytes rest : Bytes}

/-! ## Forms of characters -/

theorem Form.bytes_unique (h : Form n v front) (hother : Form n v other) : front = other := by
  cases h <;> cases hother <;> rfl

private theorem form_ofNat (h : v.isValidChar) :
    ∃ n, Form n v (String.utf8EncodeChar (Char.ofNat v)) ∧ ∀ m bytes, Form m v bytes → n ≤ m := by
  rw [encodeChar_ofNat h]
  simp only [Nat.isValidChar] at h
  -- in each case the number is too large for fewer bytes
  split
  · refine ⟨1, .one (by omega), ?_⟩
    intro m bytes hform
    cases hform <;> omega
  · split
    · rw [Nat.mod_eq_of_lt (by omega), Nat.add_comm _ 192, Nat.add_comm _ 128]
      refine ⟨2, .two (by omega), ?_⟩
      intro m bytes hform
      cases hform <;> omega
    · split
      · rw [Nat.mod_eq_of_lt (by omega), Nat.add_comm _ 224, Nat.add_comm _ 128, Nat.add_comm _ 128]
        refine ⟨3, .three (by omega), ?_⟩
        intro m bytes hform
        cases hform <;> omega
      · rw [Nat.mod_eq_of_lt (by omega), Nat.add_comm _ 240, Nat.add_comm _ 128, Nat.add_comm _ 128,
          Nat.add_comm _ 128]
        refine ⟨4, .four (by omega), ?_⟩
        intro m bytes hform
        cases hform <;> omega

private theorem isValidChar_of_allowed (h : ¬Barred n v) : v.isValidChar := by
  have hlarge : ¬0x10FFFF < v := fun hv => h (.tooLarge hv)
  have hsurrogate : ¬(0xD800 ≤ v ∧ v ≤ 0xDFFF) := fun hv => h (.surrogate hv.1 hv.2)
  simp only [Nat.isValidChar]
  omega

theorem Form.eq_encodeChar (h : Form n v front) (allowed : ¬Barred n v) :
    front = String.utf8EncodeChar (Char.ofNat v) := by
  obtain ⟨m, hform, hfewest⟩ := form_ofNat (isValidChar_of_allowed allowed)
  have hle : m ≤ n := hfewest n front h
  have hge : ¬m < n := fun hlt => allowed (.overlong hform hlt)
  obtain rfl : n = m := by omega
  exact h.bytes_unique hform

private theorem form_encodeChar (c : Char) : ∃ n v, Form n v (String.utf8EncodeChar c) ∧ ¬Barred n v := by
  have hvalid : c.toNat.isValidChar := c.valid
  obtain ⟨n, hform, hfewest⟩ := form_ofNat hvalid
  rw [Char.ofNat_toNat] at hform
  refine ⟨n, c.toNat, hform, ?_⟩
  simp only [Nat.isValidChar] at hvalid
  intro hbarred
  cases hbarred with
  | overlong hother hlt => exact absurd (hfewest _ _ hother) (by omega)
  | surrogate low high => omega
  | tooLarge hlarge => omega

/-! ## Bytes of texts -/

private theorem wellFormed_flatMap (cs : List Char) : WellFormed (cs.flatMap String.utf8EncodeChar) := by
  induction cs with
  | nil => exact .nil
  | cons c cs ih =>
    obtain ⟨n, v, hform, allowed⟩ := form_encodeChar c
    rw [List.flatMap_cons]
    exact .cons hform allowed ih

theorem WellFormed.exists_chars (h : WellFormed bytes) :
    ∃ cs : List Char, cs.flatMap String.utf8EncodeChar = bytes := by
  induction h with
  | nil => exact ⟨[], rfl⟩
  | @cons n v front rest hform allowed _ ih =>
    obtain ⟨cs, rfl⟩ := ih
    refine ⟨Char.ofNat v :: cs, ?_⟩
    rw [List.flatMap_cons, hform.eq_encodeChar allowed]

/-- The well-formed strings of bytes are the bytes of texts. -/
theorem wellFormed_iff : WellFormed bytes ↔ ∃ text, encode text = bytes := by
  constructor
  · intro h
    obtain ⟨cs, hcs⟩ := h.exists_chars
    refine ⟨String.ofList cs, ?_⟩
    rw [encode, String.toList_ofList, hcs]
  · rintro ⟨text, rfl⟩
    exact wellFormed_flatMap text.toList

/-! ## Bytes of no text -/

/-- The decoder ends with an error right after the characters that it could read. -/
theorem decodeFrom_error {index : Nat} {seen : List Char} {fault : Utf8Fault}
    (h : decodeFrom index seen bytes = .error fault) :
    ∃ (cs : List Char) (rest : Bytes), bytes = cs.flatMap String.utf8EncodeChar ++ rest ∧
      fault.validUpTo = index + (cs.flatMap String.utf8EncodeChar).length ∧
      decodeChar rest = .error fault.badLength := by
  induction index, seen, bytes using decodeFrom.induct with
  | case1 index seen =>
    rw [decodeFrom] at h
    cases h
  | case2 index seen b tail c rest hchar ih =>
    rw [decodeFrom] at h
    split at h
    · rename_i heq
      cases hchar.symm.trans heq
      obtain ⟨cs, last, hrest, hindex, hlast⟩ := ih h
      refine ⟨c :: cs, last, ?_, ?_, hlast⟩
      · rw [decodeChar_eq hchar, hrest, List.flatMap_cons, List.append_assoc]
      · rw [hindex, List.flatMap_cons, List.length_append, String.length_utf8EncodeChar, Nat.add_assoc]
    · rename_i heq
      cases hchar.symm.trans heq
  | case3 index seen b tail bad hchar =>
    rw [decodeFrom] at h
    split at h
    · rename_i heq
      cases hchar.symm.trans heq
    · rename_i heq
      cases hchar.symm.trans heq
      cases h
      exact ⟨[], b :: tail, rfl, rfl, hchar⟩

private theorem length_le_of_decodeChar_error {bad : Option Nat} {cs ds : List Char}
    (hbad : decodeChar rest = .error bad)
    (h : ds.flatMap String.utf8EncodeChar <+: cs.flatMap String.utf8EncodeChar ++ rest) :
    (ds.flatMap String.utf8EncodeChar).length ≤ (cs.flatMap String.utf8EncodeChar).length := by
  induction ds generalizing cs with
  | nil => exact Nat.zero_le _
  | cons d ds ih =>
    obtain ⟨after, hafter⟩ := h
    rw [List.flatMap_cons, List.append_assoc] at hafter
    cases cs with
    | nil =>
      rw [List.flatMap_nil, List.nil_append] at hafter
      rw [← hafter, decodeChar_encoded] at hbad
      cases hbad
    | cons c cs =>
      rw [List.flatMap_cons, List.append_assoc] at hafter
      have hsame := congrArg decodeChar hafter
      rw [decodeChar_encoded, decodeChar_encoded] at hsame
      obtain ⟨rfl, hrest⟩ := Prod.mk.inj (Except.ok.inj hsame)
      have hle := ih ⟨after, hrest⟩
      simp only [List.flatMap_cons, List.length_append]
      omega

/-- Bytes of no text are refused with the length of their longest well-formed beginning. -/
theorem decode_error_upTo {fault : Utf8Fault} (h : decode bytes = .error fault) :
    WellFormedUpTo bytes fault.validUpTo := by
  rw [decode] at h
  rcases hfrom : decodeFrom 0 [] bytes with own | cs
  · rw [hfrom] at h
    cases h
    obtain ⟨cs, rest, rfl, hindex, hbad⟩ := decodeFrom_error hfrom
    rw [Nat.zero_add] at hindex
    rw [hindex]
    constructor
    · rw [List.length_append]
      omega
    · rw [List.take_left]
      exact wellFormed_flatMap cs
    · intro front hfront hwell
      obtain ⟨ds, rfl⟩ := hwell.exists_chars
      exact length_le_of_decodeChar_error hbad hfront
  · rw [hfrom] at h
    cases h

/-! ## Barred forms -/

/-- How many bytes a first byte announces, and none when it cannot come first. -/
def announced (b : UInt8) : Nat :=
  if b.toNat < 0x80 then 1
  else if b.toNat < 0xC0 then 0
  else if b.toNat < 0xE0 then 2
  else if b.toNat < 0xF0 then 3
  else 4

private theorem announced_tail (v : Nat) : announced (UInt8.ofNat (0x80 + v % 64)) = 0 := by
  rw [announced, UInt8.toNat_ofNat', if_neg (by omega), if_pos (by omega)]

/-- The first byte of a form announces all of it, and no byte after that one announces any. -/
theorem Form.exists_cons (h : Form n v front) :
    ∃ lead tails, front = lead :: tails ∧ announced lead = n ∧ ∀ b ∈ tails, announced b = 0 := by
  cases h with
  | one h =>
    refine ⟨_, _, rfl, ?_, List.forall_mem_nil _⟩
    rw [announced, UInt8.toNat_ofNat', if_pos (by omega)]
  | two h =>
    refine ⟨_, _, rfl, ?_, ?_⟩
    · rw [announced, UInt8.toNat_ofNat', if_neg (by omega), if_neg (by omega), if_pos (by omega)]
    · exact List.forall_mem_singleton.mpr (announced_tail _)
  | three h =>
    refine ⟨_, _, rfl, ?_, ?_⟩
    · rw [announced, UInt8.toNat_ofNat', if_neg (by omega), if_neg (by omega), if_neg (by omega), if_pos (by omega)]
    · exact List.forall_mem_cons.mpr ⟨announced_tail _, List.forall_mem_singleton.mpr (announced_tail _)⟩
  | four h =>
    refine ⟨_, _, rfl, ?_, ?_⟩
    · rw [announced, UInt8.toNat_ofNat', if_neg (by omega), if_neg (by omega), if_neg (by omega), if_neg (by omega)]
    · exact List.forall_mem_cons.mpr ⟨announced_tail _, List.forall_mem_cons.mpr
        ⟨announced_tail _, List.forall_mem_singleton.mpr (announced_tail _)⟩⟩

theorem Form.length_eq (h : Form n v front) : front.length = n := by
  cases h <;> rfl

theorem Form.pos (h : Form n v front) : 0 < n := by
  cases h <;> decide

theorem Form.value_unique (h : Form n v front) (hother : Form n w front) : v = w := by
  generalize hown : front = own at hother
  cases h <;> cases hother <;>
    simp only [List.cons.injEq, ← UInt8.toNat_inj, UInt8.toNat_ofNat'] at hown <;> omega

/-- What is in front of a string of bytes can be read as one number at most. -/
theorem Form.unique (h : Form n v front) (hother : Form m w other) (heq : front ++ after = other ++ rest) :
    n = m ∧ v = w := by
  obtain ⟨lead, tails, hfront, hlead, -⟩ := h.exists_cons
  obtain ⟨lead', tails', hother', hlead', -⟩ := hother.exists_cons
  have hsame : n = m := by
    rw [hfront, hother', List.cons_append, List.cons_append] at heq
    rw [← hlead, ← hlead', (List.cons.inj heq).1]
  subst hsame
  have hbytes : front = other := List.append_inj_left heq (h.length_eq.trans hother.length_eq.symm)
  rw [← hbytes] at hother
  exact ⟨rfl, h.value_unique hother⟩

/-- A barred form is nowhere in well-formed bytes. It cannot start inside another form, whose later bytes announce
nothing, so the induction is on the forms up to the one that starts where it does. -/
theorem not_wellFormed_of_barred (h : Form n v front) (hbarred : Barred n v) (before after : Bytes) :
    ¬WellFormed (before ++ front ++ after) := by
  intro hwell
  obtain ⟨lead, tails, hfront, hlead, -⟩ := h.exists_cons
  have hpos := h.pos
  generalize hwhole : before ++ front ++ after = whole at hwell
  rw [List.append_assoc] at hwhole
  induction hwell generalizing before with
  | nil => simp [hfront] at hwhole
  | @cons width value own rest hown allowed _ ih =>
    rcases List.append_eq_append_iff.mp hwhole with ⟨inner, hinner, hrest⟩ | ⟨inner, hinner, hrest⟩
    · cases inner with
      | nil => exact ih [] hrest
      | cons b inner =>
        cases before with
        | nil =>
          obtain ⟨rfl, rfl⟩ := h.unique hown (hrest.trans (congrArg (· ++ rest) hinner.symm))
          exact allowed hbarred
        | cons first before =>
          obtain ⟨lead', tails', hcons, -, htails⟩ := hown.exists_cons
          rw [hinner, List.cons_append] at hcons
          obtain ⟨-, rfl⟩ := List.cons.inj hcons
          rw [hfront, List.cons_append, List.cons_append] at hrest
          obtain ⟨rfl, -⟩ := List.cons.inj hrest
          have hzero := htails lead (List.mem_append_right _ List.mem_cons_self)
          omega
    · exact ih inner hrest.symm

end Scaffold.Text
