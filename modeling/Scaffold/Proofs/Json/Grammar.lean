import Scaffold.Json.Scan
import Scaffold.Proofs.Text.Encoded

/-!
# JSON texts

The grammar of JSON as relations between texts and what they stand for: blanks, the spellings of strings,
numbers, and values of any depth. A text is given by its characters; how it is read plays no part here.
-/

namespace Scaffold

/-- The bytes of a text that is given by its characters. -/
def Text.bytes (cs : List Char) : Bytes :=
  cs.flatMap String.utf8EncodeChar

namespace Json

/-- Blanks, which may stand between any two tokens. -/
def Blank (cs : List Char) : Prop :=
  ∀ c ∈ cs, c ∈ [' ', '\n', '\t', '\r']

instance (cs : List Char) : Decidable (Blank cs) :=
  List.decidableBAll (fun c => c ∈ [' ', '\n', '\t', '\r']) cs

/-! ## Strings -/

/-- A hexadecimal digit in either case. -/
def HexDigit (n : Nat) (c : Char) : Prop :=
  "0123456789abcdef".toList[n]? = some c ∨ "0123456789ABCDEF".toList[n]? = some c

/-- A number in four hexadecimal digits. -/
inductive Hex4 : Nat → List Char → Prop
  | digits {k l m n : Nat} {a b c d : Char} :
    HexDigit k a → HexDigit l b → HexDigit m c → HexDigit n d →
      Hex4 (((k * 16 + l) * 16 + m) * 16 + n) [a, b, c, d]

/-- The characters that have an escape of two characters, each with the second of them. -/
def shortForms : List (Char × Char) :=
  [('"', '"'), ('\\', '\\'), ('/', '/'), ('\x08', 'b'), ('\x0c', 'f'), ('\n', 'n'), ('\r', 'r'), ('\t', 't')]

/-- A character that may stand for itself in a string. -/
def Plain (c : Char) : Prop :=
  0x20 ≤ c.toNat ∧ c ≠ '"' ∧ c ≠ '\\'

instance (c : Char) : Decidable (Plain c) :=
  inferInstanceAs (Decidable (0x20 ≤ c.toNat ∧ c ≠ '"' ∧ c ≠ '\\'))

/-- The spellings of a character in a string: itself, a short escape, its code point, or two surrogates. -/
inductive Spells : Char → List Char → Prop
  | plain {c : Char} : Plain c → Spells c [c]
  | short {c letter : Char} : (c, letter) ∈ shortForms → Spells c ['\\', letter]
  | unit {c : Char} {hex : List Char} : Hex4 c.toNat hex → Spells c (['\\', 'u'] ++ hex)
  | pair {c : Char} {high low : List Char} :
    0x10000 ≤ c.toNat → Hex4 (0xD800 + (c.toNat - 0x10000) / 0x400) high →
      Hex4 (0xDC00 + (c.toNat - 0x10000) % 0x400) low → Spells c (['\\', 'u'] ++ high ++ ['\\', 'u'] ++ low)

/-- The spellings of a text between the quotes of a string. -/
inductive Spelled : List Char → List Char → Prop
  | nil : Spelled [] []
  | cons {c : Char} {cs text rest : List Char} : Spells c text → Spelled cs rest → Spelled (c :: cs) (text ++ rest)

/-- What may stand between the quotes of a string. An escape may be half of a pair, so not every such text spells
something. -/
inductive StringText : List Char → Prop
  | nil : StringText []
  | plain {c : Char} {rest : List Char} : Plain c → StringText rest → StringText (c :: rest)
  | short {c letter : Char} {rest : List Char} :
    (c, letter) ∈ shortForms → StringText rest → StringText (['\\', letter] ++ rest)
  | unit {n : Nat} {hex rest : List Char} : Hex4 n hex → StringText rest → StringText (['\\', 'u'] ++ hex ++ rest)

/-! ## Numbers -/

def Digits (cs : List Char) : Prop :=
  ∀ c ∈ cs, c.isDigit = true

inductive WholeText : List Char → Prop
  | zero : WholeText ['0']
  | digits {c : Char} {rest : List Char} : c ≠ '0' → Digits (c :: rest) → WholeText (c :: rest)

inductive FractionText : List Char → Prop
  | none : FractionText []
  | digits {cs : List Char} : cs ≠ [] → Digits cs → FractionText ('.' :: cs)

inductive PowerText : List Char → Prop
  | none : PowerText []
  | digits {e : Char} {sign cs : List Char} :
    e ∈ ['e', 'E'] → sign ∈ [[], ['+'], ['-']] → cs ≠ [] → Digits cs → PowerText (e :: (sign ++ cs))

inductive NumberText : List Char → Prop
  | parts {sign whole fraction power : List Char} :
    sign ∈ [[], ['-']] → WholeText whole → FractionText fraction → PowerText power →
      NumberText (sign ++ (whole ++ (fraction ++ power)))

/-! ## Values -/

/-- What a text can be: one value, the items of a list or the members of an object, at least one of them. -/
inductive Form where
  | value
  | items
  | members

inductive Derives : Form → List Char → Prop
  | nullWord : Derives .value ['n', 'u', 'l', 'l']
  | trueWord : Derives .value ['t', 'r', 'u', 'e']
  | falseWord : Derives .value ['f', 'a', 'l', 's', 'e']
  | number {text : List Char} : NumberText text → Derives .value text
  | string {text : List Char} : StringText text → Derives .value ('"' :: (text ++ ['"']))
  | emptyList {blank : List Char} : Blank blank → Derives .value ('[' :: (blank ++ [']']))
  | list {items : List Char} : Derives .items items → Derives .value ('[' :: (items ++ [']']))
  | emptyObject {blank : List Char} : Blank blank → Derives .value ('{' :: (blank ++ ['}']))
  | object {members : List Char} : Derives .members members → Derives .value ('{' :: (members ++ ['}']))
  | lastItem {before value after : List Char} :
    Blank before → Derives .value value → Blank after → Derives .items (before ++ (value ++ after))
  | item {before value after items : List Char} :
    Blank before → Derives .value value → Blank after → Derives .items items →
      Derives .items (before ++ (value ++ (after ++ ',' :: items)))
  | lastMember {before name colon blank value after : List Char} :
    Blank before → StringText name → Blank colon → Blank blank → Derives .value value → Blank after →
      Derives .members (before ++ '"' :: (name ++ '"' :: (colon ++ ':' :: (blank ++ (value ++ after)))))
  | member {before name colon blank value after members : List Char} :
    Blank before → StringText name → Blank colon → Blank blank → Derives .value value → Blank after →
      Derives .members members →
        Derives .members
          (before ++ '"' :: (name ++ '"' :: (colon ++ ':' :: (blank ++ (value ++ (after ++ ',' :: members))))))

end Json

/-! ## Bytes -/

namespace Text

theorem encode_ofList (cs : List Char) : encode (String.ofList cs) = bytes cs := by
  rw [encode, String.toList_ofList, bytes]

@[simp] theorem bytes_nil : bytes [] = [] :=
  rfl

@[simp] theorem bytes_append (cs ds : List Char) : bytes (cs ++ ds) = bytes cs ++ bytes ds :=
  List.flatMap_append

theorem bytes_cons (c : Char) (cs : List Char) : bytes (c :: cs) = String.utf8EncodeChar c ++ bytes cs :=
  List.flatMap_cons

theorem encodeChar_ascii {c : Char} (h : c.toNat < 0x80) : String.utf8EncodeChar c = [Json.ascii c] := by
  rw [String.utf8EncodeChar]
  exact if_pos (Nat.le_of_lt_succ h)

theorem bytes_ascii {c : Char} (cs : List Char) (h : c.toNat < 0x80) : bytes (c :: cs) = Json.ascii c :: bytes cs := by
  rw [bytes_cons, encodeChar_ascii h]
  rfl

theorem encodeChar_above {c : Char} (h : ¬c.toNat < 0x80) {b : UInt8} (hb : b ∈ String.utf8EncodeChar c) :
    0x80 ≤ b := by
  have hbyte {n : Nat} (hlow : 0x80 ≤ n) (hhigh : n < 0x100) : 0x80 ≤ UInt8.ofNat n := by
    rw [UInt8.le_iff_toNat_le, UInt8.toNat_ofNat', Nat.mod_eq_of_lt hhigh]
    exact hlow
  have hval : ¬c.val.toNat ≤ 0x7f := fun hle => h (Nat.lt_succ_of_le hle)
  rw [String.utf8EncodeChar, if_neg hval] at hb
  repeat' split at hb
  all_goals simp only [List.mem_cons, List.not_mem_nil, or_false] at hb
  · rcases hb with rfl | rfl <;> exact hbyte (by omega) (by omega)
  · rcases hb with rfl | rfl | rfl <;> exact hbyte (by omega) (by omega)
  · rcases hb with rfl | rfl | rfl | rfl <;> exact hbyte (by omega) (by omega)

end Text

end Scaffold
