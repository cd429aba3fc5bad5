import Scaffold.Text.Utf8

/-!
# Codecs

How the content of an entry is packed. Packing comes in two parts, since an entry is written and later
closed: the body holds all of the content, the trailer ends it. `Codec.stored` packs without making
anything smaller, as a sequence of stored blocks.
-/

namespace Scaffold

/-- A number in `width` bytes, the lowest first. Higher digits are lost. -/
def littleEndian : Nat → Nat → Bytes
  | 0, _ => []
  | width + 1, n => UInt8.ofNat n :: littleEndian width (n / 256)

@[simp] theorem littleEndian_length (width n : Nat) : (littleEndian width n).length = width := by
  induction width generalizing n with
  | zero => rfl
  | succ width ih => simp [littleEndian, ih]

/-- The number in the first `width` bytes, the lowest first, and what follows. -/
def readLittleEndian : Nat → Bytes → Option (Nat × Bytes)
  | 0, rest => some (0, rest)
  | _ + 1, [] => none
  | width + 1, b :: rest => do
    let (high, rest) ← readLittleEndian width rest
    return (b.toNat + 256 * high, rest)

theorem readLittleEndian_append {width n : Nat} (h : n < Nat.pow 256 width) (rest : Bytes) :
    readLittleEndian width (littleEndian width n ++ rest) = some (n, rest) := by
  induction width generalizing n with
  | zero => rw [Nat.lt_one_iff.mp h]; rfl
  | succ width ih =>
    have hn : n / 256 < Nat.pow 256 width := Nat.div_lt_of_lt_mul (Nat.mul_comm .. ▸ h)
    simp only [littleEndian, List.cons_append, readLittleEndian, ih hn]
    simp only [bind, Option.bind, pure, UInt8.toNat_ofNat', Option.some.injEq, Prod.mk.injEq, and_true]
    omega

/-- A way to pack contents, with the law that a packed content can be read back. -/
structure Codec where
  body : Bytes → Bytes
  trailer : Bytes → Bytes
  expand : Bytes → Option Bytes
  expand_body : ∀ content, expand (body content ++ trailer content) = some content

namespace Codec

/-- The most bytes of a stored block. -/
def maxBlock : Nat := 65535

/-- A stored block: whether it is the last, its length, the complement of its length, and its bytes. -/
def block (last : Bool) (bytes : Bytes) : Bytes :=
  (if last then 1 else 0) :: littleEndian 2 bytes.length ++ littleEndian 2 (maxBlock - bytes.length) ++ bytes

/-- Contents in stored blocks, none of them the last. -/
def blocks (content : Bytes) : Bytes :=
  if content.length ≤ maxBlock then block false content
  else block false (content.take maxBlock) ++ blocks (content.drop maxBlock)
termination_by content.length
decreasing_by simp only [List.length_drop, maxBlock] at *; omega

/-- Takes `n` bytes off the front. -/
def takeExactly (n : Nat) (bytes : Bytes) : Option (Bytes × Bytes) :=
  let front := bytes.take n
  if front.length = n then some (front, bytes.drop n) else none

/-- Reads one stored block: whether it is the last, its bytes, and what follows. -/
def readBlock : Bytes → Option (Bool × Bytes × Bytes)
  | [] => none
  | flag :: rest => do
    let (length, rest) ← readLittleEndian 2 rest
    let (complement, rest) ← readLittleEndian 2 rest
    let (bytes, rest) ← takeExactly length rest
    if flag.toNat ≤ 1 ∧ length + complement = maxBlock then some (flag == 1, bytes, rest) else none

private theorem readLittleEndian_length {width n : Nat} {bytes rest : Bytes}
    (h : readLittleEndian width bytes = some (n, rest)) : rest.length ≤ bytes.length := by
  induction width generalizing bytes n with
  | zero => simp only [readLittleEndian, Option.some.injEq, Prod.mk.injEq] at h; simp [h.2]
  | succ width ih =>
    cases bytes with
    | nil => simp [readLittleEndian] at h
    | cons b bytes =>
      simp only [readLittleEndian, bind, Option.bind] at h
      split at h
      · cases h
      · rename_i p e
        simp only [pure, Option.some.injEq, Prod.mk.injEq] at h
        have := @ih p.1 bytes (by rw [e, ← h.2])
        simp only [List.length_cons]; omega

theorem readBlock_length {last : Bool} {bytes content rest : Bytes}
    (h : readBlock bytes = some (last, content, rest)) : rest.length < bytes.length := by
  cases bytes with
  | nil => cases h
  | cons flag tail =>
    simp only [readBlock, Option.bind_eq_bind, Option.bind_eq_some_iff] at h
    obtain ⟨p, e₁, q, e₂, r, e₃, h⟩ := h
    have h₁ := readLittleEndian_length (show _ = some (p.1, p.2) from e₁)
    have h₂ := readLittleEndian_length (show _ = some (q.1, q.2) from e₂)
    have h₃ : r.2.length ≤ q.2.length := by
      simp only [takeExactly] at e₃
      split at e₃
      · simp only [Option.some.injEq] at e₃
        rw [← e₃]; simp
      · cases e₃
    split at h
    · simp only [Option.some.injEq, Prod.mk.injEq] at h
      rw [← h.2.2]; simp only [List.length_cons]; omega
    · cases h

/-- The content of a sequence of stored blocks that ends with a last one, appended to `seen` blocks. -/
def readBlocks (seen : List Bytes) (bytes : Bytes) : Option Bytes :=
  match _h : readBlock bytes with
  | none => none
  | some (true, content, rest) => if rest.isEmpty then some (content :: seen).reverse.flatten else none
  | some (false, content, rest) => readBlocks (content :: seen) rest
termination_by bytes.length
decreasing_by exact readBlock_length _h

theorem takeExactly_append (bytes rest : Bytes) :
    takeExactly bytes.length (bytes ++ rest) = some (bytes, rest) := by
  simp [takeExactly]

private theorem readBlock_block {bytes : Bytes} (h : bytes.length ≤ maxBlock) (last : Bool) (rest : Bytes) :
    readBlock (block last bytes ++ rest) = some (last, bytes, rest) := by
  have h₁ : bytes.length < Nat.pow 256 2 := Nat.lt_succ_of_le h
  have h₂ : maxBlock - bytes.length < Nat.pow 256 2 := Nat.lt_succ_of_le (Nat.sub_le ..)
  have h₃ : bytes.length + (maxBlock - bytes.length) = maxBlock := by omega
  simp only [block, List.append_assoc, List.cons_append, readBlock, bind, Option.bind,
    readLittleEndian_append h₁, readLittleEndian_append h₂, takeExactly_append, h₃]
  cases last <;> simp

private theorem readBlocks_blocks (seen : List Bytes) (content rest : Bytes) :
    ∃ parts : List Bytes, parts.flatten = content ∧
      readBlocks seen (blocks content ++ rest) = readBlocks (parts.reverse ++ seen) rest := by
  fun_induction blocks content generalizing seen with
  | case1 content h =>
    refine ⟨[content], by simp, ?_⟩
    rw [readBlocks, readBlock_block h]
    rfl
  | case2 content h ih =>
    obtain ⟨parts, flat, eq⟩ := ih (content.take maxBlock :: seen)
    refine ⟨content.take maxBlock :: parts, by simp [flat], ?_⟩
    rw [List.append_assoc, readBlocks, readBlock_block (by rw [List.length_take]; omega)]
    simp only [eq]
    simp

/-- Contents in stored blocks. The body ends with an empty block, so that nothing of it is held back, and
the trailer is the last block, which is empty too. -/
def stored : Codec where
  body content := blocks content ++ block false []
  trailer _ := block true []
  expand bytes := readBlocks [] bytes
  expand_body content := by
    obtain ⟨parts, flat, eq⟩ := readBlocks_blocks [] content (block false [] ++ block true [])
    rw [List.append_assoc, eq, readBlocks, readBlock_block (by simp)]
    simp only
    rw [readBlocks, ← List.append_nil (block true []), readBlock_block (by simp)]
    simp [flat]

private theorem block_length (last : Bool) (bytes : Bytes) : (block last bytes).length = bytes.length + 5 := by
  simp only [block, List.length_append, List.length_cons, littleEndian_length]
  omega

private theorem blocks_length_le (content : Bytes) : (blocks content).length ≤ 2 * content.length + 5 := by
  fun_induction blocks content with
  | case1 content h =>
    rw [block_length]
    omega
  | case2 content h ih =>
    simp only [List.length_append, block_length, List.length_take, List.length_drop, maxBlock] at h ih ⊢
    omega

/-- Stored blocks take little more than twice the room of their content. -/
theorem stored_length_le (content : Bytes) :
    (stored.body content ++ stored.trailer content).length ≤ 2 * content.length + 15 := by
  have hblocks := blocks_length_le content
  have hbody : stored.body content = blocks content ++ block false [] := rfl
  have htrailer : stored.trailer content = block true [] := rfl
  simp only [hbody, htrailer, List.length_append, block_length, List.length_nil]
  omega

end Codec

end Scaffold
