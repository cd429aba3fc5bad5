import Scaffold.Proofs.Files.Parents
import Scaffold.Proofs.Text.Encoded

/-!
# Joined names

Names joined by separators are found again in the path, in bytes as in texts.
-/

namespace Scaffold

namespace Path

/-- The names of a joined path are those it is joined of. -/
theorem intercalate_injective {first second : List Bytes} (hfirst : ∀ name ∈ first, separator ∉ name)
    (hsecond : ∀ name ∈ second, separator ∉ name) (hne : first ≠ []) (hne' : second ≠ [])
    (h : [separator].intercalate first = [separator].intercalate second) : first = second := by
  rw [← List.splitOn_intercalate separator hfirst hne, h, List.splitOn_intercalate separator hsecond hne']

theorem names_joined {names : List Bytes} (h : ∀ name ∈ names, separator ∉ name ∧ name ≠ []) (hne : names ≠ []) :
    Path.names ([separator].intercalate names) = names := by
  rw [names_intercalate (fun name hname => (h name hname).1) hne, List.filter_eq_self]
  exact fun name hname => decide_eq_true (h name hname).2

end Path

namespace Text

theorem encode_append (s t : String) : encode (s ++ t) = encode s ++ encode t := by
  rw [encode, String.toList_append, List.flatMap_append]
  rfl

private theorem separator_mem_encodeChar {c : Char} (h : Path.separator ∈ String.utf8EncodeChar c) : c = '/' := by
  have hbyte {n : Nat} (h : Path.separator = UInt8.ofNat n) (hn : n < 256) : n = 47 := by
    have hnat := congrArg UInt8.toNat h
    rw [UInt8.toNat_ofNat', Nat.mod_eq_of_lt hn] at hnat
    exact hnat.symm
  have hval : c.val.toNat = 47 := by
    rw [String.utf8EncodeChar] at h
    generalize c.val.toNat = v at h
    split at h
    · exact hbyte (List.mem_singleton.mp h) (by omega)
    · -- all bytes of a longer character are above those of ASCII
      exfalso
      split at h
      · simp only [List.mem_cons, List.not_mem_nil, or_false] at h
        rcases h with h | h
        all_goals
          have := hbyte h (by omega)
          omega
      · split at h
        · simp only [List.mem_cons, List.not_mem_nil, or_false] at h
          rcases h with h | h | h
          all_goals
            have := hbyte h (by omega)
            omega
        · simp only [List.mem_cons, List.not_mem_nil, or_false] at h
          rcases h with h | h | h | h
          all_goals
            have := hbyte h (by omega)
            omega
  exact Char.ext (UInt32.toNat_inj.mp hval)

theorem separator_not_mem_encode {s : String} (h : '/' ∉ s.toList) : Path.separator ∉ encode s := by
  intro hmem
  obtain ⟨c, hc, hbyte⟩ := List.mem_flatMap.mp hmem
  rw [separator_mem_encodeChar hbyte] at hc
  exact h hc

private theorem flatMap_intercalate (f : Char → Bytes) (sep : Char) (texts : List (List Char)) :
    ([sep].intercalate texts).flatMap f = (f sep).intercalate (texts.map fun text => text.flatMap f) := by
  induction texts with
  | nil => rfl
  | cons text rest ih =>
    cases rest with
    | nil => rw [List.intercalate_singleton, List.map_singleton, List.intercalate_singleton]
    | cons next more =>
      rw [List.map_cons] at ih
      rw [List.intercalate_cons_cons, List.map_cons, List.map_cons, List.intercalate_cons_cons, ← ih]
      simp only [List.flatMap_append, List.flatMap_singleton]

theorem encode_intercalate (texts : List String) :
    encode ("/".intercalate texts) = [Path.separator].intercalate (texts.map encode) := by
  rw [encode, String.toList_intercalate]
  refine (flatMap_intercalate String.utf8EncodeChar '/' _).trans ?_
  rw [List.map_map]
  rfl

end Text

end Scaffold
