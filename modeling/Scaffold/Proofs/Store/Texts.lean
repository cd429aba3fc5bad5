import Scaffold.Proofs.Text.WellFormed
import Scaffold.Store.Basic

/-!
# Templates as texts

A template is had as a text just when its bytes are well formed, and it is the text of exactly those bytes. Other bytes
are refused with the place where they stop being well formed.
-/

namespace Scaffold.Store

variable {store : Store} {path text : String} {bytes : Bytes} {e : Error}

private theorem loadText_result (store : Store) (path : String) :
    (store.loadText path).result
      = (store.load path).result.bind fun bytes => (Text.decode bytes).mapError (.templateNotText path) := by
  rw [loadText, Traced.bind_eq]
  obtain ⟨trace, _ | bytes⟩ := store.load path
  · rfl
  · simp only [Traced.andThen_ok, Except.bind]
    cases Text.decode bytes <;> rfl

private theorem loadText_of_load_error (h : (store.load path).result = .error e) :
    (store.loadText path).result = .error e := by
  rw [loadText_result, h]
  rfl

private theorem loadText_of_load (h : (store.load path).result = .ok bytes) :
    (store.loadText path).result = (Text.decode bytes).mapError (.templateNotText path) := by
  rw [loadText_result, h]
  rfl

private theorem loadText_eq_ok_of_load (h : (store.load path).result = .ok bytes) :
    (store.loadText path).result = .ok text ↔ Text.encode text = bytes := by
  rw [loadText_of_load h, ← Text.decode_eq_iff]
  rcases Text.decode bytes with fault | own
  · constructor
    · intro hok
      cases hok
    · intro hok
      cases hok
  · constructor
    · intro hok
      cases hok
      rfl
    · intro hok
      cases hok
      rfl

private theorem loadText_eq_ok_iff :
    (store.loadText path).result = .ok text ↔ (store.load path).result = .ok (Text.encode text) := by
  rcases hload : (store.load path).result with e | bytes
  · simp [loadText_of_load_error hload]
  · rw [loadText_eq_ok_of_load hload, Except.ok.injEq, eq_comm]

private theorem loadText_of_not_wellFormed (h : (store.load path).result = .ok bytes)
    (hbytes : ¬Text.WellFormed bytes) :
    ∃ fault, (store.loadText path).result = .error (.templateNotText path fault) ∧
      Text.WellFormedUpTo bytes fault.validUpTo := by
  rw [loadText_of_load h]
  rcases hdecode : Text.decode bytes with fault | text
  · exact ⟨fault, rfl, Text.decode_error_upTo hdecode⟩
  · exact absurd (Text.wellFormed_iff.mpr ⟨text, Text.encode_of_decode hdecode⟩) hbytes

/-- A template as a text and as bytes, in any store. There is a text just when there are bytes and they are well formed,
and they are then the bytes of that text. Bytes that are not well formed are refused with the path and with how many
from the start are well formed, and what is no template as bytes is none as a text, with the same error. Bytes with an
overlong form, a surrogate or a number above all characters anywhere in them are not well formed. -/
theorem loadText_wellFormed (store : Store) (path : String) :
    (∀ text, (store.loadText path).result = .ok text ↔ (store.load path).result = .ok (Text.encode text)) ∧
    (∀ bytes, (store.load path).result = .ok bytes →
      ((∃ text, (store.loadText path).result = .ok text) ↔ Text.WellFormed bytes) ∧
      (¬Text.WellFormed bytes → ∃ fault, (store.loadText path).result = .error (.templateNotText path fault) ∧
        Text.WellFormedUpTo bytes fault.validUpTo)) ∧
    (∀ e, (store.load path).result = .error e → (store.loadText path).result = .error e) ∧
    ∀ width value form, Text.Form width value form →
      (∃ n shorter, Text.Form n value shorter ∧ n < width) ∨ (0xD800 ≤ value ∧ value ≤ 0xDFFF) ∨ 0x10FFFF < value →
      ∀ before after, ¬Text.WellFormed (before ++ form ++ after) := by
  refine ⟨?_, ?_, ?_, ?_⟩
  · intro text
    exact loadText_eq_ok_iff
  · intro bytes hload
    constructor
    · rw [Text.wellFormed_iff]
      exact exists_congr fun text => loadText_eq_ok_of_load hload
    · exact loadText_of_not_wellFormed hload
  · intro e hload
    exact loadText_of_load_error hload
  · intro width value form hform hbarred before after
    apply Text.not_wellFormed_of_barred hform
    rcases hbarred with ⟨n, shorter, hshorter, hlt⟩ | ⟨low, high⟩ | hlarge
    · exact .overlong hshorter hlt
    · exact .surrogate low high
    · exact .tooLarge hlarge

end Scaffold.Store
