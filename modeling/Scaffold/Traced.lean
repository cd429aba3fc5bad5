/-!
# Traced results

A result with a trace of what happened on the way to it. What was traced before an error stays.
-/

namespace Scaffold

/-- A trace, in order, and a value or the error that ended it. -/
structure Traced (ω ε α : Type) where
  trace : List ω
  result : Except ε α
  deriving Repr

namespace Traced

variable {ω ε α β : Type}

def ofExcept (result : Except ε α) : Traced ω ε α :=
  ⟨[], result⟩

def fail (e : ε) : Traced ω ε α :=
  ⟨[], .error e⟩

def tell (w : ω) : Traced ω ε Unit :=
  ⟨[w], .ok ()⟩

def andThen (first : Traced ω ε α) (next : α → Traced ω ε β) : Traced ω ε β :=
  match first.result with
  | .ok a => ⟨first.trace ++ (next a).trace, (next a).result⟩
  | .error e => ⟨first.trace, .error e⟩

instance : Monad (Traced ω ε) where
  pure a := ⟨[], .ok a⟩
  bind := andThen

/-! ## Laws -/

theorem bind_eq (first : Traced ω ε α) (next : α → Traced ω ε β) : first >>= next = first.andThen next :=
  rfl

@[simp] theorem trace_pure (a : α) : (pure a : Traced ω ε α).trace = [] :=
  rfl

@[simp] theorem result_pure (a : α) : (pure a : Traced ω ε α).result = .ok a :=
  rfl

@[simp] theorem andThen_error (trace : List ω) (e : ε) (next : α → Traced ω ε β) :
    andThen ⟨trace, .error e⟩ next = ⟨trace, .error e⟩ :=
  rfl

@[simp] theorem andThen_ok (trace : List ω) (a : α) (next : α → Traced ω ε β) :
    andThen ⟨trace, .ok a⟩ next = ⟨trace ++ (next a).trace, (next a).result⟩ :=
  rfl

@[simp] theorem result_ofExcept (result : Except ε α) : (ofExcept result : Traced ω ε α).result = result :=
  rfl

/-- A value comes out at the end just when one comes out of every part. -/
theorem result_bind_eq_ok {first : Traced ω ε α} {next : α → Traced ω ε β} {b : β} :
    (first >>= next).result = .ok b ↔ ∃ a, first.result = .ok a ∧ (next a).result = .ok b := by
  obtain ⟨trace, _ | a⟩ := first
  · simp [bind_eq]
  · simp [bind_eq]

/-- An error at the end is that of a part, all before which gave a value. -/
theorem result_bind_eq_error {first : Traced ω ε α} {next : α → Traced ω ε β} {e : ε} :
    (first >>= next).result = .error e ↔
      first.result = .error e ∨ ∃ a, first.result = .ok a ∧ (next a).result = .error e := by
  obtain ⟨trace, _ | a⟩ := first
  · simp [bind_eq]
  · simp [bind_eq]

theorem trace_bind_of_ok {first : Traced ω ε α} {next : α → Traced ω ε β} {a : α} (h : first.result = .ok a) :
    (first >>= next).trace = first.trace ++ (next a).trace := by
  obtain ⟨trace, _ | a⟩ := first
  · cases h
  · cases h
    rfl

instance : LawfulMonad (Traced ω ε) :=
  LawfulMonad.mk' _
    (by
      rintro α ⟨trace, _ | a⟩
      · rfl
      · simp only [Functor.map, Function.comp, andThen_ok, List.append_nil, id])
    (by
      intro α β a next
      simp only [bind_eq, pure, andThen_ok, List.nil_append])
    (by
      rintro α β γ ⟨trace, _ | a⟩ next last
      · rfl
      · simp only [bind_eq, andThen]
        split <;> simp_all)

end Traced

end Scaffold
