import Mathlib.Logic.Basic

/-!
# Computations that may fail

When a computation of several steps succeeds and when it fails. With these rules
`simp` takes such a computation apart into its steps.
-/

namespace CallAtlas

variable {ε ε' α β : Type}

@[simp] theorem bind_eq_ok_iff {x : Except ε α} {f : α → Except ε β} {b : β} :
    (x >>= f) = .ok b ↔ ∃ a, x = .ok a ∧ f a = .ok b := by
  cases x with
  | error why => simp [bind, Except.bind]
  | ok a => simp [bind, Except.bind]

@[simp] theorem bind_eq_error_iff {x : Except ε α} {f : α → Except ε β} {why : ε} :
    (x >>= f) = .error why ↔ x = .error why ∨ ∃ a, x = .ok a ∧ f a = .error why := by
  cases x with
  | error why => simp [bind, Except.bind]
  | ok a => simp [bind, Except.bind]

@[simp] theorem pure_eq_ok_iff {a b : α} : (pure a : Except ε α) = .ok b ↔ a = b :=
  ⟨fun h => Except.ok.inj h, fun h => h ▸ rfl⟩

@[simp] theorem pure_ne_error {a : α} {why : ε} : (pure a : Except ε α) ≠ .error why := by
  intro h
  cases h

@[simp] theorem throw_ne_ok {why : ε} {a : α} : (throw why : Except ε α) ≠ .ok a := by
  intro h
  cases h

@[simp] theorem throw_eq_error_iff {why why' : ε} :
    (throw why : Except ε α) = .error why' ↔ why = why' :=
  ⟨fun h => Except.error.inj h, fun h => h ▸ rfl⟩

@[simp] theorem map_eq_ok_iff {x : Except ε α} {f : α → β} {b : β} :
    (f <$> x) = .ok b ↔ ∃ a, x = .ok a ∧ f a = b := by
  cases x with
  | error why => simp [Functor.map, Except.map]
  | ok a => simp [Functor.map, Except.map]

@[simp] theorem map_eq_error_iff {x : Except ε α} {f : α → β} {why : ε} :
    (f <$> x) = .error why ↔ x = .error why := by
  cases x with
  | error cause => simp [Functor.map, Except.map]
  | ok a => simp [Functor.map, Except.map]

@[simp] theorem mapError_eq_ok_iff {x : Except ε α} {f : ε → ε'} {a : α} :
    x.mapError f = .ok a ↔ x = .ok a := by
  cases x with
  | error why =>
    show (Except.error (f why) : Except ε' α) = .ok a ↔ _
    simp
  | ok b =>
    show (Except.ok b : Except ε' α) = .ok a ↔ _
    simp

@[simp] theorem mapError_eq_error_iff {x : Except ε α} {f : ε → ε'} {why : ε'} :
    x.mapError f = .error why ↔ ∃ cause, x = .error cause ∧ f cause = why := by
  cases x with
  | error cause =>
    show (Except.error (f cause) : Except ε' α) = .error why ↔ _
    simp
  | ok b =>
    show (Except.ok b : Except ε' α) = .error why ↔ _
    simp

end CallAtlas
