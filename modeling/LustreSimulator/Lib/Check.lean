import Mathlib.Tactic.Common

/-!
# `LustreSimulator.Lib.Check`: assertions in `Except`

A program with assertions is a function into `Except ε`: `check c e` is the assertion `c`,
which stops the program with `e` when `c` is false. Two rules take a successful program apart:
`bind_eq_ok` at a sequence, `check_eq_ok` at an assertion and `require_eq_ok` where a value must be
there. `check_true` runs an assertion that holds. `check_ne_error` and `bind_ne_error` show that a
program does not stop with a given error.
-/

set_option autoImplicit false

namespace LustreSimulator.Lib

variable {ε α β : Type*}

/-- The assertion `c`: stop with the error `e` when `c` is false. -/
def check (c : Prop) [Decidable c] (e : ε) : Except ε Unit :=
  if c then .ok () else .error e

/-- An assertion that succeeds holds. -/
@[simp]
theorem check_eq_ok {c : Prop} [Decidable c] {e : ε} {u : Unit} :
    check c e = .ok u ↔ c := by
  unfold check
  split <;> simp_all

/-- An assertion that holds succeeds. -/
theorem check_true {c : Prop} [Decidable c] {e : ε} (h : c) : check c e = .ok () :=
  if_pos h

/-- The value of `x`, which must be there: stop with the error `e` when it is not. -/
def require (x : Option α) (e : ε) : Except ε α :=
  match x with
  | none => .error e
  | some a => .ok a

/-- A value that is required and found is there. -/
@[simp]
theorem require_eq_ok {x : Option α} {e : ε} {a : α} : require x e = .ok a ↔ x = some a := by
  unfold require
  split <;> simp_all

/-- A sequence succeeds when both parts do. -/
theorem bind_eq_ok {x : Except ε α} {f : α → Except ε β} {b : β} :
    x.bind f = .ok b ↔ ∃ a, x = .ok a ∧ f a = .ok b := by
  cases x with
  | ok a => simp [Except.bind]
  | error e => simp [Except.bind]

/-- A sequence stops when one of its parts does. -/
theorem bind_eq_error {x : Except ε α} {f : α → Except ε β} {e : ε} :
    x.bind f = .error e ↔ x = .error e ∨ ∃ a, x = .ok a ∧ f a = .error e := by
  cases x with
  | ok a => simp [Except.bind]
  | error e' => simp [Except.bind]

/-- An assertion stops the program when it does not hold. -/
theorem check_eq_error {c : Prop} [Decidable c] {e e' : ε} :
    check c e = .error e' ↔ ¬ c ∧ e = e' := by
  unfold check
  split <;> simp_all

/-- A sequence whose first part succeeds goes on with its result. -/
@[simp]
theorem ok_bind (a : α) (f : α → Except ε β) : (Except.ok a).bind f = f a := rfl

/-- When the second part always succeeds, a sequence succeeds exactly when its first part does. -/
theorem exists_bind_ok {x : Except ε α} {f : α → Except ε β} (hf : ∀ a, ∃ b, f a = .ok b) :
    (∃ b, x.bind f = .ok b) ↔ ∃ a, x = .ok a := by
  constructor
  · rintro ⟨b, h⟩
    obtain ⟨a, hx, -⟩ := bind_eq_ok.mp h
    exact ⟨a, hx⟩
  · rintro ⟨a, rfl⟩
    exact hf a

/-- A program that stops has no result. -/
theorem toOption_eq_some {x : Except ε α} {a : α} : x.toOption = some a ↔ x = .ok a := by
  cases x with
  | error e => exact ⟨(fun h => nomatch h), fun h => nomatch h⟩
  | ok b => exact ⟨fun h => congrArg _ (Option.some.inj h), fun h => congrArg _ (Except.ok.inj h)⟩

/-- A result is not an error. -/
theorem ok_ne_error {a : α} {e : ε} : (.ok a : Except ε α) ≠ .error e := by
  intro h
  cases h

/-- A check has no other error than its own. -/
theorem check_ne_error {c : Prop} [Decidable c] {e e' : ε} (h : e ≠ e') :
    check c e ≠ .error e' := by
  unfold check
  split
  · exact ok_ne_error
  · exact fun heq => h (Except.error.inj heq)

/-- An error that neither computation has is not an error of the sequence. -/
theorem bind_ne_error {x : Except ε α} {f : α → Except ε β} {e : ε}
    (hx : x ≠ .error e) (hf : ∀ a, x = .ok a → f a ≠ .error e) : x.bind f ≠ .error e := by
  cases x with
  | error e' => exact fun h => hx (congrArg Except.error (Except.error.inj h))
  | ok a => exact hf a rfl

end LustreSimulator.Lib
