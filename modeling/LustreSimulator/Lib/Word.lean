import Mathlib.Algebra.Group.Int.Defs
import Mathlib.Algebra.Group.Nat.Defs
import Mathlib.Tactic.Common

/-!
# `LustreSimulator.Lib.Word`: unsigned 64-bit arithmetic on `Nat`

A 64-bit unsigned integer is a `Nat` below `2 ^ 64`. `add64` and `sub64` wrap as the machine
does. `add64_eq` and `sub64_eq` are the rules for results that do not wrap.

`toInt32` is the conversion of a word to a signed one of 32 bits, and `toWord32` and `toWord64` are
the conversions of a signed number to a word. `toInt32_eq`, `toWord32_eq` and `toWord64_eq` are the
rules for numbers that fit.
-/

set_option autoImplicit false

namespace LustreSimulator.Lib

/-- `a + b` on 64 bits. -/
def add64 (a b : Nat) : Nat := (a + b) % 2 ^ 64

/-- `a - b` on 64 bits. -/
def sub64 (a b : Nat) : Nat := (a + (2 ^ 64 - b % 2 ^ 64)) % 2 ^ 64

/-- `a * b` on 64 bits. -/
def mul64 (a b : Nat) : Nat := a * b % 2 ^ 64

/-- A sum that fits does not wrap. -/
theorem add64_eq {a b : Nat} (h : a + b < 2 ^ 64) : add64 a b = a + b :=
  Nat.mod_eq_of_lt h

/-- A difference that is not negative does not wrap. -/
theorem sub64_eq {a b : Nat} (ha : a < 2 ^ 64) (h : b ≤ a) : sub64 a b = a - b := by
  unfold sub64
  omega

/-- A product that fits does not wrap. -/
theorem mul64_eq {a b : Nat} (h : a * b < 2 ^ 64) : mul64 a b = a * b :=
  Nat.mod_eq_of_lt h

/-- A sum is a 64-bit number. -/
theorem add64_lt (a b : Nat) : add64 a b < 2 ^ 64 := Nat.mod_lt _ (by decide)

/-- A difference is a 64-bit number. -/
theorem sub64_lt (a b : Nat) : sub64 a b < 2 ^ 64 := Nat.mod_lt _ (by decide)

/-- The low 32 bits of a number as a signed number. -/
def toInt32 (n : Nat) : Int :=
  if n % 2 ^ 32 < 2 ^ 31 then (n % 2 ^ 32 : Nat) else (n % 2 ^ 32 : Nat) - (2 ^ 32 : Nat)

/-- A signed number on 32 bits. -/
def toWord32 (i : Int) : Nat := (i % (2 ^ 32 : Nat)).toNat

/-- A signed number on 64 bits. -/
def toWord64 (i : Int) : Nat := (i % (2 ^ 64 : Nat)).toNat

/-- A number that fits keeps its value. -/
theorem toInt32_eq {n : Nat} (h : n < 2 ^ 31) : toInt32 n = n := by
  unfold toInt32
  rw [Nat.mod_eq_of_lt (by omega), if_pos h]

/-- A number that is not negative and fits keeps its value. -/
theorem toWord32_eq {i : Int} (h : 0 ≤ i) (hlt : i < 2 ^ 32) : (toWord32 i : Int) = i := by
  unfold toWord32
  omega

/-- A number that is not negative and fits keeps its value. -/
theorem toWord64_eq {n : Nat} (h : n < 2 ^ 64) : toWord64 n = n := by
  unfold toWord64
  omega

end LustreSimulator.Lib
