import Mathlib.Tactic.Common

/-!
# `LustreSimulator.Timer`: a timer from outside (`timer.cpp`)

The models of the components see a `Timer` as the time it is armed for, if it is armed. The
event loop behind it has a model of its own.
-/

set_option autoImplicit false

namespace LustreSimulator.Timer

/-- `DelTimer()`. -/
def delTimer (_timer : Option Nat) : Option Nat := none

/-- `ModTimer(expire)` at the time `now`. There is no result when the assertion `time > now` of
`RunAt` fails. -/
def modTimer (now : Nat) (timer : Option Nat) (expire : Nat) : Option (Option Nat) :=
  if timer = some expire then some timer
  else if expire > now then some (some expire)
  else none

/-- A timer that was moved is armed for the new time. Unless it was before, that is later than
now. -/
theorem modTimer_eq_some {now expire : Nat} {timer timer' : Option Nat}
    (h : modTimer now timer expire = some timer') :
    timer' = some expire ∧ (timer ≠ some expire → now < expire) := by
  unfold modTimer at h
  split at h
  · rename_i hsame
    exact ⟨(Option.some.inj h).symm.trans hsame, fun hne => absurd hsame hne⟩
  · split at h
    · rename_i hlt
      exact ⟨(Option.some.inj h).symm, fun _ => hlt⟩
    · cases h

/-- `RunAt` accepts a time after now. -/
theorem modTimer_of_lt {now expire : Nat} {timer : Option Nat} (h : now < expire) :
    modTimer now timer expire = some (some expire) := by
  unfold modTimer
  rw [if_pos h]
  split
  · rename_i hsame
    exact congrArg some hsame
  · rfl

end LustreSimulator.Timer
