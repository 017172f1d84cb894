import Mathlib.Tactic.Common

/-!
# `LustreSimulator.NrsFifo`: the first come, first served scheduler (`nrsfifo.cpp`)

The list goes from `Q.back()`, which is served next, to `Q.front()`. `size` is a 64-bit counter, and
an `Int` here, as `Erase` takes one off it whether the entry is in the list or not.
-/

set_option autoImplicit false

namespace LustreSimulator

/-- `class NrsFifo`. -/
structure NrsFifo (α : Type*) where
  Q : List α
  size : Int
  deriving DecidableEq, Repr

namespace NrsFifo

variable {α : Type*}

/-- A new scheduler. -/
def new : NrsFifo α := ⟨[], 0⟩

/-- `Enqueue(e)`. -/
def enqueue (q : NrsFifo α) (e : α) : NrsFifo α := ⟨q.Q ++ [e], q.size + 1⟩

/-- `Erase(e)`. -/
def erase [DecidableEq α] (q : NrsFifo α) (e : α) : NrsFifo α :=
  ⟨q.Q.filter fun x => decide (x ≠ e), q.size - 1⟩

/-- `Dequeue()`. -/
def dequeue (q : NrsFifo α) : Option α × NrsFifo α :=
  match q.Q with
  | [] => (none, q)
  | e :: rest => (some e, ⟨rest, q.size - 1⟩)

/-- `First()`. -/
def first (q : NrsFifo α) : Option α := q.Q.head?

/-- `Last()`. -/
def last (q : NrsFifo α) : Option α := q.Q.getLast?

/-- `Empty()`. -/
def empty (q : NrsFifo α) : Bool := decide (q.size = 0)

end NrsFifo

end LustreSimulator
