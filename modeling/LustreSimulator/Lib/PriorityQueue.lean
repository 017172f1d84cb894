import LustreSimulator.Lib.Run
import Mathlib.Algebra.Order.Group.Multiset

/-!
# `LustreSimulator.Lib.PriorityQueue`: what a priority queue does

The state of a priority queue is the multiset of its elements. `Serves` says what one call does:
an insertion adds its element or is refused, and a removal takes an element that precedes all
others, or finds nothing because the queue is empty.

`Run.balance` is the account over a run: the elements at the end are those that were inserted and
not taken.
-/

set_option autoImplicit false

namespace LustreSimulator.Lib

variable {α : Type*}

/-- A call with its answer. -/
inductive Service (α : Type*) where
  | insert (a : α)
  | refuse (a : α)
  | take (found : Option α)
  deriving DecidableEq, Repr

/-- The element that a call inserts. -/
def Service.inserted : Service α → Option α
  | .insert a => some a
  | _ => none

/-- The element that a call takes. -/
def Service.taken : Service α → Option α
  | .take found => found
  | _ => none

/-- The elements that the calls insert. -/
def insertions (log : List (Service α)) : Multiset α := log.filterMap Service.inserted

/-- The elements that the calls take. -/
def removals (log : List (Service α)) : Multiset α := log.filterMap Service.taken

/-- What a call does to the elements. `le a b` says that `a` may precede `b`. -/
inductive Serves (le : α → α → Prop) : Multiset α → Service α → Multiset α → Prop where
  | insert (a : α) (s : Multiset α) : Serves le s (.insert a) (a ::ₘ s)
  | refuse (a : α) (s : Multiset α) : Serves le s (.refuse a) s
  | take (a : α) (s : Multiset α) : (∀ b ∈ a ::ₘ s, le a b) → Serves le (a ::ₘ s) (.take (some a)) s
  | idle : Serves le 0 (.take none) 0

variable {le : α → α → Prop} {s t : Multiset α} {c : Service α} {log : List (Service α)}

/-- The insertions of a call and of the calls behind it. -/
theorem insertions_cons (c : Service α) (log : List (Service α)) :
    insertions (c :: log) = insertions [c] + insertions log :=
  congrArg Multiset.ofList (List.filterMap_append (l := [c]))

/-- The removals of a call and of the calls behind it. -/
theorem removals_cons (c : Service α) (log : List (Service α)) :
    removals (c :: log) = removals [c] + removals log :=
  congrArg Multiset.ofList (List.filterMap_append (l := [c]))

/-- One call keeps the account. -/
theorem Serves.balance (h : Serves le s c t) : s + insertions [c] = removals [c] + t := by
  cases h with
  | insert a =>
      show s + {a} = 0 + (a ::ₘ s)
      rw [zero_add, add_comm, Multiset.singleton_add]
  | refuse a =>
      show s + 0 = 0 + s
      rw [zero_add, add_zero]
  | take a =>
      show a ::ₘ t + 0 = {a} + t
      rw [add_zero, Multiset.singleton_add]
  | idle => rfl

/-- What was there before a run and what it inserts was taken or is there at the end. -/
theorem Run.balance (h : Run (Serves le) s log t) : s + insertions log = removals log + t := by
  induction h with
  | nil s => rw [show insertions ([] : List (Service α)) = 0 from rfl,
      show removals ([] : List (Service α)) = 0 from rfl, add_zero, zero_add]
  | @cons s u t c log hstep _ ih =>
      rw [insertions_cons, removals_cons, ← add_assoc, hstep.balance, add_assoc, ih, ← add_assoc]

end LustreSimulator.Lib
