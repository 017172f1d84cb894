import Mathlib.Algebra.Group.Nat.Defs
import Mathlib.Tactic.Common

/-!
# `LustreSimulator.NrsBinheap`: the binary heap as a scheduler (`nrsbinheap.cpp`)

The heap is an array of pages on three levels. `cfsAaIndex` is the cell of an index, and `Slot`
is the address of a cell. The pages of the third level have `2 ^ 10` entries each, so a heap
holds `caaCapacity` elements. An insertion beyond that would write past a page, and has no result
here. A page that is missing is allocated at the first access, which succeeds.

`compare(a, b)` is true when `a` need not stand behind `b`. `Erase` has an empty body in the
source. The loops have a bound on the number of their turns, which is not reached.
-/

set_option autoImplicit false

namespace LustreSimulator

namespace NrsBinheap

/-- A cell of `cfs_autoarray_t`: in `aa_1d`, in a page of `aa_2d`, or in a page of `aa_3d`. -/
inductive Slot where
  | one (i : Nat)
  | two (i j : Nat)
  | three (i j k : Nat)
  deriving DecidableEq, Repr

/-- `CAA_SIZE` -/
def caaSize : Nat := 2 ^ 10

/-- The number of cells. -/
def caaCapacity : Nat := caaSize + caaSize * caaSize + caaSize * caaSize * caaSize

/-- `cfs_aa_index(a, idx)`. -/
def cfsAaIndex (idx : Nat) : Slot :=
  if idx < caaSize then .one idx
  else
    let idx := idx - caaSize
    let idx0 := idx / caaSize
    if idx0 < caaSize then .two idx0 (idx % caaSize)
    else
      let idx := idx - caaSize * caaSize
      let idx0 := idx / caaSize
      .three (idx0 / caaSize) (idx0 % caaSize) (idx % caaSize)

end NrsBinheap

open NrsBinheap in
/-- `class NrsBinheap`, with the `size` of `class Scheduler`. -/
structure NrsBinheap (α : Type*) where
  members : Slot → α
  cbhSize : Nat
  cbhMaxsize : Nat
  size : Int

namespace NrsBinheap

variable {α : Type*}

/-- A new heap. The cells hold anything. -/
def new [Inhabited α] : NrsBinheap α := ⟨fun _ => default, 0, 0, 0⟩

/-- Write a cell. -/
def put (m : Slot → α) (idx : Nat) (e : α) : Slot → α :=
  fun s => if s = cfsAaIndex idx then e else m s

/-- The loop of `cfs_bheap_insert`: go up from the cell `child` and move the parents down. -/
def bubble (compare : α → α → Bool) (e : α) : Nat → Nat → (Slot → α) → Slot → α
  | 0, child, m => put m child e
  | k + 1, child, m =>
      if child = 0 then put m child e
      else
        let parent := (child - 1) / 2
        if compare (m (cfsAaIndex parent)) e then put m child e
        else bubble compare e k parent (put m child (m (cfsAaIndex parent)))

/-- `cfs_bheap_insert(e)`. -/
def cfsBheapInsert (compare : α → α → Bool) (h : NrsBinheap α) (e : α) : Option (NrsBinheap α) :=
  if h.cbhSize ≤ h.cbhMaxsize ∧ h.cbhSize < caaCapacity then
    some { h with
      members := bubble compare e h.cbhSize h.cbhSize h.members
      cbhSize := h.cbhSize + 1
      cbhMaxsize := if h.cbhSize < h.cbhMaxsize then h.cbhMaxsize else h.cbhSize + 1 }
  else none

/-- The loop of `cfs_bheap_remove_root`: go down from the cell `parent` of a heap of `n` cells and
move the lesser children up. -/
def sink (compare : α → α → Bool) (e : α) (n : Nat) : Nat → Nat → (Slot → α) → Slot → α
  | 0, parent, m => put m parent e
  | k + 1, parent, m =>
      if 2 * parent + 1 ≥ n then put m parent e
      else
        let child :=
          if 2 * parent + 2 < n ∧
              compare (m (cfsAaIndex (2 * parent + 2))) (m (cfsAaIndex (2 * parent + 1))) = true
          then 2 * parent + 2 else 2 * parent + 1
        if compare e (m (cfsAaIndex child)) then put m parent e
        else sink compare e n k child (put m parent (m (cfsAaIndex child)))

/-- `cfs_bheap_remove_root()`. -/
def cfsBheapRemoveRoot (compare : α → α → Bool) (h : NrsBinheap α) : Option α × NrsBinheap α :=
  if h.cbhSize = 0 then (none, h)
  else
    let n := h.cbhSize - 1
    (some (h.members (cfsAaIndex 0)), { h with
      members := sink compare (h.members (cfsAaIndex n)) n n 0 h.members
      cbhSize := n })

/-- `Enqueue(e)`. -/
def enqueue (compare : α → α → Bool) (h : NrsBinheap α) (e : α) : Option (NrsBinheap α) :=
  { h with size := h.size + 1 }.cfsBheapInsert compare e

/-- `Dequeue()`. -/
def dequeue (compare : α → α → Bool) (h : NrsBinheap α) : Option α × NrsBinheap α :=
  if h.size = 0 then (none, h)
  else { h with size := h.size - 1 }.cfsBheapRemoveRoot compare

/-- `Erase(e)`, which is not implemented. -/
def erase (h : NrsBinheap α) (_e : α) : NrsBinheap α := h

end NrsBinheap

end LustreSimulator
