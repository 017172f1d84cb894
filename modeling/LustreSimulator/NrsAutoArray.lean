import LustreSimulator.Lib.PriorityQueue
import LustreSimulator.NrsBinheap
import Mathlib.Logic.Function.Basic

/-!
# `LustreSimulator.NrsAutoArray`: the pages of the binary heap (`nrsbinheap.cpp`)

`LustreSimulator.NrsBinheap` is the heap over an array of cells. Here are the pages of that array,
as `cfs_autoarray_t` has them: a page is a block of `CAA_SIZE` pointers, zeroed when it is
allocated, and an entry is NULL or leads to the next level. A cell pointer `void **` is the `Slot`
of its cell, as no page moves and none is freed while the heap is in use.

Every access follows the pages, and has no result where it would go through a NULL pointer or
beyond the end of a page. An operation that fails an assertion has no result either.

An insertion allocates up to three pages. `alloc k` says whether the allocation at the level `k`
of the lookup succeeds, where it is made.
-/

set_option autoImplicit false

namespace LustreSimulator

open Lib

namespace NrsBinheap

variable {α β : Type}

/-- A page of `CAA_NOB` bytes, with an entry for each of its pointers. -/
abbrev Page (β : Type) := Fin caaSize → Option β

/-- `array[i]`, an access through the pointer `array`. -/
def deref (array : Option (Page β)) (i : Nat) : Option (Option β) :=
  if hi : i < caaSize then array.map fun p => p ⟨i, hi⟩ else none

/-- `array[i] = v`, with the page afterwards. -/
def assign (array : Option (Page β)) (i : Nat) (v : Option β) : Option (Page β) :=
  if hi : i < caaSize then array.map fun p => Function.update p ⟨i, hi⟩ v else none

/-- `cfs_autoarray_t` -/
structure AutoArray (α : Type) where
  aa3d : Option (Page (Page (Page α)))
  aa2d : Option (Page (Page α))
  aa1d : Option (Page α)

namespace AutoArray

/-- `cfs_aa_init(aa)`. -/
def cfsAaInit : AutoArray α := ⟨none, none, none⟩

/-- `*ptr` -/
def load (a : AutoArray α) : Slot → Option (Option α)
  | .one i => deref a.aa1d i
  | .two i j => do
      let page ← deref a.aa2d i
      deref page j
  | .three i j k => do
      let pages ← deref a.aa3d i
      let page ← deref pages j
      deref page k

/-- `*ptr = e` -/
def store (a : AutoArray α) (e : Option α) : Slot → Option (AutoArray α)
  | .one i => do
      let aa1d ← assign a.aa1d i e
      some { a with aa1d := some aa1d }
  | .two i j => do
      let page ← deref a.aa2d i
      let page ← assign page j e
      let aa2d ← assign a.aa2d i (some page)
      some { a with aa2d := some aa2d }
  | .three i j k => do
      let pages ← deref a.aa3d i
      let page ← deref pages j
      let page ← assign page k e
      let pages ← assign pages j (some page)
      let aa3d ← assign a.aa3d i (some pages)
      some { a with aa3d := some aa3d }

/-- `cfs_aa_index(a, idx)`, which reads the pointers to the page of the cell. -/
def cfsAaIndex (a : AutoArray α) (idx : Nat) : Option Slot :=
  if idx < caaSize then some (.one idx)
  else
    let idx := idx - caaSize
    let idx0 := idx / caaSize
    if idx0 < caaSize then (deref a.aa2d idx0).map fun _ => .two idx0 (idx % caaSize)
    else do
      let idx := idx - caaSize * caaSize
      let idx0 := idx / caaSize
      let idx1 := idx0 / caaSize
      let pages ← deref a.aa3d idx1
      (deref pages (idx0 % caaSize)).map fun _ => .three idx1 (idx0 % caaSize) (idx % caaSize)

/-- `cfs_aa_lookup1(&array, grow)`: the pointer `array` afterwards, which is NULL exactly when the
answer is 0. -/
def cfsAaLookup1 (array : Option (Page β)) (grow alloc : Bool) : Option (Page β) :=
  if array.isSome then array
  else if grow && alloc then some fun _ => none
  else none

/-- `cfs_aa_lookup(a, idx, grow)`: the array afterwards, and the cell or NULL. The pages that were
allocated in front of a failure stay. -/
def cfsAaLookup (a : AutoArray α) (idx : Nat) (grow : Bool) (alloc : Nat → Bool) :
    Option (AutoArray α × Option Slot) :=
  if idx < caaSize then
    match cfsAaLookup1 a.aa1d grow (alloc 0) with
    | none => some (a, none)
    | some aa1d => some ({ a with aa1d := some aa1d }, some (.one idx))
  else
    let idx := idx - caaSize
    let idx0 := idx / caaSize
    if idx0 < caaSize then
      match cfsAaLookup1 a.aa2d grow (alloc 0) with
      | none => some (a, none)
      | some aa2d => do
          let page ← deref (some aa2d) idx0
          match cfsAaLookup1 page grow (alloc 1) with
          | none => some ({ a with aa2d := some aa2d }, none)
          | some page => do
              let aa2d ← assign (some aa2d) idx0 (some page)
              some ({ a with aa2d := some aa2d }, some (.two idx0 (idx % caaSize)))
    else
      let idx := idx - caaSize * caaSize
      let idx0 := idx / caaSize
      let idx1 := idx0 / caaSize
      let idx0 := idx0 % caaSize
      match cfsAaLookup1 a.aa3d grow (alloc 0) with
      | none => some (a, none)
      | some aa3d => do
          let pages ← deref (some aa3d) idx1
          match cfsAaLookup1 pages grow (alloc 1) with
          | none => some ({ a with aa3d := some aa3d }, none)
          | some pages => do
              let page ← deref (some pages) idx0
              match cfsAaLookup1 page grow (alloc 2) with
              | none => do
                  let aa3d ← assign (some aa3d) idx1 (some pages)
                  some ({ a with aa3d := some aa3d }, none)
              | some page => do
                  let pages ← assign (some pages) idx0 (some page)
                  let aa3d ← assign (some aa3d) idx1 (some pages)
                  some ({ a with aa3d := some aa3d }, some (.three idx1 idx0 (idx % caaSize)))

end AutoArray

end NrsBinheap

open NrsBinheap in
/-- `class NrsBinheap` with its pages. -/
structure PagedBinheap (α : Type) where
  cbhMembers : AutoArray α
  cbhSize : Nat
  cbhMaxsize : Nat
  size : Int

namespace PagedBinheap

open NrsBinheap

variable {α : Type}

/-- `-ENOMEM` -/
def enomem : Int := -12

/-- `NrsBinheap::NrsBinheap()` -/
def new : PagedBinheap α := ⟨.cfsAaInit, 0, 0, 0⟩

/-- `compare(a, b)`, which looks into both elements. -/
def compareAt (compare : α → α → Bool) : Option α → Option α → Option Bool
  | some a, some b => some (compare a b)
  | _, _ => none

/-- The loop of `cfs_bheap_insert`, with the cell `childPtr` of the index `childIdx`. -/
def bubble (compare : α → α → Bool) (e : α) :
    Nat → Nat → Slot → AutoArray α → Option (AutoArray α)
  | 0, _, childPtr, m => m.store (some e) childPtr
  | k + 1, childIdx, childPtr, m =>
      if childIdx = 0 then m.store (some e) childPtr
      else do
        let parentIdx := (childIdx - 1) / 2
        let parentPtr ← m.cfsAaIndex parentIdx
        let parent ← m.load parentPtr
        let stop ← compareAt compare parent (some e)
        if stop then m.store (some e) childPtr
        else do
          let m ← m.store parent childPtr
          bubble compare e k parentIdx parentPtr m

/-- `cfs_bheap_insert(e)`, with its return code. The counter `cbh_size` goes up first. -/
def cfsBheapInsert (compare : α → α → Bool) (alloc : Nat → Bool) (h : PagedBinheap α) (e : α) :
    Option (Int × PagedBinheap α) :=
  let childIdx := h.cbhSize
  if childIdx ≤ h.cbhMaxsize then
    let h := { h with cbhSize := childIdx + 1 }
    if childIdx < h.cbhMaxsize then do
      let childPtr ← h.cbhMembers.cfsAaIndex childIdx
      let m ← bubble compare e childIdx childIdx childPtr h.cbhMembers
      some (0, { h with cbhMembers := m })
    else do
      let (m, found) ← h.cbhMembers.cfsAaLookup childIdx true alloc
      match found with
      | none => some (enomem, { h with cbhMembers := m })
      | some childPtr => do
          let m ← bubble compare e childIdx childIdx childPtr m
          some (0, { h with cbhMembers := m, cbhMaxsize := h.cbhSize })
  else none

/-- The child that the way down looks at: its index, its cell and its element. -/
def lesserChild (compare : α → α → Bool) (n parentIdx : Nat) (m : AutoArray α) :
    Option (Nat × Slot × Option α) := do
  let childIdx := 2 * parentIdx + 1
  let childPtr ← m.cfsAaIndex childIdx
  let child ← m.load childPtr
  if childIdx + 1 < n then do
    let child2Ptr ← m.cfsAaIndex (childIdx + 1)
    let child2 ← m.load child2Ptr
    let less ← compareAt compare child2 child
    some (if less then (childIdx + 1, child2Ptr, child2) else (childIdx, childPtr, child))
  else some (childIdx, childPtr, child)

/-- The loop of `cfs_bheap_remove_root`, with the cell `parentPtr` of the index `parentIdx`. -/
def sink (compare : α → α → Bool) (e : Option α) (n : Nat) :
    Nat → Nat → Slot → AutoArray α → Option (AutoArray α)
  | 0, _, parentPtr, m => m.store e parentPtr
  | k + 1, parentIdx, parentPtr, m =>
      if parentIdx < n ∧ 2 * parentIdx + 1 < n then do
        let (childIdx, childPtr, child) ← lesserChild compare n parentIdx m
        let stop ← compareAt compare e child
        if stop then m.store e parentPtr
        else do
          let m ← m.store child parentPtr
          sink compare e n k childIdx childPtr m
      else m.store e parentPtr

/-- `cfs_bheap_remove_root()`. -/
def cfsBheapRemoveRoot (compare : α → α → Bool) (h : PagedBinheap α) :
    Option (Option α × PagedBinheap α) :=
  if h.cbhSize = 0 then some (none, h)
  else do
    let parentPtr ← h.cbhMembers.cfsAaIndex 0
    let r ← h.cbhMembers.load parentPtr
    let n := h.cbhSize - 1
    let last ← h.cbhMembers.cfsAaIndex n
    let e ← h.cbhMembers.load last
    let m ← sink compare e n n 0 parentPtr h.cbhMembers
    some (r, { h with cbhMembers := m, cbhSize := n })

/-- `Enqueue(e)`. The counter `size` goes up first. -/
def enqueue (compare : α → α → Bool) (alloc : Nat → Bool) (h : PagedBinheap α) (e : α) :
    Option (Int × PagedBinheap α) :=
  { h with size := h.size + 1 }.cfsBheapInsert compare alloc e

/-- `Requeue(e)`, which has the body of `Enqueue`. -/
def requeue (compare : α → α → Bool) (alloc : Nat → Bool) (h : PagedBinheap α) (e : α) :
    Option (Int × PagedBinheap α) :=
  { h with size := h.size + 1 }.cfsBheapInsert compare alloc e

/-- `Dequeue()`. -/
def dequeue (compare : α → α → Bool) (h : PagedBinheap α) : Option (Option α × PagedBinheap α) :=
  if h.size = 0 then some (none, h)
  else { h with size := h.size - 1 }.cfsBheapRemoveRoot compare

/-- A call of the scheduler, with the outcomes of its allocations. -/
inductive Call (α : Type) where
  | enqueue (e : α) (alloc : Nat → Bool)
  | requeue (e : α) (alloc : Nat → Bool)
  | dequeue

/-- What an insertion answers. -/
def inserts (e : α) (rc : Int) : Service α := if rc = 0 then .insert e else .refuse e

/-- One call, with its answer. -/
def call (compare : α → α → Bool) (h : PagedBinheap α) :
    Call α → Option (Service α × PagedBinheap α)
  | .enqueue e alloc => (h.enqueue compare alloc e).map fun (rc, h) => (inserts e rc, h)
  | .requeue e alloc => (h.requeue compare alloc e).map fun (rc, h) => (inserts e rc, h)
  | .dequeue => (h.dequeue compare).map fun (r, h) => (.take r, h)

/-- A sequence of calls, with their answers. -/
def runCalls (compare : α → α → Bool) :
    List (Call α) → PagedBinheap α → Option (List (Service α) × PagedBinheap α)
  | [], h => some ([], h)
  | c :: cs, h => do
      let (answer, h) ← h.call compare c
      let (answers, h) ← runCalls compare cs h
      some (answer :: answers, h)

end PagedBinheap

end LustreSimulator
