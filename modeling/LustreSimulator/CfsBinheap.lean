import LustreSimulator.Lib.Check
import LustreSimulator.Lib.PageTable
import Mathlib.Algebra.Group.Nat.Defs

/-!
# `LustreSimulator.CfsBinheap`: the binary heap of `libcfs` (`heap.cpp`, `heap.h`)

The nodes of a heap belong to its user, and a node has its index in `chn_index`. The heap has
pointers to its nodes in pages on three levels, a `PageTable`. `hop_compare(a, b)` is an argument
of each call, since what it reads of the nodes changes between the calls. The only table of
operations (`nrs_tbf_heap_ops`) has neither `hop_enter` nor `hop_exit`.

An access through a pointer to nothing and a failed assertion are faults. `alloc k` says whether the
allocation `k` of a call succeeds. `pages` counts the pages that are allocated and not yet freed.

The loops have a bound on the number of their turns, which is not reached. The heap is not tied to
a CPU partition (`cbh_cptab` is NULL), and its flags choose between two allocators that are one.
-/

set_option autoImplicit false

namespace LustreSimulator

open Lib

namespace CfsBinheap

/-- `CBH_SIZE` -/
def cbhSize : Nat := 2 ^ 9

/-- `CBH_POISON` -/
def cbhPoison : Nat := 0xdeadbeef

/-- `-ENOMEM` -/
def enomem : Int := -12

/-- What ends the program. -/
inductive Fault where
  /-- an access through a pointer that leads nowhere -/
  | stray
  /-- a failed `LASSERT` -/
  | lassert
  deriving DecidableEq, Repr

end CfsBinheap

/-- `struct cfs_binheap`, with the `chn_index` of every node. -/
structure CfsBinheap (ι : Type*) where
  elements : PageTable ι
  nelements : Nat
  hwm : Nat
  chnIndex : ι → Nat
  pages : Nat

namespace CfsBinheap

variable {ι : Type*} [DecidableEq ι] (compare : ι → ι → Bool)

/-! ### Pages -/

/-- `CBH_ALLOC` of a page and the pointer to it. -/
def addPage (h : CfsBinheap ι) (b : PageTable.Block) : Except Fault (CfsBinheap ι) :=
  (require (h.elements.fill cbhSize b) .stray).bind fun elements =>
  .ok { h with elements := elements, pages := h.pages + 1 }

/-- `cfs_binheap_grow(h)`. Where an allocation fails, the pages that were allocated before it are
freed, and no pointer was changed. -/
def cfsBinheapGrow (h : CfsBinheap ι) (alloc : Nat → Bool) : Except Fault (Int × CfsBinheap ι) :=
  (check (h.hwm % cbhSize = 0) .lassert).bind fun _ =>
  let out (h : CfsBinheap ι) : Int × CfsBinheap ι := (0, { h with hwm := h.hwm + cbhSize })
  if h.hwm = 0 then
    -- first use of single indirect
    if alloc 0 = false then .ok (enomem, h)
    else (h.addPage .one).bind fun h => .ok (out h)
  else
    let hwm := h.hwm - cbhSize
    if hwm < cbhSize * cbhSize then
      -- not filled double indirect
      if alloc 0 = false then .ok (enomem, h)
      else if hwm = 0 ∧ alloc 1 = false then .ok (enomem, h)
      else
        (if hwm = 0 then h.addPage .dir2 else .ok h).bind fun h =>
        (h.addPage (.two (hwm / cbhSize))).bind fun h => .ok (out h)
    else
      let hwm := hwm - cbhSize * cbhSize
      let idx0 := hwm / (cbhSize * cbhSize)
      let idx1 := hwm / cbhSize % cbhSize
      -- filled triple indirect
      if hwm ≥ cbhSize * cbhSize * cbhSize then .ok (enomem, h)
      else if alloc 0 = false then .ok (enomem, h)
      else if idx1 = 0 ∧ alloc 1 = false then .ok (enomem, h)
      else if hwm = 0 ∧ alloc 2 = false then .ok (enomem, h)
      else
        (if hwm = 0 then h.addPage .dir3 else .ok h).bind fun h =>
        (if idx1 = 0 then
          (check (h.elements.Has cbhSize (.mid idx0) = false) .lassert).bind fun _ =>
          h.addPage (.mid idx0)
        else (check (h.elements.Has cbhSize (.mid idx0) = true) .lassert).bind fun _ => .ok h).bind
        fun h => (h.addPage (.three idx0 idx1)).bind fun h => .ok (out h)

/-- `*cfs_binheap_pointer(h, idx)`. -/
def cell (h : CfsBinheap ι) (idx : Nat) : Except Fault (Option ι) :=
  require (h.elements.load cbhSize idx) .stray

/-- The node in a cell, through its pointer. -/
def node (h : CfsBinheap ι) (idx : Nat) : Except Fault ι :=
  (h.cell idx).bind fun x => require x .stray

/-- `*cfs_binheap_pointer(h, idx) = e`. -/
def put (h : CfsBinheap ι) (idx : Nat) (e : ι) : Except Fault (CfsBinheap ι) :=
  (require (h.elements.store cbhSize idx (some e)) .stray).bind fun elements =>
  .ok { h with elements := elements }

/-- `e->chn_index = idx`. -/
def setIndex (h : CfsBinheap ι) (e : ι) (idx : Nat) : CfsBinheap ι :=
  { h with chnIndex := fun x => if x = e then idx else h.chnIndex x }

/-- `e->chn_index = idx` and `*cfs_binheap_pointer(h, idx) = e`. -/
def seat (h : CfsBinheap ι) (e : ι) (idx : Nat) : Except Fault (CfsBinheap ι) :=
  (h.setIndex e idx).put idx e

/-! ### Nodes -/

/-- `cfs_binheap_find(h, idx)`. -/
def cfsBinheapFind (h : CfsBinheap ι) (idx : Nat) : Except Fault (Option ι) :=
  if idx ≥ h.nelements then .ok none else h.cell idx

/-- `cfs_binheap_root(h)`. -/
def cfsBinheapRoot (h : CfsBinheap ι) : Except Fault (Option ι) := h.cfsBinheapFind 0

/-- The loop of `cfs_binheap_bubble`, with `did_sth`. -/
def bubbleLoop (e : ι) : Nat → Nat → Bool → CfsBinheap ι → Except Fault (Bool × CfsBinheap ι)
  | 0, cur, did, h => (h.seat e cur).bind fun h => .ok (did, h)
  | k + 1, cur, did, h =>
      if cur = 0 then (h.seat e cur).bind fun h => .ok (did, h)
      else
        let parentIdx := (cur - 1) / 2
        (h.node parentIdx).bind fun parent =>
        (check (h.chnIndex parent = parentIdx) .lassert).bind fun _ =>
        if compare parent e then (h.seat e cur).bind fun h => .ok (did, h)
        else (h.seat parent cur).bind fun h => bubbleLoop e k parentIdx true h

/-- `cfs_binheap_bubble(h, e)`. -/
def cfsBinheapBubble (h : CfsBinheap ι) (e : ι) : Except Fault (Bool × CfsBinheap ι) :=
  (h.cell (h.chnIndex e)).bind fun x =>
  (check (x = some e) .lassert).bind fun _ =>
  bubbleLoop compare e (h.chnIndex e) (h.chnIndex e) false h

/-- The child to go down to, and its index. The second child is taken when it need not stand behind
the first. -/
def lesserChild (h : CfsBinheap ι) (childIdx : Nat) : Except Fault (ι × Nat) :=
  (h.node childIdx).bind fun child =>
  if childIdx + 1 < h.nelements then
    (h.node (childIdx + 1)).bind fun child2 =>
    .ok (if compare child2 child then (child2, childIdx + 1) else (child, childIdx))
  else .ok (child, childIdx)

/-- The loop of `cfs_binheap_sink`, with `did_sth`. -/
def sinkLoop (e : ι) : Nat → Nat → Bool → CfsBinheap ι → Except Fault (Bool × CfsBinheap ι)
  | 0, cur, did, h => (h.seat e cur).bind fun h => .ok (did, h)
  | k + 1, cur, did, h =>
      if 2 * cur + 1 ≥ h.nelements then (h.seat e cur).bind fun h => .ok (did, h)
      else
        (lesserChild compare h (2 * cur + 1)).bind fun child =>
        (check (h.chnIndex child.1 = child.2) .lassert).bind fun _ =>
        if compare e child.1 then (h.seat e cur).bind fun h => .ok (did, h)
        else (h.seat child.1 cur).bind fun h => sinkLoop e k child.2 true h

/-- `cfs_binheap_sink(h, e)`. -/
def cfsBinheapSink (h : CfsBinheap ι) (e : ι) : Except Fault (Bool × CfsBinheap ι) :=
  (h.cell (h.chnIndex e)).bind fun x =>
  (check (x = some e) .lassert).bind fun _ =>
  sinkLoop compare e h.nelements (h.chnIndex e) false h

/-- `cfs_binheap_relocate(h, e)`. -/
def cfsBinheapRelocate (h : CfsBinheap ι) (e : ι) : Except Fault (CfsBinheap ι) :=
  (h.cfsBinheapBubble compare e).bind fun r =>
  if r.1 = false then (r.2.cfsBinheapSink compare e).bind fun r => .ok r.2 else .ok r.2

/-- `cfs_binheap_insert(h, e)`. -/
def cfsBinheapInsert (alloc : Nat → Bool) (h : CfsBinheap ι) (e : ι) :
    Except Fault (Int × CfsBinheap ι) :=
  let newIdx := h.nelements
  (if newIdx = h.hwm then h.cfsBinheapGrow alloc else .ok (0, h)).bind fun r =>
  if r.1 ≠ 0 then .ok r
  else
    ({ r.2 with nelements := r.2.nelements + 1 }.seat e newIdx).bind fun h =>
    (h.cfsBinheapBubble compare e).bind fun r => .ok (0, r.2)

/-- `cfs_binheap_remove(h, e)`. The last node leaves with its index. -/
def cfsBinheapRemove (h : CfsBinheap ι) (e : ι) : Except Fault (CfsBinheap ι) :=
  let curIdx := h.chnIndex e
  (check (curIdx ≠ cbhPoison) .lassert).bind fun _ =>
  (check (curIdx < h.nelements) .lassert).bind fun _ =>
  (h.cell curIdx).bind fun x =>
  (check (x = some e) .lassert).bind fun _ =>
  let n := h.nelements - 1
  (h.cell n).bind fun last =>
  let h := { h with nelements := n }
  if last = some e then .ok h
  else
    (require last .stray).bind fun last =>
    (h.seat last curIdx).bind fun h =>
    (h.cfsBinheapRelocate compare last).bind fun h => .ok (h.setIndex e cbhPoison)

/-- `cfs_binheap_remove_root(h)`. -/
def cfsBinheapRemoveRoot (h : CfsBinheap ι) : Except Fault (Option ι × CfsBinheap ι) :=
  (h.cfsBinheapFind 0).bind fun e =>
  match e with
  | none => .ok (none, h)
  | some e => (h.cfsBinheapRemove compare e).bind fun h => .ok (some e, h)

/-! ### Creation and destruction -/

/-- `CBH_FREE` of a page, found through the pointer to it. -/
def cbhFree (h : CfsBinheap ι) (b : PageTable.Block) : Except Fault PageTable.Block :=
  (check (h.elements.Has cbhSize b = true) .stray).bind fun _ => .ok b

/-- One of the inner loops of `cfs_binheap_destroy`: free the page `block idx` of each index while
there are elements left. There are `k` turns at most. -/
def freeLoop (h : CfsBinheap ι) (block : Nat → PageTable.Block) :
    Nat → Nat → Int → Except Fault (List PageTable.Block × Int)
  | 0, _, n => .ok ([], n)
  | k + 1, idx, n =>
      if n > 0 then
        (h.cbhFree (block idx)).bind fun b =>
        (freeLoop h block k (idx + 1) (n - cbhSize)).bind fun r => .ok (b :: r.1, r.2)
      else .ok ([], n)

/-- The loop of `cfs_binheap_destroy` over `cbh_elements3`. -/
def freeLoop3 (h : CfsBinheap ι) :
    Nat → Nat → Int → Except Fault (List PageTable.Block × Int)
  | 0, _, n => .ok ([], n)
  | k + 1, idx0, n =>
      if n > 0 then
        (h.freeLoop (.three idx0) cbhSize 0 n).bind fun r =>
        (h.cbhFree (.mid idx0)).bind fun b =>
        (freeLoop3 h k (idx0 + 1) r.2).bind fun r' => .ok (r.1 ++ b :: r'.1, r'.2)
      else .ok ([], n)

/-- What `cfs_binheap_destroy` does: the pages that it frees, in this order, and the number of pages
that stay allocated. -/
structure Destroyed where
  freed : List PageTable.Block
  left : Int
  deriving DecidableEq, Repr

/-- `cfs_binheap_destroy(h)`. -/
def cfsBinheapDestroy (h : CfsBinheap ι) : Except Fault Destroyed :=
  let n : Int := h.hwm
  (if n > 0 then (h.cbhFree .one).bind fun b => .ok ([b], n - cbhSize)
    else .ok ([], n)).bind fun r1 =>
  (if r1.2 > 0 then
      (h.freeLoop .two cbhSize 0 r1.2).bind fun r =>
      (h.cbhFree .dir2).bind fun b => .ok (r.1 ++ [b], r.2)
    else .ok ([], r1.2)).bind fun r2 =>
  (if r2.2 > 0 then
      (h.freeLoop3 cbhSize 0 r2.2).bind fun r =>
      (h.cbhFree .dir3).bind fun b => .ok (r.1 ++ [b], r.2)
    else .ok ([], r2.2)).bind fun r3 =>
  let freed := r1.1 ++ r2.1 ++ r3.1
  .ok ⟨freed, h.pages - freed.length⟩

/-- A heap without pages. -/
def new (chnIndex : ι → Nat) : CfsBinheap ι := ⟨⟨none, none, none⟩, 0, 0, chnIndex, 0⟩

/-- The loop of `cfs_binheap_create`. `alloc n k` is the allocation `k` of the call `n` of
`cfs_binheap_grow`. On a failure the heap is destroyed. -/
def createLoop (count : Nat) (alloc : Nat → Nat → Bool) :
    Nat → Nat → CfsBinheap ι → Except Fault (Destroyed ⊕ CfsBinheap ι)
  | 0, _, h => .ok (.inr h)
  | k + 1, n, h =>
      if h.hwm < count then
        (h.cfsBinheapGrow (alloc n)).bind fun r =>
        if r.1 ≠ 0 then r.2.cfsBinheapDestroy.bind fun d => .ok (.inl d)
        else createLoop count alloc k (n + 1) r.2
      else .ok (.inr h)

/-- `cfs_binheap_create(ops, flags, count, ..)`, with the nodes that exist. -/
def cfsBinheapCreate (chnIndex : ι → Nat) (count : Nat) (alloc : Nat → Nat → Bool) :
    Except Fault (Destroyed ⊕ CfsBinheap ι) :=
  createLoop count alloc count 0 (new chnIndex)

/-! ### A heap in use -/

/-- `hop_compare` on nodes with these keys. -/
def order {κ : Type*} (cmp : κ → κ → Bool) (key : ι → κ) (a b : ι) : Bool := cmp (key a) (key b)

/-- What the user of a heap keeps beside it: the keys of the nodes, and which nodes are in the
heap. -/
structure InUse (ι κ : Type*) where
  heap : CfsBinheap ι
  key : ι → κ
  inHeap : ι → Bool

/-- A call with its answer. The user changes the key of the node before the call. -/
inductive Event (ι κ : Type*) where
  | insert (e : ι) (k : κ) (rc : Int)
  | remove (e : ι) (k : κ)
  | relocate (e : ι) (k : κ)
  | root (r : Option ι)
  | removeRoot (r : Option ι)

/-- The calls that a user makes: `insert` for nodes that are not in the heap, `remove` and
`relocate` for nodes that are. -/
inductive Step {κ : Type*} (cmp : κ → κ → Bool) : InUse ι κ → Event ι κ → InUse ι κ → Prop where
  | insert {st : InUse ι κ} {e : ι} {k : κ} {alloc : Nat → Bool} {rc : Int} {h : CfsBinheap ι} :
      st.inHeap e = false →
      st.heap.cfsBinheapInsert (order cmp (Function.update st.key e k)) alloc e = .ok (rc, h) →
      Step cmp st (.insert e k rc)
        ⟨h, Function.update st.key e k, Function.update st.inHeap e (decide (rc = 0))⟩
  | remove {st : InUse ι κ} {e : ι} {k : κ} {h : CfsBinheap ι} : st.inHeap e = true →
      st.heap.cfsBinheapRemove (order cmp (Function.update st.key e k)) e = .ok h →
      Step cmp st (.remove e k)
        ⟨h, Function.update st.key e k, Function.update st.inHeap e false⟩
  | relocate {st : InUse ι κ} {e : ι} {k : κ} {h : CfsBinheap ι} : st.inHeap e = true →
      st.heap.cfsBinheapRelocate (order cmp (Function.update st.key e k)) e = .ok h →
      Step cmp st (.relocate e k) ⟨h, Function.update st.key e k, st.inHeap⟩
  | root {st : InUse ι κ} {r : Option ι} : st.heap.cfsBinheapRoot = .ok r →
      Step cmp st (.root r) st
  | removeRoot {st : InUse ι κ} {r : Option ι} {h : CfsBinheap ι} :
      st.heap.cfsBinheapRemoveRoot (order cmp st.key) = .ok (r, h) →
      Step cmp st (.removeRoot r)
        ⟨h, st.key, fun e => if r = some e then false else st.inHeap e⟩

end CfsBinheap

end LustreSimulator
