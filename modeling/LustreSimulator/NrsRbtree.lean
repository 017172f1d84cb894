import LustreSimulator.Rbtree

/-!
# `LustreSimulator.NrsRbtree`: the red-black tree as a scheduler (`nrsrbtree.cpp`)

The entries of the tree are pointers to what is scheduled, and a comparison looks at what they
point to. `keyf(e)` is the node inside of an entry. It is in the tree when the entry is, and no
entry is in the tree twice, so the node is found by its entry. A function has no result when
the source would follow a `NULL` pointer. `size` is a 64-bit counter, and an `Int` here.
-/

set_option autoImplicit false

namespace LustreSimulator

open Lib

/-- `class NrsRbtree`. -/
structure NrsRbtree (α : Type*) where
  tree : RbTree α
  size : Int

namespace NrsRbtree

variable {α : Type*}

/-- A new scheduler. -/
def new : NrsRbtree α := ⟨.nil, 0⟩

/-- The entries that `Enqueue(e)` compares with `e`, the last one first. -/
def compared (compare : α → α → Int) (q : NrsRbtree α) (e : α) : List α :=
  (Rbtree.descend (fun y => if compare e y < 0 then -1 else 1) q.tree [] 1).path.map Frame.entry

/-- `Enqueue(e)`. -/
def enqueue (compare : α → α → Int) (q : NrsRbtree α) (e : α) : Option (NrsRbtree α) :=
  (Rbtree.rbInsert compare e q.tree).map fun t => ⟨t, q.size + 1⟩

/-- `Erase(e)`. -/
def erase [DecidableEq α] (q : NrsRbtree α) (e : α) : Option (NrsRbtree α) :=
  (findPos (fun i => decide (i = e)) q.tree []).bind fun node =>
  (Rbtree.rbErase node).map fun t => ⟨t, q.size - 1⟩

/-- `Dequeue()`. -/
def dequeue (q : NrsRbtree α) : Option (Option α × NrsRbtree α) :=
  match Rbtree.rbFirst q.tree with
  | none => some (none, q)
  | some node => (Rbtree.rbErase node).map fun t => (some node.entry, ⟨t, q.size - 1⟩)

/-- `First()`. -/
def first (q : NrsRbtree α) : Option α := (Rbtree.rbFirst q.tree).map Pos.entry

end NrsRbtree

end LustreSimulator
