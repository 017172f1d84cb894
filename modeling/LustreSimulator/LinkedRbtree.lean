import LustreSimulator.Lib.LinkedTree
import Mathlib.Data.Int.Notation

/-!
# `LustreSimulator.LinkedRbtree`: the red-black tree in memory (`rbtree.cpp`)

`LustreSimulator.Rbtree` reads an `rb_node *` as a place of a tree. Here the nodes are in memory as
the source has them: the colour is packed into the word of the parent pointer, and the functions
follow and write pointers one by one.

* A read or a write through `NULL` has no result.
* A loop has fuel, and no result when the fuel runs out.
* The rotations, the walks and the branches of `rb_insert_color` and `__rb_erase_color` come in
  pairs that are mirror images. A `Side` says which one is meant.
-/

set_option autoImplicit false

namespace LustreSimulator

open Lib

/-- An `rb_node *`. The two low bits are zero, as the alignment of the structure makes them. -/
structure RbPtr where
  addr : BitVec 64
  aligned : addr &&& 3 = 0
  deriving DecidableEq, Repr

/-- `NULL`. -/
instance : Zero RbPtr := ⟨⟨0, rfl⟩⟩

/-- `struct rb_node`. -/
structure RbNode (α : Type) where
  rbParentColor : BitVec 64
  rbRight : RbPtr
  rbLeft : RbPtr
  rbEntry : α
  deriving Repr

namespace RbNode

variable {α : Type}

/-- `rb_parent(r)`. -/
def rbParent (r : RbNode α) : RbPtr where
  addr := r.rbParentColor &&& ~~~3
  aligned := by
    rw [BitVec.and_assoc]
    exact BitVec.and_zero

/-- `rb_color(r)`: `RB_RED` is 0 and `RB_BLACK` is 1. -/
def rbColor (r : RbNode α) : BitVec 64 := r.rbParentColor &&& 1

/-- `rb_is_red(r)`. -/
def rbIsRed (r : RbNode α) : Bool := r.rbColor == 0

/-- `rb_set_red(r)`. -/
def rbSetRed (r : RbNode α) : RbNode α := { r with rbParentColor := r.rbParentColor &&& ~~~1 }

/-- `rb_set_black(r)`. -/
def rbSetBlack (r : RbNode α) : RbNode α := { r with rbParentColor := r.rbParentColor ||| 1 }

/-- `rb_set_color(rb, color)`. -/
def rbSetColor (color : BitVec 64) (rb : RbNode α) : RbNode α :=
  { rb with rbParentColor := rb.rbParentColor &&& ~~~1 ||| color }

/-- `rb_set_parent(rb, p)`. -/
def rbSetParent (p : RbPtr) (rb : RbNode α) : RbNode α :=
  { rb with rbParentColor := rb.rbParentColor &&& 3 ||| p.addr }

/-- `rb_left` or `rb_right`. -/
def child (r : RbNode α) : Side → RbPtr
  | .left => r.rbLeft
  | .right => r.rbRight

/-- An assignment to `rb_left` or `rb_right`. -/
def setChild (side : Side) (v : RbPtr) (r : RbNode α) : RbNode α :=
  match side with
  | .left => { r with rbLeft := v }
  | .right => { r with rbRight := v }

end RbNode

/-- The memory of the nodes, and the tree object. -/
structure LinkedRbtree (α : Type) where
  mem : RbPtr → RbNode α
  root : RbPtr
  num : Int

namespace LinkedRbtree

variable {α : Type}

/-- `Rbtree::Rbtree()`, whatever is in memory. -/
def new (mem : RbPtr → RbNode α) : LinkedRbtree α := ⟨mem, 0, 0⟩

/-! ### Memory -/

/-- The node at an address. -/
def node? (s : LinkedRbtree α) (a : RbPtr) : Option (RbNode α) :=
  if a = 0 then none else some (s.mem a)

/-- A write to the node at an address. -/
def modify (s : LinkedRbtree α) (a : RbPtr) (f : RbNode α → RbNode α) : Option (LinkedRbtree α) :=
  if a = 0 then none else some { s with mem := Function.update s.mem a (f (s.mem a)) }

/-- `a && rb_is_red(a)`. Its negation is the `!a || rb_is_black(a)` of `__rb_erase_color`. -/
def isRed (s : LinkedRbtree α) (a : RbPtr) : Bool := a != 0 && (s.mem a).rbIsRed

/-- `if (a) rb_set_black(a)`. -/
def blacken (s : LinkedRbtree α) (a : RbPtr) : Option (LinkedRbtree α) :=
  if a = 0 then some s else s.modify a .rbSetBlack

/-- `if (a) rb_set_parent(a, p)`. -/
def adopt (s : LinkedRbtree α) (a p : RbPtr) : Option (LinkedRbtree α) :=
  if a = 0 then some s else s.modify a (.rbSetParent p)

/-- `new` takes the place of `old` below `parent`, or at the root where there is no parent. The
child on the given side is compared, and the other one is written when it is not `old`. -/
def replaceChild (s : LinkedRbtree α) (side : Side) (parent old new : RbPtr) :
    Option (LinkedRbtree α) :=
  if parent = 0 then some { s with root := new }
  else do
    let p ← s.node? parent
    if p.child side = old then s.modify parent (.setChild side new)
    else s.modify parent (.setChild side.flip new)

/-! ### Rotations -/

/-- A rotation: `node` goes down to the given side, and its other child comes up. -/
def rbRotate (s : LinkedRbtree α) (side : Side) (node : RbPtr) : Option (LinkedRbtree α) := do
  let n ← s.node? node
  let up := n.child side.flip
  let parent := n.rbParent
  let u ← s.node? up
  let s ← s.modify node (.setChild side.flip (u.child side))
  let s ← s.adopt (u.child side) node
  let s ← s.modify up (.setChild side node)
  let s ← s.modify up (.rbSetParent parent)
  let s ← s.replaceChild side parent node up
  s.modify node (.rbSetParent up)

/-- `__rb_rotate_left(node)`. -/
def rbRotateLeft (s : LinkedRbtree α) (node : RbPtr) : Option (LinkedRbtree α) :=
  s.rbRotate .left node

/-- `__rb_rotate_right(node)`. -/
def rbRotateRight (s : LinkedRbtree α) (node : RbPtr) : Option (LinkedRbtree α) :=
  s.rbRotate .right node

/-- The rotation to the given side. -/
def rotate (s : LinkedRbtree α) : Side → RbPtr → Option (LinkedRbtree α)
  | .left => s.rbRotateLeft
  | .right => s.rbRotateRight

/-! ### Insertion -/

/-- A turn of `rb_insert_color` with a red uncle. -/
def rbRecolor (s : LinkedRbtree α) (uncle parent gparent : RbPtr) : Option (LinkedRbtree α) := do
  let s ← s.modify uncle .rbSetBlack
  let s ← s.modify parent .rbSetBlack
  s.modify gparent .rbSetRed

/-- The end of a turn of `rb_insert_color` without a red uncle. -/
def rbRaiseParent (s : LinkedRbtree α) (side : Side) (parent gparent : RbPtr) :
    Option (LinkedRbtree α) := do
  let s ← s.modify parent .rbSetBlack
  let s ← s.modify gparent .rbSetRed
  s.rotate side.flip gparent

/-- A turn of `rb_insert_color` without a red uncle: an inner `node` is first rotated over its
parent and they change roles. The loop goes on at the node of the result. -/
def rbInsertRotate (s : LinkedRbtree α) (side : Side) (node parent gparent : RbPtr) :
    Option (LinkedRbtree α × RbPtr) := do
  let p ← s.node? parent
  if p.child side.flip = node then
    let s ← s.rotate side parent
    let s ← s.rbRaiseParent side node gparent
    some (s, parent)
  else
    let s ← s.rbRaiseParent side parent gparent
    some (s, node)

/-- `rb_insert_color(node)`. -/
def rbInsertColor : Nat → LinkedRbtree α → RbPtr → Option (LinkedRbtree α)
  | 0, _, _ => none
  | fuel + 1, s, node => do
      let n ← s.node? node
      let parent := n.rbParent
      if s.isRed parent then
        let p ← s.node? parent
        let gparent := p.rbParent
        let g ← s.node? gparent
        let side := if parent = g.rbLeft then Side.left else .right
        let uncle := g.child side.flip
        if s.isRed uncle then
          let s ← s.rbRecolor uncle parent gparent
          rbInsertColor fuel s gparent
        else
          let (s, node) ← s.rbInsertRotate side node parent gparent
          rbInsertColor fuel s node
      else s.modify s.root .rbSetBlack

/-- An `rb_node **`. -/
inductive RbLink where
  | root
  | child (side : Side) (parent : RbPtr)
  deriving DecidableEq, Repr

/-- `*p`. -/
def readLink (s : LinkedRbtree α) : RbLink → Option RbPtr
  | .root => some s.root
  | .child side a => (s.node? a).map (·.child side)

/-- `*p = v`. -/
def writeLink (s : LinkedRbtree α) (p : RbLink) (v : RbPtr) : Option (LinkedRbtree α) :=
  match p with
  | .root => some { s with root := v }
  | .child side a => s.modify a (.setChild side v)

/-- `rb_link_node(node, parent, p)`. -/
def rbLinkNode (s : LinkedRbtree α) (node parent : RbPtr) (p : RbLink) :
    Option (LinkedRbtree α) := do
  let s ← s.modify node fun n => { n with rbParentColor := parent.addr, rbLeft := 0, rbRight := 0 }
  s.writeLink p node

/-- The loop `while (*p)` of `rb_insert`. -/
def rbDescend (compare : α → α → Int) (s : LinkedRbtree α) (node : RbPtr) :
    Nat → RbPtr → RbLink → Option (RbPtr × RbLink)
  | 0, _, _ => none
  | fuel + 1, parent, p => do
      let next ← s.readLink p
      if next = 0 then some (parent, p)
      else
        let n ← s.node? node
        let q ← s.node? next
        let side := if compare n.rbEntry q.rbEntry < 0 then Side.left else .right
        rbDescend compare s node fuel next (.child side next)

/-- `rb_insert(node)`. -/
def rbInsert (compare : α → α → Int) (fuel : Nat) (s : LinkedRbtree α) (node : RbPtr) :
    Option (LinkedRbtree α) := do
  let (parent, p) ← s.rbDescend compare node fuel 0 .root
  let s ← s.rbLinkNode node parent p
  let s ← s.rbInsertColor fuel node
  some { s with num := s.num + 1 }

/-! ### Walks -/

/-- The loop that follows the links of one side down to the last node. -/
def outermost (s : LinkedRbtree α) (side : Side) : Nat → RbPtr → Option RbPtr
  | 0, _ => none
  | fuel + 1, node => do
      let n ← s.node? node
      if n.child side = 0 then some node else outermost s side fuel (n.child side)

/-- The loop that climbs while `node` is the child on the given side. -/
def climb (s : LinkedRbtree α) (side : Side) : Nat → RbPtr → Option RbPtr
  | 0, _ => none
  | fuel + 1, node => do
      let n ← s.node? node
      if n.rbParent = 0 then some 0
      else
        let p ← s.node? n.rbParent
        if node = p.child side then climb s side fuel n.rbParent else some n.rbParent

/-- The last node to one side. -/
def rbEnd (s : LinkedRbtree α) (side : Side) (fuel : Nat) : Option RbPtr :=
  if s.root = 0 then some 0 else s.outermost side fuel s.root

/-- `rb_first()`. -/
def rbFirst (s : LinkedRbtree α) (fuel : Nat) : Option RbPtr := s.rbEnd .left fuel

/-- `rb_last()`. -/
def rbLast (s : LinkedRbtree α) (fuel : Nat) : Option RbPtr := s.rbEnd .right fuel

/-- One step of a walk to the given side. -/
def rbStep (s : LinkedRbtree α) (side : Side) (fuel : Nat) (node : RbPtr) : Option RbPtr := do
  let n ← s.node? node
  if n.rbParent = node then some 0
  else if n.child side ≠ 0 then s.outermost side.flip fuel (n.child side)
  else s.climb side fuel node

/-- `rb_next(node)`. -/
def rbNext (s : LinkedRbtree α) (fuel : Nat) (node : RbPtr) : Option RbPtr :=
  s.rbStep .right fuel node

/-- `rb_prev(node)`. -/
def rbPrev (s : LinkedRbtree α) (fuel : Nat) (node : RbPtr) : Option RbPtr :=
  s.rbStep .left fuel node

/-! ### Erasure -/

/-- A red sibling `other` is rotated over `parent`. The result has the sibling after that. -/
def rbRotateSibling (s : LinkedRbtree α) (side : Side) (parent other : RbPtr) :
    Option (LinkedRbtree α × RbPtr) := do
  let o ← s.node? other
  if o.rbIsRed then
    let s ← s.modify other .rbSetBlack
    let s ← s.modify parent .rbSetRed
    let s ← s.rotate side parent
    let p ← s.node? parent
    some (s, p.child side.flip)
  else some (s, other)

/-- A sibling without an outer red child gets one: its inner child is rotated over it. The result
has the sibling after that. -/
def rbRotateInner (s : LinkedRbtree α) (side : Side) (parent other : RbPtr) :
    Option (LinkedRbtree α × RbPtr) := do
  let o ← s.node? other
  if s.isRed (o.child side.flip) then some (s, other)
  else
    let s ← s.blacken (o.child side)
    let s ← s.modify other .rbSetRed
    let s ← s.rotate side.flip other
    let p ← s.node? parent
    some (s, p.child side.flip)

/-- The last rotation of `__rb_erase_color`, with an outer red child of the sibling. -/
def rbRotateOuter (s : LinkedRbtree α) (side : Side) (parent other : RbPtr) :
    Option (LinkedRbtree α) := do
  let p ← s.node? parent
  let s ← s.modify other (.rbSetColor p.rbColor)
  let s ← s.modify parent .rbSetBlack
  let o ← s.node? other
  let s ← s.blacken (o.child side.flip)
  s.rotate side parent

/-- A turn of `__rb_erase_color` with a black sibling `other`. The flag tells whether the loop goes
on at the parent. -/
def rbEraseStep (s : LinkedRbtree α) (side : Side) (parent other : RbPtr) :
    Option (LinkedRbtree α × Bool) := do
  let o ← s.node? other
  if !s.isRed o.rbLeft ∧ !s.isRed o.rbRight then
    let s ← s.modify other .rbSetRed
    some (s, true)
  else
    let (s, other) ← s.rbRotateInner side parent other
    let s ← s.rbRotateOuter side parent other
    some (s, false)

/-- `__rb_erase_color(node, parent)`. -/
def rbEraseColor : Nat → LinkedRbtree α → RbPtr → RbPtr → Option (LinkedRbtree α)
  | 0, _, _, _ => none
  | fuel + 1, s, node, parent =>
      if !s.isRed node ∧ node ≠ s.root then do
        let p ← s.node? parent
        let side := if p.rbLeft = node then Side.left else .right
        let (s, other) ← s.rbRotateSibling side parent (p.child side.flip)
        let (s, more) ← s.rbEraseStep side parent other
        if more then
          let p ← s.node? parent
          rbEraseColor fuel s parent p.rbParent
        else s.blacken s.root
      else s.blacken node

/-- The end of `rb_erase`, from the label `color`. -/
def rbEraseEnd (fuel : Nat) (s : LinkedRbtree α) (color : BitVec 64) (child parent : RbPtr) :
    Option (LinkedRbtree α) :=
  if color = 1 then rbEraseColor fuel s child parent else some s

/-- `rb_erase` of a node whose one child, or `NULL`, takes its place. -/
def rbUnlink (fuel : Nat) (s : LinkedRbtree α) (node child : RbPtr) :
    Option (LinkedRbtree α) := do
  let n ← s.node? node
  let s ← s.adopt child n.rbParent
  let s ← s.replaceChild .left n.rbParent node child
  rbEraseEnd fuel s n.rbColor child n.rbParent

/-- The successor `node` of `old` leaves its place. -/
def rbUnlinkSucc (s : LinkedRbtree α) (old child parent : RbPtr) : Option (LinkedRbtree α) := do
  let s ← s.adopt child parent
  s.modify parent (.setChild (if parent = old then .right else .left) child)

/-- `node` takes the place of `old`, with its links and its colour. -/
def rbSubstitute (s : LinkedRbtree α) (old node : RbPtr) : Option (LinkedRbtree α) := do
  let o ← s.node? old
  let s ← s.modify node fun n =>
    { n with rbParentColor := o.rbParentColor, rbRight := o.rbRight, rbLeft := o.rbLeft }
  let o ← s.node? old
  let s ← s.replaceChild .left o.rbParent old node
  let o ← s.node? old
  let s ← s.modify o.rbLeft (.rbSetParent node)
  let o ← s.node? old
  s.adopt o.rbRight node

/-- `rb_erase(node)`. -/
def rbErase (fuel : Nat) (s : LinkedRbtree α) (node : RbPtr) : Option (LinkedRbtree α) := do
  let s := { s with num := s.num - 1 }
  let n ← s.node? node
  if n.rbLeft = 0 then rbUnlink fuel s node n.rbRight
  else if n.rbRight = 0 then rbUnlink fuel s node n.rbLeft
  else
    let old := node
    let node ← s.outermost .left fuel n.rbRight
    let m ← s.node? node
    let s ← s.rbUnlinkSucc old m.rbRight m.rbParent
    let s ← s.rbSubstitute old node
    rbEraseEnd fuel s m.rbColor m.rbRight (if m.rbParent = old then node else m.rbParent)

/-! ### Runs -/

/-- What a client does: it sets `rb_entry` of a node and calls `rb_insert`, or calls `rb_erase`. -/
inductive Op (α : Type) where
  | insert (node : RbPtr) (entry : α)
  | erase (node : RbPtr)

/-- One call of a client. -/
def step (compare : α → α → Int) (fuel : Nat) (s : LinkedRbtree α) :
    Op α → Option (LinkedRbtree α)
  | .insert node entry => do
      let s ← s.modify node fun n => { n with rbEntry := entry }
      s.rbInsert compare fuel node
  | .erase node => s.rbErase fuel node

/-- The calls of a client, one after another. -/
def run (compare : α → α → Int) (fuel : Nat) (s : LinkedRbtree α) (ops : List (Op α)) :
    Option (LinkedRbtree α) :=
  ops.foldlM (step compare fuel) s

end LinkedRbtree

end LustreSimulator
