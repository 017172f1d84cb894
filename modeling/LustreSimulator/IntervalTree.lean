import LustreSimulator.Lib.RedBlack
import LustreSimulator.Lib.Check
import Mathlib.Algebra.Group.Nat.Defs

/-!
# `LustreSimulator.IntervalTree`: the tree of intervals (`intervaltree.cpp`)

A red-black tree of extents that is ordered by their starts, and by their ends where two
starts are equal. Every node keeps in `in_max_high` a bound of the ends below it, which
`interval_search` and `interval_expand` prune with. As in `LustreSimulator.Rbtree` a node
pointer is a position, and a function has no result where the source would follow a `NULL`
pointer. The entry of a node has the address of the node with it.

`interval_search` climbs with the parent pointers. Here the climb is the return from a
recursion, and the flag of a `Visit` says that the loop has ended.
-/

set_option autoImplicit false

namespace LustreSimulator

open Lib

/-- `struct interval_node_extent`. The extent has both its ends. -/
structure IntervalExtent where
  start : Nat
  end_ : Nat
  deriving DecidableEq, Repr

/-- `extent_overlapped(e1, e2)`. -/
def IntervalExtent.overlapped (e₁ e₂ : IntervalExtent) : Bool :=
  e₁.start ≤ e₂.end_ && e₂.start ≤ e₁.end_

/-- `extent_compare(e1, e2)`. -/
def IntervalExtent.compare (e₁ e₂ : IntervalExtent) : Int :=
  if e₁.start = e₂.start then
    if e₁.end_ < e₂.end_ then -1 else if e₁.end_ > e₂.end_ then 1 else 0
  else if e₁.start < e₂.start then -1 else 1

/-- `struct interval_node`, without the links and the colour: its address, `in_extent` and
`in_max_high`. -/
structure IntervalNode where
  addr : Nat
  extent : IntervalExtent
  maxHigh : Nat
  deriving DecidableEq, Repr

/-- The tree that an `interval_node *root` points to. -/
abbrev IntervalTree : Type := RbTree IntervalNode

namespace IntervalTree

/-- `interval_low(node)`. -/
def low (x : IntervalNode) : Nat := x.extent.start

/-- `interval_high(node)`. -/
def high (x : IntervalNode) : Nat := x.extent.end_

/-- The largest 64-bit value, `~0`. -/
def allOnes : Nat := 2 ^ 64 - 1

/-- `node ? node->in_max_high : 0`. -/
def maxHigh : IntervalTree → Nat
  | .nil => 0
  | .node _ _ x _ => x.maxHigh

/-- `node->in_max_high`, recomputed from the node and its two children. -/
def recompute (x : IntervalNode) (left right : Nat) : IntervalNode :=
  { x with maxHigh := max (high x) (max left right) }

/-! ### Insertion -/

/-- `__rotate_left(node)` with `__rotate_change_maxhigh`. -/
def rotateLeft : IntervalTree → Option IntervalTree
  | .node c l x (.node c' rl y rr) =>
      some (.node c' (.node c l (recompute x (maxHigh l) (maxHigh rl)) rl)
        { y with maxHigh := x.maxHigh } rr)
  | _ => none

/-- `__rotate_right(node)` with `__rotate_change_maxhigh`. -/
def rotateRight : IntervalTree → Option IntervalTree
  | .node c (.node c' ll y lr) x r =>
      some (.node c' ll { y with maxHigh := x.maxHigh }
        (.node c lr (recompute x (maxHigh lr) (maxHigh r)) r))
  | _ => none

/-- One turn of the loop of `interval_insert_color` where the parent is red and the uncle is
not. -/
def insertRotate (node : IntervalTree) (parent gparent : Frame IntervalNode) :
    Option IntervalTree :=
  match gparent.side with
  | .left =>
      (if parent.side = .right then rotateLeft (parent.plug node)
        else some (parent.plug node)).bind fun sub =>
      rotateRight (.node .red sub.setBlack gparent.entry gparent.sibling)
  | .right =>
      (if parent.side = .left then rotateRight (parent.plug node)
        else some (parent.plug node)).bind fun sub =>
      rotateLeft (.node .red gparent.sibling gparent.entry sub.setBlack)

/-- `interval_insert_color(node)`. -/
def insertColor (node : IntervalTree) : List (Frame IntervalNode) → Option IntervalTree
  | [] => some node.setBlack
  | [parent] => if parent.color = .red then none else some (parent.plug node).setBlack
  | parent :: gparent :: rest =>
      if parent.color = .red then
        if gparent.sibling.isRed then
          insertColor
            ({ gparent with color := .red, sibling := gparent.sibling.setBlack }.plug
              ({ parent with color := .black }.plug node)) rest
        else
          (insertRotate node parent gparent).bind fun top =>
          some (zip top rest).setBlack
      else some (zip node (parent :: gparent :: rest)).setBlack

/-- The loop `while (*p) ...` of `interval_insert(node)`: raise `in_max_high` on the way down,
and stop at a node with the same extent. -/
def insertWalk (node : IntervalNode) :
    IntervalTree → List (Frame IntervalNode) → IntervalTree × List (Frame IntervalNode)
  | .nil, path => (.nil, path)
  | .node c l x r, path =>
      if x.extent = node.extent then (.node c l x r, path)
      else
        let x := if x.maxHigh < high node then { x with maxHigh := high node } else x
        if node.extent.compare x.extent < 0 then
          insertWalk node l (⟨.left, c, x, r⟩ :: path)
        else insertWalk node r (⟨.right, c, x, l⟩ :: path)

/-- `interval_insert(node, root)`: the node with the same extent when there is one, and the
tree afterwards. -/
def insert (node : IntervalNode) (root : IntervalTree) :
    Option (Option IntervalNode × IntervalTree) :=
  match insertWalk node root [] with
  | (.node c l x r, path) => some (some x, zip (.node c l x r) path)
  | (.nil, path) => (insertColor (.node .red .nil node .nil) path).map fun t => (none, t)

/-! ### Erasure -/

/-- One turn of the loop of `interval_erase_color` with a black sibling. The flag tells whether
the loop goes on at the parent. -/
def eraseStep (node : IntervalTree) (parent : Frame IntervalNode) :
    Option (IntervalTree × Bool) :=
  match parent.sibling with
  | .nil => none
  | .node oc ol ox orr =>
      if !ol.isRed && !orr.isRed then
        some ({ parent with sibling := .node .red ol ox orr }.plug node, true)
      else
        match parent.side with
        | .left =>
            (if orr.isRed then some (.node oc ol ox orr)
              else rotateRight (.node .red ol.setBlack ox orr)).bind fun tmp =>
            match tmp with
            | .nil => none
            | .node _ ol ox orr =>
                (rotateLeft (.node .black node parent.entry
                  (.node parent.color ol ox orr.setBlack))).bind fun top =>
                some (top, false)
        | .right =>
            (if ol.isRed then some (.node oc ol ox orr)
              else rotateLeft (.node .red ol ox orr.setBlack)).bind fun tmp =>
            match tmp with
            | .nil => none
            | .node _ ol ox orr =>
                (rotateRight (.node .black (.node parent.color ol.setBlack ox orr)
                  parent.entry node)).bind fun top =>
                some (top, false)

/-- The first part of a turn of `interval_erase_color` with a red sibling: the sibling is
rotated over the parent. It takes over `in_max_high` of the parent, and that of the parent is
recomputed over `node` and the inner child. -/
def rotateSibling (node : IntervalTree) (parent : Frame IntervalNode) (ol : IntervalTree)
    (ox : IntervalNode) (orr : IntervalTree) : Frame IntervalNode × Frame IntervalNode :=
  match parent.side with
  | .left =>
      (⟨.left, .red, recompute parent.entry (maxHigh node) (maxHigh ol), ol⟩,
        ⟨.left, .black, { ox with maxHigh := parent.entry.maxHigh }, orr⟩)
  | .right =>
      (⟨.right, .red, recompute parent.entry (maxHigh orr) (maxHigh node), orr⟩,
        ⟨.right, .black, { ox with maxHigh := parent.entry.maxHigh }, ol⟩)

/-- `interval_erase_color(node, parent)`. -/
def eraseColor (node : IntervalTree) : List (Frame IntervalNode) → Option IntervalTree
  | [] => some node.setBlack
  | parent :: rest =>
      if node.isRed then some (zip node.setBlack (parent :: rest))
      else
        match parent.sibling with
        | .node .red ol ox orr =>
            (eraseStep node (rotateSibling node parent ol ox orr).1).bind fun r =>
            if r.2 then
              some (zip r.1.setBlack ((rotateSibling node parent ol ox orr).2 :: rest))
            else some (zip r.1 ((rotateSibling node parent ol ox orr).2 :: rest)).setBlack
        | _ =>
            (eraseStep node parent).bind fun r =>
            if r.2 then eraseColor r.1 rest else some (zip r.1 rest).setBlack

/-- The climb of `update_maxhigh` above a node whose `in_max_high` is `m`. -/
def climbMaxhigh (old : Nat) (m : Nat) : List (Frame IntervalNode) → List (Frame IntervalNode)
  | [] => []
  | f :: fs =>
      let x := recompute f.entry m (maxHigh f.sibling)
      if x.maxHigh ≥ old then { f with entry := x } :: fs
      else { f with entry := x } :: climbMaxhigh old x.maxHigh fs

/-- `update_maxhigh(node, old_maxhigh)`, on a node and its ancestors. It does nothing when the
node is `NULL`. -/
def updateMaxhigh (old : Nat) :
    IntervalTree → List (Frame IntervalNode) → IntervalTree × List (Frame IntervalNode)
  | .nil, path => (.nil, path)
  | .node c l x r, path =>
      let x := recompute x (maxHigh l) (maxHigh r)
      (.node c l x r, if x.maxHigh ≥ old then path else climbMaxhigh old x.maxHigh path)

/-- The leftmost node of the subtree with the given root, below `path`. -/
def leftmost (c : Color) (l : IntervalTree) (x : IntervalNode) (r : IntervalTree)
    (path : List (Frame IntervalNode)) : Pos IntervalNode :=
  match l with
  | .nil => ⟨c, .nil, x, r, path⟩
  | .node c' l' x' r' => leftmost c' l' x' r' (⟨.left, c, x, r⟩ :: path)

/-- The end of `interval_erase`: `child` has taken the place of a node of the colour `color`. -/
def unlink (color : Color) (child : IntervalTree) (path : List (Frame IntervalNode)) :
    Option IntervalTree :=
  if color = .black then eraseColor child path else some (zip child path)

/-- `interval_erase(node, root)`. A node with two children is replaced by its successor, and
`in_max_high` is updated above the place that the successor leaves and above the place that it
takes. -/
def erase (p : Pos IntervalNode) : Option IntervalTree :=
  match p.left, p.right with
  | .nil, child =>
      unlink p.color (updateMaxhigh p.entry.maxHigh child p.path).1
        (updateMaxhigh p.entry.maxHigh child p.path).2
  | child, .nil =>
      unlink p.color (updateMaxhigh p.entry.maxHigh child p.path).1
        (updateMaxhigh p.entry.maxHigh child p.path).2
  | left, .node c l x r =>
      let succ := leftmost c l x r []
      let child := updateMaxhigh succ.entry.maxHigh succ.right
        (succ.path ++ ⟨.right, p.color, succ.entry, left⟩ :: p.path)
      let below := child.2.take succ.path.length
      match child.2.drop succ.path.length with
      | [] => none
      | f :: above =>
          let node := recompute f.entry (maxHigh left) (maxHigh (zip child.1 below))
          unlink succ.color child.1 (below ++ { f with entry := node } ::
            if node.maxHigh ≥ p.entry.maxHigh then above
            else climbMaxhigh p.entry.maxHigh node.maxHigh above)

/-! ### Queries -/

/-- `interval_may_overlap(node, ext)`. -/
def mayOverlap (x : IntervalNode) (ext : IntervalExtent) : Bool :=
  ext.start ≤ x.maxHigh && ext.end_ ≥ low x

section Search

variable {σ ε : Type*}

/-- `interval_search(node, ext, func, data)` below a node. The second component of a result of
`func` is `INTERVAL_ITER_STOP`. The second component of the result tells that the loop has ended
below the node, and otherwise it climbs on. A climb that comes from the left to a node with a
right child ends the loop unless `interval_may_overlap` holds of that node. -/
def visit (ext : IntervalExtent) (func : IntervalNode → σ → Except ε (σ × Bool)) :
    IntervalTree → σ → Except ε (σ × Bool)
  | .nil, s => .ok (s, false)
  | .node _ l x r, s =>
      if ext.end_ < low x then
        if l = .nil then .ok (s, false)
        else (visit ext func l s).bind fun v => .ok (v.1, v.2 || decide (r ≠ .nil))
      else if mayOverlap x ext then
        (if ext.overlapped x.extent then func x s else .ok (s, false)).bind fun v =>
        if v.2 then .ok v
        else
          (visit ext func l v.1).bind fun v =>
          if v.2 then .ok v else visit ext func r v.1
      else .ok (s, false)

/-- `interval_search(root, ext, func, data)`. -/
def search (root : IntervalTree) (ext : IntervalExtent)
    (func : IntervalNode → σ → Except ε (σ × Bool)) (s : σ) : Except ε σ :=
  (visit ext func root s).bind fun v => .ok v.1

/-- `func` on the nodes of a list, until it returns `INTERVAL_ITER_STOP`. -/
def walk (func : IntervalNode → σ → Except ε (σ × Bool)) :
    List IntervalNode → σ → Except ε (σ × Bool)
  | [], s => .ok (s, false)
  | x :: xs, s =>
      (func x s).bind fun v => if v.2 then .ok v else walk func xs v.1

/-- `interval_iterate(root, func, data)`. -/
def iterate (root : IntervalTree) (func : IntervalNode → σ → Except ε (σ × Bool)) (s : σ) :
    Except ε σ :=
  (walk func root.toList s).bind fun v => .ok v.1

end Search

/-- `interval_is_overlapped(root, ext)`, with `interval_overlap_cb`. -/
def isOverlapped (root : IntervalTree) (ext : IntervalExtent) : Bool :=
  match search root ext (fun _ _ => .ok (true, true)) false with
  | .ok has => has
  | .error (_ : Empty) => false

/-- `interval_expand_low(root, low)`. -/
def expandLow (root : IntervalTree) (low : Nat) : Nat := if root = .nil then 0 else low

/-- The loop of `interval_expand_high(node, high)`, with the value of `result`. -/
def expandHighLoop (high : Nat) : IntervalTree → Nat → Nat
  | .nil, result => result
  | .node _ l x r, result =>
      if x.maxHigh < high then result
      else if low x > high then expandHighLoop high l (low x - 1)
      else expandHighLoop high r result

/-- `interval_expand_high(root, high)`. -/
def expandHigh (root : IntervalTree) (high : Nat) : Nat := expandHighLoop high root allOnes

/-- `interval_expand(root, ext, limiter)`, with its two assertions. -/
def expand {ε : Type*} (lassert : ε) (root : IntervalTree) (ext limiter : IntervalExtent) :
    Except ε IntervalExtent :=
  (check (isOverlapped root ext = false) lassert).bind fun _ =>
  let ext' : IntervalExtent :=
    ⟨if limiter.start < ext.start then expandLow root ext.start else ext.start,
      if limiter.end_ > ext.end_ then expandHigh root ext.end_ else ext.end_⟩
  (check (isOverlapped root ext' = false) lassert).bind fun _ =>
  .ok ext'

end IntervalTree

end LustreSimulator
