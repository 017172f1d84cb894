import LustreSimulator.IntervalTree

/-!
# `LustreSimulator.IntervalSearch`: the loop of `interval_search` (`intervaltree.cpp`)

`IntervalTree.search` is the recursion that the source describes in a comment. The code is a loop:
each turn visits one node, and when it does not go down it climbs with the parent pointers to the
next right child. Here the loop is as in the source, with a position for the node. It may run for
ever as far as its definition goes, so it has fuel and no result when that runs out.
-/

set_option autoImplicit false

namespace LustreSimulator

open Lib

namespace IntervalTree

variable {σ ε : Type*}

/-- A child pointer: the position of the child below `path`, or `NULL`. -/
def childPos (path : List (Frame IntervalNode)) : IntervalTree → Option (Pos IntervalNode)
  | .nil => none
  | .node c l x r => some ⟨c, l, x, r, path⟩

/-- `node->in_left`. -/
def inLeft (p : Pos IntervalNode) : Option (Pos IntervalNode) :=
  childPos (⟨.left, p.color, p.entry, p.right⟩ :: p.path) p.left

/-- `node->in_right`. -/
def inRight (p : Pos IntervalNode) : Option (Pos IntervalNode) :=
  childPos (⟨.right, p.color, p.entry, p.left⟩ :: p.path) p.right

/-- The loop `while (parent)` of `interval_search`: climb from `node`, which hangs below the path,
until it is a left child whose parent has a right child. The result is that parent and its right
child. -/
def climb (node : IntervalTree) :
    List (Frame IntervalNode) → Option (IntervalNode × Pos IntervalNode)
  | [] => none
  | parent :: rest =>
      match parent.side,
        childPos (⟨.right, parent.color, parent.entry, node⟩ :: rest) parent.sibling with
      | .left, some right => some (parent.entry, right)
      | _, _ => climb (parent.plug node) rest

/-- The end of a turn: the node to go on with, unless the loop is left. -/
def climbNext (ext : IntervalExtent) (p : Pos IntervalNode) : Option (Pos IntervalNode) :=
  match climb p.subtree p.path with
  | none => none
  | some (parent, node) => if mayOverlap parent ext then some node else none

/-- One turn of `while (node)` of `interval_search`. The second component of a result of `func` is
`INTERVAL_ITER_STOP`. The result has the node to go on with. -/
def searchTurn (ext : IntervalExtent) (func : IntervalNode → σ → Except ε (σ × Bool))
    (p : Pos IntervalNode) (s : σ) : Except ε (σ × Option (Pos IntervalNode)) :=
  if ext.end_ < low p.entry then
    match inLeft p with
    | some left => .ok (s, some left)
    | none => .ok (s, climbNext ext p)
  else if mayOverlap p.entry ext then
    (if ext.overlapped p.entry.extent then func p.entry s else .ok (s, false)).bind fun v =>
    if v.2 then .ok (v.1, none)
    else
      match inLeft p with
      | some left => .ok (v.1, some left)
      | none =>
          match inRight p with
          | some right => .ok (v.1, some right)
          | none => .ok (v.1, climbNext ext p)
  else .ok (s, climbNext ext p)

/-- The loop of `interval_search`. -/
def searchLoop (ext : IntervalExtent) (func : IntervalNode → σ → Except ε (σ × Bool)) :
    Nat → Pos IntervalNode → σ → Option (Except ε σ)
  | 0, _, _ => none
  | fuel + 1, p, s =>
      match searchTurn ext func p s with
      | .error e => some (.error e)
      | .ok (s, none) => some (.ok s)
      | .ok (s, some p) => searchLoop ext func fuel p s

/-- `rc = func(node, data)`: the state has `rc` as well. -/
def storeRc (func : IntervalNode → σ → Except ε (σ × Bool)) (x : IntervalNode) (s : σ × Bool) :
    Except ε ((σ × Bool) × Bool) :=
  (func x s.1).bind fun v => .ok (v, v.2)

/-- `interval_search(root, ext, func, data)`. The second component of the result is the return value
`INTERVAL_ITER_STOP`. -/
def intervalSearch (fuel : Nat) (root : IntervalTree) (ext : IntervalExtent)
    (func : IntervalNode → σ → Except ε (σ × Bool)) (s : σ) : Option (Except ε (σ × Bool)) :=
  match childPos [] root with
  | none => some (.ok (s, false))
  | some node => searchLoop ext (storeRc func) fuel node (s, false)

/-- `interval_overlap_cb(n, args)`. -/
def intervalOverlapCb (_n : IntervalNode) (_args : Bool) : Except Empty (Bool × Bool) :=
  .ok (true, true)

/-- `interval_is_overlapped(root, ext)`. -/
def intervalIsOverlapped (fuel : Nat) (root : IntervalTree) (ext : IntervalExtent) : Option Bool :=
  (intervalSearch fuel root ext intervalOverlapCb false).bind fun r =>
  r.toOption.map Prod.fst

/-- `!limiter || limiter->start < ext->start`. -/
def expandsLow (ext : IntervalExtent) (limiter : Option IntervalExtent) : Bool :=
  limiter.all fun limiter => limiter.start < ext.start

/-- `!limiter || limiter->end > ext->end`. -/
def expandsHigh (ext : IntervalExtent) (limiter : Option IntervalExtent) : Bool :=
  limiter.all fun limiter => limiter.end_ > ext.end_

/-- `interval_expand(root, ext, limiter)`, with the loops in its two assertions. The limiter `none`
is `NULL`. -/
def intervalExpand (lassert : ε) (fuel : Nat) (root : IntervalTree) (ext : IntervalExtent)
    (limiter : Option IntervalExtent) : Option (Except ε IntervalExtent) :=
  (intervalIsOverlapped fuel root ext).bind fun has =>
  if has then some (.error lassert)
  else
    let ext : IntervalExtent :=
      { ext with start := if expandsLow ext limiter then expandLow root ext.start else ext.start }
    let ext : IntervalExtent :=
      { ext with end_ := if expandsHigh ext limiter then expandHigh root ext.end_ else ext.end_ }
    (intervalIsOverlapped fuel root ext).bind fun has =>
    if has then some (.error lassert) else some (.ok ext)

/-- `interval_set(node, start, end)` for the node at the address `addr`, behind its assertion. -/
def intervalSet (addr start end_ : Nat) : IntervalNode := ⟨addr, ⟨start, end_⟩, end_⟩

end IntervalTree

end LustreSimulator
