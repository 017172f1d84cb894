import LustreSimulator.BlockDevice
import LustreSimulator.Lib.Check
import LustreSimulator.Lib.Word
import LustreSimulator.Rbtree
import Mathlib.Algebra.Group.Int.Defs

/-!
# `LustreSimulator.Elevator`: the disk elevators (`elevator.cpp`, `elvnoop.cpp`, `elvdeadline.cpp`)

An elevator collects ioreqs into requests before the disk serves them. A new ioreq joins a
queued request whose range it extends, at the end or at the front, and a request that grew may
be merged with a neighbour. `Dequeue` moves requests to the dispatch queue `Queue` and takes
them from there.

Requests are objects that several structures refer to, so the state has a heap `reqs` of them,
and a request is its address. A `List` that holds requests is the list of their addresses from
`suc` on. `Insert(&head)` appends to it and `InsertTail(&head)` puts in front. The batch of a
request is the list of its ioreqs. Each of them carries the number of the `Enqueue` call that it
came with.

A chain of the hash is a list with the newest request first, and `onHash` is the state of a
request's `hlist_node`. The two elevators are the two forms of `Sched`, and a virtual function is
a match on it. A `NULL` pointer that is used, and an assertion that fails, is a `Fault`. The part
of `ElvDeadline::Dispatch` behind `goto dispatch_simple` cannot be reached. It is left out, and
with it the fields that only it reads, like the expiry times of the requests.
-/

set_option autoImplicit false

namespace LustreSimulator

open Lib

/-- An ioreq in an elevator, with the number of the `Enqueue` call that it came with. -/
structure Submitted extends Ioreq where
  serial : Nat
  deriving DecidableEq, Repr

/-- `struct request`. -/
structure Request where
  cmd : Cmd
  off : Nat
  count : Nat
  flags : Nat
  batch : List Submitted
  /-- `!hlist_unhashed(&hash)` -/
  onHash : Bool
  deriving DecidableEq, Repr

/-- The fields of `class ElvDeadline`. -/
structure Deadline where
  sortList : Cmd → RbTree Nat
  fifoList : Cmd → List Nat
  nextRq : Cmd → Option Nat

/-- The two elevators. -/
inductive Sched where
  | noop (queue : List Nat)
  | deadline (d : Deadline)

namespace Elevator

/-- The parameters of an elevator and its disk. -/
structure Params where
  maxsize : Nat
  unplugThreshold : Nat
  /-- `ELV_HASH_FN` -/
  hashFn : Nat → Nat
  /-- the plug delay of the disk -/
  delay : Nat

/-- The assertions and errors that stop the program. -/
inductive Fault where
  /-- `assert(!ELV_ON_HASH(rq))` -/
  | onHash
  /-- `assert(0)` in `deadline_add_rq_rb` -/
  | alias
  /-- `assert(!RB_EMPTY_NODE(&rq->rbnode))` -/
  | emptyNode
  /-- `assert(!h1->Empty() && !h2->Empty())` -/
  | splice
  /-- `assert(count[rq->cmd] >= 0)` -/
  | count
  /-- `assert(!run)` of the disk thread -/
  | run
  /-- `assert(time > now)` of `RunAt` -/
  | runAt
  /-- a `NULL` pointer is used -/
  | null
  /-- a loop did not end -/
  | loop
  deriving DecidableEq, Repr

/-- The results of `ElvMerge`. -/
inductive MergeType where
  | noMerge | frontMerge | backMerge
  deriving DecidableEq, Repr

end Elevator

open Elevator in
/-- `class Elevator`, with the fields of the subclass in `sched`. -/
structure Elevator where
  sched : Sched
  reqs : Nat → Request
  nextReq : Nat
  hash : Nat → List Nat
  /-- `Queue` -/
  queue : List Nat
  count : Cmd → Int
  sorted : Nat
  inflight : Nat
  endpos : Nat
  boundary : Option Nat
  last : Option Nat

namespace Elevator

/-- `REQ_SORTED` -/
def reqSorted : Nat := 1
/-- `REQ_SOFTBARRIER | REQ_HARDBARRIER | REQ_STARTED` -/
def reqFixed : Nat := 2 ||| 4 ||| 8
/-- `REQ_STARTED` -/
def reqStarted : Nat := 8

/-- Replace a request. -/
def setReq (e : Elevator) (rq : Nat) (r : Request) : Elevator :=
  { e with reqs := fun i => if i = rq then r else e.reqs i }

/-- Add to `count[cmd]`. -/
def addCount (e : Elevator) (cmd : Cmd) (k : Int) : Elevator :=
  { e with count := fun c => if c = cmd then e.count c + k else e.count c }

/-- `GetPendingNum()`. -/
def getPendingNum (e : Elevator) : Nat :=
  ((e.count .read + e.count .write - e.inflight) % 2 ^ 64).toNat

/-! ### The hash of requests by their end -/

/-- `rq_hash_key(rq)`. -/
def rqHashKey (r : Request) : Nat := add64 r.off r.count

/-- `rq_end_pos(rq)`, as `elevator.h` defines it. -/
def rqEndPos (r : Request) : Nat := add64 r.off r.off

/-- `elv_rqhash_find(off)`. -/
def rqhashFind (e : Elevator) (p : Params) (off : Nat) : Option Nat :=
  (e.hash (p.hashFn off)).find? fun rq => decide (rqHashKey (e.reqs rq) = off)

/-- `elv_rqhash_del(rq)`. -/
def rqhashDel (e : Elevator) (rq : Nat) : Elevator :=
  if (e.reqs rq).onHash then
    { e.setReq rq { e.reqs rq with onHash := false } with
      hash := fun b => (e.hash b).filter fun i => i ≠ rq }
  else e

/-- `elv_rqhash_add(rq)`. -/
def rqhashAdd (e : Elevator) (p : Params) (rq : Nat) : Except Fault Elevator :=
  (check ((e.reqs rq).onHash = false) .onHash).bind fun _ =>
  let b := p.hashFn (rqHashKey (e.reqs rq))
  .ok { e.setReq rq { e.reqs rq with onHash := true } with
    hash := fun i => if i = b then rq :: e.hash b else e.hash i }

/-- `elv_rqhash_reposition(rq)`. -/
def rqhashReposition (e : Elevator) (p : Params) (rq : Nat) : Except Fault Elevator :=
  (e.rqhashDel rq).rqhashAdd p rq

/-! ### The sorted trees of the deadline elevator -/

/-- The comparison of an offset with the request at a node. -/
def compareOff (e : Elevator) (off : Nat) (rq : Nat) : Int :=
  if off < (e.reqs rq).off then -1 else if off > (e.reqs rq).off then 1 else 0

/-- `elv_rb_add(tree, rq)`: a request of the tree with the same offset, or the new tree. -/
def rbAdd (e : Elevator) (t : RbTree Nat) (rq : Nat) : Except Fault (Option Nat × RbTree Nat) :=
  let d := Rbtree.descend (e.compareOff (e.reqs rq).off) t [] 1
  match d.focus with
  -- a request with this offset is there already
  | .node _ _ x _ => .ok (some x, t)
  | .nil =>
      match Rbtree.rbLink rq d.path with
      | none => .error .null
      | some t' => .ok (none, t')

/-- `elv_rb_find(tree, off)`. -/
def rbFind (e : Elevator) (t : RbTree Nat) (off : Nat) : Option Nat :=
  match (Rbtree.descend (e.compareOff off) t [] 1).focus with
  | .nil => none
  | .node _ _ rq _ => some rq

/-- The node of a request in a tree. -/
def rbNode (t : RbTree Nat) (rq : Nat) : Option (Pos Nat) := findPos (fun i => decide (i = rq)) t []

/-- `elv_rb_del(tree, rq)`. -/
def rbDel (t : RbTree Nat) (rq : Nat) : Except Fault (RbTree Nat) :=
  match rbNode t rq with
  | none => .error .emptyNode
  | some pos =>
      match Rbtree.rbErase pos with
      | none => .error .null
      | some t' => .ok t'

/-- The neighbours of a request in a tree. -/
def rbNextRq (t : RbTree Nat) (rq : Nat) : Option Nat :=
  ((rbNode t rq).bind Rbtree.rbNext).map Pos.entry

/-- `rb_prev(&rq->rbnode)`. -/
def rbPrevRq (t : RbTree Nat) (rq : Nat) : Option Nat :=
  ((rbNode t rq).bind Rbtree.rbPrev).map Pos.entry

/-- `deadline_add_rq_rb(rq)`. -/
def deadlineAddRqRb (e : Elevator) (d : Deadline) (rq : Nat) : Except Fault Deadline :=
  let cmd := (e.reqs rq).cmd
  (e.rbAdd (d.sortList cmd) rq).bind fun r =>
  match r.1 with
  -- what the source does behind `assert(0)` is not reached
  | some _ => .error .alias
  | none => .ok { d with sortList := fun c => if c = cmd then r.2 else d.sortList c }

/-- `deadline_del_rq_rb(rq)`. -/
def deadlineDelRqRb (e : Elevator) (d : Deadline) (rq : Nat) : Except Fault Deadline :=
  let cmd := (e.reqs rq).cmd
  -- the next request of this direction moves on when it is deleted
  let next := if d.nextRq cmd = some rq then rbNextRq (d.sortList cmd) rq else d.nextRq cmd
  (rbDel (d.sortList cmd) rq).bind fun t =>
  .ok { d with
    sortList := fun c => if c = cmd then t else d.sortList c
    nextRq := fun c => if c = cmd then next else d.nextRq c }

/-- `deadline_remove_request(rq)`: take the request off its FIFO list and its tree. -/
def deadlineRemoveRequest (e : Elevator) (d : Deadline) (rq : Nat) : Except Fault Deadline :=
  e.deadlineDelRqRb { d with fifoList := fun c => (d.fifoList c).erase rq } rq

/-! ### The dispatch queue -/

/-- `elv_dispatch_add_tail(rq)`. -/
def elvDispatchAddTail (e : Elevator) (rq : Nat) : Elevator :=
  let e := { e with last := if e.last = some rq then none else e.last }
  let e := e.rqhashDel rq
  { e with
    sorted := sub64 e.sorted 1
    endpos := rqEndPos (e.reqs rq)
    boundary := some rq
    queue := e.queue ++ [rq] }

/-- `deadline_move_request(rq)`. -/
def deadlineMoveRequest (e : Elevator) (d : Deadline) (rq : Nat) : Except Fault Elevator :=
  let cmd := (e.reqs rq).cmd
  let next := rbNextRq (d.sortList cmd) rq
  let d := { d with nextRq := fun c => if c = cmd then next else none }
  (e.deadlineRemoveRequest d rq).bind fun d =>
  .ok ({ e with sched := .deadline d }.elvDispatchAddTail rq)

/-- The loop of `ElvDispatchSort` breaks at the request `pos` of `Queue`. -/
def sortBreaks (e : Elevator) (rq pos : Nat) : Bool :=
  -- a request does not pass one of the other direction
  if (e.reqs rq).cmd ≠ (e.reqs pos).cmd then true
  -- or a barrier, or a request that was started
  else if (e.reqs pos).flags &&& reqFixed ≠ 0 then true
  else if (e.reqs rq).off ≥ e.endpos then false
  else decide ((e.reqs pos).off ≥ e.endpos)

/-- `rq->Insert(pos)` at the place where the loop of `ElvDispatchSort` ends: in front of the last
request at which it breaks, or at the end of `Queue`. -/
def insertSort (e : Elevator) (rq : Nat) : List Nat :=
  -- the loop goes from the end of `Queue` to its front
  match e.queue.reverse.findIdx? (e.sortBreaks rq) with
  | none => e.queue ++ [rq]
  | some k =>
      e.queue.take (e.queue.length - 1 - k) ++ rq :: e.queue.drop (e.queue.length - 1 - k)

/-- `ElvDispatchSort(rq)`. The first line is `if (last = rq) last = NULL`, so `last` is `NULL`
after it. -/
def elvDispatchSort (e : Elevator) (rq : Nat) : Elevator :=
  let e := { e with last := none }.rqhashDel rq
  { e with sorted := sub64 e.sorted 1, queue := e.insertSort rq }

/-! ### The virtual functions -/

/-- The request in front of `rq` in a list. -/
def listPred (rq : Nat) : List Nat → Option Nat
  | a :: b :: rest => if b = rq then some a else listPred rq (b :: rest)
  | _ => none

/-- The request behind `rq` in a list. -/
def listSuc (rq : Nat) : List Nat → Option Nat
  | a :: rest => if a = rq then rest.head? else listSuc rq rest
  | [] => none

/-- `Dispatch(0)`: move a request to `Queue`, or return 0 (`none`). -/
def dispatch (e : Elevator) : Except Fault (Option Elevator) :=
  match e.sched with
  | .noop [] => .ok none
  | .noop (rq :: rest) => .ok (some ({ e with sched := .noop rest }.elvDispatchSort rq))
  | .deadline d =>
      if d.fifoList .read = [] ∧ d.fifoList .write = [] then .ok none
      else
        -- writes come first: the code does not consider reads that they starve
        let rw := if d.fifoList .write ≠ [] then Cmd.write else Cmd.read
        -- the FIFO lists only say that there is work; the tree says what is next
        match Rbtree.rbFirst (d.sortList rw) with
        | none => .error .null
        | some node => (e.deadlineMoveRequest d node.entry).bind fun e => .ok (some e)

/-- `AddRequest(rq)`. -/
def addRequest (e : Elevator) (rq : Nat) : Except Fault Elevator :=
  match e.sched with
  | .noop queue => .ok { e with sched := .noop (queue ++ [rq]) }
  | .deadline d =>
      (e.deadlineAddRqRb d rq).bind fun d =>
      let cmd := (e.reqs rq).cmd
      .ok { e with sched := .deadline { d with
        fifoList := fun c => if c = cmd then d.fifoList c ++ [rq] else d.fifoList c } }

/-- `QueueEmpty()`. -/
def queueEmpty (e : Elevator) : Bool :=
  match e.sched with
  | .noop queue => queue.isEmpty
  | .deadline d => (d.fifoList .read).isEmpty && (d.fifoList .write).isEmpty

/-- `ElvFormerRequest(rq)`. -/
def elvFormerRequest (e : Elevator) (rq : Nat) : Option Nat :=
  match e.sched with
  | .noop queue => listPred rq queue
  | .deadline d => rbPrevRq (d.sortList (e.reqs rq).cmd) rq

/-- `ElvLatterRequest(rq)`. -/
def elvLatterRequest (e : Elevator) (rq : Nat) : Option Nat :=
  match e.sched with
  | .noop queue => listSuc rq queue
  | .deadline d => rbNextRq (d.sortList (e.reqs rq).cmd) rq

/-- What the subclass does in `ElvMergeRequests(rq, next)`: take `next` out of its queues. -/
def removeRequest (e : Elevator) (next : Nat) : Except Fault Sched :=
  match e.sched with
  | .noop queue => .ok (.noop (queue.erase next))
  | .deadline d => (e.deadlineRemoveRequest d next).bind fun d => .ok (.deadline d)

/-- `ElvMergeRequests(rq, next)`. -/
def elvMergeRequests (e : Elevator) (p : Params) (rq next : Nat) : Except Fault Elevator :=
  (e.removeRequest next).bind fun sched =>
  ({ e with sched := sched }.rqhashReposition p rq).bind fun e =>
  .ok { e.rqhashDel next with sorted := sub64 e.sorted 1, last := some rq }

/-- What the subclass does in `ElvMergedRequest(rq, type)`: put a request whose offset changed at
its new place in the tree. -/
def resortRequest (e : Elevator) (rq : Nat) (type : MergeType) : Except Fault Sched :=
  match e.sched with
  | .noop queue => .ok (.noop queue)
  | .deadline d =>
      if type = .frontMerge then
        let cmd := (e.reqs rq).cmd
        (rbDel (d.sortList cmd) rq).bind fun t =>
        (e.deadlineAddRqRb { d with
          sortList := fun c => if c = cmd then t else d.sortList c } rq).bind fun d =>
        .ok (.deadline d)
      else .ok (.deadline d)

/-- `ElvMergedRequest(rq, type)`. -/
def elvMergedRequest (e : Elevator) (p : Params) (rq : Nat) (type : MergeType) :
    Except Fault Elevator :=
  (e.resortRequest rq type).bind fun sched =>
  let e := { e with sched := sched }
  -- the end of the request changed, and the hash is by the end
  (if type = MergeType.backMerge then e.rqhashReposition p rq else .ok e).bind fun e =>
  .ok { e with last := some rq }

/-- The end of `Elevator::ElvMerge(&rq, req)`: a request of the same direction that ends where the
ioreq starts. -/
def elvMergeHash (e : Elevator) (p : Params) (req : Ioreq) : MergeType × Option Nat :=
  match e.rqhashFind p req.off with
  | some rq => if (e.reqs rq).cmd = req.cmd then (.backMerge, some rq) else (.noMerge, none)
  | none => (.noMerge, none)

/-- `Elevator::ElvMerge(&rq, req)`: a request that the ioreq can join, and the end to join it
at. The direction of the last request is not checked. -/
def elvMerge (e : Elevator) (p : Params) (req : Ioreq) : MergeType × Option Nat :=
  match e.last with
  | none => e.elvMergeHash p req
  | some last =>
      -- the last request is tried first
      if add64 (e.reqs last).off (e.reqs last).count = req.off then (.backMerge, some last)
      else if sub64 (e.reqs last).off req.count = req.off then (.frontMerge, some last)
      else e.elvMergeHash p req

/-- The virtual `ElvMerge`. `ElvDeadline::ElvMerge` looks for a request behind the ioreq in its
tree as well, but it returns 0 (`ELEVATOR_NO_MERGE`) when it finds one. -/
def elvMergeVirtual (e : Elevator) (p : Params) (req : Ioreq) : MergeType × Option Nat :=
  match e.sched with
  | .noop _ => e.elvMerge p req
  | .deadline d =>
      let r := e.elvMerge p req
      if r.1 ≠ .noMerge then r
      else
        match e.rbFind (d.sortList req.cmd) (add64 req.off req.count) with
        | some rq => if (e.reqs rq).cmd = req.cmd then (.noMerge, some rq) else (.noMerge, none)
        | none => (.noMerge, none)

/-! ### Merging -/

/-- `ll_front_merge_fn(rq, req)` and `ll_back_merge_fn(rq, req)`: check the size of the merged
request, and forget `last` when it would be too large. -/
def llMergeFn (e : Elevator) (p : Params) (rq : Nat) (req : Ioreq) : Bool × Elevator :=
  if add64 (e.reqs rq).count req.count > p.maxsize then
    (false, { e with last := if e.last = some rq then none else e.last })
  else (true, e)

/-- `AttemptMerge(rq, next)`. The flag says whether the two were merged. -/
def attemptMerge (e : Elevator) (p : Params) (rq next : Nat) :
    Except Fault (Bool × Elevator) :=
  let a := e.reqs rq
  let b := e.reqs next
  -- not adjacent, not of one direction, or too large together
  if add64 a.off a.count ≠ b.off then .ok (false, e)
  else if a.cmd ≠ b.cmd then .ok (false, e)
  else if add64 a.count b.count > p.maxsize then .ok (false, e)
  else
    -- `SpliceIoreq` hangs the batch of `next` behind the batch of `rq`
    (check (a.batch ≠ [] ∧ b.batch ≠ []) .splice).bind fun _ =>
    let e := (e.setReq next { b with batch := [] }).setReq rq
      { a with count := add64 a.count b.count, batch := a.batch ++ b.batch }
    (e.elvMergeRequests p rq next).bind fun e => .ok (true, e.addCount b.cmd (-1))

/-- `AttemptBackMerge(rq)`. -/
def attemptBackMerge (e : Elevator) (p : Params) (rq : Nat) : Except Fault (Bool × Elevator) :=
  match e.elvLatterRequest rq with
  | some next => e.attemptMerge p rq next
  | none => .ok (false, e)

/-- `AttemptFrontMerge(rq)`. -/
def attemptFrontMerge (e : Elevator) (p : Params) (rq : Nat) : Except Fault (Bool × Elevator) :=
  match e.elvFormerRequest rq with
  | some prev => e.attemptMerge p prev rq
  | none => .ok (false, e)

/-- The switch of `Enqueue(req)`. The flag says whether the ioreq joined a request. -/
def mergeIoreq (e : Elevator) (p : Params) (req : Submitted) : Except Fault (Bool × Elevator) :=
  match e.elvMergeVirtual p req.toIoreq with
  | (.backMerge, some rq) =>
      let ll := e.llMergeFn p rq req.toIoreq
      if ll.1 = false then .ok (false, ll.2)
      else
        let r := e.reqs rq
        let e := e.setReq rq
          { r with batch := r.batch ++ [req], count := add64 r.count req.count }
        -- the gap to the next request may be closed now
        (e.attemptBackMerge p rq).bind fun m =>
        if m.1 then .ok (true, m.2)
        else (m.2.elvMergedRequest p rq .backMerge).bind fun e => .ok (true, e)
  | (.frontMerge, some rq) =>
      let ll := e.llMergeFn p rq req.toIoreq
      if ll.1 = false then .ok (false, ll.2)
      else
        let r := e.reqs rq
        let e := e.setReq rq
          { r with batch := req :: r.batch, count := add64 r.count req.count, off := req.off }
        -- the gap to the previous request may be closed now
        (e.attemptFrontMerge p rq).bind fun m =>
        if m.1 then .ok (true, m.2)
        else (m.2.elvMergedRequest p rq .frontMerge).bind fun e => .ok (true, e)
  | _ => .ok (false, e)

/-- The new request of `Enqueue(req)`, before it is added. -/
def newRequest (e : Elevator) (req : Submitted) : Elevator :=
  -- the number of the direction grows here, before the request is in the elevator
  { (e.addCount req.cmd 1).setReq e.nextReq ⟨req.cmd, req.off, req.count, 0, [req], false⟩ with
    nextReq := e.nextReq + 1 }

/-- `ElvQueueEmpty()`. -/
def elvQueueEmpty (e : Elevator) : Bool := e.queue.isEmpty && e.queueEmpty

/-- The case `ELEVATOR_INSERT_SORT` of `ElvInsertRequest(rq, where)`, which is the only one in
use. -/
def elvAddRequest (e : Elevator) (p : Params) (rq : Nat) : Except Fault Elevator :=
  let r := e.reqs rq
  ((e.setReq rq { r with flags := r.flags ||| reqSorted }).rqhashAdd p rq).bind fun e =>
  { e with last := if e.last = none then some rq else e.last }.addRequest rq

/-! ### Dequeue and completion -/

/-- `ElvNextRequest()`. A request that `Dispatch` moved is in `Queue` when the loop turns. -/
def elvNextRequest (e : Elevator) : Except Fault (Option Nat × Elevator) :=
  match e.queue with
  -- what was dispatched before is served first
  | rq :: rest => .ok (some rq, { e with queue := rest })
  | [] =>
      e.dispatch.bind fun r =>
      match r with
      | none => .ok (none, e)
      | some e =>
          match e.queue with
          | rq :: rest => .ok (some rq, { e with queue := rest })
          | [] => .error .loop

/-- `Dequeue()`. -/
def dequeue (e : Elevator) : Except Fault (Option Nat × Elevator) :=
  e.elvNextRequest.bind fun r =>
  match r.1 with
  | none => .ok r
  | some rq =>
      let e := r.2
      let req := e.reqs rq
      let e := e.setReq rq { req with flags := req.flags ||| reqStarted }
      -- the sort of the dispatch begins anew at the boundary
      let e := if e.boundary = none ∨ e.boundary = some rq then
        { e with endpos := rqEndPos req, boundary := none } else e
      .ok (some rq, { e with inflight := add64 e.inflight 1 })

/-- `PutRequest(rq)`, the completion of a request. -/
def putRequest (e : Elevator) (rq : Nat) : Except Fault Elevator :=
  let cmd := (e.reqs rq).cmd
  (check (e.count cmd - 1 ≥ 0) .count).bind fun _ =>
  .ok { e.addCount cmd (-1) with inflight := sub64 e.inflight 1 }

/-- The number of requests in the elevator. -/
def size (e : Elevator) : Nat :=
  e.queue.length +
    match e.sched with
    | .noop queue => queue.length
    | .deadline d => (d.fifoList .read).length + (d.fifoList .write).length

/-- An empty elevator. -/
def start (sched : Sched) : Elevator :=
  { sched := sched, reqs := fun _ => ⟨.read, 0, 0, 0, [], false⟩, nextReq := 0,
    hash := fun _ => [], queue := [], count := fun _ => 0, sorted := 0, inflight := 0, endpos := 0,
    boundary := none, last := none }

end Elevator

/-- An empty `ElvNoop`. -/
def Sched.startNoop : Sched := .noop []

/-- An empty `ElvDeadline`. The source does not initialise `next_rq`, which is `NULL` here. -/
def Sched.startDeadline : Sched := .deadline ⟨fun _ => .nil, fun _ => [], fun _ => none⟩

end LustreSimulator
