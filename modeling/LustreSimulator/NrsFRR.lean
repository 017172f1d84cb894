import LustreSimulator.Lib.Check
import LustreSimulator.Lib.Word
import LustreSimulator.NrsMessage
import LustreSimulator.NrsFifo
import LustreSimulator.NrsRbtree

/-!
# `LustreSimulator.NrsFRR`: file object based round robin (`nrsfrr.cpp`)

Every file has an `io_queue` for each direction, which orders its messages by offset. The scheduler
serves one of them, `wq`, for `FRR_QUANTUM` messages, and the others wait in the queue `Q`. With
`NRS_ALGO_DL_2L` every message is in one of two deadline queues as well, and one whose deadline has
passed is served first. With `NRS_ALGO_DL_ONLY` there are only two deadline queues.

A message is an address, and `io` are the requests of the messages. `FileSystem::GetIoQueue` is in
`GetIoQueue`: an `io_queue` has the address `(fid, cmd)`. A new one is empty and has no flags. The
time for the dynamic deadlines is computed in floating point, as `Params.scale` says. `delta` is the
constant 0. `TIME_SLOT`, `rbQ`, `GetExpireTime`, the statistics and the printing are left out, as
well as the assertions that an unsigned number is not negative.
-/

set_option autoImplicit false

namespace LustreSimulator

open Lib

namespace NrsFRR

open NrsMessage

/-- `params.nrs.Deadline`. -/
inductive Deadline where
  | dlOnly | dlOff | dl2L
  deriving DecidableEq, Repr

/-- The parameters that the scheduler reads. -/
structure Params where
  /-- `params.nrs.Deadline` -/
  deadline : Deadline
  /-- `params.nrs.MDLV` -/
  mdlv : Nat
  /-- `params.disk.ReadBandwidth / 2` -/
  bw : Nat
  /-- `(cfs_time_t)(DT(x) * coef)` -/
  scale : Nat → Nat
  /-- `totFiles` of the file system -/
  totFiles : Nat

/-- The assertions and errors that stop the program. -/
inductive Fault where
  /-- `LASSERT(fid < totFiles)` -/
  | fid
  /-- `LASSERT(o1->fid == o2->fid)` or `BUG_ON(o1->off == o2->off)` of `CompareByOffset` -/
  | offset
  /-- a pointer that is not valid is followed -/
  | null
  /-- `LASSERTF(q->nr >= 0)` or `LASSERT(q->nr > 0)` -/
  | nr
  /-- `LASSERTF(msg != NULL)` -/
  | noMsg
  /-- `LASSERT(FRR_DL_2L && (io->flags & IO_FLG_DEADLINE))` and the like -/
  | flags
  /-- `LASSERT(io->deadline == 0)`, or `LASSERT(io->deadline == params.nrs.MDLV)` -/
  | deadline
  /-- a division by zero -/
  | divZero
  /-- `LASSERT(mQ.Empty())`, `LASSERT(dQ.Empty())` or `LASSERT(num_queued == 0)` -/
  | empty
  deriving DecidableEq, Repr

/-- `FRR_QUANTUM` -/
def frrQuantum : Int := 8

/-- `struct io_queue`. -/
structure IoQueue where
  nr : Int
  /-- `flags & IO_QUEUE_INITED` -/
  inited : Bool
  /-- `flags & IO_QUEUE_QUEUED` -/
  queued : Bool
  /-- `flags & IO_QUEUE_WORK` -/
  work : Bool
  quantum : Int
  s : NrsRbtree Nat

/-- The address of an `io_queue`. -/
abbrev Addr := Nat × Cmd

end NrsFRR

open NrsFRR NrsMessage in
/-- `class NrsFRR`, with the `io_queue`s of the file system and the requests of the messages. -/
structure NrsFRR where
  mQ : NrsFifo Nat
  dQ : NrsFifo Nat
  Q : NrsFifo Addr
  wq : Option Addr
  Q1 : NrsFifo Nat
  Q2 : NrsFifo Nat
  numServiced : Nat
  numQueued : Nat
  ioQueued : Nat
  ioServiced : Nat
  size : Int
  queue : Addr → IoQueue
  io : Nat → Io

namespace NrsFRR

open NrsMessage

/-- Replace an `io_queue`. -/
def setQueue (s : NrsFRR) (a : Addr) (q : IoQueue) : NrsFRR :=
  { s with queue := fun i => if i = a then q else s.queue i }

/-- Replace the deadline of a message's request. -/
def setDeadline (s : NrsFRR) (msg deadline : Nat) : NrsFRR :=
  { s with io := fun i => if i = msg then { s.io msg with deadline := deadline } else s.io i }

/-- `CompareByOffset(a, b)`, after its assertions. -/
def compareByOffset (io : Nat → Io) (a b : Nat) : Int :=
  if (io a).off > (io b).off then 1 else -1

/-- `GetIoQueue(fid, cmd)`: the address of the `io_queue` of the message. -/
def getIoQueue (p : Params) (io : Io) : Except Fault Addr :=
  (check (io.fid < p.totFiles) .fid).bind fun _ => .ok (io.fid, io.cmd)

/-! ### Enqueue -/

/-- `IoEnqueue(q, msg)`. -/
def ioEnqueue (io : Nat → Io) (q : IoQueue) (msg : Nat) : Except Fault IoQueue :=
  -- the assertions of the comparison, for each message that is compared
  (check (∀ y ∈ q.s.compared (compareByOffset io) msg,
    (io msg).fid = (io y).fid ∧ (io msg).off ≠ (io y).off) .offset).bind fun _ =>
  (require (q.s.enqueue (compareByOffset io) msg) .null).bind fun t =>
  .ok { q with nr := q.nr + 1, s := t }

/-- `GetDynamicMaxDeadline()`. -/
def getDynamicMaxDeadline (s : NrsFRR) : Except Fault Nat :=
  if s.dQ.empty then .ok 0
  else (require s.dQ.last .noMsg).bind fun msg => .ok (s.io msg).deadline

/-- `SetIoDeadline(msg)` at the time `now`. -/
def setIoDeadline (s : NrsFRR) (p : Params) (now msg : Nat) : Except Fault NrsFRR :=
  let io := s.io msg
  (check (p.deadline = .dl2L ∧ io.flgDeadline = true) .flags).bind fun _ =>
  if io.flgDynamicDeadline then
    (check (io.deadline = 0) .deadline).bind fun _ =>
    (check (p.bw ≠ 0) .divZero).bind fun _ =>
    let deadline := add64 (p.scale (add64 s.ioQueued s.ioServiced / p.bw)) now
    s.getDynamicMaxDeadline.bind fun maxDl =>
    -- a dynamic deadline is not before the last one that was given
    let s := s.setDeadline msg (if maxDl > deadline then maxDl else deadline)
    .ok { s with dQ := s.dQ.enqueue msg }
  else
    -- a mandatory deadline: the request carries `MDLV`
    (check (io.deadline ≠ 0 ∧ io.deadline = p.mdlv) .deadline).bind fun _ =>
    let s := s.setDeadline msg (add64 io.deadline now)
    .ok { s with mQ := s.mQ.enqueue msg }

/-- `IoDeadlineEnqueue(msg)`. -/
def ioDeadlineEnqueue (s : NrsFRR) (p : Params) (now msg : Nat) : Except Fault NrsFRR :=
  match p.deadline with
  | .dlOff => .ok s
  | .dlOnly =>
      if (s.io msg).flgDeadline1 then .ok { s with Q1 := s.Q1.enqueue msg }
      else
        (check ((s.io msg).flgDeadline2 = true) .flags).bind fun _ =>
        .ok { s with Q2 := s.Q2.enqueue msg }
  | .dl2L => s.setIoDeadline p now msg

/-- The part of `Enqueue` before `__deadline`: the message joins its `io_queue`, and that joins `Q`
unless it is there or is the one that is served. -/
def enqueueIoQueue (s : NrsFRR) (p : Params) (msg : Nat) : Except Fault NrsFRR :=
  (getIoQueue p (s.io msg)).bind fun a =>
  let q := s.queue a
  -- the first message of a file and direction sets the queue up
  let q := if q.inited then q else { q with s := .new, inited := true }
  (ioEnqueue s.io q msg).bind fun q =>
  if q.queued = false ∧ s.wq ≠ some a then
    .ok { s.setQueue a { q with queued := true } with Q := s.Q.enqueue a }
  else .ok (s.setQueue a q)

/-- `Enqueue(msg)` at the time `now`. -/
def enqueue (s : NrsFRR) (p : Params) (now msg : Nat) : Except Fault NrsFRR :=
  -- with deadlines only the `io_queue`s are not used
  (if p.deadline = .dlOnly then .ok s else s.enqueueIoQueue p msg).bind fun s =>
  let s := { s with
    numQueued := add64 s.numQueued 1
    ioQueued := add64 s.ioQueued (s.io msg).count }
  (s.ioDeadlineEnqueue p now msg).bind fun s => .ok { s with size := s.size + 1 }

/-! ### Dequeue -/

/-- `GetWorkQueue()`. -/
def getWorkQueue (s : NrsFRR) : Option Addr × NrsFRR :=
  match s.wq with
  -- the work queue keeps its turn
  | some a => (some a, s)
  | none =>
      match s.Q.dequeue with
      | (none, Q) => (none, { s with Q := Q })
      | (some a, Q) =>
          (some a, { s.setQueue a { s.queue a with
            queued := false, work := true, quantum := frrQuantum } with Q := Q, wq := some a })

/-- `DequeueA(s, msg)`. -/
def dequeueA (q : NrsFifo Nat) (msg : Nat) : Except Fault (Nat × NrsFifo Nat) :=
  (check (q.dequeue.1 = some msg) .noMsg).bind fun _ => .ok (msg, q.dequeue.2)

/-- `Dequeue2QDeadline(s1, s2, tc)` at the time `current`, with the two queues after it. -/
def dequeue2QDeadline (io : Nat → Io) (current : Nat) (s1 s2 : NrsFifo Nat) (tc : Bool) :
    Except Fault (Option Nat × NrsFifo Nat × NrsFifo Nat) :=
  match s1.first, s2.first with
  | none, none => .ok (none, s1, s2)
  | none, some m2 =>
      -- without the test of the time the message stays in the queue
      if tc = false then .ok (some m2, s1, s2)
      else
        (check ((io m2).flgDeadline = true) .flags).bind fun _ =>
        if (io m2).deadline ≤ current then
          (dequeueA s2 m2).bind fun r => .ok (some r.1, s1, r.2)
        else .ok (none, s1, s2)
  | some m1, none =>
      if tc = false ∨ (io m1).deadline ≤ current then
        (dequeueA s1 m1).bind fun r => .ok (some r.1, r.2, s2)
      else .ok (none, s1, s2)
  | some m1, some m2 =>
      if (io m1).deadline > (io m2).deadline then
        if tc = false ∨ (io m2).deadline ≤ current then
          (dequeueA s2 m2).bind fun r => .ok (some r.1, s1, r.2)
        else .ok (none, s1, s2)
      -- the deadline that is tested is the one of `m2`
      else if tc = false ∨ (io m2).deadline ≤ current then
        (dequeueA s1 m1).bind fun r => .ok (some r.1, r.2, s2)
      else .ok (none, s1, s2)

/-- `IoDeadlineDequeue()` at the time `now`. -/
def ioDeadlineDequeue (s : NrsFRR) (p : Params) (now : Nat) :
    Except Fault (Option Nat × NrsFRR) :=
  match p.deadline with
  | .dlOff => .ok (none, s)
  | .dlOnly =>
      (dequeue2QDeadline s.io now s.Q1 s.Q2 false).bind fun r =>
      .ok (r.1, { s with Q1 := r.2.1, Q2 := r.2.2 })
  | .dl2L =>
      (dequeue2QDeadline s.io now s.dQ s.mQ true).bind fun r =>
      .ok (r.1, { s with dQ := r.2.1, mQ := r.2.2 })

/-- `RemoveFromDeadlineQueue(msg)`. -/
def removeFromDeadlineQueue (s : NrsFRR) (p : Params) (msg : Nat) : Except Fault NrsFRR :=
  if p.deadline ≠ .dl2L then .ok s
  -- `NrsFifo::Erase` takes the message out of the middle of the queue
  else if (s.io msg).flgMandatoryDeadline then .ok { s with mQ := s.mQ.erase msg }
  else
    (check ((s.io msg).flgDynamicDeadline = true) .flags).bind fun _ =>
    .ok { s with dQ := s.dQ.erase msg }

/-- The part of `Dequeue` for a message whose deadline has passed: it leaves its `io_queue`, and an
`io_queue` without messages leaves `wq` and `Q`. -/
def dequeueExpired (s : NrsFRR) (p : Params) (msg : Nat) : Except Fault NrsFRR :=
  (getIoQueue p (s.io msg)).bind fun a =>
  let q := s.queue a
  (check (q.nr > 0) .nr).bind fun _ =>
  (require (q.s.erase msg) .null).bind fun t =>
  let s := s.setQueue a { q with s := t, nr := q.nr - 1 }
  -- no message is left, so nothing is to be served here
  if q.nr - 1 = 0 then
    .ok { s with
      wq := if s.wq = some a then none else s.wq
      Q := if q.queued then s.Q.erase a else s.Q }
  else .ok s

/-- The part of `Dequeue` that serves `wq`: its first message, and what becomes of it. -/
def dequeueWork (s : NrsFRR) (a : Addr) : Except Fault (Nat × NrsFRR) :=
  let q := s.queue a
  (check (q.nr - 1 ≥ 0) .nr).bind fun _ =>
  (require q.s.dequeue .null).bind fun r =>
  (require r.1 .noMsg).bind fun msg =>
  let q := { q with nr := q.nr - 1, s := r.2, quantum := q.quantum - 1 }
  if q.nr = 0 then .ok (msg, { s.setQueue a q with wq := none })
  -- the quantum is used up: the `io_queue` goes to the end of `Q`
  else if q.quantum = 0 then
    .ok (msg, { s.setQueue a { q with work := false, queued := true } with
      Q := s.Q.enqueue a, wq := none })
  else .ok (msg, s.setQueue a q)

/-- The end of `Dequeue`, from `__stat` on. -/
def dequeueStat (s : NrsFRR) (p : Params) (msg : Nat) : Except Fault (Option Nat × NrsFRR) :=
  let s := { s with
    numQueued := sub64 s.numQueued 1
    numServiced := add64 s.numServiced 1
    ioQueued := sub64 s.ioQueued (s.io msg).count
    ioServiced := add64 s.ioServiced (s.io msg).count
    size := s.size - 1 }
  -- with the last message the deadline queues are empty too
  (check (s.size = 0 ∧ p.deadline = .dl2L →
    s.mQ.empty = true ∧ s.dQ.empty = true ∧ s.numQueued = 0) .empty).bind fun _ =>
  .ok (some msg, s)

/-- `Dequeue()` at the time `now`. -/
def dequeue (s : NrsFRR) (p : Params) (now : Nat) : Except Fault (Option Nat × NrsFRR) :=
  (s.ioDeadlineDequeue p now).bind fun r =>
  -- this mode returns before `__stat`, so nothing is counted
  if p.deadline = .dlOnly then .ok r
  else
    match r with
    | (some msg, s) => (s.dequeueExpired p msg).bind fun s => s.dequeueStat p msg
    | (none, s) =>
        match s.getWorkQueue with
        | (none, s) => .ok (none, s)
        | (some a, s) =>
            (s.dequeueWork a).bind fun r =>
            (r.2.removeFromDeadlineQueue p r.1).bind fun s => s.dequeueStat p r.1

/-- `Finish(msg)`. -/
def finish (s : NrsFRR) (msg : Nat) : NrsFRR :=
  { s with
    numServiced := sub64 s.numServiced 1
    ioServiced := sub64 s.ioServiced (s.io msg).count }

/-! ### Runs -/

/-- A new scheduler. -/
def new (io : Nat → Io) : NrsFRR :=
  { mQ := .new, dQ := .new, Q := .new, wq := none, Q1 := .new, Q2 := .new, numServiced := 0,
    numQueued := 0, ioQueued := 0, ioServiced := 0, size := 0,
    queue := fun _ => ⟨0, false, false, false, 0, .new⟩, io := io }

/-- The calls, with their times. An `enqueue` carries the request of its message, and a `dequeue`
what it returned. -/
inductive Call where
  | enqueue (now msg : Nat) (io : Io)
  | dequeue (now : Nat) (msg : Option Nat)
  | finish (msg : Nat)
  deriving DecidableEq, Repr

/-- The message at an address is a new one, with the given request. -/
def setReq (s : NrsFRR) (msg : Nat) (io : Io) : NrsFRR :=
  { s with io := fun i => if i = msg then io else s.io i }

/-- A call that does not abort. The request of a message that is enqueued is new, so the message is
in no `io_queue`. -/
inductive Step (p : Params) : NrsFRR → Call → NrsFRR → Prop where
  | enqueue {s s' : NrsFRR} {now msg : Nat} {io : Io} :
      (∀ a, msg ∉ (s.queue a).s.tree.toList) →
      (s.setReq msg io).enqueue p now msg = .ok s' → Step p s (.enqueue now msg io) s'
  | dequeue {s s' : NrsFRR} {now : Nat} {msg : Option Nat} :
      s.dequeue p now = .ok (msg, s') → Step p s (.dequeue now msg) s'
  | finish {s : NrsFRR} {msg : Nat} : Step p s (.finish msg) (s.finish msg)

end NrsFRR

end LustreSimulator
