import LustreSimulator.Lib.Check
import LustreSimulator.Lib.Word
import LustreSimulator.NrsFifo
import LustreSimulator.Timer

/-!
# `LustreSimulator.NrsEpoch`: time slices for classes of clients (`nrsepoch.cpp`)

The clients are divided into `num` classes with a queue each. The queue `cur` is served first, and a
timer moves `cur` on when its time slice has passed. The constructor sets the quota of the classes 0
and 1; the other ones are what was in the memory before, as `Params.quota` says.
-/

set_option autoImplicit false

namespace LustreSimulator

open Lib

namespace NrsEpoch

/-- The parameters that the scheduler reads. -/
structure Params where
  /-- `params.cluster.ClientCount` -/
  clientCount : Nat
  /-- `params.cluster.ClientSet` -/
  clientSet : Nat
  /-- the quota of the classes from 2 on -/
  quota : Nat → Nat

/-- The assertions and errors that stop the program. -/
inductive Fault where
  /-- `assert(size > 0)` of `StartTimer` -/
  | size
  /-- `assert(c < num)` -/
  | num
  /-- a division by zero -/
  | divZero
  /-- `assert(time > now)` of `RunAt` -/
  | runAt
  deriving DecidableEq, Repr

/-- `struct queue_class`. -/
structure QueueClass where
  quota : Nat
  start : Nat
  q : NrsFifo Nat

end NrsEpoch

open NrsEpoch in
/-- `class NrsEpoch`. `nrs` is the index of the queue that it points to. -/
structure NrsEpoch where
  qvec : Nat → QueueClass
  num : Nat
  cur : Nat
  on : Bool
  timer : Option Nat
  nrs : Nat
  size : Int

namespace NrsEpoch

/-- Move the timer to `expire` at the time `now`. -/
def modTimer (s : NrsEpoch) (now expire : Nat) : Except Fault NrsEpoch :=
  (require (Timer.modTimer now s.timer expire) .runAt).bind fun timer =>
  .ok { s with timer := timer }

/-- Replace a queue. -/
def setQueue (s : NrsEpoch) (c : Nat) (q : NrsFifo Nat) : NrsEpoch :=
  { s with qvec := fun i => if i = c then { s.qvec c with q := q } else s.qvec i }

/-- `SwitchQueue()` at the time `now`. -/
def switchQueue (s : NrsEpoch) (now : Nat) : Except Fault NrsEpoch :=
  (check (s.num ≠ 0) .divZero).bind fun _ =>
  let cur := (s.cur + 1) % s.num
  let s := { s with
    timer := Timer.delTimer s.timer
    cur := cur
    nrs := cur
    qvec := fun i => if i = cur then { s.qvec cur with start := now } else s.qvec i }
  if s.size > 0 then
    (s.modTimer now (add64 now (s.qvec cur).quota)).bind fun s => .ok { s with on := true }
  -- without work the timer stays off, and `on` is left as it is
  else .ok s

/-- `StartTimer()` at the time `now`. -/
def startTimer (s : NrsEpoch) (now : Nat) : Except Fault NrsEpoch :=
  if s.on = false then
    (check (s.size > 0) .size).bind fun _ =>
    -- the current class may have begun its slice long ago
    let used := sub64 now (s.qvec s.cur).start
    if used > (s.qvec s.cur).quota then s.switchQueue now
    else s.modTimer now (sub64 (add64 now (s.qvec s.cur).quota) used)
  else .ok s

/-- `TimeSliceExpire(ep)` at the time `now`. -/
def timeSliceExpire (s : NrsEpoch) (now : Nat) : Except Fault NrsEpoch :=
  { s with timer := none }.switchQueue now

/-- `GetQueueClass(msg)`, for a message of the client `cid`. -/
def getQueueClass (s : NrsEpoch) (p : Params) (cid : Nat) : Except Fault Nat :=
  (check (p.clientSet ≠ 0 ∧ p.clientCount / p.clientSet ≠ 0 ∧ s.num ≠ 0) .divZero).bind fun _ =>
  .ok (cid / (p.clientCount / p.clientSet) % s.num)

/-- `Enqueue(msg)` at the time `now`, for a message of the client `cid`. -/
def enqueue (s : NrsEpoch) (p : Params) (now msg cid : Nat) : Except Fault NrsEpoch :=
  (s.getQueueClass p cid).bind fun c =>
  (check (c < s.num) .num).bind fun _ =>
  -- only the first message starts the timer
  let s := { s.setQueue c ((s.qvec c).q.enqueue msg) with size := s.size + 1 }
  if s.size = 1 then s.startTimer now else .ok s

/-- The loop of `Dequeue` over the queues from `idx` on, with a bound on its turns. -/
def search (s : NrsEpoch) : Nat → Nat → Option Nat × NrsEpoch
  | 0, _ => (none, s)
  | k + 1, idx =>
      -- the search came round to the current queue
      if idx = s.cur then (none, s)
      else
        match (s.qvec idx).q.dequeue with
        | (some e, q) => (some e, s.setQueue idx q)
        | (none, _) => search s k ((idx + 1) % s.num)

/-- `Dequeue()`. -/
def dequeue (s : NrsEpoch) : Option Nat × NrsEpoch :=
  if s.size = 0 then (none, s)
  else
    let r :=
      -- the class of the slice is served first, and any other one when it has nothing
      match (s.qvec s.nrs).q.dequeue with
      | (some e, q) => (some e, s.setQueue s.nrs q)
      | (none, _) => s.search s.num ((s.cur + 1) % s.num)
    (r.1, { r.2 with size := r.2.size - 1 })

/-- The quota of a class. -/
def quota (p : Params) (c : Nat) : Nat :=
  if c = 0 then 700000000 else if c = 1 then 300000000 else p.quota c

/-- A new scheduler, made at the time `now`. -/
def new (p : Params) (now : Nat) : NrsEpoch :=
  { qvec := fun c => ⟨quota p c, now, .new⟩, num := p.clientSet, cur := 0, on := false
    timer := none, nrs := 0, size := 0 }

/-! ### Runs -/

/-- A scheduler and the time. -/
structure Timed where
  sched : NrsEpoch
  now : Nat

/-- What can happen to a scheduler. -/
inductive Event where
  /-- Time passes. -/
  | clock (now : Nat)
  /-- `Enqueue(msg)`, for a message of the client `cid` -/
  | enqueue (msg cid : Nat)
  | dequeue
  /-- The slice timer fires. -/
  | expire
  deriving DecidableEq, Repr

/-- One event that does not abort. The timer fires at the time that it is armed for, so time does
not pass beyond that. -/
inductive TimedStep (p : Params) : Timed → Event → Timed → Prop where
  | clock {s : Timed} {now : Nat} : s.now ≤ now →
      (∀ expire, s.sched.timer = some expire → now ≤ expire) →
      TimedStep p s (.clock now) { s with now := now }
  | enqueue {s : Timed} {msg cid : Nat} {s' : NrsEpoch} :
      s.sched.enqueue p s.now msg cid = .ok s' →
      TimedStep p s (.enqueue msg cid) { s with sched := s' }
  | dequeue {s : Timed} : TimedStep p s .dequeue { s with sched := s.sched.dequeue.2 }
  | expire {s : Timed} {s' : NrsEpoch} :
      s.sched.timer = some s.now → s.sched.timeSliceExpire s.now = .ok s' →
      TimedStep p s .expire { s with sched := s' }

/-- A new scheduler, made at the time `now`. -/
def start (p : Params) (now : Nat) : Timed := ⟨new p now, now⟩

end NrsEpoch

end LustreSimulator
