import LustreSimulator.NrsEpoch
import LustreSimulator.NrsFRR
import LustreSimulator.NrsPrio
import LustreSimulator.NrsTbf

/-!
# `LustreSimulator.Scheduler`: the schedulers of a server (`scheduler.cpp`, `server.cpp`)

`Server::SetScheduler` installs one of the policies, and the server calls it through the virtual
methods of `Scheduler`. `Scheduler` below has a form for each policy. A call has no result when it
aborts. The calls carry their times, and a message that is enqueued carries its fields. Between the
calls the timer of `NrsEpoch` or `NrsTbf` may fire.

`size` is the member that the policies inherit. `NrsTbf` does not use it, so it is beside the model
of that policy. With the algorithms `NRS_ALGO_BINHEAP` and `NRS_ALGO_BYKEY` the server is left with
a pointer to its old scheduler, which has been deleted.
-/

set_option autoImplicit false

namespace LustreSimulator

open Lib

/-- The algorithms, `params.nrs.algo`. -/
inductive NrsAlgo where
  | fifo | binheap | rbtree | epoch | frr | byobjid | bydeadline | bykey | fcfs | prio | tbf
  deriving DecidableEq, Repr

namespace Server

/-- The comparisons for `NrsRbtree`. -/
inductive Compare where
  | compareByObjid | compareByDeadline | taskCompare
  deriving DecidableEq, Repr

/-- `CompareByObjid(a, b)`, after its `BUG_ON`. -/
def compareByObjid (msgs : Nat → NrsMessage) (a b : Nat) : Int :=
  if (msgs a).req.fid > (msgs b).req.fid then 1
  else if (msgs a).req.fid < (msgs b).req.fid then -1
  else if (msgs a).req.off > (msgs b).req.off then 1 else -1

/-- `CompareByDeadline(a, b)`. -/
def compareByDeadline (msgs : Nat → NrsMessage) (a b : Nat) : Int :=
  if (msgs a).deadline < (msgs b).deadline then 1 else -1

/-- `TaskCompare(a, b)`. -/
def taskCompare (msgs : Nat → NrsMessage) (a b : Nat) : Int :=
  if (msgs a).key > (msgs b).key then 1 else -1

/-- The function of a comparison. -/
def Compare.fn : Compare → (Nat → NrsMessage) → Nat → Nat → Int
  | .compareByObjid => Server.compareByObjid
  | .compareByDeadline => Server.compareByDeadline
  | .taskCompare => Server.taskCompare

/-- The `BUG_ON` of `CompareByObjid` does not fire. -/
def Compare.Distinct : Compare → (Nat → NrsMessage) → Nat → Nat → Prop
  | .compareByObjid, msgs, a, b => (msgs a).req.fid = (msgs b).req.fid →
      (msgs a).req.off ≠ (msgs b).req.off
  | _, _, _, _ => True

instance (c : Compare) (msgs : Nat → NrsMessage) (a b : Nat) : Decidable (c.Distinct msgs a b) := by
  unfold Compare.Distinct
  cases c <;> infer_instance

end Server

open Server in
/-- `class Scheduler` with its subclasses. -/
inductive Scheduler where
  | fifo (q : NrsFifo Nat)
  | rbtree (c : Compare) (msgs : Nat → NrsMessage) (q : NrsRbtree Nat)
  | frr (s : NrsFRR)
  | epoch (s : NrsEpoch)
  | prio (s : NrsPrio)
  | tbf (s : NrsTbf) (size : Int)

namespace Scheduler

/-- The parameters of the policies. -/
structure Params where
  frr : NrsFRR.Params
  epoch : NrsEpoch.Params
  /-- `params.disk.ReadBandwidth / 2` -/
  bw : Nat
  tbf : NrsTbf.Params
  rules : Nat → NrsTbf.Rule
  ruleList : List Nat

/-- `Server::SetScheduler(a)` at the time `now`. `msgs` are the messages. -/
def setScheduler (p : Params) (now : Nat) (msgs : Nat → NrsMessage) (a : Option NrsAlgo) :
    Option Scheduler :=
  match a.getD .fifo with
  | .fifo => some (.fifo .new)
  | .fcfs => some (.fifo .new)
  | .byobjid => some (.rbtree .compareByObjid msgs .new)
  | .bydeadline => some (.rbtree .compareByDeadline msgs .new)
  | .rbtree => some (.rbtree .taskCompare msgs .new)
  | .frr => some (.frr (.new fun i => (msgs i).req))
  | .epoch => some (.epoch (.new p.epoch now))
  | .prio => some (.prio (.new fun i => (msgs i).req))
  | .tbf => some (.tbf (.start p.rules p.ruleList) 0)
  | .binheap => none
  | .bykey => none

/-- `Size()`. -/
def size : Scheduler → Int
  | .fifo q => q.size
  | .rbtree _ _ q => q.size
  | .frr s => s.size
  | .epoch s => s.size
  | .prio s => s.size
  | .tbf _ size => size

/-- `Enqueue(msg)` at the time `now`, for a message with the fields `m`. -/
def enqueue (p : Params) (now msg : Nat) (m : NrsMessage) : Scheduler → Option Scheduler
  | .fifo q => some (.fifo (q.enqueue msg))
  | .rbtree c msgs q =>
      let msgs := fun i => if i = msg then m else msgs i
      if ∀ y ∈ q.compared (c.fn msgs) msg, c.Distinct msgs msg y then
        (q.enqueue (c.fn msgs) msg).map fun q => .rbtree c msgs q
      else none
  | .frr s => ((s.setReq msg m.req).enqueue p.frr now msg).toOption.map .frr
  | .epoch s => (s.enqueue p.epoch now msg m.cid).toOption.map .epoch
  | .prio s =>
      ({ s with io := fun i => if i = msg then m.req else s.io i }.enqueue p.bw now
        msg).toOption.map .prio
  | .tbf s size =>
      (NrsTbf.enqueue { s with now := now } p.tbf ⟨msg, m.req.jobid⟩).toOption.map fun s =>
        .tbf s size

/-- `Dequeue()` at the time `now`. `root` is the client at the root of the heap of `NrsTbf`. -/
def dequeue (p : Params) (now : Nat) (root : Option Jobid) :
    Scheduler → Option (Option Nat × Scheduler)
  | .fifo q => some (q.dequeue.1, .fifo q.dequeue.2)
  | .rbtree c msgs q => q.dequeue.map fun r => (r.1, .rbtree c msgs r.2)
  | .frr s => (s.dequeue p.frr now).toOption.map fun r => (r.1, .frr r.2)
  | .epoch s => some (s.dequeue.1, .epoch s.dequeue.2)
  | .prio s => s.dequeue.toOption.map fun r => (r.1, .prio r.2)
  | .tbf s size =>
      (NrsTbf.dequeue { s with now := now } root).toOption.map fun r =>
        (r.1.map (·.id), .tbf r.2 size)

/-- `Finish(msg)` at the time `now`, for a message with the fields `m`. -/
def finish (p : Params) (now msg : Nat) (m : NrsMessage) : Scheduler → Option Scheduler
  | .frr s => some (.frr (s.finish msg))
  | .prio s => some (.prio (s.finish msg))
  | .tbf s size =>
      (NrsTbf.finish { s with now := now } p.tbf ⟨msg, m.req.jobid⟩).toOption.map fun s =>
        .tbf s size
  | s => some s

/-- The timer of the policy fires at the time `now`. -/
def timer (now : Nat) : Scheduler → Option Scheduler
  | .epoch s => (s.timeSliceExpire now).toOption.map .epoch
  | .tbf s size => some (.tbf (NrsTbf.timerCallback { s with now := now }) size)
  | _ => none

/-- What `cfs_binheap_root` may return. -/
def IsRoot (root : Option Jobid) : Scheduler → Prop
  | .tbf s _ => s.IsRoot root
  | _ => True

/-! ### Runs -/

/-- The calls, with their times. A `dequeue` carries the message that it returned. -/
inductive Call where
  | enqueue (now msg : Nat) (m : NrsMessage)
  | dequeue (now : Nat) (msg : Option Nat)
  | finish (now msg : Nat) (m : NrsMessage)
  | timer (now : Nat)
  deriving DecidableEq, Repr

/-- A call that does not abort. -/
inductive Step (p : Params) : Scheduler → Call → Scheduler → Prop where
  | enqueue {s s' : Scheduler} {now msg : Nat} {m : NrsMessage} :
      s.enqueue p now msg m = some s' → Step p s (.enqueue now msg m) s'
  | dequeue {s s' : Scheduler} {now : Nat} {root : Option Jobid} {msg : Option Nat} :
      s.IsRoot root → s.dequeue p now root = some (msg, s') → Step p s (.dequeue now msg) s'
  | finish {s s' : Scheduler} {now msg : Nat} {m : NrsMessage} :
      s.finish p now msg m = some s' → Step p s (.finish now msg m) s'
  | timer {s s' : Scheduler} {now : Nat} : s.timer now = some s' → Step p s (.timer now) s'

/-- The number of messages that the calls enqueued. -/
def enqueued (calls : List Call) : Nat :=
  calls.countP fun c => match c with
    | .enqueue _ _ _ => true
    | _ => false

/-- The number of messages that `Dequeue` returned. -/
def returned (calls : List Call) : Nat :=
  calls.countP fun c => match c with
    | .dequeue _ (some _) => true
    | _ => false

end Scheduler

end LustreSimulator
