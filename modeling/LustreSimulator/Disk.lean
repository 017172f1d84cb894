import LustreSimulator.Elevator
import LustreSimulator.Timer

/-!
# `LustreSimulator.Disk`: a disk with its elevator (`disk.cpp`, `Elevator::Enqueue`)

An ioreq that is submitted to the disk goes to the elevator. While requests collect there the
disk is plugged. When enough requests wait or the plug timer fires, the disk is unplugged: it
takes all requests out of the elevator into its own `Queue`, and the disk thread serves them
one by one.

`Enqueue` stands here because it plugs and unplugs the disk. The end of a request is not one
step: `EndRequest` calls the completion of each ioreq of the batch, and a completion may submit
new ioreqs. So `ending` says that the program is inside `EndRequest`, and every ioreq is a step
of its own. The time that the disk takes for a request is left open, and the statistics are left
out.
-/

set_option autoImplicit false

namespace LustreSimulator

open Lib Elevator

/-- `Disk::diskState`. -/
inductive DiskState where
  | idle | work | reqFinished
  deriving DecidableEq, Repr

/-- `class Disk`. -/
structure Disk where
  elv : Elevator
  now : Nat
  pluged : Bool
  timer : Option Nat
  /-- `Queue`, the requests that are ready -/
  queue : List Nat
  diskState : DiskState
  curq : Option Nat
  headpos : Nat
  /-- the disk thread is in the run queue -/
  run : Bool
  /-- `EndRequest(curq)` is running -/
  ending : Bool
  /-- the number of the next `Enqueue` call -/
  nextSerial : Nat
  /-- the ioreqs whose completion was called, oldest first. The program does not have this
  list. -/
  completed : List Submitted
  /-- the ioreqs that `EndRequest` has taken from the current request. The program does not have
  this list either. -/
  served : List Submitted

namespace Disk

/-! ### Plugging -/

/-- `SubmitRq(rq)`. -/
def submitRq (d : Disk) (rq : Nat) : Except Elevator.Fault Disk :=
  let d := { d with queue := d.queue ++ [rq] }
  if d.diskState = .idle then
    (check (d.run = false) .run).bind fun _ =>
    .ok { d with run := true, diskState := .work }
  else .ok d

/-- The loop of `Request()`, with a bound on the number of its turns. -/
def requestLoop : Nat → Disk → Except Elevator.Fault Disk
  | 0, _ => .error .loop
  | k + 1, d =>
      d.elv.dequeue.bind fun r =>
      match r.1 with
      | none => .ok { d with elv := r.2 }
      | some rq => ({ d with elv := r.2 }.submitRq rq).bind (requestLoop k)

/-- `Request()`: take all requests out of the elevator. Every turn takes one, so the bound is
never reached. -/
def request (d : Disk) : Except Elevator.Fault Disk := requestLoop (d.elv.size + 1) d

/-- `Plug()`. -/
def plug (d : Disk) (p : Params) : Except Elevator.Fault Disk :=
  if d.pluged then .ok d
  else
    match Timer.modTimer d.now d.timer (d.now + p.delay) with
    | none => .error .runAt
    | some timer => .ok { d with pluged := true, timer := timer }

/-- `Unplug()`. -/
def unplug (d : Disk) : Except Elevator.Fault Disk :=
  if d.pluged then { d with timer := Timer.delTimer d.timer, pluged := false }.request
  else .ok d

/-! ### Submitting -/

/-- `Elevator::Enqueue(req)` when the ioreq joins no request. -/
def enqueueNew (d : Disk) (p : Params) (req : Submitted) : Except Elevator.Fault Disk :=
  let rq := d.elv.nextReq
  let d := { d with elv := d.elv.newRequest req }
  (if d.elv.elvQueueEmpty then d.plug p else .ok d).bind fun d =>
  (d.elv.elvAddRequest p rq).bind fun e =>
  let d := { d with elv := e }
  if d.pluged = true ∧ d.elv.getPendingNum ≥ p.unplugThreshold then d.unplug else .ok d

/-- `SubmitIoreq(req)`, which is `Elevator::Enqueue(req)`. -/
def submitIoreq (d : Disk) (p : Params) (req : Ioreq) : Except Elevator.Fault Disk :=
  let io : Submitted := ⟨req, d.nextSerial⟩
  let d := { d with nextSerial := d.nextSerial + 1 }
  (d.elv.mergeIoreq p io).bind fun r =>
  let d := { d with elv := r.2 }
  if r.1 then .ok d else d.enqueueNew p io

/-! ### The disk thread -/

/-- The case `disk_WorkState` of `DiskStateMachine()`: start the next request. -/
def workState (d : Disk) : Except Elevator.Fault Disk :=
  match d.queue with
  | [] => .ok { d with curq := none, diskState := .idle }
  | rq :: rest =>
      (check (d.run = false) .run).bind fun _ =>
      .ok { d with curq := some rq, queue := rest, run := true, diskState := .reqFinished }

/-- `DiskStateMachine()`, up to the call of `EndRequest` in the case `disk_ReqFinishedState`. -/
def diskStateMachine (d : Disk) : Except Elevator.Fault Disk :=
  match d.diskState with
  | .work => d.workState
  | .reqFinished =>
      match d.curq with
      | none => .error .null
      | some rq =>
          let r := d.elv.reqs rq
          .ok { d with headpos := add64 r.off r.count, ending := true, served := [] }
  | .idle => .ok d

/-- One turn of the loop of `EndRequest(curq)`: take an ioreq off the batch and call its
completion. -/
def endIoreq (d : Disk) (rq : Nat) (req : Submitted) (rest : List Submitted) : Disk :=
  { d with
    elv := d.elv.setReq rq { d.elv.reqs rq with batch := rest }
    completed := d.completed ++ [req]
    served := d.served ++ [req] }

/-- The end of `EndRequest(curq)` and the rest of `DiskStateMachine()`. -/
def endRequest (d : Disk) (rq : Nat) : Except Elevator.Fault Disk :=
  (d.elv.putRequest rq).bind fun e =>
  let d := { d with elv := e, ending := false }
  if d.pluged then .ok { d with diskState := .idle } else { d with diskState := .work }.workState

/-! ### Runs -/

/-- What happens to a disk. `submit` comes from outside or from the completion of an ioreq.
`dequeue` is a single call of `Elevator::Dequeue`, which hands the request to the disk. -/
inductive Event where
  | clock (now : Nat)
  | submit (req : Ioreq)
  | timer
  | thread
  | complete
  | endRequest
  | dequeue
  deriving DecidableEq, Repr

/-- The steps of a disk. Only completions and submissions happen inside `EndRequest`. The clock
does not go past an armed timer. -/
inductive Step (p : Params) : Disk → Event → Disk → Prop where
  | clock {d : Disk} {t : Nat} : d.ending = false → d.now ≤ t →
      (∀ τ, d.timer = some τ → t ≤ τ) → Step p d (.clock t) { d with now := t }
  | submit {d d' : Disk} {req : Ioreq} : d.submitIoreq p req = .ok d' →
      Step p d (.submit req) d'
  | timer {d d' : Disk} : d.ending = false → d.timer = some d.now →
      { d with timer := none }.unplug = .ok d' → Step p d .timer d'
  | thread {d d' : Disk} : d.ending = false → d.run = true →
      { d with run := false }.diskStateMachine = .ok d' → Step p d .thread d'
  | complete {d : Disk} {rq : Nat} {req : Submitted} {rest : List Submitted} :
      d.ending = true → d.curq = some rq → (d.elv.reqs rq).batch = req :: rest →
      Step p d .complete (d.endIoreq rq req rest)
  | endRequest {d d' : Disk} {rq : Nat} : d.ending = true → d.curq = some rq →
      (d.elv.reqs rq).batch = [] → d.endRequest rq = .ok d' → Step p d .endRequest d'
  | dequeue {d d' : Disk} {rq : Nat} {e : Elevator} : d.elv.dequeue = .ok (some rq, e) →
      { d with elv := e }.submitRq rq = .ok d' → Step p d .dequeue d'

/-- A disk after `Start()`. -/
def start (sched : Sched) : Disk :=
  { elv := Elevator.start sched, now := 0, pluged := false, timer := none, queue := [],
    diskState := .idle, curq := none, headpos := 0, run := false, ending := false,
    nextSerial := 0, completed := [], served := [] }

end Disk

end LustreSimulator
