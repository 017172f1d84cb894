import LustreSimulator.NrsPrio

/-!
# `LustreSimulator.NrsPrioFlavor`: the flavors of priorities (`nrsprio.cpp`)

`NrsPrio` is the scheduler with the flavor `PRIO_STRICT`. Here the flavor is a parameter, with `wq`,
`idx` and the quanta that only the other flavors use. `wq` is the index of its queue, and `idx` is a
`Nat`.

`QuantumPrioDequeue` jumps back when its queue is empty, so it runs with an amount of fuel, the
number of jumps. A call that returns does so with some amount.
-/

set_option autoImplicit false

namespace LustreSimulator

open Lib

namespace NrsPrio

open NrsMessage

/-- The values of `flavor`. -/
inductive Flavor where
  | strict | quantumOnly | deadlineOnly | dqps
  deriving DecidableEq, Repr

/-- What ends a call without a result. -/
inductive Stop where
  /-- an assertion or an error of the scheduler -/
  | fault (f : Fault)
  /-- the fuel is used up -/
  | fuel
  deriving DecidableEq, Repr

/-- `QUANTUM_L0` -/
def quantumL0 : Int := 1

/-- `QUANTUM_L1` -/
def quantumL1 : Int := 10

/-- The quantum of a queue with the priority `i`. -/
def initQuantum (i : Nat) : Int := if i = 0 then quantumL0 else quantumL1

end NrsPrio

open NrsPrio NrsMessage in
/-- `class NrsPrio` with what the flavors use. -/
structure NrsPrioFlavor extends NrsPrio where
  quantum : Nat → Int
  wq : Option Nat
  idx : Nat

namespace NrsPrioFlavor

open NrsPrio NrsMessage

/-- `Enqueue(msg)` at the time `now`. -/
def enqueue (s : NrsPrioFlavor) (bw now msg : Nat) : Except Fault NrsPrioFlavor :=
  (s.toNrsPrio.enqueue bw now msg).map fun t => { s with toNrsPrio := t }

/-- Take the first message of the queue `i`. -/
def takeFirst (s : NrsPrioFlavor) (i : Nat) : Option Nat × NrsPrioFlavor :=
  ((s.Q i).pq.dequeue.1, { s with
    Q := fun k => if k = i then { s.Q i with pq := (s.Q i).pq.dequeue.2 } else s.Q k })

/-- `StrictPrioDequeue()`. -/
def strictPrioDequeue (s : NrsPrioFlavor) : Option Nat × NrsPrioFlavor :=
  ((s.toNrsPrio.strictPrioDequeue prioQueueNum).1,
    { s with toNrsPrio := (s.toNrsPrio.strictPrioDequeue prioQueueNum).2 })

/-- `QuantumPrioDequeue()`. -/
def quantumPrioDequeue : Nat → NrsPrioFlavor → Except Stop (Option Nat × NrsPrioFlavor)
  | 0, _ => .error .fuel
  | fuel + 1, s =>
      let i := s.wq.getD (s.idx % prioQueueNum)
      let s := { s with wq := some i }
      if (s.Q i).pq.empty then
        -- `goto repeat` leaves `wq` as it is
        quantumPrioDequeue fuel { s with
          quantum := fun k => if k = i then initQuantum i else s.quantum k
          idx := s.idx + 1 }
      else
        let r := s.takeFirst i
        let q := s.quantum i - 1
        let s := { r.2 with quantum := fun k => if k = i then q else s.quantum k }
        let s := if q = 0 then { s with wq := none, idx := (s.idx + 1) % prioQueueNum } else s
        (require r.1 (.fault .noMsg)).bind fun msg => .ok (some msg, s)

/-- The loop of `DeadlineCheckDequeue()` at the time `now`, from the queue below `i` down. The
message stays in its queue. -/
def deadlineCheckDequeue (s : NrsPrioFlavor) (now : Nat) : Nat → Except Stop (Option Nat)
  | 0 => .ok none
  | i + 1 =>
      (require (s.Q i).pq.first (.fault .noMsg)).bind fun msg =>
      if (s.io msg).deadline ≥ now then .ok (some msg) else deadlineCheckDequeue s now i

/-- `DLPrioDequeue()` at the time `now`. -/
def dlPrioDequeue (s : NrsPrioFlavor) (now : Nat) : Except Stop (Option Nat × NrsPrioFlavor) :=
  (s.deadlineCheckDequeue now prioQueueNum).bind fun r =>
  match r with
  | some msg => .ok (some msg, s)
  | none => .ok s.strictPrioDequeue

/-- `DQPSDequeue()` at the time `now`. -/
def dqpsDequeue (fuel : Nat) (s : NrsPrioFlavor) (now : Nat) :
    Except Stop (Option Nat × NrsPrioFlavor) :=
  (s.deadlineCheckDequeue now prioQueueNum).bind fun r =>
  match r with
  | some msg => .ok (some msg, s)
  | none => quantumPrioDequeue fuel s

/-- The message that `Dequeue` returns in a flavor. -/
def flavorDequeue (f : Flavor) (fuel : Nat) (s : NrsPrioFlavor) (now : Nat) :
    Except Stop (Option Nat × NrsPrioFlavor) :=
  match f with
  | .strict => .ok s.strictPrioDequeue
  | .quantumOnly => quantumPrioDequeue fuel s
  | .deadlineOnly => s.dlPrioDequeue now
  | .dqps => dqpsDequeue fuel s now

/-- `Dequeue()` at the time `now`. -/
def dequeue (f : Flavor) (fuel : Nat) (s : NrsPrioFlavor) (now : Nat) :
    Except Stop (Option Nat × NrsPrioFlavor) :=
  if s.size = 0 then .ok (none, s)
  else
    (flavorDequeue f fuel s now).bind fun r =>
    (require r.1 (.fault .noMsg)).bind fun msg =>
    .ok (some msg, { r.2 with
      numQueued := sub64 r.2.numQueued 1
      numServiced := add64 r.2.numServiced 1
      ioQueued := sub64 r.2.ioQueued (s.io msg).count
      ioServiced := add64 r.2.ioServiced (s.io msg).count
      size := r.2.size - 1 })

/-- `Finish(msg)`. -/
def finish (s : NrsPrioFlavor) (msg : Nat) : NrsPrioFlavor :=
  { s with toNrsPrio := s.toNrsPrio.finish msg }

/-- A new scheduler, after `InitPrioQueues()`. -/
def new (io : Nat → Io) : NrsPrioFlavor :=
  { toNrsPrio := .new io, quantum := initQuantum, wq := none, idx := prioQueueNum - 1 }

/-! ### Runs -/

/-- The calls, with their times. An `enqueue` carries the request of its message, and a `dequeue`
what it returned. -/
inductive Call where
  | enqueue (now msg : Nat) (io : Io)
  | dequeue (now : Nat) (msg : Option Nat)
  | finish (msg : Nat)
  deriving DecidableEq, Repr

/-- The message at an address is a new one, with the given request. -/
def setReq (s : NrsPrioFlavor) (msg : Nat) (io : Io) : NrsPrioFlavor :=
  { s with io := fun i => if i = msg then io else s.io i }

/-- A call that returns. The request of a message that is enqueued is new, so the message is in no
queue. -/
inductive Step (f : Flavor) (bw : Nat) : NrsPrioFlavor → Call → NrsPrioFlavor → Prop where
  | enqueue {s s' : NrsPrioFlavor} {now msg : Nat} {io : Io} :
      (∀ i, msg ∉ (s.Q i).pq.Q) → (s.setReq msg io).enqueue bw now msg = .ok s' →
      Step f bw s (.enqueue now msg io) s'
  | dequeue {s s' : NrsPrioFlavor} {fuel now : Nat} {msg : Option Nat} :
      dequeue f fuel s now = .ok (msg, s') → Step f bw s (.dequeue now msg) s'
  | finish {s : NrsPrioFlavor} {msg : Nat} : Step f bw s (.finish msg) (s.finish msg)

end NrsPrioFlavor

end LustreSimulator
