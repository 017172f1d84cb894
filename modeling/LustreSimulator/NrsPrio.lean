import LustreSimulator.Lib.Check
import LustreSimulator.Lib.Word
import LustreSimulator.NrsMessage
import LustreSimulator.NrsFifo

/-!
# `LustreSimulator.NrsPrio`: strict priorities (`nrsprio.cpp`)

There is one queue for each priority. `flavor` is the constant `PRIO_STRICT`, so the other ways to
dequeue are left out, with `wq`, `idx` and the quanta that only they use. `coef` and `delta` are the
constants 0. The division by `bw` stays. The printing is left out, as well as the assertions that an
unsigned number is not negative.
-/

set_option autoImplicit false

namespace LustreSimulator

open Lib

namespace NrsPrio

open NrsMessage

/-- The assertions and errors that stop the program. -/
inductive Fault where
  /-- `LASSERT(0 <= io->prio && io->prio < PRIO_QUEUE_NUM)` -/
  | prio
  /-- a division by zero -/
  | divZero
  /-- `LASSERT(msg != NULL)`, or the `NULL` message is followed -/
  | noMsg
  deriving DecidableEq, Repr

/-- `PRIO_QUEUE_NUM` -/
def prioQueueNum : Nat := 2

/-- `struct prio_queue`. -/
structure PrioQueue where
  /-- `flags & PRIO_FLG_DYNAMIC_WT` -/
  dynamicWt : Bool
  pq : NrsFifo Nat
  wt : Nat

end NrsPrio

open NrsPrio NrsMessage in
/-- `class NrsPrio`, with the requests of the messages. -/
structure NrsPrio where
  numServiced : Nat
  numQueued : Nat
  ioQueued : Nat
  ioServiced : Nat
  Q : Nat → PrioQueue
  size : Int
  io : Nat → Io

namespace NrsPrio

open NrsMessage

/-- `GetDynamicMaxDeadline()`. -/
def getDynamicMaxDeadline (s : NrsPrio) : Except Fault Nat :=
  if (s.Q 0).pq.empty then .ok 0
  else (require (s.Q 0).pq.last .noMsg).bind fun msg => .ok (s.io msg).deadline

/-- `GetDynamicDeadline()` at the time `now`. -/
def getDynamicDeadline (s : NrsPrio) (bw now : Nat) : Except Fault Nat :=
  (check (bw ≠ 0) .divZero).bind fun _ =>
  let dl := now
  s.getDynamicMaxDeadline.bind fun maxDl => .ok (if maxDl > dl then maxDl else dl)

/-- `Enqueue(msg)` at the time `now`. -/
def enqueue (s : NrsPrio) (bw now msg : Nat) : Except Fault NrsPrio :=
  let io := s.io msg
  (check (0 ≤ io.prio ∧ io.prio < prioQueueNum) .prio).bind fun _ =>
  let i := io.prio.toNat
  let q := s.Q i
  (if q.dynamicWt then s.getDynamicDeadline bw now else .ok (add64 now q.wt)).bind fun deadline =>
  .ok { s with
    io := fun k => if k = msg then { io with deadline := deadline } else s.io k
    Q := fun k => if k = i then { q with pq := q.pq.enqueue msg } else s.Q k
    numQueued := add64 s.numQueued 1
    ioQueued := add64 s.ioQueued io.count
    size := s.size + 1 }

/-- The loop of `StrictPrioDequeue()` from the queue below `i` down. -/
def strictPrioDequeue (s : NrsPrio) : Nat → Option Nat × NrsPrio
  | 0 => (none, s)
  | i + 1 =>
      if (s.Q i).pq.empty = false then
        ((s.Q i).pq.dequeue.1, { s with
          Q := fun k => if k = i then { s.Q i with pq := (s.Q i).pq.dequeue.2 } else s.Q k })
      else strictPrioDequeue s i

/-- `Dequeue()`. -/
def dequeue (s : NrsPrio) : Except Fault (Option Nat × NrsPrio) :=
  if s.size = 0 then .ok (none, s)
  else
    let r := s.strictPrioDequeue prioQueueNum
    (require r.1 .noMsg).bind fun msg =>
    .ok (some msg, { r.2 with
      numQueued := sub64 r.2.numQueued 1
      numServiced := add64 r.2.numServiced 1
      ioQueued := sub64 r.2.ioQueued (s.io msg).count
      ioServiced := add64 r.2.ioServiced (s.io msg).count
      size := r.2.size - 1 })

/-- `Finish(msg)`. -/
def finish (s : NrsPrio) (msg : Nat) : NrsPrio :=
  { s with
    numServiced := sub64 s.numServiced 1
    ioServiced := sub64 s.ioServiced (s.io msg).count }

/-- A new scheduler. -/
def new (io : Nat → Io) : NrsPrio :=
  { numServiced := 0, numQueued := 0, ioQueued := 0, ioServiced := 0
    Q := fun i => if i = 0 then ⟨true, .new, 0⟩ else ⟨false, .new, 5000000000⟩
    size := 0, io := io }

end NrsPrio

end LustreSimulator
