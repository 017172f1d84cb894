import LustreSimulator.Lib.Agenda
import LustreSimulator.Lib.Check
import LustreSimulator.Lib.Word
import LustreSimulator.NrsBinheap
import LustreSimulator.NrsRbtree

/-!
# `LustreSimulator.Event`: the event loop (`event.cpp`, `timer.cpp`)

An event is an address, and `runTime` and `run` are its fields. The run queue is a scheduler:
a red-black tree or a binary heap, and `RunQ` has a form for each. `Schedule` takes the events out
of it one by one. What the handler of an event does is left open. It calls `RunAfter`, `RunAt`,
`Signal`, `ModTimer` and `DelTimer`, in any order, on any events. Before `Schedule` the program
may call them too.

`Rand` is the argument of `signal`. The state also keeps a history of the armings, which the
program does not have. The random seed and the printing are left out.
-/

set_option autoImplicit false

namespace LustreSimulator

open Lib

namespace EventLoop

/-- `RunTimeCompare(a, b)`. -/
def runTimeCompare (runTime : Nat → Nat) (a b : Nat) : Int :=
  if runTime a > runTime b then 1 else -1

/-- `BinheapRunTimeCompare(a, b)`. -/
def binheapRunTimeCompare (runTime : Nat → Nat) (a b : Nat) : Bool :=
  decide (runTime b ≥ runTime a)

/-- `runQ`, after `SetAlgorithm(ALGO_RBTREE)` or `SetAlgorithm(ALGO_BINHEAP)`. -/
inductive RunQ where
  | rbtree (q : NrsRbtree Nat)
  | binheap (q : NrsBinheap Nat)

namespace RunQ

/-- `runQ->Enqueue(e)`. -/
def enqueue (runTime : Nat → Nat) (e : Nat) : RunQ → Option RunQ
  | .rbtree q => (q.enqueue (runTimeCompare runTime) e).map .rbtree
  | .binheap q => (q.enqueue (binheapRunTimeCompare runTime) e).map .binheap

/-- `runQ->Erase(e)`. -/
def erase (e : Nat) : RunQ → Option RunQ
  | .rbtree q => (q.erase e).map .rbtree
  | .binheap q => some (.binheap (q.erase e))

/-- `runQ->Dequeue()`. -/
def dequeue (runTime : Nat → Nat) : RunQ → Option (Option Nat × RunQ)
  | .rbtree q => q.dequeue.map fun r => (r.1, .rbtree r.2)
  | .binheap q =>
      let r := q.dequeue (binheapRunTimeCompare runTime)
      some (r.1, .binheap r.2)

end RunQ

/-- The assertions and errors that stop the program. -/
inductive Fault where
  /-- `assert(!run)` -/
  | run
  /-- `assert(run)` of `RemoveFromRunQ` -/
  | notRun
  /-- `assert(time > now)` of `RunAt` -/
  | runAt
  /-- `assert(now <= e->runTime)` of `Schedule` -/
  | clock
  /-- the run queue uses a pointer that is not valid -/
  | runQ
  /-- a loop did not end -/
  | loop
  deriving DecidableEq, Repr

/-- Before `Schedule`, in its loop, and after it. -/
inductive Phase where
  | setup | loop | stopped
  deriving DecidableEq, Repr

end EventLoop

open EventLoop in
/-- The static members of `class Event` and the fields of the events. -/
structure EventLoop where
  now : Nat
  runQ : RunQ
  runTime : Nat → Nat
  run : Nat → Bool
  phase : Phase
  /-- the number of the last arming of an event -/
  armNo : Nat → Nat
  armed : List (Arming Nat)
  fired : List (Arming Nat × Nat)
  cancelled : List (Arming Nat)
  dropped : List (Arming Nat)

namespace EventLoop

/-- The arming of an event that is in the run queue. -/
def arming (s : EventLoop) (e : Nat) : Arming Nat := ⟨s.armNo e, e, s.runTime e⟩

/-- Set `runTime`. -/
def setRunTime (s : EventLoop) (e time : Nat) : EventLoop :=
  { s with runTime := fun i => if i = e then time else s.runTime i }

/-- `InsertRunQ()`. -/
def insertRunQ (s : EventLoop) (e : Nat) : Except Fault EventLoop :=
  (check (s.run e = false) .run).bind fun _ =>
  match s.runQ.enqueue s.runTime e with
  | none => .error .runQ
  | some q =>
      .ok { s with
        runQ := q
        run := fun i => if i = e then true else s.run i
        armNo := fun i => if i = e then s.armed.length else s.armNo i
        armed := s.armed ++ [⟨s.armed.length, e, s.runTime e⟩] }

/-- `RemoveFromRunQ()`. -/
def removeFromRunQ (s : EventLoop) (e : Nat) : Except Fault EventLoop :=
  (check (s.run e = true) .notRun).bind fun _ =>
  match s.runQ.erase e with
  | none => .error .runQ
  | some q =>
      .ok { s with
        runQ := q
        run := fun i => if i = e then false else s.run i
        cancelled := s.cancelled ++ [s.arming e] }

/-- `RunAfter(ticks)`. -/
def runAfter (s : EventLoop) (e ticks : Nat) : Except Fault EventLoop :=
  (check (s.run e = false) .run).bind fun _ =>
  (s.setRunTime e (add64 s.now ticks)).insertRunQ e

/-- `RunAt(time)`. -/
def runAt (s : EventLoop) (e time : Nat) : Except Fault EventLoop :=
  (check (s.run e = false) .run).bind fun _ =>
  (check (time > s.now) .runAt).bind fun _ =>
  (s.setRunTime e time).insertRunQ e

/-- `Thread::Signal()`, when `Rand` returns `rand`. -/
def signal (s : EventLoop) (e rand : Nat) : Except Fault EventLoop :=
  (check (s.run e = false) .run).bind fun _ =>
  (s.setRunTime e (add64 s.now rand)).insertRunQ e

/-- `Timer::DelTimer()`. -/
def delTimer (s : EventLoop) (e : Nat) : Except Fault EventLoop :=
  if s.run e then s.removeFromRunQ e else .ok s

/-- `Timer::ModTimer(expire)`. -/
def modTimer (s : EventLoop) (e expire : Nat) : Except Fault EventLoop :=
  if s.run e then
    if expire = s.runTime e then .ok s
    else (s.removeFromRunQ e).bind fun s => s.runAt e expire
  else s.runAt e expire

/-- `NextRunEvent()`. -/
def nextRunEvent (s : EventLoop) : Except Fault (Option Nat × EventLoop) :=
  match s.runQ.dequeue s.runTime with
  | none => .error .runQ
  | some (none, q) => .ok (none, { s with runQ := q })
  | some (some e, q) =>
      .ok (some e, { s with runQ := q, run := fun i => if i = e then false else s.run i })

/-- One turn of the loop of `Schedule()`, up to `e->Run()`. -/
def turn (s : EventLoop) : Except Fault (Option Nat × EventLoop) :=
  s.nextRunEvent.bind fun r =>
  match r.1 with
  | none => .ok r
  | some e =>
      (check (s.now ≤ s.runTime e) .clock).bind fun _ =>
      .ok (some e, { r.2 with
        now := s.runTime e
        fired := s.fired ++ [(s.arming e, s.runTime e)] })

/-- The loop `while (NextRunEvent() != NULL)` at the end of `Schedule()`, with a bound on the
number of its turns. -/
def drain : Nat → EventLoop → Except Fault EventLoop
  | 0, _ => .error .loop
  | k + 1, s =>
      s.nextRunEvent.bind fun r =>
      match r.1 with
      | none => .ok r.2
      | some e => drain k { r.2 with dropped := s.dropped ++ [s.arming e] }

/-! ### Runs -/

/-- What the program does with its events. -/
inductive Action where
  | runAfter (e ticks : Nat)
  | runAt (e time : Nat)
  | signal (e rand : Nat)
  | modTimer (e expire : Nat)
  | delTimer (e : Nat)
  | schedule
  | turn (e : Nat)
  | stop
  deriving DecidableEq, Repr

/-- The steps of the program. `Schedule` sets the clock to 0. Its loop ends when the run queue is
empty or the clock is past `maxRunTicks`. -/
inductive Step (maxRunTicks : Nat) : EventLoop → Action → EventLoop → Prop where
  | runAfter {s s' : EventLoop} {e ticks : Nat} : s.phase ≠ .stopped →
      s.runAfter e ticks = .ok s' → Step maxRunTicks s (.runAfter e ticks) s'
  | runAt {s s' : EventLoop} {e time : Nat} : s.phase ≠ .stopped →
      s.runAt e time = .ok s' → Step maxRunTicks s (.runAt e time) s'
  | signal {s s' : EventLoop} {e rand : Nat} : s.phase ≠ .stopped →
      s.signal e rand = .ok s' → Step maxRunTicks s (.signal e rand) s'
  | modTimer {s s' : EventLoop} {e expire : Nat} : s.phase ≠ .stopped →
      s.modTimer e expire = .ok s' → Step maxRunTicks s (.modTimer e expire) s'
  | delTimer {s s' : EventLoop} {e : Nat} : s.phase ≠ .stopped →
      s.delTimer e = .ok s' → Step maxRunTicks s (.delTimer e) s'
  | schedule {s : EventLoop} : s.phase = .setup →
      Step maxRunTicks s .schedule { s with now := 0, phase := .loop }
  | turn {s s' : EventLoop} {e : Nat} : s.phase = .loop → s.now ≤ maxRunTicks →
      s.turn = .ok (some e, s') → Step maxRunTicks s (.turn e) s'
  | stop {s s' : EventLoop} {k : Nat} : s.phase = .loop →
      (s.now > maxRunTicks ∨ ∃ s₁, s.turn = .ok (none, s₁)) → drain k s = .ok s' →
      Step maxRunTicks s .stop { s' with phase := .stopped }

/-- The program at the time `now`, with an empty run queue. -/
def start (runQ : RunQ) (now : Nat) : EventLoop :=
  { now := now, runQ := runQ, runTime := fun _ => 0, run := fun _ => false, phase := .setup,
    armNo := fun _ => 0, armed := [], fired := [], cancelled := [], dropped := [] }

end EventLoop

end LustreSimulator
