import LustreSimulator.Lib.Check
import LustreSimulator.Lib.Run

/-!
# `LustreSimulator.Processor`: thread pools (`processor.cpp`, `congestcontroller.cpp`, `osc.cpp`)

A `Processor` hands the messages of its scheduler to the threads of its pool. Its manager is an
event: `run` is its flag. `CongestController` is a subclass. It overrides `TaskCompletion` and
`RunOneTask`, which are virtual, and declares an `AddNewTask` of its own. That is not virtual in
`Processor`, so `OSC::ReadWrite`, which holds a `Processor *`, does not reach it.

The scheduler is the list of the messages that wait, with `throttling`. A `Processor` may have any
scheduler, and an `Nrs` says what its `Dequeue` does: it returns one of the messages, or nothing, or
nothing while it starts to throttle. Nothing here asks that it returns a message when there is one,
as `NrsFRR` does not always. The scheduler of a `CongestController` is a `NrsFifo`. The handlers of
the messages complete in later events. `idle` is also the length of `idleQ`, as the two change
together.

A `CongestController` exists only when `params.cc.FIX` is 0. The flag that `SetIoCongestFlag`
returns, the fields `dc` and `rcc` of the message and the statistics are left out, as nothing here
reads them.
-/

set_option autoImplicit false

namespace LustreSimulator

open Lib

namespace Processor

/-- `poolState`. -/
inductive PoolState where
  | startState | idleState | runState | fullLoadState
  deriving DecidableEq, Repr

/-- What `Dequeue()` of a scheduler does. -/
inductive Dequeued where
  | msg (msg : Nat)
  /-- it returns `NULL` -/
  | null
  /-- it returns `NULL` and starts to throttle -/
  | throttle
  deriving DecidableEq, Repr

/-- A scheduler: what `Dequeue()` may do while these messages wait. -/
abbrev Nrs := List Nat → Dequeued → Prop

/-- The class of the object, with the scheduler of a `Processor`. -/
inductive Class where
  | processor (nrs : Nrs)
  | congestController

/-- The assertions that stop the program. -/
inductive Fault where
  /-- `assert(!run)` of `Signal` -/
  | run
  /-- `assert(idle > 0)` of `Wakeup` -/
  | idle
  /-- `assert(t != NULL)` of `PoolStateMachine` -/
  | thread
  /-- `LASSERT(csp.uc >= 0)` -/
  | uc
  /-- `LASSERT(csp.rcc == num)` -/
  | rcc
  deriving DecidableEq, Repr

/-- `struct CSP`. -/
structure Csp where
  depth : Int
  rcc : Nat
  uc : Int
  congested : Bool
  deriving DecidableEq, Repr

end Processor

open Processor in
/-- `class Processor` and its subclass. `executing` are the messages that threads work on. -/
structure Processor where
  poolState : PoolState
  idle : Nat
  num : Nat
  rnum : Nat
  run : Bool
  waiting : List Nat
  throttling : Bool
  executing : List Nat
  csp : Csp
  deriving DecidableEq, Repr

namespace Processor

/-- `NextIdleThreadFromPool()`. -/
def nextIdleThreadFromPool (s : Processor) : Option Processor :=
  if s.idle = 0 then none
  else some { s with
    idle := s.idle - 1
    poolState := if s.idle - 1 = 0 then .fullLoadState else s.poolState }

/-- `Signal()`. -/
def signal (s : Processor) : Except Fault Processor :=
  (check (s.run = false) .run).bind fun _ => .ok { s with run := true }

/-- `Wakeup()`. -/
def wakeup (s : Processor) : Except Fault Processor :=
  if s.poolState = .idleState then
    (check (s.idle > 0) .idle).bind fun _ =>
    s.signal.bind fun s => .ok { s with poolState := .runState }
  -- the manager runs already, or there is no idle thread
  else .ok s

/-- `Processor::AddNewTask(msg)`. -/
def addNewTask (s : Processor) (msg : Nat) : Except Fault Processor :=
  let s := { s with waiting := s.waiting ++ [msg] }
  -- `Wakeup` does nothing in `pool_StartState`
  if s.poolState = .startState ∨ s.poolState = .idleState then s.wakeup else .ok s

/-- `CheckIoCongestion()`. -/
def checkIoCongestion (cqMax : Int) (s : Processor) : Processor :=
  if s.csp.depth ≥ cqMax ∧ s.csp.congested = false then
    { s with csp := { s.csp with congested := true } }
  else if s.csp.congested = true ∧ s.csp.depth < cqMax then
    { s with csp := { s.csp with congested := false } }
  else s

/-- `CongestController::AddNewTask(msg)`. -/
def congestAddNewTask (cqMax : Int) (s : Processor) (msg : Nat) : Except Fault Processor :=
  (checkIoCongestion cqMax { s with csp := { s.csp with depth := s.csp.depth + 1 } }).addNewTask msg

/-- `OSC::ReadWrite(io)`, which hands the message to its `processor`. -/
def readWrite (s : Processor) (msg : Nat) : Except Fault Processor := s.addNewTask msg

/-- `RunOneTask(t)`, with the message of the thread. -/
def runOneTask (cls : Class) (cqMax : Int) (s : Processor) (msg : Nat) : Processor :=
  let s := { s with executing := s.executing ++ [msg] }
  match cls with
  | .processor _ => s
  | .congestController =>
      checkIoCongestion cqMax
        { s with csp := { s.csp with uc := s.csp.uc + 1, depth := s.csp.depth - 1 } }

/-- The loop of `AdjustThreadPool(c)` that shrinks the pool, with a bound on its turns. -/
def shrink (c : Nat) : Nat → Processor → Processor
  | 0, s => s
  | k + 1, s =>
      if s.rnum > c then
        -- threads that work are not taken away
        match s.nextIdleThreadFromPool with
        | none => s
        | some s => shrink c k { s with rnum := s.rnum - 1 }
      else s

/-- `AdjustThreadPool(c, check)`. The pool shrinks by its idle threads, or grows. -/
def adjustThreadPool (s : Processor) (c : Nat) (check : Bool) : Except Fault Processor :=
  if s.num = c then .ok s
  else
    let s := { s with num := c }
    if s.rnum > c then
      let s := shrink c s.rnum s
      .ok (if s.idle = 0 then { s with poolState := .fullLoadState } else s)
    else
      -- new threads are idle
      let s := { s with rnum := c, idle := s.idle + (c - s.rnum) }
      if s.poolState = .fullLoadState ∧ s.idle > 0 ∧ check = true then
        s.signal.bind fun s => .ok { s with poolState := .runState }
      else .ok s

/-- `Processor::TaskCompletion(tld)`, with the message of the thread. -/
def processorTaskCompletion (s : Processor) (msg : Nat) : Except Fault Processor :=
  let s := { s with executing := s.executing.erase msg }
  -- a thread does not come back when the pool has shrunk
  let s := if s.idle + 1 > s.num then s else { s with idle := s.idle + 1 }
  if s.idle > 0 ∧ s.poolState = .fullLoadState then
    s.signal.bind fun s => .ok { s with poolState := .runState }
  else .ok s

/-- `CongestController::TaskCompletion(tld)`, with the message of the thread and the `rcc` that
its reply returned. -/
def congestTaskCompletion (s : Processor) (msg rcc : Nat) : Except Fault Processor :=
  let s := { s with executing := s.executing.erase msg, csp := { s.csp with uc := s.csp.uc - 1 } }
  (check (s.csp.uc ≥ 0) .uc).bind fun _ =>
  (adjustThreadPool { s with csp := { s.csp with rcc := rcc } } rcc false).bind fun s =>
  (check (s.csp.rcc = s.num) .rcc).bind fun _ =>
  -- a thread that is too many ends, and any other one is idle
  let s := if s.rnum > s.num then { s with rnum := s.rnum - 1 } else { s with idle := s.idle + 1 }
  if s.run = false ∧ s.idle > 0 ∧ s.poolState = .fullLoadState then
    s.signal.bind fun s => .ok { s with poolState := .runState }
  else .ok s

/-- `TaskCompletion(tld)`. -/
def taskCompletion (cls : Class) (s : Processor) (msg rcc : Nat) : Except Fault Processor :=
  match cls with
  | .processor _ => s.processorTaskCompletion msg
  | .congestController => s.congestTaskCompletion msg rcc

/-- `nrs->Dequeue()`. -/
inductive Dequeue : Class → Processor → Option Nat → Processor → Prop where
  | msg {nrs : Nrs} {s : Processor} {msg : Nat} : nrs s.waiting (.msg msg) → msg ∈ s.waiting →
      Dequeue (.processor nrs) s (some msg) { s with waiting := s.waiting.erase msg }
  | null {nrs : Nrs} {s : Processor} : nrs s.waiting .null → Dequeue (.processor nrs) s none s
  | throttle {nrs : Nrs} {s : Processor} : nrs s.waiting .throttle →
      Dequeue (.processor nrs) s none { s with throttling := true }
  | fifo {s : Processor} {msg : Nat} {rest : List Nat} : s.waiting = msg :: rest →
      Dequeue .congestController s (some msg) { s with waiting := rest }
  | empty {s : Processor} : s.waiting = [] → Dequeue .congestController s none s

/-- `PoolStateMachine()`, with the messages that it hands to threads. -/
inductive PoolStateMachine (cls : Class) (cqMax : Int) :
    Processor → List Nat → Except Fault Processor → Prop where
  | startState {s : Processor} : s.poolState = .startState →
      PoolStateMachine cls cqMax s [] (.ok { s with poolState := .idleState })
  | idleState {s : Processor} : s.poolState = .idleState →
      PoolStateMachine cls cqMax s [] (.ok s)
  | fullLoadState {s : Processor} : s.poolState = .fullLoadState →
      PoolStateMachine cls cqMax s [] (.ok s)
  | throttled {s : Processor} : s.poolState = .runState → s.throttling = true →
      PoolStateMachine cls cqMax s [] (.ok { s with poolState := .idleState })
  | none {s s' : Processor} : s.poolState = .runState → s.throttling = false →
      Dequeue cls s none s' →
      PoolStateMachine cls cqMax s [] (.ok { s' with poolState := .idleState })
  | noThread {s s' : Processor} {msg : Nat} : s.poolState = .runState → s.throttling = false →
      Dequeue cls s (some msg) s' → s'.nextIdleThreadFromPool = none →
      PoolStateMachine cls cqMax s [] (.error .thread)
  | task {s s₁ s₂ : Processor} {msg : Nat} {msgs : List Nat} {r : Except Fault Processor} :
      s.poolState = .runState → s.throttling = false → Dequeue cls s (some msg) s₁ →
      s₁.nextIdleThreadFromPool = some s₂ →
      PoolStateMachine cls cqMax (runOneTask cls cqMax s₂ msg) msgs r →
      PoolStateMachine cls cqMax s (msg :: msgs) r

/-! ### Runs -/

/-- What happens to the pool: a message arrives through `OSC::ReadWrite` or through the
`AddNewTask` of the class itself, a thread completes, the timer of the throttling fires, or the
manager runs and hands messages to threads. -/
inductive Action where
  | readWrite (msg : Nat)
  | addNewTask (msg : Nat)
  | completion (msg rcc : Nat)
  | timer
  | manager (msgs : List Nat)
  deriving DecidableEq, Repr

/-- The events, with their results. -/
inductive Exec (cls : Class) (cqMax : Int) :
    Processor → Action → Except Fault Processor → Prop where
  | readWrite {s : Processor} {msg : Nat} : Exec cls cqMax s (.readWrite msg) (s.readWrite msg)
  | addNewTask {s : Processor} {msg : Nat} : Exec cls cqMax s (.addNewTask msg)
      (match cls with
        | .processor _ => s.addNewTask msg
        | .congestController => s.congestAddNewTask cqMax msg)
  | completion {s : Processor} {msg rcc : Nat} : msg ∈ s.executing → 1 ≤ rcc →
      Exec cls cqMax s (.completion msg rcc) (s.taskCompletion cls msg rcc)
  | timer {s : Processor} : s.throttling = true →
      Exec cls cqMax s .timer { s with throttling := false }.wakeup
  | manager {s : Processor} {msgs : List Nat} {r : Except Fault Processor} : s.run = true →
      PoolStateMachine cls cqMax { s with run := false } msgs r →
      Exec cls cqMax s (.manager msgs) r

/-- An event that does not abort. -/
def Step (cls : Class) (cqMax : Int) (s : Processor) (a : Action) (s' : Processor) : Prop :=
  Exec cls cqMax s a (.ok s')

/-- The pool after `Attach` with the number of its threads and `Start`. -/
def start (threads : Nat) : Processor :=
  { poolState := .startState, idle := threads, num := threads, rnum := threads, run := true,
    waiting := [], throttling := false, executing := [], csp := ⟨0, 0, 0, false⟩ }

end Processor

end LustreSimulator
