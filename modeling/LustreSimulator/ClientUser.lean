import LustreSimulator.Lib.Check
import LustreSimulator.Lib.Run
import LustreSimulator.Lov
import Mathlib.Algebra.Group.Nat.Defs
import Mathlib.Logic.Function.Basic

/-!
# `LustreSimulator.ClientUser`: the users of the clients (`client.cpp`, `cluster.cpp`)

Every client has a thread `user`, which creates a file, writes its part of it, and may read a part
afterwards. The clients of a set share a file (`ACM_SHARE`), or each one has its own (`ACM_FPP`).
With `params.io.WaitAllWrites` a client that is through with its writes waits in `rwQ`, and the last
writer of all wakes up whoever waits there.

An IO goes through `LOV::ReadWrite`, and its sub-IOs are completed in any order. When the last one is,
the thread is signalled. A sub-IO takes a message each way, and the reception of a packet takes a
tick or more, so it is not completed at the time at which it was sent. The event with the least time
is next, and the random numbers may be anything.

Offsets, counts and times are `Nat`: the model describes the code as long as
`AgvFileSizeSF * SizeUnit`, and with it every offset of a shared file, and the times stay below
`2 ^ 64`.

This is a set on its own, with the default `params.cc.FIX`, with which no `CongestController` changes
the state of a user. Nothing calls `SetIoParams`. So `RW_IOPS` and `IO_FLG_LOCK_CB` are never set,
and their branches are left out. Left out too are the job ids and what only printouts and the
bandwidths show.
-/

set_option autoImplicit false

namespace LustreSimulator

open Lib

namespace ClientUser

/-- `params.io.Mode`. -/
inductive Mode where
  /-- `ACM_SHARE` -/
  | share
  /-- `ACM_FPP`: a file for each client -/
  | fpp
  deriving DecidableEq, Repr

/-- The values of `params.nrs.tbf.TestCase`. -/
inductive TbfTest where
  | singleStream | diffIosize | batchJobid | depruleStop | depruleInterval | depruleScale
  | depruleOverrate | depruleOverload | twoJobidDirectio
  deriving DecidableEq, Repr

/-- The parameters that the users read. -/
structure Params where
  mode : Mode
  /-- `params.io.TestRead` -/
  testRead : Bool
  /-- `params.io.WaitAllWrites` -/
  waitAllWrites : Bool
  /-- `params.io.DirectIO` -/
  directIo : Bool
  /-- `params.test.ClientAT` -/
  clientAT : Bool
  /-- `params.cluster.MDT` -/
  mdt : Bool
  /-- `params.cluster.ClientCount` -/
  clientCount : Nat
  /-- `params.io.WriterCount` -/
  writerCount : Nat
  /-- `params.io.ReaderCount` -/
  readerCount : Nat
  /-- `params.io.IOCountFPP` -/
  countFPP : Nat
  /-- `params.io.AgvFileSizeSF` -/
  fileSizeSF : Nat
  /-- `params.SizeUnit` -/
  sizeUnit : Nat
  /-- `params.io.XferSize` -/
  xferSize : Nat
  /-- `params.io.Interval` -/
  interval : Nat
  /-- `params.io.StepSize` -/
  stepSize : Nat
  /-- the layout of the files -/
  lyt : Layout
  /-- `params.nrs.tbf.TestCase`, with `NRS_ALGO_TBF` -/
  tbfTest : Option TbfTest
  /-- `params.nrs.tbf.StopTime` -/
  stopTime : Nat
  /-- `params.nrs.tbf.StopTicks` -/
  stopTicks : Nat
  /-- `params.nrs.tbf.Interval` -/
  tbfInterval : Nat

/-- `START_TIME`. -/
def startTime : Nat := 2 ^ 64 - 1

/-- `userstat_t`. -/
inductive UserState where
  | first | openFile | initRW | writeStart | writeSleep | writeInterval | writeXfer | writeCompletion
  | writeWaitAllFinish | readStart | readXfer | readCompletion | closeFile | ioCongest | last
  deriving DecidableEq, Repr

/-- The assertions and errors that stop the program, and the uses of an object that is in use. -/
inductive Fault where
  /-- `assert(!run)` -/
  | run
  /-- the thread is in `rwQ` already -/
  | linked
  /-- `io->ref` falls below 0 -/
  | ref
  /-- a division by `wtnr` or `rdnr` -/
  | divide
  /-- `assert(params.io.WaitAllWrites)` -/
  | waitAllWrites
  /-- `LASSERT(rw.wticks != 0)` -/
  | wticks
  /-- what stops `LOV::ReadWrite` -/
  | lov (f : Lov.Fault)
  deriving DecidableEq, Repr

/-- `struct setctl`. -/
structure SetCtl where
  fsz : Nat
  rdnr : Nat
  wtnr : Nat
  swtime : Nat
  srtime : Nat
  sotime : Nat
  writetime : Nat
  readtime : Nat
  opentime : Nat
  deriving DecidableEq, Repr

/-- `Client::rw`. -/
structure Rw where
  off : Nat
  count : Nat
  wtime : Nat
  rtime : Nat
  wticks : Nat
  rticks : Nat
  wbytes : Nat
  rbytes : Nat
  stepsize : Nat
  xfersize : Nat
  interval : Nat
  launch : Nat
  maxRuntime : Nat
  stoptime : Nat
  stopticks : Nat
  deriving DecidableEq, Repr

/-- A `Client` with its thread `user`. -/
structure Client where
  state : UserState
  /-- the time of the thread, when it is in the run queue -/
  run : Option Nat
  io : IoDesc
  rw : Rw
  /-- the sub-IOs that are not completed -/
  subs : List Lov.SubIo
  /-- `MDC::Open` is under way -/
  opening : Bool
  /-- when the last IO was sent -/
  sent : Nat
  /-- the ranges of the IOs that were written, in this order -/
  writes : List (Nat × Nat)
  /-- the ranges of the IOs that were read, in this order -/
  reads : List (Nat × Nat)
  /-- how often `dt->Destroy(obj)` was called -/
  destroyed : Nat
  deriving DecidableEq, Repr

end ClientUser

open ClientUser in
/-- The clients of a set, with what they share. -/
structure ClientUser where
  now : Nat
  set : SetCtl
  finished : Nat
  waitnr : Nat
  rwQ : List Nat
  /-- `over` -/
  isOver : Bool
  clients : Nat → Client

namespace ClientUser

variable (p : Params) (s : ClientUser) (i : Nat) (rand : Nat → Nat)

/-- Replace a client. -/
def setClient (c : Client) : ClientUser := { s with clients := Function.update s.clients i c }

/-! ### Threads -/

/-- `RunAfter(ticks)` of the thread. -/
def runAfter (ticks : Nat) : Except Fault ClientUser :=
  (check ((s.clients i).run = none) .run).bind fun _ =>
  .ok (s.setClient i { s.clients i with run := some (s.now + ticks) })

/-- `user.Insert(&rwQ)` and `waitnr++`. -/
def insertRwQ : Except Fault ClientUser :=
  (check (i ∉ s.rwQ) .linked).bind fun _ =>
  .ok { s with rwQ := s.rwQ ++ [i], waitnr := s.waitnr + 1 }

/-- The loop of `WakeupAll(&rwQ)`, with the threads that are left in the list. `Signal()` is
`RunAfter` with a random number of ticks. -/
def wakeupLoop : List Nat → ClientUser → Except Fault ClientUser
  | [], s => .ok { s with rwQ := [] }
  | i :: rest, s => ({ s with rwQ := rest }.runAfter i (rand i)).bind (wakeupLoop rest)

/-- `WakeupAll(&rwQ)`. -/
def wakeupAll : Except Fault ClientUser := wakeupLoop rand s.rwQ s

/-! ### IOs -/

/-- `dt->Write(io)` or `dt->Read(io)`. -/
def readWrite : Except Fault ClientUser :=
  let c := s.clients i
  match Lov.readWrite p.lyt c.io with
  | .error f => .error (.lov f)
  | .ok res =>
    let range := (c.io.off, c.io.count)
    .ok (s.setClient i { c with
      io := { c.io with ref := res.ref }
      subs := c.subs ++ res.subs
      sent := s.now
      writes := if c.io.cmd = .write then c.writes ++ [range] else c.writes
      reads := if c.io.cmd = .read then c.reads ++ [range] else c.reads })

/-- The offset and the count that the client writes. Only the last writer of a shared file gets what
is left when the file does not divide. -/
def writeRange (set : SetCtl) : Nat × Nat :=
  match p.mode with
  | .share =>
      let step := set.fsz / set.wtnr
      let rest := if i + 1 = p.writerCount then set.fsz % set.wtnr else 0
      (step * i * p.sizeUnit, step * p.sizeUnit + rest * p.sizeUnit)
  | .fpp => (0, p.countFPP)

/-- The offset and the count that the client reads. -/
def readRange (set : SetCtl) : Nat × Nat :=
  match p.mode with
  | .share =>
      let step := set.fsz / set.rdnr
      (step * i * p.sizeUnit, step * p.sizeUnit)
  | .fpp => (0, p.countFPP)

/-! ### The state machine -/

/-- `user_LastState` -/
def lastState : ClientUser :=
  s.setClient i { s.clients i with destroyed := (s.clients i).destroyed + 1 }

/-- `user_ReadCompletionState` -/
def readCompletionState : ClientUser :=
  let c := s.clients i
  let s := { s with set := { s.set with readtime := s.now - s.set.srtime } }
  (s.setClient i { c with rw := { c.rw with rticks := s.now - c.rw.rtime } }).lastState i

/-- `user_ReadXferState` -/
def readXferState : Except Fault ClientUser :=
  let c := s.clients i
  if c.rw.count ≠ 0 then
    let count := min c.rw.count p.xferSize
    (s.setClient i { c with
      state := .readXfer
      io := { c.io with off := c.rw.off, count := count }
      rw := { c.rw with count := c.rw.count - count, off := c.rw.off + count } }).readWrite p i
  else .ok (s.readCompletionState i)

/-- `user_ReadStartState` -/
def readStartState : Except Fault ClientUser :=
  let c := s.clients i
  (check (p.mode = .share → s.set.rdnr ≠ 0) .divide).bind fun _ =>
  let range := readRange p i s.set
  let c := { c with
    io := { c.io with cmd := .read, off := range.1, count := range.2 }
    rw := { c.rw with rbytes := range.2, off := range.1, count := range.2 } }
  let srtime := if s.set.srtime = startTime then s.now else s.set.srtime
  let s := { s with set := { s.set with srtime := srtime } }
  if p.directIo = false ∨ p.xferSize = 0 then
    (s.setClient i { c with state := .readCompletion }).readWrite p i
  else (s.setClient i c).readXferState p i

/-- The part of `user_WriteCompletionState` without `params.io.TestRead`. -/
def finishWrites : ClientUser :=
  let s := (s.setClient i { s.clients i with state := .last }).lastState i
  if p.clientAT then
    { s with finished := s.finished + 1, isOver := s.isOver || decide (s.set.wtnr ≤ s.finished + 1) }
  else s

/-- `if (id < set->wtnr && ++finished >= set->wtnr)`, with `WakeupAll(&rwQ)`. -/
def finishWriter : Except Fault ClientUser :=
  if i < s.set.wtnr then
    let s := { s with finished := s.finished + 1 }
    if s.set.wtnr ≤ s.finished then s.wakeupAll rand else .ok s
  else .ok s

/-- The part of `user_WriteCompletionState` with `params.io.WaitAllWrites`. -/
def waitWrites : Except Fault ClientUser :=
  if p.mode = .share ∧ s.set.rdnr < s.set.wtnr ∧ s.set.rdnr ≤ i then
    ((s.setClient i { s.clients i with state := .last }).finishWriter i rand).bind fun s =>
    let c := s.clients i
    .ok ((s.setClient i { c with rw := { c.rw with rtime := s.now } }).lastState i)
  else
    ((s.setClient i { s.clients i with state := .readStart }).insertRwQ i).bind fun s =>
    (s.finishWriter i rand).bind fun s =>
    let c := s.clients i
    .ok (s.setClient i { c with rw := { c.rw with rtime := s.now } })

/-- `user_WriteCompletionState` -/
def writeCompletionState : Except Fault ClientUser :=
  let c := s.clients i
  let wticks := s.now - c.rw.wtime
  (check (wticks ≠ 0) .wticks).bind fun _ =>
  let s := { s with set := { s.set with writetime := s.now - s.set.swtime } }
  let s := s.setClient i { c with rw := { c.rw with wticks := wticks } }
  if p.testRead = false then .ok (s.finishWrites p i)
  else if p.waitAllWrites then s.waitWrites p i rand
  else s.readStartState p i

/-- `user_WriteSleepState` -/
def writeSleepState : Except Fault ClientUser :=
  let c := s.clients i
  let rw := { c.rw with stopticks := 0 }
  (s.setClient i { c with state := .writeXfer, rw := rw }).runAfter i c.rw.stopticks

/-- `user_WriteIntervalState` -/
def writeIntervalState : Except Fault ClientUser :=
  let c := s.clients i
  let interval := if c.rw.interval ≠ 0 then c.rw.interval else p.interval
  (s.setClient i { c with state := .writeXfer }).runAfter i (interval + rand i)

/-- The state after a transfer with `left` bytes to go, and `rw.stepsize`. -/
def afterXfer (now : Nat) (rw : Rw) (left stepsize : Nat) : UserState × Nat :=
  if (p.interval ≠ 0 ∧ p.stepSize ≤ stepsize) ∨ rw.interval ≠ 0 then
    if left = 0 then (.writeCompletion, stepsize) else (.writeInterval, 0)
  else if p.interval ≠ 0 then (.writeInterval, stepsize)
  else if rw.stopticks ≠ 0 ∧ rw.stoptime ≤ now then (.writeSleep, stepsize)
  else (.writeXfer, stepsize)

/-- `user_WriteXferState` -/
def writeXferState : Except Fault ClientUser :=
  let c := s.clients i
  if c.rw.count ≠ 0 ∧ s.now < c.rw.maxRuntime then
    let count := min c.rw.count c.rw.xfersize
    let left := c.rw.count - count
    let after := afterXfer p s.now c.rw left (c.rw.stepsize + count)
    (s.setClient i { c with
      state := after.1
      io := { c.io with off := c.rw.off, count := count }
      rw := { c.rw with count := left, off := c.rw.off + count, stepsize := after.2 } }).readWrite p i
  else (s.setClient i { c with state := .writeCompletion }).writeCompletionState p i rand

/-- The part of `user_WriteStartState` behind the times. -/
def startWrites : Except Fault ClientUser :=
  let c := s.clients i
  if (p.directIo = false ∨ p.xferSize = 0) ∧ c.rw.xfersize = 0 then
    (s.setClient i { c with state := .writeCompletion }).readWrite p i
  else if c.rw.launch ≠ 0 then
    (s.setClient i { c with state := .writeXfer }).runAfter i (c.rw.launch + rand i)
  else s.writeXferState p i rand

/-- `user_WriteStartState` -/
def writeStartState : Except Fault ClientUser :=
  let c := { s.clients i with io := { (s.clients i).io with cmd := .write } }
  if s.set.swtime = startTime then
    -- the first client that starts to write
    let set := { s.set with swtime := s.now, opentime := s.now - s.set.sotime }
    ({ s with set := set }.setClient i { c with rw := { c.rw with wtime := s.now } }).startWrites
      p i rand
  else (s.setClient i c).startWrites p i rand

/-- `user_InitRWState` -/
def initRWState : Except Fault ClientUser :=
  let c := s.clients i
  let c := { c with io := { c.io with ref := 0 } }
  if p.mode = .share ∧ p.testRead ∧ s.set.wtnr < s.set.rdnr ∧ s.set.wtnr ≤ i then
    (check (p.waitAllWrites = true) .waitAllWrites).bind fun _ =>
    (s.setClient i { c with state := .readStart }).insertRwQ i
  else
    (check (p.mode = .share → s.set.wtnr ≠ 0) .divide).bind fun _ =>
    let range := writeRange p i s.set
    (s.setClient i { c with
      io := { c.io with off := range.1, count := range.2 }
      rw := { c.rw with off := range.1, count := range.2, wbytes := range.2 } }).writeStartState p i rand

/-- `user_FirstState` and `user_OpenFileState` -/
def firstState : Except Fault ClientUser :=
  let c := s.clients i
  let sotime := if s.set.sotime = startTime then s.now else s.set.sotime
  let s := { s with set := { s.set with sotime := sotime } }
  if p.mdt then .ok (s.setClient i { c with state := .initRW, opening := true })
  else (s.setClient i { c with state := .initRW }).initRWState p i rand

/-- `UserStateMachine()`. -/
def userStateMachine : Except Fault ClientUser :=
  match (s.clients i).state with
  | .first | .openFile => s.firstState p i rand
  | .initRW => s.initRWState p i rand
  | .writeStart => s.writeStartState p i rand
  | .writeXfer => s.writeXferState p i rand
  | .writeInterval => s.writeIntervalState p i rand
  | .writeSleep => s.writeSleepState i
  | .writeCompletion => s.writeCompletionState p i rand
  | .readStart => s.readStartState p i
  | .readXfer => s.readXferState p i
  | .readCompletion => .ok (s.readCompletionState i)
  | .closeFile | .last => .ok (s.lastState i)
  | .ioCongest | .writeWaitAllFinish => .ok s

/-! ### The events -/

/-- The completion of a sub-IO: `if (--pio->ref == 0) pio->waiter->Signal()`. -/
def completion (k : Nat) : Except Fault ClientUser :=
  let c := s.clients i
  (check (c.io.ref ≠ 0) .ref).bind fun _ =>
  let s := s.setClient i { c with
    io := { c.io with ref := c.io.ref - 1 }
    subs := c.subs.eraseIdx k }
  if c.io.ref - 1 = 0 then s.runAfter i (rand i) else .ok s

/-- The end of an OPEN, which signals `obj->waiter`. -/
def opened : Except Fault ClientUser :=
  (s.setClient i { s.clients i with opening := false }).runAfter i (rand i)

/-- An event at its time, with the random numbers that are drawn for the clients. -/
inductive Action where
  /-- the thread of the client runs -/
  | user (i time : Nat) (rand : Nat → Nat)
  /-- the sub-IO `k` of the client is completed -/
  | completion (i k time : Nat) (rand : Nat → Nat)
  /-- the file of the client has been opened -/
  | opened (i time : Nat) (rand : Nat → Nat)

/-- The clients of the set. `Cluster` makes as many as there are writers or readers of the file. -/
def Params.cnr : Nat :=
  match p.mode with
  | .share => max p.writerCount p.readerCount
  | .fpp => p.clientCount

/-- No thread is to run earlier. The clock has 64 bits. -/
def Next (time : Nat) : Prop :=
  s.now ≤ time ∧ time < startTime ∧ ∀ j < p.cnr, ∀ t, (s.clients j).run = some t → time ≤ t

/-- The event can happen now. -/
def Enabled : Action → Prop
  | .user i time _ => s.Next p time ∧ i < p.cnr ∧ (s.clients i).run = some time
  | .completion i k time _ =>
      s.Next p time ∧ i < p.cnr ∧ k < (s.clients i).subs.length ∧ (s.clients i).sent < time
  | .opened i time _ => s.Next p time ∧ i < p.cnr ∧ (s.clients i).opening

instance (time : Nat) : Decidable (s.Next p time) :=
  decidable_of_iff
    (s.now ≤ time ∧ time < startTime ∧ ∀ j < p.cnr, ∀ t ∈ (s.clients j).run, time ≤ t) Iff.rfl

instance : (a : Action) → Decidable (s.Enabled p a)
  | .user i time _ => inferInstanceAs (Decidable (s.Next p time ∧ i < p.cnr ∧
      (s.clients i).run = some time))
  | .completion i k time _ => inferInstanceAs (Decidable (s.Next p time ∧ i < p.cnr ∧
      k < (s.clients i).subs.length ∧ (s.clients i).sent < time))
  | .opened i time _ => inferInstanceAs (Decidable (s.Next p time ∧ i < p.cnr ∧
      (s.clients i).opening))

/-- What the event does. -/
def fire : Action → Except Fault ClientUser
  | .user i time rand =>
      let s := { s with now := time }
      (s.setClient i { s.clients i with run := none }).userStateMachine p i rand
  | .completion i k time rand => { s with now := time }.completion i rand k
  | .opened i time rand => { s with now := time }.opened i rand

/-- The steps of the clients. -/
def Step (s : ClientUser) (a : Action) (s' : ClientUser) : Prop :=
  s.Enabled p a ∧ s.fire p a = .ok s'

/-! ### The start -/

/-- `setctl` as `Cluster` fills it in. -/
def newSetCtl : SetCtl where
  fsz := match p.mode with | .share => p.fileSizeSF | .fpp => 0
  rdnr := match p.mode with | .share => p.readerCount | .fpp => p.clientCount
  wtnr := match p.mode with | .share => p.writerCount | .fpp => p.clientCount
  swtime := startTime
  srtime := startTime
  sotime := startTime
  writetime := 0
  readtime := 0
  opentime := 0

/-- `Client::Client()`, as far as `rw` goes. -/
def newRw : Rw where
  off := 0
  count := 0
  wtime := 0
  rtime := 0
  wticks := 0
  rticks := 0
  wbytes := 0
  rbytes := 0
  stepsize := 0
  xfersize := p.xferSize
  interval := p.interval
  launch := 0
  maxRuntime := startTime
  stoptime := 0
  stopticks := 0

/-- `ConfTbfTestSuit()`, as far as `rw` goes. -/
def confTbfTestSuit (rw : Rw) : Rw :=
  if i = 0 then
    match p.tbfTest with
    | some .diffIosize => { rw with xfersize := 4096 }
    | some .depruleStop => { rw with stoptime := p.stopTime, stopticks := p.stopTicks }
    | some .depruleInterval | some .depruleOverrate => { rw with interval := p.tbfInterval }
    | _ => rw
  else rw

/-- A client after `Start()`. Its thread runs after `5000 + skew` ticks. -/
def newClient (skew : Nat) : Client where
  state := .first
  run := some (5000 + skew)
  io := ⟨.write, 0, 0, 0⟩
  rw := confTbfTestSuit p i (newRw p)
  subs := []
  opening := false
  sent := 0
  writes := []
  reads := []
  destroyed := 0

/-- The clients that `Cluster` starts. -/
def start (skew : Nat → Nat) : ClientUser where
  now := 0
  set := newSetCtl p
  finished := 0
  waitnr := 0
  rwQ := []
  isOver := false
  clients := fun i => newClient p i (skew i)

end ClientUser

end LustreSimulator
