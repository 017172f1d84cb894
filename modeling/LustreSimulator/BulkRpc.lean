import LustreSimulator.Lib.Check
import LustreSimulator.Lib.Run
import LustreSimulator.PtlrpcServer

/-!
# `LustreSimulator.BulkRpc`: IOs as RPCs (`client.cpp`, `osc.cpp`, `mdc.cpp`, `ost.cpp`, `mdt.cpp`)

`LOV::ReadWrite` makes an IO into sub-IOs, and `OSC::ReadWrite` each sub-IO into a `Message`, which
is a task for the threads of the OSC. A thread of the client and a thread of the OST then run their
state machines in turns and send the one message back and forth: a WRITE asks for its bulk data
before the disk IO, a READ sends its data after it. `MDC::Open` is an RPC of one message each way,
with a thread of its own on the client.

A message arrives when its last packet does (`NIC::RecvStateMachine`): then a message with `nt` set
signals its sender, the channel is reversed, and the node gets the message after the interrupt
latency. `Message::Notify` signals the thread `worker[r]`.

Every event has its time, and the event with the least time is next. How long the network and the
disk take and the ticks of an OPEN are left out: any time from now on will do. The network delivers
a message that is sent, the disk completes an IO. A pool may take any message of its scheduler as
long as it has an idle thread. `IO_FLG_IOPS` is never set, so its branches are left out, as are the
statistics. Of the calls of `Ptlrpc` only those that send and notify are here.
-/

set_option autoImplicit false

namespace LustreSimulator

open Lib

namespace BulkRpc

open PtlrpcServer (Op Phase)

/-- The parameters that the RPCs read. -/
structure Params where
  /-- `params.cluster.Scale` -/
  scale : Bool
  /-- `params.test.NetworkNodisk` -/
  networkNodisk : Bool
  /-- `params.debug.Rand` -/
  rand : Bool
  /-- `params.thread.CtxSwitchTicks` -/
  ctxSwitchTicks : Nat
  /-- `params.network.InterruptLatency` -/
  interruptLatency : Nat

/-- The ticks that `Signal` may take: `Rand(params.thread.CtxSwitchTicks)`. -/
def Params.Switch (p : Params) (d : Nat) : Prop :=
  if p.rand then 1 ≤ d ∧ d ≤ max 1 p.ctxSwitchTicks else d = 0

/-- What `InterruptLatency()` may be. -/
def Params.Latency (p : Params) (d : Nat) : Prop :=
  if p.rand then p.interruptLatency - p.interruptLatency / 10 ≤ d ∧
    d ≤ p.interruptLatency + p.interruptLatency / 10
  else d = p.interruptLatency

/-- The two threads that work on a message. -/
inductive Side where
  | client | server
  deriving DecidableEq, Repr

/-- `tld->state` of the thread on the client, of the state machine of the operation. -/
inductive ClState where
  /-- `cl_WriteStartState`, `cl_ReadStartState`, `cl_OpenStartState` -/
  | start
  | writeRecvGet
  | writeCompletion
  | readRecvPut
  | readCompletion
  | openLast
  deriving DecidableEq, Repr

/-- A thread that works on a message, with its time when it is in the run queue. -/
structure Task (σ : Type) where
  state : σ
  run : Option Nat
  deriving DecidableEq, Repr

/-- What a node has to do with a message. -/
inductive Work (σ : Type) where
  /-- it has not received the message -/
  | absent
  /-- the message is in the scheduler of the pool -/
  | queued
  | busy (t : Task σ)
  /-- `TaskCompletion` was called -/
  | done
  deriving DecidableEq, Repr

/-- What can be seen of a message. The program does not keep it. -/
inductive Obs where
  /-- a node sends the message -/
  | send (side : Side) (phase : Phase) (len : Nat)
  /-- the disk IO begins -/
  | disk
  /-- the disk IO is complete -/
  | diskDone
  /-- the thread calls `TaskCompletion` -/
  | complete (side : Side)
  /-- `w->Signal()` of `OpenStateMachine` -/
  | signal
  deriving DecidableEq, Repr

/-- The assertions and errors that stop the program, and the uses of an object that is not there any
more or is in use. -/
inductive Fault where
  /-- `worker[r]` is `NULL` -/
  | null
  /-- `assert(!run)` -/
  | run
  /-- `worker[r]` is a thread that does not work on the message -/
  | stale
  /-- the message is sent while it is on its way -/
  | inFlight
  /-- the message enters a scheduler that has or had it -/
  | requeued
  /-- the message has been deleted -/
  | freed
  /-- there is no such message or no such IO -/
  | unknown
  deriving DecidableEq, Repr

/-- A `Message` with its `IO`, the threads that work on it and the events that are armed for it. -/
structure Rpc where
  op : Op
  /-- `io->parent` -/
  parent : Nat
  /-- the OSC, with its pool of threads -/
  osc : Nat
  /-- the OST, or for an OPEN the MDT, with its pool of threads -/
  ost : Nat
  /-- `io->count` -/
  count : Nat
  phase : Phase
  r : Bool
  nt : Bool
  msz : Nat
  worker0 : Option Side
  worker1 : Option Side
  client : Work ClState
  server : Work PtlrpcServer.State
  /-- when the last packet arrives, while the message is on its way -/
  wire : Option Nat
  /-- when `MessageInterrupt` runs -/
  intr : Option Nat
  /-- when the disk completes the IO -/
  disk : Option Nat
  freed : Bool
  log : List Obs
  deriving DecidableEq, Repr

namespace Rpc

/-- A new message of `OSC::ReadWrite`, in the scheduler of the OSC. -/
def new (op : Op) (parent osc ost count : Nat) : Rpc :=
  ⟨op, parent, osc, ost, count, .new, false, false, 0, none, none, .queued, .absent, none, none,
    none, false, []⟩

/-- `worker[r]`. -/
def worker (m : Rpc) : Option Side := if m.r then m.worker1 else m.worker0

/-- `SetWorker(t)`, where `t` is the thread of this side. -/
def setWorker (m : Rpc) (side : Side) : Rpc :=
  if m.r then { m with worker1 := some side } else { m with worker0 := some side }

/-- A thread leaves its turn in this state. -/
def toClient (m : Rpc) (state : ClState) : Rpc := { m with client := .busy ⟨state, none⟩ }

/-- A thread leaves its turn in this state, and `RunAfter` has put it into the run queue or not. -/
def toServer (m : Rpc) (state : PtlrpcServer.State) (run : Option Nat) : Rpc :=
  { m with server := .busy ⟨state, run⟩ }

/-- The message is still there. -/
def touch (m : Rpc) : Except Fault Unit := check (m.freed = false) .freed

/-- `SetLength(len)` and `Send(msg)`. The message will arrive at this time. -/
def send (m : Rpc) (side : Side) (len arrival : Nat) : Except Fault Rpc :=
  (check (m.wire = none) .inFlight).bind fun _ =>
  .ok { m with
    msz := len, wire := some arrival, log := m.log ++ [.send side m.phase len] }

/-- `Signal()` of the thread of this side, which will run at this time. -/
def signal (m : Rpc) (time : Nat) : Side → Except Fault Rpc
  | .client =>
      match m.client with
      | .busy t =>
          (check (t.run = none) .run).bind fun _ =>
          .ok { m with client := .busy ⟨t.state, some time⟩ }
      | _ => .error .stale
  | .server =>
      match m.server with
      | .busy t =>
          (check (t.run = none) .run).bind fun _ =>
          .ok { m with server := .busy ⟨t.state, some time⟩ }
      | _ => .error .stale

/-- `Notify()`. -/
def notify (m : Rpc) (time : Nat) : Except Fault Rpc :=
  (require m.worker .null).bind fun side => m.signal time side

/-! ### The client -/

/-- The last turn on the client, which completes the task. It deletes the message of an IO. -/
def lastClient (m : Rpc) : Rpc :=
  match m.op with
  | .open => { m with client := .done, log := m.log ++ [.signal] }
  | _ => { m with client := .done, log := m.log ++ [.complete .client], freed := true }

/-- `WriteStateMachine(tld)` of the client. -/
def clientWrite (m : Rpc) (state : ClState) (arrival : Nat) : Except Fault Rpc :=
  match state with
  | .start =>
      ((m.setWorker .client).send .client 1024 arrival).bind fun m => .ok (m.toClient .writeRecvGet)
  | .writeRecvGet =>
      (m.send .client m.count arrival).bind fun m => .ok (m.toClient .writeCompletion)
  | _ => .ok m.lastClient

/-- `ReadStateMachine(tld)` of the client. -/
def clientRead (m : Rpc) (state : ClState) (arrival : Nat) : Except Fault Rpc :=
  match state with
  | .start =>
      ((m.setWorker .client).send .client 1024 arrival).bind fun m => .ok (m.toClient .readRecvPut)
  | .readRecvPut =>
      (m.send .client 1024 arrival).bind fun m => .ok (m.toClient .readCompletion)
  | _ => .ok m.lastClient

/-- `OpenStateMachine(tld)` of the client. -/
def clientOpen (m : Rpc) (state : ClState) (arrival : Nat) : Except Fault Rpc :=
  match state with
  | .start =>
      ((m.setWorker .client).send .client 1024 arrival).bind fun m => .ok (m.toClient .openLast)
  | _ => .ok m.lastClient

/-- `Client::Handle(arg)` in this state of the thread. -/
def clientHandle (m : Rpc) (state : ClState) (arrival : Nat) : Except Fault Rpc :=
  m.touch.bind fun _ =>
  match m.op with
  | .write => m.clientWrite state arrival
  | .read => m.clientRead state arrival
  | .open => m.clientOpen state arrival

/-! ### The servers -/

/-- `TaskCompletion(tld)` on the server. -/
def lastServer (m : Rpc) : Rpc :=
  { m with server := .done, log := m.log ++ [.complete .server] }

/-- `osd.Write(io)` or `osd.Read(io)`. The disk will complete the IO at this time. -/
def startDisk (m : Rpc) (time : Nat) : Rpc :=
  { m with disk := some time, log := m.log ++ [.disk] }

/-- `WriteStateMachine(tld)` of the OST. `time` is when the message arrives or the disk completes. -/
def ostWrite (p : Params) (m : Rpc) (state : PtlrpcServer.State) (now time : Nat) :
    Except Fault Rpc :=
  let bulkGet :=
    ((m.setWorker .server).send .server 1024 time).bind fun m =>
    .ok (m.toServer (if p.networkNodisk then .writeCompletion else .writeDiskIo) none)
  match state with
  | .first => if p.scale then .ok (m.toServer .writeStart (some (now + 5000000))) else bulkGet
  | .writeDiskIo => .ok ((m.toServer .writeCompletion none).startDisk time)
  | .writeCompletion =>
      ({ m with phase := .complete }.send .server 1024 time).bind fun m => .ok m.lastServer
  | _ => bulkGet

/-- `ReadStateMachine(tld)` of the OST. -/
def ostRead (p : Params) (m : Rpc) (state : PtlrpcServer.State) (now time : Nat) :
    Except Fault Rpc :=
  let sendPut (m : Rpc) :=
    (m.send .server 1024 time).bind fun m => .ok (m.toServer .readRecvPutAck none)
  let fileIO :=
    let m := m.setWorker .server
    if p.networkNodisk then sendPut m else .ok ((m.toServer .readSendPut none).startDisk time)
  match state with
  | .first => if p.scale then .ok (m.toServer .readFileIo (some (now + 1000000000))) else fileIO
  | .readSendPut => sendPut m
  | .readRecvPutAck =>
      -- the NIC of the client will signal the thread when the data has arrived
      ({ m with nt := true, phase := .bulk }.send .server m.count time).bind fun m =>
      .ok (m.toServer .readCompletion none)
  | .readCompletion => .ok m.lastServer
  | _ => fileIO

/-- `OpenStateMachine(tld)` of the MDT. `time` is when the message arrives or the thread runs
again. -/
def mdtOpen (m : Rpc) (state : PtlrpcServer.State) (time : Nat) : Except Fault Rpc :=
  match state with
  | .openComplete =>
      (m.send .server 1024 time).bind fun m => .ok { m.lastServer with phase := .complete }
  | _ => .ok (m.toServer .openComplete (some time))

/-- `OST::Handle(arg)` or `MDT::Handle(arg)` in this state of the thread. -/
def serverHandle (p : Params) (m : Rpc) (state : PtlrpcServer.State) (now time : Nat) :
    Except Fault Rpc :=
  m.touch.bind fun _ =>
  let m := { m with phase := .rpc }
  match m.op with
  | .write => m.ostWrite p state now time
  | .read => m.ostRead p state now time
  | .open => m.mdtOpen state time

/-! ### The events -/

/-- The last packet of the message arrives (`nic_RecvRxDoneState`). A thread that is signalled runs
at the time `signal`, the node has the message at the time `intr`. -/
def rxDone (m : Rpc) (signal intr : Nat) : Except Fault Rpc :=
  m.touch.bind fun _ =>
  (if m.nt then m.notify signal else .ok m).bind fun m =>
  (check (m.intr = none) .run).bind fun _ =>
  .ok { m with wire := none, r := !m.r, intr := some intr }

/-- `MessageInterrupt(msg)`: the node receives the message. A new RPC is a task for the server, and
any other message signals a thread. -/
def messageInterrupt (m : Rpc) (signal : Nat) : Except Fault Rpc :=
  let m := { m with intr := none }
  m.touch.bind fun _ =>
  if m.r ∧ m.phase = .new then
    (check (m.server = .absent) .requeued).bind fun _ => .ok { m with server := .queued }
  else m.notify signal

/-- `FileSystem::Completion(req)` of the last request of the IO. The sub-IO has no waiter. -/
def diskCompletion (m : Rpc) (signal : Nat) : Except Fault Rpc :=
  m.touch.bind fun _ =>
  ({ m with disk := none, log := m.log ++ [Obs.diskDone] } : Rpc).notify signal

/-- The times of the events that are armed for the message. -/
def pending (m : Rpc) : List Nat :=
  let client := match m.client with
    | .busy t => t.run.toList
    | _ => []
  let server := match m.server with
    | .busy t => t.run.toList
    | _ => []
  client ++ server ++ m.wire.toList ++ m.intr.toList ++ m.disk.toList

/-- A thread of the client works on the message of an IO: it is one of the pool of the OSC. -/
def takesOsc (m : Rpc) (osc : Nat) : Bool :=
  match m.op, m.client with
  | .open, _ => false
  | _, .busy _ => m.osc = osc
  | _, _ => false

/-- A thread of the server works on the message. -/
def takesOst (m : Rpc) (ost : Nat) : Bool :=
  match m.server with
  | .busy _ => m.ost = ost
  | _ => false

/-- The message belongs to this IO and is not completed. -/
def isSubIo (m : Rpc) (io : Nat) : Bool :=
  match m.op, m.client with
  | .open, _ => false
  | _, .done => false
  | _, _ => m.parent = io

end Rpc

/-- An `IO` of a user. -/
structure Io where
  ref : Int
  /-- how often the waiter was signalled -/
  signals : Nat
  deriving DecidableEq, Repr

end BulkRpc

open BulkRpc in
/-- The clients and the servers. The messages and the IOs are numbered as they are made. `oscIdle` and
`ostIdle` are the numbers of idle threads of the pools. -/
structure BulkRpc where
  now : Nat
  rpcs : List Rpc
  ios : List Io
  oscIdle : Nat → Nat
  ostIdle : Nat → Nat

namespace BulkRpc

open PtlrpcServer (Op)

/-- A sub-IO of `LOV::ReadWrite`. -/
structure SubIo where
  osc : Nat
  ost : Nat
  count : Nat
  deriving DecidableEq, Repr

/-- Replace a message. -/
def setRpc (s : BulkRpc) (i : Nat) (m : Rpc) : BulkRpc := { s with rpcs := s.rpcs.set i m }

/-- `LOV::ReadWrite(io)` with `OSC::ReadWrite(sio)` for each of its sub-IOs: each one refers to the
IO and is a task for its OSC. -/
def readWrite (s : BulkRpc) (op : Op) (subs : List SubIo) : BulkRpc :=
  { s with
    rpcs := s.rpcs ++ subs.map fun sub => .new op s.ios.length sub.osc sub.ost sub.count
    ios := s.ios ++ [⟨subs.length, 0⟩] }

/-- `MDC::Open(obj)`: the thread runs right away. -/
def openFile (s : BulkRpc) (mdt arrival : Nat) : Except Fault BulkRpc :=
  ((Rpc.new .open 0 0 mdt 0).clientHandle .start arrival).bind fun m =>
  .ok { s with rpcs := s.rpcs ++ [m] }

/-- The end of the last turn of an IO on the client: `TaskCompletion(tld)`, and
`if (--pio->ref == 0) pio->waiter->Signal()`. -/
def completeIo (s : BulkRpc) (m : Rpc) : Except Fault BulkRpc :=
  (require s.ios[m.parent]? .unknown).bind fun io =>
  let ref := io.ref - 1
  (if ref = 0 then
    -- the waiter is in the run queue already when it was signalled before
    (check (io.signals = 0) .run).bind fun _ => .ok ⟨ref, 1⟩
  else Except.ok (⟨ref, io.signals⟩ : Io)).bind fun io =>
  .ok { s with
    ios := s.ios.set m.parent io
    oscIdle := fun k => if k = m.osc then s.oscIdle k + 1 else s.oscIdle k }

/-- A turn of a thread of the client. -/
def clientTurn (s : BulkRpc) (i : Nat) (m : Rpc) (state : ClState) (arrival : Nat) :
    Except Fault BulkRpc :=
  (m.clientHandle state arrival).bind fun m' =>
  if m'.client = .done ∧ m.op ≠ .open then (s.setRpc i m').completeIo m' else .ok (s.setRpc i m')

/-- A turn of a thread of a server. -/
def serverTurn (p : Params) (s : BulkRpc) (i : Nat) (m : Rpc) (state : PtlrpcServer.State)
    (time : Nat) : Except Fault BulkRpc :=
  (m.serverHandle p state s.now time).bind fun m' =>
  let s := s.setRpc i m'
  if m'.server = .done then
    .ok { s with ostIdle := fun k => if k = m.ost then s.ostIdle k + 1 else s.ostIdle k }
  else .ok s

/-! ### Runs -/

/-- What happens. An event carries its time and the ticks until what it arms. -/
inductive Action where
  | clock (now : Nat)
  | readWrite (op : Op) (subs : List SubIo)
  | openFile (mdt ticks : Nat)
  /-- the pool of the OSC runs the task -/
  | startClient (i ticks : Nat)
  /-- the pool of the server runs the task -/
  | startServer (i ticks : Nat)
  | runClient (i time ticks : Nat)
  | runServer (i time ticks : Nat)
  | rxDone (i time signal latency : Nat)
  | interrupt (i time signal : Nat)
  | disk (i time signal : Nat)
  deriving DecidableEq, Repr

/-- No event is armed for an earlier time. -/
def Next (s : BulkRpc) (time : Nat) : Prop :=
  s.now ≤ time ∧ ∀ m ∈ s.rpcs, ∀ t ∈ m.pending, time ≤ t

/-- The action can happen now. -/
def Enabled (p : Params) (s : BulkRpc) : Action → Prop
  | .clock now => s.Next now
  | .readWrite op _ => op ≠ .open
  | .openFile _ _ => True
  | .startClient i _ => ∃ m, s.rpcs[i]? = some m ∧ m.client = .queued ∧ 0 < s.oscIdle m.osc
  | .startServer i _ => ∃ m, s.rpcs[i]? = some m ∧ m.server = .queued ∧ 0 < s.ostIdle m.ost
  | .runClient i time _ =>
      s.Next time ∧ ∃ m state, s.rpcs[i]? = some m ∧ m.client = .busy ⟨state, some time⟩
  | .runServer i time _ =>
      s.Next time ∧ ∃ m state, s.rpcs[i]? = some m ∧ m.server = .busy ⟨state, some time⟩
  | .rxDone i time signal latency =>
      s.Next time ∧ p.Switch signal ∧ p.Latency latency ∧
        ∃ m, s.rpcs[i]? = some m ∧ m.wire = some time
  | .interrupt i time signal =>
      s.Next time ∧ p.Switch signal ∧ ∃ m, s.rpcs[i]? = some m ∧ m.intr = some time
  | .disk i time signal =>
      s.Next time ∧ p.Switch signal ∧ ∃ m, s.rpcs[i]? = some m ∧ m.disk = some time

/-- A thread of a pool takes the message. -/
def takeOsc (s : BulkRpc) (osc : Nat) : BulkRpc :=
  { s with oscIdle := fun k => if k = osc then s.oscIdle k - 1 else s.oscIdle k }

@[inherit_doc takeOsc]
def takeOst (s : BulkRpc) (ost : Nat) : BulkRpc :=
  { s with ostIdle := fun k => if k = ost then s.ostIdle k - 1 else s.ostIdle k }

/-- What the action does. -/
def fire (p : Params) (s : BulkRpc) : Action → Except Fault BulkRpc
  | .clock now => .ok { s with now := now }
  | .readWrite op subs => .ok (s.readWrite op subs)
  | .openFile mdt ticks => s.openFile mdt (s.now + ticks)
  | .startClient i ticks =>
      (require s.rpcs[i]? .unknown).bind fun m =>
      (s.takeOsc m.osc).clientTurn i m .start (s.now + ticks)
  | .startServer i ticks =>
      (require s.rpcs[i]? .unknown).bind fun m =>
      (s.takeOst m.ost).serverTurn p i m m.op.firstState (s.now + ticks)
  | .runClient i time ticks =>
      (require s.rpcs[i]? .unknown).bind fun m =>
      match m.client with
      | .busy t => { s with now := time }.clientTurn i (m.toClient t.state) t.state (time + ticks)
      | _ => .error .unknown
  | .runServer i time ticks =>
      (require s.rpcs[i]? .unknown).bind fun m =>
      match m.server with
      | .busy t =>
          { s with now := time }.serverTurn p i (m.toServer t.state none) t.state (time + ticks)
      | _ => .error .unknown
  | .rxDone i time signal latency =>
      (require s.rpcs[i]? .unknown).bind fun m =>
      (m.rxDone (time + signal) (time + latency)).bind fun m =>
      .ok ({ s with now := time }.setRpc i m)
  | .interrupt i time signal =>
      (require s.rpcs[i]? .unknown).bind fun m =>
      (m.messageInterrupt (time + signal)).bind fun m => .ok ({ s with now := time }.setRpc i m)
  | .disk i time signal =>
      (require s.rpcs[i]? .unknown).bind fun m =>
      (m.diskCompletion (time + signal)).bind fun m => .ok ({ s with now := time }.setRpc i m)

/-- The steps of the clients and servers. -/
def Step (p : Params) (s : BulkRpc) (a : Action) (s' : BulkRpc) : Prop :=
  s.Enabled p a ∧ s.fire p a = .ok s'

/-- No IO yet, with pools of these many threads. -/
def start (oscThreads ostThreads : Nat → Nat) : BulkRpc := ⟨0, [], [], oscThreads, ostThreads⟩

end BulkRpc

end LustreSimulator
