import LustreSimulator.AdaptiveTimeout
import LustreSimulator.NrsRbtree
import LustreSimulator.Timer

/-!
# `LustreSimulator.PtlrpcServer`: RPCs on a server (`ptlrpc.cpp`, `ost.cpp`, `mdt.cpp`)

A server with timeouts and adaptive timeouts on. `ServerRecv` counts a new RPC, and with early
replies puts it into the early-reply queue. A thread then runs the state machine of the operation,
turn by turn, and `ServerSend` looks at the phase in which the state machine sends: in
`RPC_PHASE_COMPLETE` it counts the RPC out and takes it off the queue. The last turn ends with
`TaskCompletion`.

The scheduler and the threads are left out: any RPC in progress may take its next turn at any time.
So are the network, the messages `MSG_PING` and `MSG_POLL`, the statistics, and of the congestion
control all but its call of `at_add`. `rpcnt` is a 64-bit counter, and an `Int` here.
-/

set_option autoImplicit false

namespace LustreSimulator

open Lib

namespace PtlrpcServer

/-- The parameters that the server reads. -/
structure Params where
  /-- `ATEP_ON` -/
  epOn : Bool
  /-- `params.cc.ON` -/
  ccOn : Bool
  /-- `params.cluster.Scale` -/
  scale : Bool
  /-- `params.test.NetworkNodisk` -/
  networkNodisk : Bool
  /-- `at_epmargin`, in seconds -/
  epMargin : Nat
  /-- `at_extra`, in seconds -/
  extra : Nat
  at_ : AdaptiveTimeout.Params

/-- `params.TimeUnit`. -/
def Params.timeUnit (p : Params) : Nat := p.at_.timeUnit

/-- `at_epmargin * params.TimeUnit`. -/
def Params.margin (p : Params) : Nat := p.epMargin * p.timeUnit

/-- The operation of an RPC: `MSG_READ` and `MSG_WRITE` on an OST, `MSG_OPEN` on an MDT. -/
inductive Op where
  | read
  | write
  | open
  deriving DecidableEq, Repr

/-- `msg->phase`. -/
inductive Phase where
  | new
  | rpc
  | bulk
  | complete
  deriving DecidableEq, Repr

/-- `tld->state`, of the state machine of the operation. -/
inductive State where
  /-- `ost_WriteFirstState`, `ost_ReadFirstState` -/
  | first
  | writeStart
  | writeDiskIo
  | writeCompletion
  | readFileIo
  | readSendPut
  | readRecvPutAck
  | readCompletion
  | openFile
  | openComplete
  deriving DecidableEq, Repr

/-- The state in which a thread starts with an RPC. -/
def Op.firstState : Op → State
  | .read => .first
  | .write => .first
  | .open => .openFile

/-- `class RPC` on the server, with its message and the state of its thread. -/
structure Rpc where
  op : Op
  phase : Phase
  state : State
  erpTimed : Bool
  deadline : Nat
  arrivalTime : Nat
  deriving DecidableEq, Repr

/-- `class RPC` of an early reply, as `ptlrpc_at_send_early_reply` and `ServerSend` leave it. -/
structure Early where
  orig : Nat
  arrivalTime : Nat
  servTime : Nat
  estServTime : Nat
  srvdl : Nat
  timedout : Bool
  deriving DecidableEq, Repr

/-- The assertions and errors that stop the program. -/
inductive Fault where
  /-- an assertion of `at_add` -/
  | at_ (f : AdaptiveTimeout.Fault)
  /-- `LASSERT(rpc->erp_timed == 0)` -/
  | timed
  /-- `LASSERT(rpc->erp_timed)` or `LASSERT(rpc->erp_timed == 1)` -/
  | notTimed
  /-- `LASSERTF_RPC(rpc->deadline > at_epmargin * params.TimeUnit && ...)` -/
  | margin
  /-- `LASSERTF(newdl > rpc->deadline && ...)` -/
  | newdl
  /-- `assert(rpc->deadline >= now)` -/
  | deadline
  /-- `assert(time > now)` of `RunAt` -/
  | runAt
  /-- a `NULL` pointer is followed, or a node that is not in the tree is erased -/
  | nullDeref
  /-- the sweep took more turns than it was given -/
  | fuel
  deriving DecidableEq, Repr

end PtlrpcServer

open PtlrpcServer in
/-- A server. The RPCs are known by a number each. `tasks` are the ones that were received and are
not completed, `rpcs` all that were ever received. -/
structure PtlrpcServer where
  now : Nat
  rpcnt : Int
  rpcs : Nat → Option Rpc
  tasks : List Nat
  epQ : NrsRbtree Nat
  epTimer : Option Nat
  est : AdaptiveTimeout

namespace PtlrpcServer

/-- Replace an RPC. -/
def setRpc (s : PtlrpcServer) (id : Nat) (r : Rpc) : PtlrpcServer :=
  { s with rpcs := fun i => if i = id then some r else s.rpcs i }

/-- `rpc->deadline`. -/
def deadline (s : PtlrpcServer) (id : Nat) : Nat := ((s.rpcs id).map Rpc.deadline).getD 0

/-- `DeadlineCompare(a, b)`. -/
def deadlineCompare (s : PtlrpcServer) (a b : Nat) : Int :=
  if s.deadline a > s.deadline b then 1 else -1

/-- `at_add(EST, val, t)`. -/
def estAdd (s : PtlrpcServer) (p : Params) (val t : Nat) : Except Fault PtlrpcServer :=
  match s.est.atAdd p.at_ val t s.now with
  | .error f => .error (.at_ f)
  | .ok est => .ok { s with est := est }

/-! ### Early replies -/

/-- `ptlrpc_at_set_timer()`. -/
def setTimer (s : PtlrpcServer) (p : Params) : Except Fault PtlrpcServer :=
  (require s.epQ.first .nullDeref).bind fun id =>
  let deadline := s.deadline id
  -- the first deadline of the queue is the next one
  (check (deadline > p.margin ∧ deadline - p.margin ≥ s.now) .margin).bind fun _ =>
  (require (Timer.modTimer s.now s.epTimer (deadline - p.margin)) .runAt).bind fun timer =>
  .ok { s with epTimer := timer }

/-- `ptlrpc_at_add_timed(rpc, retimed)`. -/
def addTimed (s : PtlrpcServer) (p : Params) (id : Nat) (retimed : Bool) :
    Except Fault PtlrpcServer :=
  (require (s.rpcs id) .nullDeref).bind fun r =>
  (check (r.erpTimed = false) .timed).bind fun _ =>
  let s := s.setRpc id { r with erpTimed := true }
  (require (s.epQ.enqueue s.deadlineCompare id) .nullDeref).bind fun q =>
  let s := { s with epQ := q }
  (check (r.deadline > p.margin ∧ r.deadline - p.margin ≥ s.now) .margin).bind fun _ =>
  -- a new RPC sets the timer, and the sweep does so once at its end
  if retimed then s.setTimer p else .ok s

/-- `ptlrpc_at_send_early_reply(rpc, at_extra)`, with the early reply. -/
def sendEarlyReply (s : PtlrpcServer) (p : Params) (id : Nat) :
    Except Fault (Early × PtlrpcServer) :=
  (require (s.rpcs id) .nullDeref).bind fun r =>
  -- the time so far and some more is taken as a service time
  (if p.extra ≠ 0 then
    s.estAdd p ((p.extra + (s.now - r.arrivalTime) / p.timeUnit) % 2 ^ 32) r.arrivalTime
  else .ok s).bind fun s =>
  -- `at_get_max` returns an `int`
  let newdl := toWord64 (r.arrivalTime + toInt32 s.est.atGetMax * p.timeUnit)
  -- `Copy` leaves `timedout` and `srvdl` as `InitRPC` set them
  let early : Early := ⟨id, r.arrivalTime, s.now - r.arrivalTime, s.est.atGetMax, 0, false⟩
  -- without adaptive timeouts the deadline moves by a fixed time
  if s.est.flags = .fixed then
    let deadline := r.deadline + p.extra * p.timeUnit
    .ok ({ early with srvdl := deadline }, s.setRpc id { r with deadline := deadline })
  else
    (check (newdl > r.deadline ∧ newdl > add64 p.margin s.now) .newdl).bind fun _ =>
    .ok (early, s.setRpc id { r with deadline := newdl })

/-- One turn of the loop of `ptlrpc_at_check_timed` for the RPC `id`, which expires soon: it gets an
early reply and goes back into the queue. -/
def resend (s : PtlrpcServer) (p : Params) (id : Nat) : Except Fault (Early × PtlrpcServer) :=
  (require (s.rpcs id) .nullDeref).bind fun r =>
  (check (r.erpTimed = true) .notTimed).bind fun _ =>
  let s := s.setRpc id { r with erpTimed := false }
  (require (s.epQ.erase id) .nullDeref).bind fun q =>
  (({ s with epQ := q } : PtlrpcServer).sendEarlyReply p id).bind fun a =>
  (a.2.addTimed p id false).bind fun s => .ok (a.1, s)

/-- The loop of `ptlrpc_at_check_timed`, with the early replies. -/
def sweep (p : Params) : Nat → PtlrpcServer → Except Fault (List Early × PtlrpcServer)
  | 0, _ => .error .fuel
  | fuel + 1, s =>
      match s.epQ.first with
      | none => .ok ([], s)
      | some id =>
          -- the queue is in the order of its deadlines, so no other RPC expires soon
          if s.deadline id > add64 s.now p.margin then .ok ([], s)
          else
            (s.resend p id).bind fun a =>
            (sweep p fuel a.2).bind fun r => .ok (a.1 :: r.1, r.2)

/-- `ptlrpc_at_check_timed()`, with the early replies. -/
def checkTimed (s : PtlrpcServer) (p : Params) (fuel : Nat) :
    Except Fault (List Early × PtlrpcServer) :=
  match s.epQ.first with
  | none => .ok ([], s)
  | some id =>
      -- no deadline has passed yet
      (check (s.deadline id ≥ s.now) .deadline).bind fun _ =>
      if s.deadline id - s.now > p.margin then
        (s.setTimer p).bind fun s => .ok ([], s)
      else
        (sweep p fuel s).bind fun r =>
        (r.2.setTimer p).bind fun s => .ok (r.1, s)

/-! ### Receiving and sending -/

/-- `ServerRecv(msg)` of a new RPC, whose deadline the client has set. -/
def serverRecv (s : PtlrpcServer) (p : Params) (id : Nat) (op : Op) (deadline : Nat) :
    Except Fault PtlrpcServer :=
  let s := { s.setRpc id ⟨op, .new, op.firstState, false, deadline, s.now⟩ with
    rpcnt := s.rpcnt + 1, tasks := s.tasks ++ [id] }
  -- only early replies need the queue
  if p.epOn then s.addTimed p id true else .ok s

/-- `max_t(int, rpc->servTime / params.TimeUnit, 1)`, as an `unsigned int`. -/
def servSecs (s : PtlrpcServer) (p : Params) (r : Rpc) : Nat :=
  let secs := (s.now - r.arrivalTime) / p.timeUnit
  if toInt32 secs < 1 then 1 else secs % 2 ^ 32

/-- `ServerSend(msg)`, with the early replies. -/
def serverSend (s : PtlrpcServer) (p : Params) (fuel : Nat) (id : Nat) :
    Except Fault (List Early × PtlrpcServer) :=
  (require (s.rpcs id) .nullDeref).bind fun r =>
  -- with congestion control the service time is added to the estimate here as well
  (if p.ccOn ∧ r.phase = .complete then s.estAdd p (s.servSecs p r) r.arrivalTime
    else .ok s).bind fun s =>
  if r.phase = .complete then
    (({ s with rpcnt := s.rpcnt - 1 } : PtlrpcServer).estAdd p (s.servSecs p r)
      r.arrivalTime).bind fun s =>
    if p.epOn then
      -- the RPC leaves the queue, and the others are looked at
      (check (r.erpTimed = true) .notTimed).bind fun _ =>
      let s := s.setRpc id { r with erpTimed := false }
      (require (s.epQ.erase id) .nullDeref).bind fun q =>
      ({ s with epQ := q } : PtlrpcServer).checkTimed p fuel
    else .ok ([], s)
  else .ok ([], s)

/-! ### The state machines -/

/-- What a turn of a state machine does with the RPC. -/
structure Turn where
  /-- the phase in which it sends, if it sends -/
  send : Option Phase
  /-- the state in which it leaves the thread, or none when it completes the task -/
  next : Option State
  /-- the phase in which it leaves the message -/
  phase : Phase
  deriving DecidableEq, Repr

/-- `WriteStateMachine`. -/
def writeStateMachine (p : Params) (state : State) : Turn :=
  let bulkGet : Turn :=
    ⟨some .rpc, some (if p.networkNodisk then .writeCompletion else .writeDiskIo), .rpc⟩
  match state with
  | .first => if p.scale then ⟨none, some .writeStart, .rpc⟩ else bulkGet
  | .writeDiskIo => ⟨none, some .writeCompletion, .rpc⟩
  | .writeCompletion => ⟨some .complete, none, .complete⟩
  | _ => bulkGet

/-- `ReadStateMachine`. -/
def readStateMachine (p : Params) (state : State) : Turn :=
  let sendPut : Turn := ⟨some .rpc, some .readRecvPutAck, .rpc⟩
  let fileIO : Turn := if p.networkNodisk then sendPut else ⟨none, some .readSendPut, .rpc⟩
  match state with
  | .first => if p.scale then ⟨none, some .readFileIo, .rpc⟩ else fileIO
  | .readSendPut => sendPut
  | .readRecvPutAck => ⟨some .bulk, some .readCompletion, .bulk⟩
  | .readCompletion => ⟨none, none, .rpc⟩
  | _ => fileIO

/-- `OpenStateMachine`. The phase is set to `RPC_PHASE_COMPLETE` after the message was sent. -/
def openStateMachine (state : State) : Turn :=
  match state with
  | .openComplete => ⟨some .rpc, none, .complete⟩
  | _ => ⟨none, some .openComplete, .rpc⟩

/-- The state machine of the operation. -/
def stateMachine (p : Params) : Op → State → Turn
  | .read => readStateMachine p
  | .write => writeStateMachine p
  | .open => openStateMachine

/-- Set `msg->phase`. -/
def setPhase (s : PtlrpcServer) (id : Nat) (phase : Phase) : PtlrpcServer :=
  { s with rpcs := fun i => if i = id then (s.rpcs id).map fun r => { r with phase := phase }
                            else s.rpcs i }

/-- `Handle(arg)` for the RPC `id`: a turn of its state machine, with the early replies. The last
turn ends with `TaskCompletion`. -/
def handle (s : PtlrpcServer) (p : Params) (fuel : Nat) (id : Nat) :
    Except Fault (List Early × PtlrpcServer) :=
  (require (s.rpcs id) .nullDeref).bind fun r =>
  let turn := stateMachine p r.op r.state
  let s := s.setRpc id { r with
    phase := turn.send.getD .rpc, state := turn.next.getD r.state }
  (if turn.send.isSome then s.serverSend p fuel id else .ok ([], s)).bind fun a =>
  -- the task is completed after the message has been sent
  let s := if turn.next.isNone then { a.2 with tasks := a.2.tasks.erase id } else a.2
  .ok (a.1, s.setPhase id turn.phase)

/-! ### Runs -/

/-- What happens on a server. A turn and an expiry carry the early replies. -/
inductive Event where
  | clock (now : Nat)
  | recv (id : Nat) (op : Op) (deadline : Nat)
  | turn (id : Nat) (replies : List Early)
  | expire (replies : List Early)
  deriving DecidableEq, Repr

/-- The early replies of an event. -/
def Event.replies : Event → List Early
  | .turn _ replies => replies
  | .expire replies => replies
  | _ => []

/-- The steps of a server. The clock does not go past the early-reply timer. -/
inductive Step (p : Params) : PtlrpcServer → Event → PtlrpcServer → Prop where
  | clock {s : PtlrpcServer} {now : Nat} : s.now ≤ now →
      (∀ expire, s.epTimer = some expire → now ≤ expire) →
      Step p s (.clock now) { s with now := now }
  | recv {s s' : PtlrpcServer} {id : Nat} {op : Op} {deadline : Nat} : s.rpcs id = none →
      s.serverRecv p id op deadline = .ok s' → Step p s (.recv id op deadline) s'
  | turn {s s' : PtlrpcServer} {id fuel : Nat} {replies : List Early} : id ∈ s.tasks →
      s.handle p fuel id = .ok (replies, s') → Step p s (.turn id replies) s'
  | expire {s s' : PtlrpcServer} {fuel : Nat} {replies : List Early} : s.epTimer = some s.now →
      ({ s with epTimer := none } : PtlrpcServer).checkTimed p fuel = .ok (replies, s') →
      Step p s (.expire replies) s'

/-- A server after `Start()`. -/
def start (algo : AdaptiveTimeout.Algo) : PtlrpcServer :=
  { now := 0, rpcnt := 0, rpcs := fun _ => none, tasks := [], epQ := .new, epTimer := none
    est := .atInit 0 algo }

end PtlrpcServer

end LustreSimulator
