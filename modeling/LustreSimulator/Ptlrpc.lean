import LustreSimulator.PtlrpcServer

/-!
# `LustreSimulator.Ptlrpc`: RPCs between clients and a server (`ptlrpc.cpp`)

`ClientSend` arms the timer of a new RPC. `TimeoutEvent` runs when the timer expires, an early reply
moves the timer, and the last message of the RPC deletes it. The network delivers the messages in
any order.

A client and the server work on one message object, which is passed on as a pointer. So the client
reads the deadline that the server wrote last. An early reply has an RPC of its own, and `orig`
points to the other one.

Timeouts and adaptive timeouts are on. A deadline is computed in numbers that do not wrap. The same
definitions with `Arith.words` compute it in the words of the code.

The bulk messages in the middle of an RPC only wake up a thread. They are left out, and so are the
polling and the statistics. `calls`, `fired` and `late` are the history: the calls of `ModTimer`
with their time, the RPCs that timed out, and the RPCs that were touched although their last
message had been received. A thread of the server is done with an RPC before that, and its turns
are not looked at there.
-/

set_option autoImplicit false

namespace LustreSimulator

open Lib

namespace Ptlrpc

/-- The parameters of clients and server. -/
structure Params where
  srv : PtlrpcServer.Params
  /-- `params.ptlrpc.ToSched` -/
  schedOn : Bool
  /-- `at_min` -/
  atMin : Nat
  /-- `params.ptlrpc.ObdTimeout` -/
  obdTimeout : Nat

/-- `params.TimeUnit`. -/
def Params.timeUnit (p : Params) : Nat := p.srv.timeUnit

/-- `at_sched_base` -/
def atSchedBase : Nat := 30

/-- `INITIAL_CONNECT_TIMEOUT` -/
def initialConnectTimeout : Nat := 50

/-- `struct imp_at`, with its one portal. -/
structure ImpAt where
  netLatency : AdaptiveTimeout
  serviceEstimate : AdaptiveTimeout

/-- `init_imp_at(at)`, with `at_cli_algo`. -/
def initImpAt : ImpAt := ⟨.atInit 0 .none, .atInit initialConnectTimeout .max⟩

/-- `class RPC` on a client. -/
structure Rpc where
  imp : Nat
  deadline : Nat
  timedout : Bool
  timer : Option Nat
  deriving DecidableEq, Repr

/-- The last message of an RPC on its way to the client, in the phase in which the server left
it. -/
structure Last where
  id : Nat
  phase : PtlrpcServer.Phase
  arrivalTime : Nat
  servTime : Nat
  estServTime : Nat
  deriving DecidableEq, Repr

/-- The assertions and errors that stop the program before it reaches a timer. -/
inductive Fault where
  /-- an assertion of `at_add` -/
  | at_ (f : AdaptiveTimeout.Fault)
  /-- `LASSERTF_RPC(rpc->srvdl > now + at_epmargin * params.TimeUnit)` -/
  | margin
  /-- `LASSERT(rpc->srvdl <= rpc->deadline)` -/
  | srvdl
  /-- `assert(now > rpc->arrivalTime + rpc->servTime)` -/
  | netLatency
  /-- `assert(r != NULL)` -/
  | nullDeref
  deriving DecidableEq, Repr

end Ptlrpc

open Ptlrpc in
/-- The clients, the server and the messages between them. -/
structure Ptlrpc where
  srv : PtlrpcServer
  imps : Nat → ImpAt
  rpcs : Nat → Option Rpc
  numrpc : Nat
  numrto : Nat
  /-- the new RPCs on their way to the server -/
  requests : List (Nat × PtlrpcServer.Op)
  /-- the early replies on their way to the clients -/
  early : List PtlrpcServer.Early
  /-- the last messages on their way to the clients -/
  lasts : List Last
  /-- the RPCs whose last message was received -/
  finished : List Nat
  calls : List (Nat × Nat)
  fired : List Nat
  late : List Nat
  /-- an assertion of `RunAt` or `TimeoutEvent` failed -/
  stopped : Bool

namespace Ptlrpc

/-- `now`. -/
def now (s : Ptlrpc) : Nat := s.srv.now

/-- `rpc->deadline` of the object that client and server share. -/
def deadline (s : Ptlrpc) (id : Nat) : Nat :=
  match s.srv.rpcs id with
  | some r => r.deadline
  | none => ((s.rpcs id).map Rpc.deadline).getD 0

/-- Replace an RPC on its client. -/
def setRpc (s : Ptlrpc) (id : Nat) (r : Rpc) : Ptlrpc :=
  { s with rpcs := fun i => if i = id then some r else s.rpcs i }

/-- Note that RPCs are touched. -/
def touch (s : Ptlrpc) (ids : List Nat) : Ptlrpc :=
  { s with late := s.late ++ ids.filter fun i => decide (i ∈ s.finished) }

/-- `rpc->timer.ModTimer(expire)` for the RPC `r` with the number `id`. -/
def modTimer (s : Ptlrpc) (id : Nat) (r : Rpc) (expire : Nat) : Ptlrpc :=
  let s := { s with calls := s.calls ++ [(s.now, expire)] }
  match Timer.modTimer s.now r.timer expire with
  | none => { s with stopped := true }
  | some timer => s.setRpc id { r with timer := timer }

/-! ### Estimates -/

/-- What a deadline is computed in. -/
structure Arith where
  /-- a number of seconds as an `unsigned int` -/
  seconds : Nat → Nat
  /-- the `int` that `at_get` returns, in a product with `TimeUnit` -/
  int : Nat → Nat
  add : Nat → Nat → Nat
  mul : Nat → Nat → Nat

/-- Numbers that do not wrap. -/
def Arith.exact : Arith := ⟨id, id, Nat.add, Nat.mul⟩

/-- The words of the code. -/
def Arith.words : Arith := ⟨(· % 2 ^ 32), fun n => toWord64 (toInt32 n), add64, mul64⟩

/-- `AT_ON`, with `ToON` and `AtON` set. -/
def Params.atOn (p : Params) : Bool := p.srv.at_.atMax != 0

/-- `ptlrpc_at_get_servtime(rpc)`, with `at_srv_algo`. -/
def atGetServtime (a : Arith) (p : Params) (srvAlgo : AdaptiveTimeout.Algo) (iat : ImpAt) : Nat :=
  if p.atOn = false ∨ srvAlgo = .fixed then a.mul p.obdTimeout p.timeUnit
  else
    let servEst := a.seconds (iat.serviceEstimate.atGet p.obdTimeout 0)
    a.mul (a.seconds (servEst + servEst / 4 + 5)) p.timeUnit

/-- `ptlrpc_at_get_net_latency(rpc)`. -/
def atGetNetLatency (a : Arith) (p : Params) (iat : ImpAt) : Nat :=
  if p.atOn then a.mul (a.int (iat.netLatency.atGet p.obdTimeout 0)) p.timeUnit else 0

/-- The sum of the time and of both estimates. -/
def estimated (a : Arith) (p : Params) (srvAlgo : AdaptiveTimeout.Algo) (iat : ImpAt) (now : Nat) :
    Nat :=
  a.add (a.add now (atGetServtime a p srvAlgo iat)) (atGetNetLatency a p iat)

/-- `rpc->deadline` after `ClientSend`. `rand` is the result of `Rand`. -/
def sendDeadline (a : Arith) (p : Params) (srvAlgo : AdaptiveTimeout.Algo) (iat : ImpAt)
    (now rand : Nat) : Nat :=
  if p.schedOn then a.add (a.add now (a.mul atSchedBase p.timeUnit)) rand
  else
    let deadline := estimated a p srvAlgo iat now
    if deadline < p.atMin then p.atMin else deadline

/-- `ClientSend(msg)` of a new RPC, up to its timer. -/
def armDeadline (a : Arith) (p : Params) (srvAlgo : AdaptiveTimeout.Algo) (iat : ImpAt)
    (now rand : Nat) : Except Fault Nat :=
  let deadline := sendDeadline a p srvAlgo iat now rand
  (check (p.srv.epOn = true → deadline > a.add now (a.mul p.srv.epMargin p.timeUnit))
    .margin).bind fun _ => .ok deadline

/-- `at_add(at, val, now)` on a client. -/
def addNow (s : Ptlrpc) (p : Params) (at_ : AdaptiveTimeout) (val : Nat) :
    Except Fault AdaptiveTimeout :=
  match at_.atAdd p.srv.at_ val s.now s.now with
  | .error f => .error (.at_ f)
  | .ok at_ => .ok at_

/-- `ptlrpc_at_adj_servtime(rpc, serv_est)` and `ptlrpc_at_adj_net_latency(rpc)`. -/
def adjust (s : Ptlrpc) (p : Params) (imp arrivalTime servTime servEst : Nat) :
    Except Fault Ptlrpc :=
  (s.addNow p (s.imps imp).serviceEstimate servEst).bind fun service =>
  (check (s.now > arrivalTime + servTime) .netLatency).bind fun _ =>
  let nl := (s.now - arrivalTime - servTime) / p.timeUnit + 1
  (s.addNow p (s.imps imp).netLatency nl).bind fun latency =>
  .ok { s with imps := fun i => if i = imp then ⟨latency, service⟩ else s.imps i }

/-! ### Clients -/

/-- `ClientSend(msg)` of a new RPC. -/
def clientSend (s : Ptlrpc) (p : Params) (id : Nat) (op : PtlrpcServer.Op) (imp rand : Nat) :
    Except Fault Ptlrpc :=
  (armDeadline .exact p s.srv.est.flags (s.imps imp) s.now rand).bind fun deadline =>
  .ok (({ s with numrpc := s.numrpc + 1, requests := s.requests ++ [(id, op)] } :
    Ptlrpc).modTimer id ⟨imp, deadline, false, none⟩ deadline)

/-- `TimeoutEvent(rpc)`. -/
def timeoutEvent (s : Ptlrpc) (id : Nat) (r : Rpc) : Ptlrpc :=
  let s := s.touch [id]
  { s.setRpc id { r with timedout := true, timer := none } with
    numrto := s.numrto + 1, fired := s.fired ++ [id]
    stopped := !decide (s.numrpc ≥ s.numrto + 1) }

/-- `ClientRecv(msg)` of an early reply. It looks at `rpc->timedout` of the early reply itself. -/
def recvEarly (s : Ptlrpc) (p : Params) (m : PtlrpcServer.Early) : Except Fault Ptlrpc :=
  (require (s.rpcs m.orig) .nullDeref).bind fun r =>
  (({ s with early := s.early.erase m } : Ptlrpc).adjust p r.imp m.arrivalTime m.servTime
    m.estServTime).bind fun s =>
  if p.srv.epOn = true ∧ m.timedout = false then
    let deadline :=
      if s.srv.est.flags = .fixed then m.srvdl
      else estimated .exact p s.srv.est.flags (s.imps r.imp) s.now
    (check (m.srvdl ≤ deadline) .srvdl).bind fun _ =>
    .ok ((s.touch [m.orig]).modTimer m.orig r (s.deadline m.orig))
  else .ok s

/-- `ClientRecv(msg)` of the last message of an RPC. -/
def recvLast (s : Ptlrpc) (p : Params) (m : Last) : Except Fault Ptlrpc :=
  (require (s.rpcs m.id) .nullDeref).bind fun r =>
  let r' := if m.phase = .complete ∧ r.timedout = false then
    { r with timer := Timer.delTimer r.timer } else r
  let s := { (s.touch [m.id]).setRpc m.id r' with
    lasts := s.lasts.erase m, finished := s.finished ++ [m.id] }
  if m.phase = .complete then s.adjust p r.imp m.arrivalTime m.servTime m.estServTime
  else .ok s

/-! ### The server -/

/-- The turn sends the last message of the RPC. -/
def isLast (turn : PtlrpcServer.Turn) : Bool :=
  turn.send.isSome && (turn.next.isNone || turn.next == some .readCompletion)

/-- The RPCs that an event on the server touches. The early-reply queue links the RPCs by a member
of their own. -/
def touched (s : Ptlrpc) (p : Params) : PtlrpcServer.Event → List Nat
  | .clock _ => []
  | .recv _ _ _ => s.srv.epQ.tree.toList
  | .expire replies => s.srv.epQ.tree.toList ++ replies.map PtlrpcServer.Early.orig
  | .turn id replies =>
      match s.srv.rpcs id with
      | some r =>
          if (PtlrpcServer.stateMachine p.srv r.op r.state).send = some .complete then
            s.srv.epQ.tree.toList ++ replies.map PtlrpcServer.Early.orig
          else replies.map PtlrpcServer.Early.orig
      | none => []

/-- The last message that an event on the server sends. `queued` is `GetQueuedRPCNum()`. -/
def sentLast (s : Ptlrpc) (p : Params) (srv : PtlrpcServer) (queued : Nat) :
    PtlrpcServer.Event → List Last
  | .turn id _ =>
      match s.srv.rpcs id with
      | some r =>
          let turn := PtlrpcServer.stateMachine p.srv r.op r.state
          if isLast turn then
            if turn.send = some .complete then
              [⟨id, turn.phase, r.arrivalTime, s.now - r.arrivalTime,
                srv.est.atGet p.obdTimeout queued⟩]
            else [⟨id, turn.phase, r.arrivalTime, 0, 0⟩]
          else []
      | none => []
  | _ => []

/-- The server goes on to `srv` in the event `e`. -/
def serve (s : Ptlrpc) (p : Params) (srv : PtlrpcServer) (queued : Nat) (e : PtlrpcServer.Event) :
    Ptlrpc :=
  { s.touch (s.touched p e) with
    srv := srv, early := s.early ++ e.replies, lasts := s.lasts ++ s.sentLast p srv queued e }

/-! ### Runs -/

/-- What happens to clients and server. -/
inductive Event where
  | clock (now : Nat)
  | send (id : Nat) (op : PtlrpcServer.Op) (imp rand : Nat)
  | serve (e : PtlrpcServer.Event)
  | recvEarly (m : PtlrpcServer.Early)
  | recvLast (m : Last)
  | timeout (id : Nat)
  deriving DecidableEq, Repr

/-- The steps. The clock does not go past a timer, and nothing happens after a failed assertion. -/
inductive Step (p : Params) : Ptlrpc → Event → Ptlrpc → Prop where
  | clock {s : Ptlrpc} {srv : PtlrpcServer} {now : Nat} : s.stopped = false →
      PtlrpcServer.Step p.srv s.srv (.clock now) srv →
      (∀ id r expire, s.rpcs id = some r → r.timer = some expire → now ≤ expire) →
      Step p s (.clock now) { s with srv := srv }
  | send {s s' : Ptlrpc} {id imp rand : Nat} {op : PtlrpcServer.Op} : s.stopped = false →
      s.rpcs id = none → s.clientSend p id op imp rand = .ok s' →
      Step p s (.send id op imp rand) s'
  | request {s : Ptlrpc} {srv : PtlrpcServer} {id queued : Nat} {op : PtlrpcServer.Op} :
      s.stopped = false → (id, op) ∈ s.requests →
      PtlrpcServer.Step p.srv s.srv (.recv id op (s.deadline id)) srv →
      Step p s (.serve (.recv id op (s.deadline id)))
        { s.serve p srv queued (.recv id op (s.deadline id)) with
          requests := s.requests.erase (id, op) }
  | turn {s : Ptlrpc} {srv : PtlrpcServer} {id queued : Nat}
      {replies : List PtlrpcServer.Early} : s.stopped = false →
      PtlrpcServer.Step p.srv s.srv (.turn id replies) srv →
      Step p s (.serve (.turn id replies)) (s.serve p srv queued (.turn id replies))
  | expire {s : Ptlrpc} {srv : PtlrpcServer} {queued : Nat}
      {replies : List PtlrpcServer.Early} : s.stopped = false →
      PtlrpcServer.Step p.srv s.srv (.expire replies) srv →
      Step p s (.serve (.expire replies)) (s.serve p srv queued (.expire replies))
  | recvEarly {s s' : Ptlrpc} {m : PtlrpcServer.Early} : s.stopped = false → m ∈ s.early →
      s.recvEarly p m = .ok s' → Step p s (.recvEarly m) s'
  | recvLast {s s' : Ptlrpc} {m : Last} : s.stopped = false → m ∈ s.lasts →
      s.recvLast p m = .ok s' → Step p s (.recvLast m) s'
  | timeout {s : Ptlrpc} {id : Nat} {r : Rpc} : s.stopped = false → s.rpcs id = some r →
      r.timer = some s.now → Step p s (.timeout id) (s.timeoutEvent id r)

/-- Clients and server before the first RPC. -/
def start (algo : AdaptiveTimeout.Algo) : Ptlrpc :=
  { srv := .start algo, imps := fun _ => initImpAt, rpcs := fun _ => none, numrpc := 0, numrto := 0
    requests := [], early := [], lasts := [], finished := [], calls := [], fired := []
    late := [], stopped := false }

end Ptlrpc

end LustreSimulator
