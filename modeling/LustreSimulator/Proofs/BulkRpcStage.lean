import LustreSimulator.BulkRpc

/-!
# `LustreSimulator.Proofs.BulkRpcStage`: the way of one message

An operation is a script: a WRITE is a request, a bulk GET, the bulk data, the disk IO and a reply.
A READ is a request, the disk IO, a PUT, an acknowledgement and the bulk data. An OPEN is a request
and a reply. Every `Leg` is one flight of the message.

A `Stage` says how far a message is and when its events happen, and `Stage.rpc` is the record of the
program in this stage. `Turn` is what an event does to a stage. The theorems below say that each
function of the program, called on the record of a stage, gives the record of the next one: they
are the only place where the state machines are unfolded.

`Turn.keeps` says that a turn leads to a stage of the same operation, and `Stage.log_isPrefix` that
what was seen so far begins the script.
-/

set_option autoImplicit false

namespace LustreSimulator.BulkRpc

open Lib
open PtlrpcServer (Op Phase)

/-- What a message is for. -/
structure Info where
  op : Op
  parent : Nat
  osc : Nat
  ost : Nat
  count : Nat

/-- A flight of a message, between its sender and its receiver. -/
inductive Leg where
  | request
  | get
  | bulk
  | put
  | ack
  | data
  | reply
  deriving DecidableEq

namespace Leg

/-- The flights of an operation. -/
def Of : Op → Leg → Prop
  | .write, l => l = .request ∨ l = .get ∨ l = .bulk ∨ l = .reply
  | .read, l => l = .request ∨ l = .put ∨ l = .ack ∨ l = .data
  | .open, l => l = .request ∨ l = .reply

/-- From the client to the server. -/
def up : Leg → Bool
  | .request | .bulk | .ack => true
  | _ => false

/-- The phase of the message on its way. -/
def phase : Leg → Phase
  | .request => .new
  | .data => .bulk
  | .reply => .complete
  | _ => .rpc

/-- The length of the message. -/
def len (count : Nat) : Leg → Nat
  | .bulk | .data => count
  | _ => 1024

/-- The state of the thread on the client. -/
def clState : Op → Leg → ClState
  | .write, .request | .write, .get => .writeRecvGet
  | .write, _ => .writeCompletion
  | .read, .request | .read, .put => .readRecvPut
  | .read, _ => .readCompletion
  | .open, _ => .openLast

/-- The state of the thread on the server, where there is one. -/
def ostState (p : Params) : Leg → PtlrpcServer.State
  | .put | .ack => .readRecvPutAck
  | .data => .readCompletion
  | _ => if p.networkNodisk then .writeCompletion else .writeDiskIo

end Leg

/-! ### The script -/

/-- The disk IO. -/
def diskIo (p : Params) : List Obs := if p.networkNodisk then [] else [.disk, .diskDone]

/-- What is seen of a message until the leg begins. -/
def trace (p : Params) (op : Op) (count : Nat) : Leg → List Obs
  | .request => [.send .client .new 1024]
  | .get => [.send .client .new 1024, .send .server .rpc 1024]
  | .bulk => [.send .client .new 1024, .send .server .rpc 1024, .send .client .rpc count]
  | .put => [.send .client .new 1024] ++ diskIo p ++ [.send .server .rpc 1024]
  | .ack => [.send .client .new 1024] ++ diskIo p ++ [.send .server .rpc 1024] ++
      [.send .client .rpc 1024]
  | .data => [.send .client .new 1024] ++ diskIo p ++ [.send .server .rpc 1024] ++
      [.send .client .rpc 1024] ++ [.send .server .bulk count]
  | .reply =>
      match op with
      | .open => [.send .client .new 1024, .send .server .rpc 1024, .complete .server]
      | _ => [.send .client .new 1024, .send .server .rpc 1024, .send .client .rpc count] ++
          diskIo p ++ [.send .server .complete 1024] ++ [.complete .server]

/-- All that is seen of a message. -/
def script (p : Params) (op : Op) (count : Nat) : List Obs :=
  match op with
  | .write => trace p .write count .reply ++ [.complete .client]
  | .read => trace p .read count .data ++ [.complete .server] ++ [.complete .client]
  | .open => trace p .open count .reply ++ [.signal]

/-! ### Stages -/

/-- How far a message is, with the times of its events. -/
inductive Stage where
  /-- in the scheduler of the OSC -/
  | queued
  /-- on its way -/
  | wire (l : Leg) (t : Nat)
  /-- it has arrived, and the node gets it at this time -/
  | intr (l : Leg) (t : Nat)
  /-- in the scheduler of the server -/
  | accept
  /-- the thread that waits for it runs at this time -/
  | run (l : Leg) (t : Nat)
  /-- the thread of the server waits before it begins -/
  | delay (t : Nat)
  | disk (t : Nat)
  | diskDone (t : Nat)
  /-- the data of a READ has arrived: the thread of the server runs at the first time, and the
  client gets the message at the second -/
  | tail (ts ti : Nat)
  | finished
  deriving DecidableEq

namespace Stage

/-- The last leg that has begun. -/
def leg (op : Op) : Stage → Leg
  | .wire l _ | .intr l _ | .run l _ => l
  | .queued | .accept | .delay _ => .request
  | .disk _ | .diskDone _ => if op = .write then .bulk else .request
  | .tail _ _ => .data
  | .finished => if op = .read then .data else .reply

/-- `msg->phase`. A turn of the server resets it. -/
def phase (op : Op) : Stage → Phase
  | .delay _ | .disk _ | .diskDone _ | .intr .data _ | .run .data _ => .rpc
  | .finished => if op = .read then .rpc else .complete
  | st => (st.leg op).phase

/-- The thread on the client. -/
def client (op : Op) : Stage → Work ClState
  | .queued => .queued
  | .run l t => .busy ⟨l.clState op, if l.up then none else some t⟩
  | .finished => .done
  | st => .busy ⟨(st.leg op).clState op, none⟩

/-- The thread on the server. It is done when the reply is sent or the data has arrived. -/
def server (p : Params) (op : Op) : Stage → Work PtlrpcServer.State
  | .queued | .wire .request _ | .intr .request _ | .run .request _ => .absent
  | .accept => .queued
  | .delay t =>
      .busy ⟨match op with
        | .write => .writeStart
        | .read => .readFileIo
        | .open => .openComplete, some t⟩
  | .disk _ => .busy ⟨if op = .write then .writeCompletion else .readSendPut, none⟩
  | .diskDone t => .busy ⟨if op = .write then .writeCompletion else .readSendPut, some t⟩
  | .wire .reply _ | .intr .reply _ | .run .reply _ => .done
  | .intr .data _ | .run .data _ | .finished => .done
  | .tail ts _ => .busy ⟨.readCompletion, some ts⟩
  | .run l t => .busy ⟨l.ostState p, if l.up then some t else none⟩
  | .wire l _ | .intr l _ => .busy ⟨l.ostState p, none⟩

/-- The server has set its worker. -/
def served (op : Op) : Stage → Bool
  | .disk _ | .diskDone _ => true
  | st => op ≠ .open ∧ st.leg op ≠ .request

/-- What was seen so far. -/
def log (p : Params) (op : Op) (count : Nat) : Stage → List Obs
  | .queued => []
  | .intr .data _ | .run .data _ => trace p op count .data ++ [.complete .server]
  | .wire l _ | .intr l _ | .run l _ => trace p op count l
  | .accept | .delay _ => trace p op count .request
  | .disk t => trace p op count ((disk t).leg op) ++ [.disk]
  | .diskDone t => trace p op count ((diskDone t).leg op) ++ [.disk] ++ [.diskDone]
  | .tail _ _ => trace p op count .data
  | .finished => script p op count

/-- The message in this stage. -/
def rpc (p : Params) (i : Info) (st : Stage) : Rpc where
  op := i.op
  parent := i.parent
  osc := i.osc
  ost := i.ost
  count := i.count
  phase := st.phase i.op
  r :=
    match st with
    | .wire l _ => !l.up
    | .queued => false
    | _ => (st.leg i.op).up
  nt := decide (st.leg i.op = .data)
  msz := if st = .queued then 0 else (st.leg i.op).len i.count
  worker0 := if st = .queued then none else some .client
  worker1 := if st.served i.op then some .server else none
  client := st.client i.op
  server := st.server p i.op
  wire :=
    match st with
    | .wire _ t => some t
    | _ => none
  intr :=
    match st with
    | .intr _ t => some t
    | .tail _ t => some t
    | _ => none
  disk :=
    match st with
    | .disk t => some t
    | _ => none
  freed := decide (st = .finished ∧ i.op ≠ .open)
  log := st.log p i.op i.count

/-- The stages of an operation. -/
def Of (p : Params) (op : Op) : Stage → Prop
  | .queued => op ≠ .open
  | .wire l _ | .intr l _ => Leg.Of op l
  | .accept | .finished => True
  | .run l _ => Leg.Of op l ∧ l ≠ .request
  | .delay _ => op = .open ∨ p.scale
  | .disk _ | .diskDone _ => op ≠ .open ∧ p.networkNodisk = false
  | .tail _ _ => op = .read

/-! ### Turns -/

/-- The first leg or disk IO of the server. -/
def begin (p : Params) (op : Op) (t : Nat) : Stage :=
  match op with
  | .write => .wire .get t
  | .read => if p.networkNodisk then .wire .put t else .disk t
  | .open => .wire .reply t

/-- A turn of the thread of the server. -/
def serve (p : Params) (op : Op) (now t : Nat) : Stage → Stage
  | .accept =>
      match op with
      | .write => if p.scale then .delay (now + 5000000) else begin p .write t
      | .read => if p.scale then .delay (now + 1000000000) else begin p .read t
      | .open => .delay t
  | .delay _ => begin p op t
  | .run .bulk _ => if p.networkNodisk then .wire .reply t else .disk t
  | .diskDone _ => if op = .write then .wire .reply t else .wire .put t
  | .tail _ ti => .intr .data ti
  | _ => .wire .data t

/-- A turn of the thread of the client. -/
def work (t : Nat) : Stage → Stage
  | .queued => .wire .request t
  | .run .get _ => .wire .bulk t
  | .run .put _ => .wire .ack t
  | _ => .finished

end Stage

namespace Leg

variable {op : Op} {l : Leg}

/-- A leg that comes down is one of these. -/
theorem down_cases (hof : Of op l) (hdown : l.up = false) :
    (op = .write ∧ (l = .get ∨ l = .reply)) ∨ (op = .read ∧ (l = .put ∨ l = .data)) ∨
      (op = .open ∧ l = .reply) := by
  cases op <;> cases l <;> simp_all [Of, up]

/-- A leg that goes up after the request is one of these. -/
theorem up_cases (hof : Of op l) (hup : l.up = true) (hne : l ≠ .request) :
    (op = .write ∧ l = .bulk) ∨ (op = .read ∧ l = .ack) := by
  cases op <;> cases l <;> simp_all [Of, up]

end Leg

section
variable {p : Params} {i : Info} {st : Stage} {l : Leg} {time : Nat}

/-! ### The client -/

/-- The thread of the client takes a new message. -/
theorem clientHandle_queued (hof : Stage.Of p i.op .queued) (t : Nat) :
    (Stage.queued.rpc p i).clientHandle .start t = .ok ((Stage.queued.work t).rpc p i) := by
  obtain ⟨op, parent, osc, ost, count⟩ := i
  cases op with
  | read => rfl
  | write => rfl
  | «open» => exact absurd rfl hof

/-- What the client does with a message that has come down. -/
theorem clientHandle_down {u : Nat} (hof : Leg.Of i.op l) (hdown : l.up = false) (t : Nat) :
    (((Stage.run l u).rpc p i).toClient (l.clState i.op)).clientHandle (l.clState i.op) t =
      .ok (((Stage.run l u).work t).rpc p i) := by
  obtain ⟨op, parent, osc, ost, count⟩ := i
  obtain ⟨h, rfl | rfl⟩ | ⟨h, rfl | rfl⟩ | ⟨h, rfl⟩ := Leg.down_cases hof hdown
  all_goals
    cases h
    rfl

/-- The thread of the client is in the run queue when a message has come down to it. -/
theorem client_running {op : Op} {state : ClState} (h : st.client op = .busy ⟨state, some time⟩) :
    ∃ l, st = .run l time ∧ l.up = false ∧ l.clState op = state := by
  cases st with
  | run l u =>
      cases hup : l.up
      · simp [Stage.client, hup] at h
        exact ⟨l, by rw [h.2], hup, h.1⟩
      · simp [Stage.client, hup] at h
  | _ => cases h

/-! ### The server -/

/-- The first turn of the thread of the server. -/
theorem serverHandle_accept (now t : Nat) :
    (Stage.accept.rpc p i).serverHandle p i.op.firstState now t =
      .ok ((Stage.accept.serve p i.op now t).rpc p i) := by
  obtain ⟨op, parent, osc, ost, count⟩ := i
  obtain ⟨scale, nodisk, rand, switch, latency⟩ := p
  cases op <;> cases scale <;> cases nodisk <;> rfl

/-- The first turn of the thread of the server after it has waited. -/
theorem serverHandle_delay {state : PtlrpcServer.State}
    (h : (Stage.delay time).server p i.op = .busy ⟨state, some time⟩) (now t : Nat) :
    (((Stage.delay time).rpc p i).toServer state none).serverHandle p state now t =
      .ok (((Stage.delay time).serve p i.op now t).rpc p i) := by
  obtain ⟨op, parent, osc, ost, count⟩ := i
  obtain ⟨scale, nodisk, rand, switch, latency⟩ := p
  cases op <;> cases h <;> cases nodisk <;> rfl

/-- What the server does with a message that has come up. -/
theorem serverHandle_up (hof : Leg.Of i.op l) (hup : l.up = true) (hne : l ≠ .request)
    (now t : Nat) :
    (((Stage.run l time).rpc p i).toServer (l.ostState p) none).serverHandle p (l.ostState p)
        now t = .ok (((Stage.run l time).serve p i.op now t).rpc p i) := by
  obtain ⟨op, parent, osc, ost, count⟩ := i
  obtain ⟨scale, nodisk, rand, switch, latency⟩ := p
  obtain ⟨h, rfl⟩ | ⟨h, rfl⟩ := Leg.up_cases hof hup hne
  all_goals
    cases h
    cases nodisk <;> rfl

/-- The server goes on after the disk IO. -/
theorem serverHandle_diskDone {state : PtlrpcServer.State} (hof : Stage.Of p i.op (.diskDone time))
    (h : (Stage.diskDone time).server p i.op = .busy ⟨state, some time⟩) (now t : Nat) :
    (((Stage.diskDone time).rpc p i).toServer state none).serverHandle p state now t =
      .ok (((Stage.diskDone time).serve p i.op now t).rpc p i) := by
  obtain ⟨op, parent, osc, ost, count⟩ := i
  obtain ⟨scale, nodisk, rand, switch, latency⟩ := p
  obtain ⟨hop, hdisk⟩ := hof
  cases hdisk
  cases op <;> cases h <;> first | rfl | exact absurd rfl hop

/-- The last turn of the server for a READ. -/
theorem serverHandle_tail {ti : Nat} (hof : Stage.Of p i.op (.tail time ti)) (now t : Nat) :
    (((Stage.tail time ti).rpc p i).toServer .readCompletion none).serverHandle p .readCompletion
        now t = .ok (((Stage.tail time ti).serve p i.op now t).rpc p i) := by
  obtain ⟨op, parent, osc, ost, count⟩ := i
  cases hof
  rfl

/-- The thread of the server is in the run queue in these stages. -/
theorem server_running {op : Op} {state : PtlrpcServer.State} (hof : st.Of p op)
    (h : st.server p op = .busy ⟨state, some time⟩) :
    (∃ l, st = .run l time ∧ l.up = true ∧ l ≠ .request ∧ l.ostState p = state) ∨
      st = .delay time ∨ st = .diskDone time ∨ ∃ ti, st = .tail time ti ∧ state = .readCompletion := by
  cases st with
  | run l u => 
      cases hup : l.up
      · cases l <;> simp [Stage.server, Leg.up] at h hup
      · obtain ⟨-, rfl⟩ | ⟨-, rfl⟩ := Leg.up_cases hof.1 hup hof.2
        all_goals
          cases h
          exact .inl ⟨_, rfl, rfl, by simp, rfl⟩
  | wire l u => cases l <;> cases h
  | intr l u => cases l <;> cases h
  | delay u =>
      cases h
      exact .inr (.inl rfl)
  | diskDone u =>
      cases h
      exact .inr (.inr (.inl rfl))
  | tail ts ti =>
      cases h
      exact .inr (.inr (.inr ⟨ti, rfl, rfl⟩))
  | _ => cases h

/-- A turn of this kind leaves the message so. -/
def Leaves (turn : PtlrpcServer.Turn) (m : Rpc) : Prop :=
  m.phase = turn.phase ∧
    match turn.next with
    | none => m.server = .done
    | some next => ∃ run, m.server = .busy ⟨next, run⟩

/-- The first turn of a thread is that of `stateMachine`, the server with its timeouts. -/
theorem accept_stateMachine {q : PtlrpcServer.Params} (hscale : q.scale = p.scale)
    (hdisk : q.networkNodisk = p.networkNodisk) (now t : Nat) :
    Leaves (PtlrpcServer.stateMachine q i.op i.op.firstState)
      ((Stage.accept.serve p i.op now t).rpc p i) := by
  obtain ⟨op, parent, osc, ost, count⟩ := i
  obtain ⟨scale, nodisk, rand, switch, latency⟩ := p
  obtain ⟨epOn, ccOn, scale', nodisk', epMargin, extra, at_⟩ := q
  cases hscale
  cases hdisk
  cases op <;> cases scale <;> cases nodisk <;> exact ⟨rfl, _, rfl⟩

/-- So is any other. -/
theorem serve_stateMachine {q : PtlrpcServer.Params} (hscale : q.scale = p.scale)
    (hdisk : q.networkNodisk = p.networkNodisk) {state : PtlrpcServer.State} (hof : st.Of p i.op)
    (h : st.server p i.op = .busy ⟨state, some time⟩) (now t : Nat) :
    Leaves (PtlrpcServer.stateMachine q i.op state) ((st.serve p i.op now t).rpc p i) := by
  obtain ⟨op, parent, osc, ost, count⟩ := i
  obtain ⟨scale, nodisk, rand, switch, latency⟩ := p
  obtain ⟨epOn, ccOn, scale', nodisk', epMargin, extra, at_⟩ := q
  cases hscale
  cases hdisk
  obtain ⟨l, rfl, hup, hne, rfl⟩ | rfl | rfl | ⟨ti, rfl, rfl⟩ := server_running hof h
  · obtain ⟨hop, rfl⟩ | ⟨hop, rfl⟩ := Leg.up_cases hof.1 hup hne
    all_goals
      cases hop
      cases nodisk <;> first | exact ⟨rfl, rfl⟩ | exact ⟨rfl, _, rfl⟩
  · cases op <;> cases h <;> cases nodisk <;> first | exact ⟨rfl, rfl⟩ | exact ⟨rfl, _, rfl⟩
  · obtain ⟨hop, hdisk⟩ := hof
    cases hdisk
    cases op <;> cases h <;>
      first | exact ⟨rfl, rfl⟩ | exact ⟨rfl, _, rfl⟩ | exact absurd rfl hop
  · cases hof
    exact ⟨rfl, rfl⟩

/-! ### The events -/

/-- A message arrives, other than the data of a READ: the node will get it. -/
theorem rxDone_wire (hof : Leg.Of i.op l) (hne : l ≠ .data) (signal intr : Nat) :
    ((Stage.wire l time).rpc p i).rxDone signal intr = .ok ((Stage.intr l intr).rpc p i) := by
  obtain ⟨op, parent, osc, ost, count⟩ := i
  cases l <;> first | rfl | exact absurd rfl hne

/-- The data of a READ arrives: the server is signalled, and the client will get it. -/
theorem rxDone_data (hof : Leg.Of i.op .data) (signal intr : Nat) :
    ((Stage.wire .data time).rpc p i).rxDone signal intr = .ok ((Stage.tail signal intr).rpc p i) := by
  obtain ⟨op, parent, osc, ost, count⟩ := i
  cases op <;> simp [Leg.Of] at hof
  rfl

/-- The server gets a new message. -/
theorem messageInterrupt_request (signal : Nat) :
    ((Stage.intr .request time).rpc p i).messageInterrupt signal = .ok (Stage.accept.rpc p i) := rfl

/-- A node gets a message for which a thread waits. -/
theorem messageInterrupt_intr (hof : Leg.Of i.op l) (hne : l ≠ .request) (signal : Nat) :
    ((Stage.intr l time).rpc p i).messageInterrupt signal = .ok ((Stage.run l signal).rpc p i) := by
  obtain ⟨op, parent, osc, ost, count⟩ := i
  cases op <;> cases l <;> first | rfl | simp [Leg.Of] at hof hne

/-- The disk completes an IO. -/
theorem diskCompletion_disk (signal : Nat) :
    ((Stage.disk time).rpc p i).diskCompletion signal = .ok ((Stage.diskDone signal).rpc p i) := by
  obtain ⟨op, parent, osc, ost, count⟩ := i
  cases op <;> rfl

end

/-! ### What a turn keeps -/

namespace Stage

/-- The times of the events that are armed. -/
def times : Stage → List Nat
  | .wire _ t | .intr _ t | .run _ t | .delay t | .disk t | .diskDone t => [t]
  | .tail ts ti => [ts, ti]
  | _ => []

/-- No event is late, and the server has its last turn before the client gets the data. -/
def Fresh (now : Nat) (st : Stage) : Prop :=
  (∀ t ∈ st.times, now ≤ t) ∧
    match st with
    | .tail ts ti => ts < ti
    | _ => True

end Stage

/-- What an event at the time `now` does to a message. -/
inductive Turn (p : Params) (op : Op) (now : Nat) : Stage → Stage → Prop where
  | take {t : Nat} : now ≤ t → Turn p op now .queued (Stage.queued.work t)
  | work {l : Leg} {t : Nat} : l.up = false → now ≤ t →
      Turn p op now (.run l now) ((Stage.run l now).work t)
  | accept {t : Nat} : now ≤ t → Turn p op now .accept (Stage.accept.serve p op now t)
  | delay {t : Nat} : now ≤ t → Turn p op now (.delay now) ((Stage.delay now).serve p op now t)
  | serve {l : Leg} {t : Nat} : l.up = true → now ≤ t →
      Turn p op now (.run l now) ((Stage.run l now).serve p op now t)
  | diskDone {t : Nat} : now ≤ t →
      Turn p op now (.diskDone now) ((Stage.diskDone now).serve p op now t)
  | leave {ti : Nat} : Turn p op now (.tail now ti) (.intr .data ti)
  | arrive {l : Leg} {t : Nat} : l ≠ .data → now ≤ t → Turn p op now (.wire l now) (.intr l t)
  | arriveData {ts ti : Nat} : now ≤ ts → ts < ti → Turn p op now (.wire .data now) (.tail ts ti)
  | deliver : Turn p op now (.intr .request now) .accept
  | notify {l : Leg} {t : Nat} : l ≠ .request → now ≤ t → Turn p op now (.intr l now) (.run l t)
  | disk {t : Nat} : now ≤ t → Turn p op now (.disk now) (.diskDone t)

namespace Turn

variable {p : Params} {op : Op} {now : Nat} {st st' : Stage}

/-- The operation keeps to its script, and no event is armed for a time that is over. -/
theorem keeps (h : Turn p op now st st') (hof : st.Of p op) (hfresh : st.Fresh now) :
    st'.Of p op ∧ st'.Fresh now := by
  cases h with
  | take ht => cases op <;> simp_all [Stage.work, Stage.Of, Leg.Of, Stage.Fresh, Stage.times]
  | work hdown ht =>
      obtain ⟨rfl, rfl | rfl⟩ | ⟨rfl, rfl | rfl⟩ | ⟨rfl, rfl⟩ := Leg.down_cases hof.1 hdown
      all_goals simp [Stage.work, Stage.Of, Leg.Of, Stage.Fresh, Stage.times, ht]
  | accept ht =>
      cases hscale : p.scale <;> cases hdisk : p.networkNodisk <;> cases op <;>
        simp [Stage.serve, Stage.begin, Stage.Of, Leg.Of, Stage.Fresh, Stage.times, hscale, hdisk,
          ht]
  | delay ht =>
      cases hdisk : p.networkNodisk <;> cases op <;>
        simp [Stage.serve, Stage.begin, Stage.Of, Leg.Of, Stage.Fresh, Stage.times, hdisk, ht]
  | serve hup ht =>
      obtain ⟨rfl, rfl⟩ | ⟨rfl, rfl⟩ := Leg.up_cases hof.1 hup hof.2
      all_goals
        cases hdisk : p.networkNodisk <;>
          simp [Stage.serve, Stage.Of, Leg.Of, Stage.Fresh, Stage.times, hdisk, ht]
  | diskDone ht => cases op <;> simp_all [Stage.serve, Stage.Of, Leg.Of, Stage.Fresh, Stage.times]
  | leave =>
      cases hof
      exact ⟨.inr (.inr (.inr rfl)), fun t ht => hfresh.1 t (.tail _ ht), trivial⟩
  | arrive _ ht => exact ⟨hof, by simpa [Stage.Fresh, Stage.times] using ht⟩
  | @arriveData ts ti hts hti =>
      have hle : now ≤ ti := Nat.le_trans hts (Nat.le_of_lt hti)
      cases op <;> simp_all [Stage.Of, Leg.Of, Stage.Fresh, Stage.times]
  | deliver => simp [Stage.Of, Stage.Fresh, Stage.times]
  | notify hne ht => exact ⟨⟨hof, hne⟩, by simpa [Stage.Fresh, Stage.times] using ht⟩
  | disk ht => exact ⟨hof, by simpa [Stage.Fresh, Stage.times] using ht⟩

end Turn

/-- What was seen so far begins the script. -/
theorem Stage.log_isPrefix {p : Params} {op : Op} {st : Stage} (hof : st.Of p op) (count : Nat) :
    st.log p op count <+: script p op count := by
  cases hdisk : p.networkNodisk <;> cases st with
  | wire l t | intr l t | run l t =>
      cases op <;> cases l <;> simp_all [Stage.log, Stage.Of, Leg.Of, trace, script, diskIo]
  | _ => cases op <;> simp_all [Stage.log, Stage.Of, trace, script, diskIo, Stage.leg]

end LustreSimulator.BulkRpc
