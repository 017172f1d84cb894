import LustreSimulator.Lib.Rank
import LustreSimulator.Lib.Roster
import LustreSimulator.Proofs.BulkRpcStage

/-!
# `LustreSimulator.Proofs.BulkRpc`: what the RPCs of all nodes keep

Every message is in a stage (`BulkRpcStage`), and an event brings one message to its next stage.
`Moved` says what the event does besides: the pools lose and get a thread as the message needs one,
and an IO loses a reference when one of its sub-IOs is finished. `Inv.happens` shows this of every
action that can happen, so none of them has a fault.

One thing depends on time. When the data of a READ arrives, the NIC signals the thread of the OST,
and the client gets the message by an interrupt. The client deletes the message, so the OST has to
be first: `Params.Apart` says that any signal is faster than any interrupt.

`Inv` is the invariant, and `Inv.run` has it for every state of a run.
-/

set_option autoImplicit false

namespace LustreSimulator.BulkRpc

open Lib
open PtlrpcServer (Op Phase)

/-- Any signal is faster than any interrupt. -/
def Params.Apart (p : Params) : Prop := ∀ d l, p.Switch d → p.Latency l → d < l

section
variable {p : Params} {i : Info} {st st' : Stage} {op : Op} {time : Nat}

/-! ### Fields of a stage -/

/-- The events that are armed are those of the stage. -/
theorem rpc_pending (hof : st.Of p i.op) : (st.rpc p i).pending = st.times := by
  cases st with
  | run l t =>
      obtain ⟨op, parent, osc, ost, count⟩ := i
      cases l <;> simp [Rpc.pending, Stage.rpc, Stage.client, Stage.server, Stage.times, Leg.up]
      exact absurd rfl hof.2
  | wire l t => cases l <;> rfl
  | intr l t => cases l <;> rfl
  | _ => rfl

theorem client_eq_queued : st.client op = .queued ↔ st = .queued := by
  cases st <;> simp [Stage.client]

theorem client_eq_done : st.client op = .done ↔ st = .finished := by
  cases st <;> simp [Stage.client]

theorem server_eq_queued : st.server p op = .queued ↔ st = .accept := by
  cases st with
  | run l t | wire l t | intr l t => cases l <;> simp [Stage.server]
  | _ => simp [Stage.server]

theorem wire_eq_some : (st.rpc p i).wire = some time ↔ ∃ l, st = .wire l time := by
  cases st <;> simp [Stage.rpc]

theorem intr_eq_some :
    (st.rpc p i).intr = some time ↔ (∃ l, st = .intr l time) ∨ ∃ ts, st = .tail ts time := by
  cases st <;> simp [Stage.rpc]

theorem disk_eq_some : (st.rpc p i).disk = some time ↔ st = .disk time := by
  cases st <;> simp [Stage.rpc]

/-- A message takes a thread of its OSC until it is finished. -/
theorem takesOsc_rpc (k : Nat) :
    (st.rpc p i).takesOsc k =
      decide (i.op ≠ .open ∧ st ≠ .queued ∧ st ≠ .finished ∧ i.osc = k) := by
  obtain ⟨op, parent, osc, ost, count⟩ := i
  cases op <;> cases st <;> simp [Rpc.takesOsc, Stage.rpc, Stage.client]

/-- A message is a sub-IO of its IO until it is finished. -/
theorem isSubIo_rpc (k : Nat) :
    (st.rpc p i).isSubIo k = decide (i.op ≠ .open ∧ st ≠ .finished ∧ i.parent = k) := by
  obtain ⟨op, parent, osc, ost, count⟩ := i
  cases op <;> cases st <;> simp [Rpc.isSubIo, Stage.rpc, Stage.client]

/-- A thread works on the message. -/
def Work.isBusy {σ : Type} : Work σ → Bool
  | .busy _ => true
  | _ => false

/-- A message takes a thread of the server while one works on it. -/
theorem takesOst_rpc (k : Nat) :
    (st.rpc p i).takesOst k = ((st.server p i.op).isBusy && decide (i.ost = k)) := by
  have hserver : (st.rpc p i).server = st.server p i.op := rfl
  unfold Rpc.takesOst
  rw [hserver]
  cases st.server p i.op with
  | busy t => exact (Bool.true_and _).symm
  | _ => rfl

/-- A thread of the server ends its first turn at work or done. -/
theorem begin_isBusy (t : Nat) :
    ((Stage.begin p op t).server p op).isBusy = decide ((Stage.begin p op t).server p op ≠ .done) := by
  cases hdisk : p.networkNodisk <;> cases op <;>
    simp [Stage.begin, Stage.server, Work.isBusy, hdisk]

/-- A thread of the server ends any turn at work or done. -/
theorem serve_isBusy (now t : Nat) : ((st.serve p op now t).server p op).isBusy =
    decide ((st.serve p op now t).server p op ≠ .done) := by
  cases st with
  | accept =>
      cases op with
      | «open» => rfl
      | write | read =>
          simp only [Stage.serve]
          split
          · rfl
          · exact begin_isBusy t
  | delay u => exact begin_isBusy t
  | run l u =>
      cases hdisk : p.networkNodisk <;> cases l <;>
        simp [Stage.serve, Stage.server, Work.isBusy, hdisk]
  | diskDone u => cases op <;> simp [Stage.serve, Stage.server, Work.isBusy]
  | _ => simp [Stage.serve, Stage.server, Work.isBusy]

/-- A turn of the server is not the last of the message. -/
theorem serve_ne (p : Params) (st : Stage) (op : Op) (now t : Nat) :
    st.serve p op now t ≠ .queued ∧ st.serve p op now t ≠ .finished := by
  have hbegin : Stage.begin p op t ≠ .queued ∧ Stage.begin p op t ≠ .finished := by
    cases hdisk : p.networkNodisk <;> cases op <;> simp [Stage.begin, hdisk]
  cases st with
  | accept =>
      cases op with
      | «open» => simp [Stage.serve]
      | write | read =>
          simp only [Stage.serve]
          split
          · simp
          · exact hbegin
  | delay u => exact hbegin
  | run l u => cases hdisk : p.networkNodisk <;> cases l <;> simp [Stage.serve, hdisk]
  | diskDone u => cases op <;> simp [Stage.serve]
  | _ => simp [Stage.serve]

/-- A turn of the client is not before the first. -/
theorem work_ne (st : Stage) (t : Nat) : st.work t ≠ .queued := by
  cases st with
  | run l u => cases l <;> simp [Stage.work]
  | _ => simp [Stage.work]

end

/-! ### The effect of an action -/

/-- The IO when one of its sub-IOs is complete. -/
def Io.complete (io : Io) : Io :=
  ⟨io.ref - 1, if io.ref = 1 then 1 else io.signals⟩

/-- A message of these IOs may be in the stage at this time. -/
structure Sound (p : Params) (s : BulkRpc) (time : Nat) (i : Info) (st : Stage) : Prop where
  of : st.Of p i.op
  fresh : st.Fresh time
  parent : i.op ≠ .open → i.parent < s.ios.length

/-- An event brings one message to its next stage. The pools lose and get a thread as the message
needs one, and the IO loses a reference when the message is finished. -/
structure Moved (p : Params) (s s' : BulkRpc) (n : Nat) (i : Info) (st st' : Stage) : Prop where
  get : s.rpcs[n]? = some (st.rpc p i)
  sound : Sound p s s'.now i st
  next : s.Next s'.now
  turn : Turn p i.op s'.now st st'
  rpcs : s'.rpcs = s.rpcs.set n (st'.rpc p i)
  ios : s'.ios =
    if st' = .finished ∧ i.op ≠ .open then s.ios.modify i.parent Io.complete else s.ios
  osc : ∀ k, s'.oscIdle k + ((st'.rpc p i).takesOsc k).toNat =
    s.oscIdle k + ((st.rpc p i).takesOsc k).toNat
  ost : ∀ k, s'.ostIdle k + ((st'.rpc p i).takesOst k).toNat =
    s.ostIdle k + ((st.rpc p i).takesOst k).toNat

/-- The message of an event. The clock and the users have none. -/
def Action.message : Action → Option Nat
  | .clock _ | .readWrite _ _ | .openFile _ _ => none
  | .startClient n _ | .startServer n _ | .runClient n _ _ | .runServer n _ _ | .rxDone n _ _ _
  | .interrupt n _ _ | .disk n _ _ => some n

/-- What an action does. -/
inductive Effect (p : Params) (s : BulkRpc) : Action → BulkRpc → Prop where
  | clock {now : Nat} : s.Next now → Effect p s (.clock now) { s with now := now }
  | readWrite {op : Op} {subs : List SubIo} : op ≠ .open →
      Effect p s (.readWrite op subs) (s.readWrite op subs)
  | openFile {mdt ticks : Nat} :
      Effect p s (.openFile mdt ticks)
        { s with rpcs := s.rpcs ++ [(Stage.wire .request (s.now + ticks)).rpc p ⟨.open, 0, 0, mdt, 0⟩] }
  | event {a : Action} {s' : BulkRpc} {n : Nat} {i : Info} {st st' : Stage} :
      a.message = some n → Moved p s s' n i st st' → Effect p s a s'

/-- The action does what it should. -/
def Happens (p : Params) (s : BulkRpc) (a : Action) : Prop :=
  ∃ s', s.fire p a = .ok s' ∧ Effect p s a s'

/-- The message is for this IO. -/
def Rpc.isPart (m : Rpc) (io : Nat) : Bool := m.op ≠ .open ∧ m.parent = io

/-- What the clients and servers keep: every message is in a stage of its operation, the references
of an IO are its sub-IOs that are not finished, and the threads of a pool that are not idle work on
messages. -/
structure Inv (p : Params) (osc ost : Nat → Nat) (s : BulkRpc) : Prop where
  stage : ∀ m ∈ s.rpcs, ∃ (i : Info) (st : Stage), m = st.rpc p i ∧ Sound p s s.now i st
  ref : ∀ k (io : Io), s.ios[k]? = some io → io.ref = s.rpcs.countP (·.isSubIo k)
  signals : ∀ k (io : Io), s.ios[k]? = some io →
    io.signals = if io.ref = 0 ∧ 0 < s.rpcs.countP (·.isPart k) then 1 else 0
  osc : ∀ k, s.oscIdle k + s.rpcs.countP (·.takesOsc k) = osc k
  ost : ∀ k, s.ostIdle k + s.rpcs.countP (·.takesOst k) = ost k

/-! ### The turns of the threads -/

section
variable {p : Params} {i : Info} {st st' : Stage} {s : BulkRpc} {m : Rpc} {n : Nat}

/-- The end of a sub-IO. -/
theorem completeIo_eq {io : Io} (hio : s.ios[m.parent]? = some io)
    (hsig : io.ref = 1 → io.signals = 0) :
    s.completeIo m = .ok { s with
      ios := s.ios.modify m.parent Io.complete
      oscIdle := fun k => if k = m.osc then s.oscIdle k + 1 else s.oscIdle k } := by
  obtain ⟨hlt, hget⟩ := List.getElem?_eq_some_iff.mp hio
  have hmodify : s.ios.modify m.parent Io.complete = s.ios.set m.parent io.complete := by
    rw [List.modify_eq_set_getElem?, hio]
    rfl
  rw [completeIo, hio, hmodify]
  by_cases hone : io.ref = 1
  · simp [require, hone, hsig hone, check, Io.complete]
  · have hne : io.ref - 1 ≠ 0 := by omega
    simp [require, hone, hne, Io.complete]

/-- A turn of the thread of the client. -/
theorem clientTurn_eq {state : ClState} {t : Nat} (hop : m.op = i.op)
    (h : m.clientHandle state t = .ok (st'.rpc p i))
    (hio : st' = .finished → i.op ≠ .open →
      ∃ io, s.ios[i.parent]? = some io ∧ (io.ref = 1 → io.signals = 0)) :
    s.clientTurn n m state t = .ok { s with
      rpcs := s.rpcs.set n (st'.rpc p i)
      ios := if st' = .finished ∧ i.op ≠ .open then s.ios.modify i.parent Io.complete else s.ios
      oscIdle := fun k =>
        if (st' = .finished ∧ i.op ≠ .open) ∧ k = i.osc then s.oscIdle k + 1 else s.oscIdle k } := by
  have hdone : (st'.rpc p i).client = .done ↔ st' = .finished := client_eq_done
  rw [clientTurn, h, ok_bind]
  simp only [hdone, hop]
  by_cases hfin : st' = .finished ∧ i.op ≠ .open
  · obtain ⟨io, hio, hsig⟩ := hio hfin.1 hfin.2
    rw [if_pos hfin, completeIo_eq (s := s.setRpc n (st'.rpc p i)) (m := st'.rpc p i) hio hsig]
    simp [hfin, setRpc, Stage.rpc]
  · simp [hfin, setRpc]

/-- A turn of the thread of the server. -/
theorem serverTurn_eq {state : PtlrpcServer.State} {t : Nat} (host : m.ost = i.ost)
    (h : m.serverHandle p state s.now t = .ok (st'.rpc p i)) :
    s.serverTurn p n m state t = .ok { s with
      rpcs := s.rpcs.set n (st'.rpc p i)
      ostIdle := fun k =>
        if st'.server p i.op = .done ∧ k = i.ost then s.ostIdle k + 1 else s.ostIdle k } := by
  have hserver : (st'.rpc p i).server = st'.server p i.op := rfl
  rw [serverTurn, h, ok_bind, hserver, host]
  by_cases hdone : st'.server p i.op = .done <;> simp [hdone, setRpc]

/-! ### Every action that can happen does -/

/-- A turn of the thread of the client, as an action. -/
theorem fire_runClient {state : ClState} {run : Option Nat} {time ticks : Nat}
    (hget : s.rpcs[n]? = some m) (hrun : m.client = .busy ⟨state, run⟩) :
    s.fire p (.runClient n time ticks) =
      ({ s with now := time } : BulkRpc).clientTurn n (m.toClient state) state (time + ticks) := by
  simp only [fire, hget, require, ok_bind, hrun]

/-- The first turn of the thread of the server, as an action. -/
theorem fire_startServer {ticks : Nat} (hget : s.rpcs[n]? = some m) :
    s.fire p (.startServer n ticks) =
      (s.takeOst m.ost).serverTurn p n m m.op.firstState (s.now + ticks) := by
  simp only [fire, hget, require, ok_bind]

/-- A turn of the thread of the server, as an action. -/
theorem fire_runServer {state : PtlrpcServer.State} {run : Option Nat} {time ticks : Nat}
    (hget : s.rpcs[n]? = some m) (hrun : m.server = .busy ⟨state, run⟩) :
    s.fire p (.runServer n time ticks) = ({ s with now := time } : BulkRpc).serverTurn p n
      (m.toServer state none) state (time + ticks) := by
  simp only [fire, hget, require, ok_bind, hrun]

/-- A message that is finished has no turn. -/
theorem Turn.ne_finished {op : Op} {now : Nat} (h : Turn p op now st st') : st ≠ .finished := by
  cases h <;> simp

/-- An event that is no turn of a thread leaves the pools and the IOs alone. -/
theorem Moved.of_event {time : Nat} (hget : s.rpcs[n]? = some (st.rpc p i))
    (hsound : Sound p s time i st) (hnext : s.Next time) (hturn : Turn p i.op time st st') (hst : st ≠ .queued)
    (hst' : st' ≠ .queued ∧ st' ≠ .finished)
    (hbusy : (st'.server p i.op).isBusy = (st.server p i.op).isBusy) :
    Moved p s (({ s with now := time } : BulkRpc).setRpc n (st'.rpc p i)) n i st st' where
  get := hget
  sound := hsound
  next := hnext
  turn := hturn
  rpcs := rfl
  ios := by simp [setRpc, hst']
  osc k := by simp [takesOsc_rpc, setRpc, hst, hst', hturn.ne_finished]
  ost k := by simp [takesOst_rpc, setRpc, hbusy]

/-- The thread of the server has the turn of its stage. -/
theorem serverHandle_run {state : PtlrpcServer.State} {time : Nat} (hof : st.Of p i.op)
    (hrun : (st.rpc p i).server = .busy ⟨state, some time⟩) (ticks : Nat) :
    Turn p i.op time st (st.serve p i.op time (time + ticks)) ∧
      ((st.rpc p i).toServer state none).serverHandle p state time (time + ticks) =
        .ok ((st.serve p i.op time (time + ticks)).rpc p i) := by
  have hle : time ≤ time + ticks := Nat.le_add_right ..
  obtain ⟨l, rfl, hup, hne, rfl⟩ | rfl | rfl | ⟨ti, rfl, rfl⟩ := server_running hof hrun
  · exact ⟨.serve hup hle, serverHandle_up hof.1 hup hne _ _⟩
  · exact ⟨.delay hle, serverHandle_delay hrun _ _⟩
  · exact ⟨.diskDone hle, serverHandle_diskDone hof hrun _ _⟩
  · exact ⟨.leave, serverHandle_tail hof _ _⟩

/-- A turn of the thread of the server takes it or gives it back. -/
theorem Moved.of_server {time t : Nat} {idle : Nat → Nat}
    (hget : s.rpcs[n]? = some (st.rpc p i))
    (hsound : Sound p s time i st) (hnext : s.Next time) (hturn : Turn p i.op time st (st.serve p i.op time t))
    (hst : st ≠ .queued)
    (hidle : ∀ k, idle k + (if i.ost = k then 1 else 0) =
      s.ostIdle k + ((st.rpc p i).takesOst k).toNat) :
    Moved p s { s with
      now := time
      rpcs := s.rpcs.set n ((st.serve p i.op time t).rpc p i)
      ostIdle := fun k =>
        if (st.serve p i.op time t).server p i.op = .done ∧ k = i.ost then idle k + 1
        else idle k } n i st (st.serve p i.op time t) := by
  have hne := serve_ne p st i.op time t
  refine ⟨hget, hsound, hnext, hturn, rfl, by simp [hne], fun k => ?_, fun k => ?_⟩
  · simp [takesOsc_rpc, hst, hne, hturn.ne_finished]
  · rw [← hidle k, takesOst_rpc, serve_isBusy]
    by_cases hk : i.ost = k
    · by_cases hdone : (st.serve p i.op time t).server p i.op = .done <;> simp [hdone, hk]
    · have hk' : k ≠ i.ost := fun heq => hk heq.symm
      simp [hk, hk']

namespace Inv

variable {osc ost : Nat → Nat} {time : Nat}

/-- When an event of this time is next, the messages are in stages of this time. -/
theorem later (h : Inv p osc ost s) (hnext : s.Next time) :
    ∀ m ∈ s.rpcs, ∃ (i : Info) (st : Stage), m = st.rpc p i ∧ Sound p s time i st := by
  intro m hm
  obtain ⟨i, st, rfl, hsound⟩ := h.stage m hm
  refine ⟨i, st, rfl, hsound.of, ⟨fun t ht => hnext.2 _ hm t ?_, hsound.fresh.2⟩, hsound.parent⟩
  rwa [rpc_pending hsound.of]

/-- A message that is there is in a stage. -/
theorem get (h : Inv p osc ost s) (hnext : s.Next time) (hget : s.rpcs[n]? = some m) :
    ∃ (i : Info) (st : Stage), m = st.rpc p i ∧ Sound p s time i st :=
  h.later hnext m (List.mem_of_getElem? hget)

/-- What a thread does right away is not late. -/
theorem next (h : Inv p osc ost s) : s.Next s.now := by
  refine ⟨Nat.le_refl _, fun m hm t ht => ?_⟩
  obtain ⟨i, st, rfl, hsound⟩ := h.stage m hm
  exact hsound.fresh.1 t (rpc_pending hsound.of ▸ ht)

/-- The waiter of an IO with a sub-IO that is not finished has not been signalled. -/
theorem signals_eq_zero (h : Inv p osc ost s) {i : Info} (hlt : i.parent < s.ios.length) :
    ∃ io, s.ios[i.parent]? = some io ∧ (io.ref = 1 → io.signals = 0) := by
  refine ⟨s.ios[i.parent], List.getElem?_eq_getElem hlt, fun href => ?_⟩
  rw [h.signals _ _ (List.getElem?_eq_getElem hlt), if_neg (by omega)]

/-- The pool of an OSC runs a task. -/
theorem startClient (h : Inv p osc ost s) {ticks : Nat}
    (he : s.Enabled p (.startClient n ticks)) : s.Happens p (.startClient n ticks) := by
  obtain ⟨m, hget, hqueued, hidle⟩ := he
  obtain ⟨i, st, rfl, hsound⟩ := h.get h.next hget
  obtain rfl := client_eq_queued.mp hqueued
  have hfire : s.fire p (.startClient n ticks) = (s.takeOsc i.osc).clientTurn n
      (Stage.queued.rpc p i) .start (s.now + ticks) := by
    rw [fire, hget]
    rfl
  have hturn := clientTurn_eq (s := s.takeOsc i.osc) (n := n) rfl
    (clientHandle_queued hsound.of (s.now + ticks)) (fun hst => nomatch hst)
  refine ⟨_, hfire.trans hturn, .event (n := n) (i := i) rfl
    ⟨hget, hsound, h.next, .take (Nat.le_add_right ..), rfl, rfl, fun k => ?_, fun k => ?_⟩⟩
  · have hop : i.op ≠ .open := hsound.of
    have hpos : 0 < s.oscIdle i.osc := hidle
    rw [takesOsc_rpc, takesOsc_rpc]
    by_cases hk : k = i.osc
    · subst hk
      simp [takeOsc, Stage.work, hop]
      omega
    · have hk' : i.osc ≠ k := fun heq => hk heq.symm
      simp [takeOsc, hk, hk']
  · rw [takesOst_rpc, takesOst_rpc]
    rfl

/-- A thread of the client has its turn. -/
theorem runClient (h : Inv p osc ost s) {ticks : Nat}
    (he : s.Enabled p (.runClient n time ticks)) : s.Happens p (.runClient n time ticks) := by
  obtain ⟨hnext, m, state, hget, hrun⟩ := he
  obtain ⟨i, st, rfl, hsound⟩ := h.get hnext hget
  obtain ⟨l, rfl, hdown, rfl⟩ := client_running hrun
  have hturn := clientTurn_eq (s := { s with now := time }) (n := n)
    (m := ((Stage.run l time).rpc p i).toClient (l.clState i.op)) rfl
    (clientHandle_down (u := time) hsound.of.1 hdown (time + ticks))
    (fun _ hop => h.signals_eq_zero (hsound.parent hop))
  have hmoved : Turn p i.op time (.run l time) ((Stage.run l time).work (time + ticks)) :=
    .work hdown (Nat.le_add_right ..)
  refine ⟨_, (fire_runClient hget hrun).trans hturn, .event (n := n) (i := i) rfl
    ⟨hget, hsound, hnext, hmoved, rfl, rfl, fun k => ?_, fun k => ?_⟩⟩
  · have hne := work_ne (.run l time) (time + ticks)
    rw [takesOsc_rpc, takesOsc_rpc]
    by_cases hop : i.op = .open
    · simp [hop]
    · by_cases hk : k = i.osc
      · by_cases hfin : (Stage.run l time).work (time + ticks) = .finished <;>
          simp [hop, hk, hfin, hne]
      · have hk' : i.osc ≠ k := fun heq => hk heq.symm
        simp [hk, hk']
  · rw [takesOst_rpc, takesOst_rpc]
    obtain ⟨hop, rfl | rfl⟩ | ⟨hop, rfl | rfl⟩ | ⟨hop, rfl⟩ := Leg.down_cases hsound.of.1 hdown <;> rfl

/-- The pool of a server runs a task. -/
theorem startServer (h : Inv p osc ost s) {ticks : Nat}
    (he : s.Enabled p (.startServer n ticks)) : s.Happens p (.startServer n ticks) := by
  obtain ⟨m, hget, hqueued, hidle⟩ := he
  obtain ⟨i, st, rfl, hsound⟩ := h.get h.next hget
  obtain rfl := server_eq_queued.mp hqueued
  have hturn := serverTurn_eq (s := s.takeOst i.ost) (n := n) rfl
    (serverHandle_accept (p := p) (i := i) s.now (s.now + ticks))
  refine ⟨_, (fire_startServer hget).trans hturn, .event (n := n) (i := i) rfl
    (.of_server hget hsound h.next (.accept (Nat.le_add_right ..)) (by simp) fun k => ?_)⟩
  have hpos : 0 < s.ostIdle i.ost := hidle
  by_cases hk : k = i.ost
  · subst hk
    simp [takesOst_rpc, takeOst, Stage.server, Work.isBusy]
    omega
  · have hk' : i.ost ≠ k := fun heq => hk heq.symm
    simp [takesOst_rpc, takeOst, hk, hk']

/-- A thread of the server has its turn. -/
theorem runServer (h : Inv p osc ost s) {ticks : Nat}
    (he : s.Enabled p (.runServer n time ticks)) : s.Happens p (.runServer n time ticks) := by
  obtain ⟨hnext, m, state, hget, hrun⟩ := he
  obtain ⟨i, st, rfl, hsound⟩ := h.get hnext hget
  obtain ⟨hserve, hhandle⟩ := serverHandle_run hsound.of hrun ticks
  have hturn := serverTurn_eq (s := { s with now := time }) (n := n)
    (m := (st.rpc p i).toServer state none) rfl hhandle
  refine ⟨_, (fire_runServer hget hrun).trans hturn, .event (n := n) (i := i) rfl
    (.of_server hget hsound hnext hserve (by rintro rfl; cases hrun) fun k => ?_)⟩
  have hbusy : st.server p i.op = .busy ⟨state, some time⟩ := hrun
  simp [takesOst_rpc, hbusy, Work.isBusy, Bool.toNat, Bool.cond_decide]

/-- A message arrives. -/
theorem rxDone (hp : p.Apart) (h : Inv p osc ost s) {signal latency : Nat}
    (he : s.Enabled p (.rxDone n time signal latency)) :
    s.Happens p (.rxDone n time signal latency) := by
  obtain ⟨hnext, hsignal, hlatency, m, hget, hwire⟩ := he
  obtain ⟨i, st, rfl, hsound⟩ := h.get hnext hget
  obtain ⟨l, rfl⟩ := wire_eq_some.mp hwire
  have hrxDone : ∃ st', Turn p i.op time (.wire l time) st' ∧ (st' ≠ .queued ∧ st' ≠ .finished) ∧
      (st'.server p i.op).isBusy = ((Stage.wire l time).server p i.op).isBusy ∧
      ((Stage.wire l time).rpc p i).rxDone (time + signal) (time + latency) = .ok (st'.rpc p i) := by
    by_cases hl : l = .data
    · subst hl
      have hlt : signal < latency := hp _ _ hsignal hlatency
      exact ⟨_, .arriveData (Nat.le_add_right ..) (by omega), by simp, rfl, rxDone_data hsound.of _ _⟩
    · refine ⟨_, .arrive hl (Nat.le_add_right ..), by simp, ?_, rxDone_wire hsound.of hl _ _⟩
      cases l <;> first | rfl | exact absurd rfl hl
  obtain ⟨st', hturn, hfin, hbusy, hok⟩ := hrxDone
  refine ⟨_, ?_, .event (n := n) (i := i) rfl
    (.of_event hget hsound hnext hturn (by simp) hfin hbusy)⟩
  rw [fire, hget, require, ok_bind, hok]
  rfl

/-- A node gets a message. -/
theorem interrupt (h : Inv p osc ost s) {signal : Nat}
    (he : s.Enabled p (.interrupt n time signal)) : s.Happens p (.interrupt n time signal) := by
  obtain ⟨hnext, -, m, hget, hintr⟩ := he
  obtain ⟨i, st, rfl, hsound⟩ := h.get hnext hget
  have hle : time ≤ time + signal := Nat.le_add_right ..
  have hinterrupt : ∃ st', Turn p i.op time st st' ∧ st ≠ .queued ∧ (st' ≠ .queued ∧ st' ≠ .finished) ∧
      (st'.server p i.op).isBusy = (st.server p i.op).isBusy ∧
      (st.rpc p i).messageInterrupt (time + signal) = .ok (st'.rpc p i) := by
    obtain ⟨l, rfl⟩ | ⟨ts, rfl⟩ := intr_eq_some.mp hintr
    · by_cases hl : l = .request
      · subst hl
        exact ⟨_, .deliver, by simp, by simp, rfl, messageInterrupt_request _⟩
      · refine ⟨_, .notify hl hle, by simp, by simp, ?_, messageInterrupt_intr hsound.of hl _⟩
        cases l <;> rfl
    · -- the thread of the server is first
      have hfirst : time ≤ ts := hnext.2 _ (List.mem_of_getElem? hget) ts (by
        rw [rpc_pending hsound.of]
        exact .head _)
      have hlt : ts < time := hsound.fresh.2
      omega
  obtain ⟨st', hturn, hst, hfin, hbusy, hok⟩ := hinterrupt
  refine ⟨_, ?_, .event (n := n) (i := i) rfl
    (.of_event hget hsound hnext hturn hst hfin hbusy)⟩
  rw [fire, hget, require, ok_bind, hok]
  rfl

/-- The disk completes an IO. -/
theorem disk (h : Inv p osc ost s) {signal : Nat}
    (he : s.Enabled p (.disk n time signal)) : s.Happens p (.disk n time signal) := by
  obtain ⟨hnext, -, m, hget, hdisk⟩ := he
  obtain ⟨i, st, rfl, hsound⟩ := h.get hnext hget
  obtain rfl := disk_eq_some.mp hdisk
  refine ⟨_, ?_, .event (n := n) (i := i) rfl
    (.of_event hget hsound hnext (.disk (Nat.le_add_right time signal)) (by simp) (by simp) rfl)⟩
  rw [fire, hget, require, ok_bind, diskCompletion_disk]
  rfl

/-- Whatever can happen does, with the effect that it should have. -/
theorem happens (hp : p.Apart) (h : Inv p osc ost s) {a : Action} (he : s.Enabled p a) :
    s.Happens p a := by
  cases a with
  | clock now => exact ⟨_, rfl, .clock he⟩
  | readWrite op subs => exact ⟨_, rfl, .readWrite he⟩
  | openFile mdt ticks => exact ⟨_, rfl, .openFile⟩
  | startClient n ticks => exact h.startClient he
  | startServer n ticks => exact h.startServer he
  | runClient n time ticks => exact h.runClient he
  | runServer n time ticks => exact h.runServer he
  | rxDone n time signal latency => exact h.rxDone hp he
  | interrupt n time signal => exact h.interrupt he
  | disk n time signal => exact h.disk he

end Inv

/-- An IO after an event is the one before, with a sub-IO less when one of its own was finished. -/
theorem Moved.io {s' : BulkRpc} (h : Moved p s s' n i st st') {k : Nat} {io' : Io}
    (hget : s'.ios[k]? = some io') :
    ∃ io, s.ios[k]? = some io ∧
      io' = if st' = .finished ∧ i.op ≠ .open ∧ i.parent = k then io.complete else io := by
  rw [h.ios] at hget
  by_cases hfin : st' = .finished ∧ i.op ≠ .open
  · rw [if_pos hfin, List.getElem?_modify, Option.map_eq_map, Option.map_eq_some_iff] at hget
    obtain ⟨io, hio, rfl⟩ := hget
    exact ⟨io, hio, by simp [hfin]⟩
  · rw [if_neg hfin] at hget
    exact ⟨io', hget, (if_neg fun h => hfin ⟨h.1, h.2.1⟩).symm⟩

/-! ### What every action keeps -/

/-- What is true of no new message is not counted. -/
theorem countP_append_false {q : Rpc → Bool} {l new : List Rpc} (h : ∀ m ∈ new, q m = false) :
    (l ++ new).countP q = l.countP q := by
  have hzero : new.countP q = 0 := List.countP_eq_zero.mpr fun m hm hq => by simp [h m hm] at hq
  rw [List.countP_append, hzero, Nat.add_zero]

/-- What is true of the new messages alone counts them. -/
theorem countP_append_true {q : Rpc → Bool} {l new : List Rpc} (hl : ∀ m ∈ l, q m = false)
    (hnew : ∀ m ∈ new, q m = true) : (l ++ new).countP q = new.length := by
  have hzero : l.countP q = 0 := List.countP_eq_zero.mpr fun m hm hq => by simp [hl m hm] at hq
  rw [List.countP_append, hzero, Nat.zero_add, List.countP_eq_length.mpr hnew]

/-- A new message of an IO is in its first stage. -/
theorem new_eq (p : Params) (op : Op) (parent osc ost count : Nat) :
    Rpc.new op parent osc ost count = Stage.queued.rpc p ⟨op, parent, osc, ost, count⟩ := by
  cases op <;> rfl

namespace Inv

variable {osc ost : Nat → Nat}

/-- The nodes start without messages. -/
theorem start : Inv p osc ost (start osc ost) where
  stage m hm := nomatch hm
  ref k io hio := by simp [BulkRpc.start] at hio
  signals k io hio := by simp [BulkRpc.start] at hio
  osc k := rfl
  ost k := rfl

/-- The clock moves on. -/
theorem clock (h : Inv p osc ost s) {now : Nat} (hnext : s.Next now) :
    Inv p osc ost { s with now := now } where
  stage m hm := by
    obtain ⟨i, st, rfl, hsound⟩ := h.later hnext m hm
    exact ⟨i, st, rfl, hsound.of, hsound.fresh, hsound.parent⟩
  ref := h.ref
  signals := h.signals
  osc := h.osc
  ost := h.ost

/-- A message of an IO refers to it. -/
theorem isPart_lt (h : Inv p osc ost s) {k : Nat} (hk : s.ios.length ≤ k) :
    ∀ m ∈ s.rpcs, m.isPart k = false := by
  intro m hm
  obtain ⟨i, st, rfl, hsound⟩ := h.stage m hm
  refine decide_eq_false fun ⟨hop, heq⟩ => ?_
  have hlt : (st.rpc p i).parent < s.ios.length := hsound.parent hop
  omega

/-- A sub-IO that is not finished is one of the messages of the IO. -/
theorem isSubIo_false (h : Inv p osc ost s) {k : Nat} (hk : s.ios.length ≤ k) :
    ∀ m ∈ s.rpcs, m.isSubIo k = false := by
  intro m hm
  have hpart := h.isPart_lt hk m hm
  obtain ⟨i, st, rfl, -⟩ := h.stage m hm
  rw [isSubIo_rpc]
  exact decide_eq_false fun ⟨hop, _, heq⟩ => of_decide_eq_false hpart ⟨hop, heq⟩

/-- An IO begins. -/
theorem readWrite (h : Inv p osc ost s) {op : Op} {subs : List SubIo} (hop : op ≠ .open) :
    Inv p osc ost (s.readWrite op subs) := by
  have hnew : ∀ m ∈ subs.map (fun sub => Rpc.new op s.ios.length sub.osc sub.ost sub.count),
      ∃ i, m = Stage.queued.rpc p i ∧ i.op = op ∧ i.parent = s.ios.length := by
    intro m hm
    obtain ⟨sub, -, rfl⟩ := List.mem_map.mp hm
    exact ⟨_, new_eq p .., rfl, rfl⟩
  have hcount : ∀ k, (s.readWrite op subs).rpcs.countP (·.isSubIo k) =
      if k = s.ios.length then subs.length else s.rpcs.countP (·.isSubIo k) := by
    intro k
    split
    case isTrue hk =>
      refine (countP_append_true (h.isSubIo_false hk.ge) fun m hm => ?_).trans (List.length_map _)
      obtain ⟨i, rfl, rfl, hparent⟩ := hnew m hm
      simp [isSubIo_rpc, hop, hparent, hk]
    case isFalse hk =>
      refine countP_append_false fun m hm => ?_
      obtain ⟨i, rfl, rfl, hparent⟩ := hnew m hm
      simp [isSubIo_rpc, hparent, Ne.symm hk]
  have hpart : ∀ k, (s.readWrite op subs).rpcs.countP (·.isPart k) =
      if k = s.ios.length then subs.length else s.rpcs.countP (·.isPart k) := by
    intro k
    split
    case isTrue hk =>
      refine (countP_append_true (h.isPart_lt hk.ge) fun m hm => ?_).trans (List.length_map _)
      obtain ⟨i, rfl, rfl, hparent⟩ := hnew m hm
      simp [Rpc.isPart, Stage.rpc, hop, hparent, hk]
    case isFalse hk =>
      refine countP_append_false fun m hm => ?_
      obtain ⟨i, rfl, rfl, hparent⟩ := hnew m hm
      simp [Rpc.isPart, Stage.rpc, hparent, Ne.symm hk]
  have hio : ∀ k io, (s.readWrite op subs).ios[k]? = some io →
      (k ≠ s.ios.length ∧ s.ios[k]? = some io) ∨ (k = s.ios.length ∧ io = ⟨subs.length, 0⟩) := by
    intro k io hget
    rcases Nat.lt_trichotomy k s.ios.length with hk | rfl | hk
    · exact .inl ⟨hk.ne, by rwa [BulkRpc.readWrite, List.getElem?_append_left hk] at hget⟩
    · rw [BulkRpc.readWrite, List.getElem?_concat_length] at hget
      exact .inr ⟨rfl, (Option.some.inj hget).symm⟩
    · rw [BulkRpc.readWrite, List.getElem?_eq_none (by simp; omega)] at hget
      cases hget
  constructor
  case stage =>
    intro m hm
    rcases List.mem_append.mp hm with hm | hm
    · obtain ⟨i, st, rfl, hsound⟩ := h.stage m hm
      refine ⟨i, st, rfl, hsound.of, hsound.fresh, fun hop => ?_⟩
      have hlt := hsound.parent hop
      simp [BulkRpc.readWrite]
      omega
    · obtain ⟨i, rfl, rfl, hparent⟩ := hnew m hm
      exact ⟨i, _, rfl, hop, by simp [Stage.Fresh, Stage.times], fun _ => by
        simp [BulkRpc.readWrite, hparent]⟩
  case ref =>
    intro k io hget
    rw [hcount]
    obtain ⟨hk, hget⟩ | ⟨hk, rfl⟩ := hio k io hget
    · rw [if_neg hk]
      exact h.ref k io hget
    · rw [if_pos hk]
  case signals =>
    intro k io hget
    rw [hpart]
    obtain ⟨hk, hget⟩ | ⟨hk, rfl⟩ := hio k io hget
    · rw [if_neg hk]
      exact h.signals k io hget
    · rw [if_pos hk]
      have : ¬ ((subs.length : Int) = 0 ∧ 0 < subs.length) := by omega
      exact (if_neg this).symm
  case osc =>
    intro k
    refine .trans (congrArg _ (countP_append_false fun m hm => ?_)) (h.osc k)
    obtain ⟨i, rfl, -⟩ := hnew m hm
    simp [takesOsc_rpc]
  case ost =>
    intro k
    refine .trans (congrArg _ (countP_append_false fun m hm => ?_)) (h.ost k)
    obtain ⟨i, rfl, -⟩ := hnew m hm
    simp [takesOst_rpc, Stage.server, Work.isBusy]

/-- An OPEN begins. -/
theorem openFile (h : Inv p osc ost s) (mdt ticks : Nat) :
    Inv p osc ost { s with
      rpcs := s.rpcs ++ [(Stage.wire .request (s.now + ticks)).rpc p ⟨.open, 0, 0, mdt, 0⟩] } where
  stage m hm := by
    rcases List.mem_append.mp hm with hm | hm
    · obtain ⟨i, st, rfl, hsound⟩ := h.stage m hm
      exact ⟨i, st, rfl, hsound.of, hsound.fresh, hsound.parent⟩
    · rw [List.mem_singleton] at hm
      exact ⟨_, _, hm, .inl rfl, by simp [Stage.Fresh, Stage.times], fun hop => absurd rfl hop⟩
  ref k io hget := by
    rw [h.ref k io hget, countP_append_false (by simp [isSubIo_rpc])]
  signals k io hget := by
    rw [h.signals k io hget, countP_append_false (by simp [Rpc.isPart, Stage.rpc])]
  osc k := by
    rw [countP_append_false (by simp [takesOsc_rpc])]
    exact h.osc k
  ost k := by
    rw [countP_append_false (by simp [takesOst_rpc, Stage.server, Work.isBusy])]
    exact h.ost k

/-- A message comes to its next stage. -/
theorem moved {s' : BulkRpc} (h : Inv p osc ost s) (hmoved : Moved p s s' n i st st') :
    Inv p osc ost s' := by
  have hcount := fun q => Roster.countP_set_add hmoved.get q (st'.rpc p i)
  have hmem := List.mem_of_getElem? hmoved.get
  have hold := hmoved.turn.ne_finished
  constructor
  case stage =>
    have hlen : s'.ios.length = s.ios.length := by
      rw [hmoved.ios]
      split <;> simp
    rw [hmoved.rpcs]
    refine Roster.forall_set (fun m hm => ?_) ?_
    · obtain ⟨j, st, rfl, hsound⟩ := h.later hmoved.next m hm
      exact ⟨j, st, rfl, hsound.of, hsound.fresh, hlen ▸ hsound.parent⟩
    · obtain ⟨hof, hfresh⟩ := hmoved.turn.keeps hmoved.sound.of hmoved.sound.fresh
      exact ⟨i, st', rfl, hof, hfresh, hlen ▸ hmoved.sound.parent⟩
  case ref =>
    intro k io' hget
    obtain ⟨io, hio, rfl⟩ := hmoved.io hget
    have href := h.ref k io hio
    have hsub := hcount (·.isSubIo k)
    rw [hmoved.rpcs]
    simp only [isSubIo_rpc] at hsub
    by_cases hpart : i.op ≠ .open ∧ i.parent = k
    · by_cases hfin : st' = .finished
      · simp [hpart, hfin, hold, Io.complete] at hsub ⊢
        omega
      · simp [hpart, hfin, hold] at hsub ⊢
        omega
    · have hno : ¬ (st' = .finished ∧ i.op ≠ .open ∧ i.parent = k) := fun h => hpart h.2
      have hold' : ¬ (i.op ≠ .open ∧ st ≠ .finished ∧ i.parent = k) := fun h => hpart ⟨h.1, h.2.2⟩
      have hnew' : ¬ (i.op ≠ .open ∧ st' ≠ .finished ∧ i.parent = k) := fun h => hpart ⟨h.1, h.2.2⟩
      rw [if_neg hno, href]
      rw [decide_eq_false hold', decide_eq_false hnew'] at hsub
      exact congrArg _ hsub.symm
  case signals =>
    intro k io' hget
    obtain ⟨io, hio, rfl⟩ := hmoved.io hget
    have href := h.ref k io hio
    have hsignals := h.signals k io hio
    have hpart : s'.rpcs.countP (·.isPart k) = s.rpcs.countP (·.isPart k) := by
      rw [hmoved.rpcs]
      exact Nat.add_right_cancel (hcount (·.isPart k))
    rw [hpart]
    split
    case isFalse => exact hsignals
    case isTrue hcomplete =>
      obtain ⟨hfin, hop, hk⟩ := hcomplete
      have hpos : 0 < s.rpcs.countP (·.isPart k) :=
        List.countP_pos_iff.mpr ⟨_, hmem, decide_eq_true ⟨hop, hk⟩⟩
      have hsub : 0 < s.rpcs.countP (·.isSubIo k) :=
        List.countP_pos_iff.mpr ⟨_, hmem, by simp [isSubIo_rpc, hop, hk, hold]⟩
      rw [if_neg (by omega)] at hsignals
      rw [Io.complete, hsignals]
      by_cases hone : io.ref = 1
      · simp [hone, hpos]
      · have hne : io.ref - 1 ≠ 0 := by omega
        simp [hone, hne]
  case osc =>
    intro k
    have hosc := hmoved.osc k
    have htotal := h.osc k
    have := hcount (·.takesOsc k)
    rw [hmoved.rpcs]
    omega
  case ost =>
    intro k
    have host := hmoved.ost k
    have htotal := h.ost k
    have := hcount (·.takesOst k)
    rw [hmoved.rpcs]
    omega

/-- Every action keeps the invariant. -/
theorem effect {a : Action} {s' : BulkRpc} (h : Inv p osc ost s) (heff : Effect p s a s') :
    Inv p osc ost s' := by
  cases heff with
  | clock hnext => exact h.clock hnext
  | readWrite hop => exact h.readWrite hop
  | openFile => exact h.openFile ..
  | event _ hmoved => exact h.moved hmoved

/-- The effect of a step. -/
theorem step_effect (hp : p.Apart) (h : Inv p osc ost s) {a : Action} {s' : BulkRpc}
    (hstep : Step p s a s') : Effect p s a s' := by
  obtain ⟨s'', hok, heff⟩ := h.happens hp hstep.1
  cases hok.symm.trans hstep.2
  exact heff

/-- A run keeps the invariant. -/
theorem run (hp : p.Apart) {as : List Action}
    (hrun : Run (Step p) (BulkRpc.start osc ost) as s) : Inv p osc ost s :=
  hrun.invariant (fun _ _ _ h hstep => h.effect (h.step_effect hp hstep)) .start

end Inv

end

end LustreSimulator.BulkRpc
