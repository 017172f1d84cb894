import LustreSimulator.PtlrpcServer
import LustreSimulator.Lib.Run
import LustreSimulator.Proofs.NrsRbtree

/-!
# `LustreSimulator.Proofs.PtlrpcServer`: the books of a server

A server counts the RPCs in progress, and with early replies it keeps them in the early-reply
queue (`Accounted`). Early replies move an RPC within the queue and change nothing else of that
(`AtRest`). `ServerSend` takes an RPC off the books when it sends in `RPC_PHASE_COMPLETE`
(`CountedOut`), and `stateMachine_complete` says which turns of the state machines do that: the last
turn of a WRITE, and no turn of a READ or an OPEN.

So the books are right as long as no READ and no OPEN takes its last turn (`books_iff`).
`ost_ReadRecvPutAckState` sends the last message of a READ in `RPC_PHASE_BULK`, and
`mdt_OpenCompleteState` sends before it sets `RPC_PHASE_COMPLETE` (`books_read`).
-/

set_option autoImplicit false

namespace LustreSimulator.PtlrpcServer

open Lib

variable {p : Params} {s s' s₁ : PtlrpcServer} {e : Event} {id : Nat} {r : Rpc}
  {ms : List Early}

/-- `rpc->erp_timed`, of an RPC that the server knows. -/
def timed (s : PtlrpcServer) (id : Nat) : Option Bool := (s.rpcs id).map Rpc.erpTimed

/-- The operation of an RPC and the state of its thread. -/
def thread (s : PtlrpcServer) (id : Nat) : Option (Op × State) :=
  (s.rpcs id).map fun r => (r.op, r.state)

/-- `rpcnt` is the number of the RPCs in progress, and the early-reply queue contains exactly
them. -/
structure Accounted (p : Params) (s : PtlrpcServer) : Prop where
  rpcnt : s.rpcnt = s.tasks.length
  queue : p.epOn = true → s.epQ.entries.Perm s.tasks
  timed : p.epOn = true → ∀ id, s.timed id = some true ↔ id ∈ s.tasks

/-- The event is not the last turn of a READ or an OPEN. -/
def Counted (s : PtlrpcServer) : Event → Prop
  | .turn id _ => ∀ r, s.rpcs id = some r →
      ¬ (r.op = .read ∧ r.state = .readCompletion) ∧ ¬ (r.op = .open ∧ r.state = .openComplete)
  | _ => True

/-- No RPC is in progress twice, and the server knows those in progress. -/
structure Known (s : PtlrpcServer) : Prop where
  nodup : s.tasks.Nodup
  known : ∀ id ∈ s.tasks, s.thread id ≠ none

/-- The books of a server, with what the queue needs. -/
structure Inv (p : Params) (s : PtlrpcServer) : Prop extends Known s where
  accounted : Accounted p s
  wf : s.epQ.WF

/-! ### Frames -/

/-- Replacing an RPC changes what is read of this one. -/
theorem map_setRpc {β : Type*} (f : Rpc → β) (s : PtlrpcServer) (id : Nat) (r : Rpc) (i : Nat) :
    ((s.setRpc id r).rpcs i).map f = if i = id then some (f r) else (s.rpcs i).map f := by
  show ((if i = id then some r else s.rpcs i).map f) = _
  split <;> rfl

/-- Replacing an RPC by one of which the same is read. -/
theorem map_setRpc_same {β : Type*} {f : Rpc → β} {r' : Rpc} (hr : s.rpcs id = some r)
    (hsame : f r' = f r) (i : Nat) : ((s.setRpc id r').rpcs i).map f = (s.rpcs i).map f := by
  rw [map_setRpc]
  split
  · rename_i hi
    rw [hi, hr, hsame]
    rfl
  · rfl

/-- Setting a phase changes nothing that is read of an RPC without the phase. -/
theorem map_setPhase {β : Type*} {f : Rpc → β} (s : PtlrpcServer) (id : Nat) (phase : Phase)
    (hf : ∀ r : Rpc, f { r with phase := phase } = f r) (i : Nat) :
    ((s.setPhase id phase).rpcs i).map f = (s.rpcs i).map f := by
  show ((if i = id then (s.rpcs id).map fun r => { r with phase := phase } else s.rpcs i).map f) = _
  split
  · rename_i hi
    rw [hi, Option.map_map]
    exact congrArg (Option.map · (s.rpcs id)) (funext hf)
  · rfl

/-- `at_add` changes the estimate only. -/
theorem estAdd_frame {val t : Nat} (h : s.estAdd p val t = .ok s') :
    s' = { s with est := s'.est } := by
  unfold estAdd at h
  cases hat : s.est.atAdd p.at_ val t s.now with
  | error f =>
      rw [hat] at h
      cases h
  | ok est =>
      rw [hat] at h
      cases h
      rfl

/-- `ptlrpc_at_set_timer` changes the timer only. -/
theorem setTimer_frame (h : s.setTimer p = .ok s') : s' = { s with epTimer := s'.epTimer } := by
  unfold setTimer at h
  obtain ⟨first, -, h⟩ := bind_eq_ok.mp h
  obtain ⟨-, -, h⟩ := bind_eq_ok.mp h
  obtain ⟨timer, -, h⟩ := bind_eq_ok.mp h
  cases h
  rfl

/-- `ptlrpc_at_add_timed` sets the flag of an RPC and puts it into the queue. -/
theorem addTimed_spec {retimed : Bool} (h : s.addTimed p id retimed = .ok s') :
    ∃ r q timer, s.rpcs id = some r ∧ r.erpTimed = false ∧
      s' = { s.setRpc id { r with erpTimed := true } with epQ := q, epTimer := timer } ∧
      (s.epQ.WF → q.WF ∧ q.entries.Perm (id :: s.epQ.entries)) := by
  unfold addTimed at h
  obtain ⟨r, hr, h⟩ := bind_eq_ok.mp h
  obtain ⟨_, htimed, h⟩ := bind_eq_ok.mp h
  obtain ⟨q, henq, h⟩ := bind_eq_ok.mp h
  obtain ⟨-, -, h⟩ := bind_eq_ok.mp h
  rw [require_eq_ok] at hr henq
  rw [check_eq_ok] at htimed
  have hqueue : s.epQ.WF → q.WF ∧ q.entries.Perm (id :: s.epQ.entries) := by
    intro hwf
    obtain ⟨q', l, m, henq', hwf', hlist, hlist', -⟩ := @NrsRbtree.enqueue_spec Nat
      (s.setRpc id { r with erpTimed := true }).deadlineCompare s.epQ id hwf
    cases henq'.symm.trans henq
    refine ⟨hwf', ?_⟩
    rw [hlist', hlist]
    exact List.perm_middle
  cases retimed with
  | true =>
      have hframe := setTimer_frame h
      exact ⟨r, q, s'.epTimer, hr, htimed, hframe, hqueue⟩
  | false =>
      cases h
      exact ⟨r, q, s.epTimer, hr, htimed, rfl, hqueue⟩

/-- `ptlrpc_at_send_early_reply` moves a deadline, after it changed the estimate. -/
theorem sendEarlyReply_frame {m : Early} (h : s.sendEarlyReply p id = .ok (m, s')) :
    (m.orig = id ∧ m.timedout = false) ∧ ∃ r dl, s.rpcs id = some r ∧
      s' = { s.setRpc id { r with deadline := dl } with est := s'.est } := by
  unfold sendEarlyReply at h
  obtain ⟨r, hr, h⟩ := bind_eq_ok.mp h
  obtain ⟨s₁, hadd, h⟩ := bind_eq_ok.mp h
  rw [require_eq_ok] at hr
  have hframe : s₁ = { s with est := s₁.est } := by
    split at hadd
    · exact estAdd_frame hadd
    · cases hadd
      rfl
  dsimp only at h
  split at h
  · cases h
    exact ⟨⟨rfl, rfl⟩, r, _, hr, by rw [hframe]; rfl⟩
  · obtain ⟨-, -, h⟩ := bind_eq_ok.mp h
    cases h
    exact ⟨⟨rfl, rfl⟩, r, _, hr, by rw [hframe]; rfl⟩

/-! ### Early replies -/

/-- The books are the same in `s'` as in `s`. The order of the queue may be another. -/
structure SameBooks (s s' : PtlrpcServer) : Prop where
  rpcnt : s'.rpcnt = s.rpcnt
  tasks : s'.tasks = s.tasks
  timed : ∀ i, s'.timed i = s.timed i
  queue : s.epQ.WF → s'.epQ.WF ∧ s'.epQ.entries.Perm s.epQ.entries

/-- The books are the same, and no thread moved. -/
structure AtRest (s s' : PtlrpcServer) : Prop extends SameBooks s s' where
  thread : ∀ i, s'.thread i = s.thread i

namespace AtRest

/-- Nothing changes. -/
theorem refl (s : PtlrpcServer) : AtRest s s :=
  ⟨⟨rfl, rfl, fun _ => rfl, fun h => ⟨h, .refl _⟩⟩, fun _ => rfl⟩

/-- The books stay the same twice. -/
theorem trans (h : AtRest s s₁) (h' : AtRest s₁ s') : AtRest s s' := by
  refine ⟨⟨h'.rpcnt.trans h.rpcnt, h'.tasks.trans h.tasks, fun i => (h'.timed i).trans (h.timed i),
    fun hwf => ?_⟩, fun i => (h'.thread i).trans (h.thread i)⟩
  obtain ⟨hwf₁, hperm⟩ := h.queue hwf
  obtain ⟨hwf', hperm'⟩ := h'.queue hwf₁
  exact ⟨hwf', hperm'.trans hperm⟩

/-- The clock, the timer and the estimate are no part of the books. -/
theorem of_eq (s : PtlrpcServer) (now : Nat) (epTimer : Option Nat) (est : AdaptiveTimeout) :
    AtRest s { s with now := now, epTimer := epTimer, est := est } :=
  ⟨⟨rfl, rfl, fun _ => rfl, fun h => ⟨h, .refl _⟩⟩, fun _ => rfl⟩

end AtRest

/-- The timer is no part of the books. -/
theorem setTimer_books (h : s.setTimer p = .ok s') : AtRest s s' := by
  rw [setTimer_frame h]
  exact .of_eq s s.now s'.epTimer s.est

/-- An RPC that gets an early reply leaves the queue and comes back with another deadline. -/
theorem resend_eq {m : Early} (h : s.resend p id = .ok (m, s')) :
    (m.orig = id ∧ m.timedout = false) ∧ ∃ r dl q q', s.rpcs id = some r ∧ r.erpTimed = true ∧
      s.epQ.erase id = some q ∧
      q.enqueue (s.setRpc id { r with deadline := dl }).deadlineCompare id = some q' ∧
      s' = { s.setRpc id { r with deadline := dl } with epQ := q', est := s'.est } := by
  unfold resend at h
  obtain ⟨r, hr, h⟩ := bind_eq_ok.mp h
  obtain ⟨_, htimed, h⟩ := bind_eq_ok.mp h
  obtain ⟨q, herase, h⟩ := bind_eq_ok.mp h
  obtain ⟨⟨m', s₁⟩, hsend, h⟩ := bind_eq_ok.mp h
  obtain ⟨s₂, hadd, h⟩ := bind_eq_ok.mp h
  cases h
  rw [require_eq_ok] at hr herase
  rw [check_eq_ok] at htimed
  obtain ⟨horig, r₁, dl, hr₁, hs₁⟩ := sendEarlyReply_frame hsend
  replace hr₁ : (if id = id then some { r with erpTimed := false } else s.rpcs id) = some r₁ := hr₁
  rw [if_pos rfl] at hr₁
  cases hr₁
  unfold addTimed at hadd
  obtain ⟨r₂, hr₂, hadd⟩ := bind_eq_ok.mp hadd
  obtain ⟨_, -, hadd⟩ := bind_eq_ok.mp hadd
  obtain ⟨q', henqueue, hadd⟩ := bind_eq_ok.mp hadd
  obtain ⟨_, -, hadd⟩ := bind_eq_ok.mp hadd
  cases hadd
  rw [require_eq_ok] at hr₂ henqueue
  rw [hs₁] at hr₂
  replace hr₂ : (if id = id then some { r with erpTimed := false, deadline := dl } else _) =
    some r₂ := hr₂
  rw [if_pos rfl] at hr₂
  cases hr₂
  -- the RPC was replaced three times, and the last one has its flag back
  have hrpcs : (s₁.setRpc id { r with erpTimed := true, deadline := dl }).rpcs =
      (s.setRpc id { r with deadline := dl }).rpcs := by
    funext i
    rw [hs₁]
    show (if i = id then _ else if i = id then _ else if i = id then _ else s.rpcs i) =
      if i = id then _ else s.rpcs i
    split
    · rw [← htimed]
    · rfl
  refine ⟨horig, r, dl, q, q', hr, htimed, herase, ?_, ?_⟩
  · rw [← henqueue]
    have hq : s₁.epQ = q := by
      rw [hs₁]
      rfl
    unfold deadlineCompare deadline
    rw [hrpcs]
    show _ = s₁.epQ.enqueue _ id
    rw [hq]
  · show { s₁.setRpc id { r with erpTimed := true, deadline := dl } with epQ := q' } = _
    have hset : s₁.setRpc id { r with erpTimed := true, deadline := dl } =
        { s₁ with rpcs := (s.setRpc id { r with deadline := dl }).rpcs } := by
      rw [← hrpcs]
      rfl
    rw [hset, hs₁]
    rfl

/-- An RPC that gets an early reply keeps its books. -/
theorem resend_books {m : Early} (h : s.resend p id = .ok (m, s')) :
    AtRest s s' ∧ m.timedout = false ∧ (s.epQ.WF → m.orig ∈ s.epQ.entries) := by
  obtain ⟨⟨horig, hfresh⟩, r, dl, q, q', hr, -, herase, henqueue, hs'⟩ := resend_eq h
  refine ⟨⟨⟨?_, ?_, fun i => ?_, fun hwf => ?_⟩, fun i => ?_⟩, hfresh, fun hwf => ?_⟩
  · rw [hs']
    rfl
  · rw [hs']
    rfl
  · rw [hs']
    exact map_setRpc_same (f := Rpc.erpTimed) hr (by rfl) i
  · obtain ⟨hwfq, l, m, hlist, hlist'⟩ := NrsRbtree.WF.erase_split hwf herase
    obtain ⟨q'', l', m', henqueue', hwf', hmid, hmid', -⟩ := @NrsRbtree.enqueue_spec Nat
      (s.setRpc id { r with deadline := dl }).deadlineCompare q id hwfq
    cases henqueue'.symm.trans henqueue
    rw [hs']
    refine ⟨hwf', ?_⟩
    show q'.entries.Perm s.epQ.entries
    rw [hmid', hlist]
    exact List.perm_middle.trans ((hmid ▸ hlist' : l' ++ m' = l ++ m) ▸ List.perm_middle.symm)
  · rw [hs']
    exact map_setRpc_same (f := fun r => (r.op, r.state)) hr (by rfl) i
  · obtain ⟨-, l, m, hlist, -⟩ := NrsRbtree.WF.erase_split hwf herase
    rw [horig, hlist]
    exact List.mem_append_right l (.head m)

/-- The loop of early replies keeps the books, and the replies go to RPCs in the queue. -/
theorem sweep_books {fuel : Nat} (h : sweep p fuel s = .ok (ms, s')) :
    AtRest s s' ∧ ∀ m ∈ ms, m.timedout = false ∧ (s.epQ.WF → m.orig ∈ s.epQ.entries) := by
  induction fuel generalizing s ms with
  | zero => cases h
  | succ fuel ih =>
      unfold sweep at h
      split at h
      · cases h
        exact ⟨.refl _, fun _ hm => nomatch hm⟩
      · split at h
        · cases h
          exact ⟨.refl _, fun _ hm => nomatch hm⟩
        · obtain ⟨⟨m', s₁⟩, hresend, h⟩ := bind_eq_ok.mp h
          obtain ⟨⟨ms', s₂⟩, hsweep, h⟩ := bind_eq_ok.mp h
          cases h
          obtain ⟨hbooks, hfirst⟩ := resend_books hresend
          obtain ⟨hbooks', hrest⟩ := ih hsweep
          refine ⟨hbooks.trans hbooks', fun m hm => ?_⟩
          rcases List.mem_cons.mp hm with rfl | hm
          · exact hfirst
          · refine ⟨(hrest m hm).1, fun hwf => ?_⟩
            obtain ⟨hwf₁, hperm⟩ := hbooks.queue hwf
            exact hperm.mem_iff.mp ((hrest m hm).2 hwf₁)

/-- `ptlrpc_at_check_timed` keeps the books, and the replies go to RPCs in the queue. -/
theorem checkTimed_books {fuel : Nat} (h : s.checkTimed p fuel = .ok (ms, s')) :
    AtRest s s' ∧ ∀ m ∈ ms, m.timedout = false ∧ (s.epQ.WF → m.orig ∈ s.epQ.entries) := by
  unfold checkTimed at h
  split at h
  · cases h
    exact ⟨.refl _, fun _ hm => nomatch hm⟩
  · obtain ⟨-, -, h⟩ := bind_eq_ok.mp h
    split at h
    · obtain ⟨s₁, htimer, h⟩ := bind_eq_ok.mp h
      cases h
      exact ⟨setTimer_books htimer, fun _ hm => nomatch hm⟩
    · obtain ⟨⟨ms', s₁⟩, hsweep, h⟩ := bind_eq_ok.mp h
      obtain ⟨s₂, htimer, h⟩ := bind_eq_ok.mp h
      cases h
      obtain ⟨hbooks, hreplies⟩ := sweep_books hsweep
      exact ⟨hbooks.trans (setTimer_books htimer), hreplies⟩

/-! ### Sending -/

/-- `s'` is `s` after the RPC `id` was taken off the books, with the early replies `ms`. -/
structure CountedOut (p : Params) (id : Nat) (ms : List Early) (s s' : PtlrpcServer) : Prop where
  rpcnt : s'.rpcnt = s.rpcnt - 1
  fresh : ∀ m ∈ ms, m.timedout = false
  off : p.epOn = false → ms = [] ∧ s'.epQ = s.epQ ∧ ∀ i, s'.timed i = s.timed i
  queue : p.epOn = true → s.epQ.WF → s'.epQ.WF ∧ s.epQ.entries.Perm (id :: s'.epQ.entries) ∧
    (∀ m ∈ ms, m.orig ∈ s'.epQ.entries) ∧
    ∀ i, s'.timed i = if i = id then some false else s.timed i

/-- `ServerSend` in `RPC_PHASE_COMPLETE` takes the RPC off the books. -/
theorem serverSend_complete {fuel : Nat} (hr : s.rpcs id = some r) (hphase : r.phase = .complete)
    (h : s.serverSend p fuel id = .ok (ms, s')) :
    CountedOut p id ms s s' ∧ s'.tasks = s.tasks ∧ ∀ i, s'.thread i = s.thread i := by
  unfold serverSend at h
  obtain ⟨r', hr', h⟩ := bind_eq_ok.mp h
  obtain ⟨s₁, hcc, h⟩ := bind_eq_ok.mp h
  rw [require_eq_ok] at hr'
  cases hr.symm.trans hr'
  have hs₁ : s₁ = { s with est := s₁.est } := by
    split at hcc
    · exact estAdd_frame hcc
    · cases hcc
      rfl
  rw [if_pos hphase] at h
  obtain ⟨s₂, hadd, h⟩ := bind_eq_ok.mp h
  have hs₂ : s₂ = { s with rpcnt := s.rpcnt - 1, est := s₂.est } := by
    rw [estAdd_frame hadd, hs₁]
  split at h
  · rename_i hon
    obtain ⟨-, -, h⟩ := bind_eq_ok.mp h
    obtain ⟨q, herase, h⟩ := bind_eq_ok.mp h
    rw [require_eq_ok] at herase
    obtain ⟨hbooks, hreplies⟩ := checkTimed_books h
    refine ⟨⟨?_, fun m hm => (hreplies m hm).1, fun hoff => ?_, fun _ hwf => ?_⟩, ?_,
      fun i => ?_⟩
    · rw [hbooks.rpcnt, hs₂]
      rfl
    · exact absurd hon (by rw [hoff]; decide)
    · replace herase : s.epQ.erase id = some q := by
        rw [hs₂] at herase
        exact herase
      obtain ⟨hwfq, l, m, hlist, hlist'⟩ := NrsRbtree.WF.erase_split hwf herase
      obtain ⟨hwf', hperm⟩ := hbooks.queue hwfq
      refine ⟨hwf', ?_, fun m hm => hperm.mem_iff.mpr ((hreplies m hm).2 hwfq), fun i => ?_⟩
      · rw [hlist]
        refine List.perm_middle.trans (List.Perm.cons id ?_)
        rw [← hlist']
        exact hperm.symm
      · rw [hbooks.timed i, hs₂]
        exact map_setRpc Rpc.erpTimed s id _ i
    · rw [hbooks.tasks, hs₂]
      rfl
    · rw [hbooks.thread i, hs₂]
      exact map_setRpc_same (f := fun r => (r.op, r.state)) hr (by rfl) i
  · rename_i hoff
    cases h
    refine ⟨⟨?_, fun m hm => ?_, fun _ => ⟨rfl, ?_, fun i => ?_⟩,
      fun hon => absurd hon hoff⟩, ?_, fun i => ?_⟩
    · rw [hs₂]
    · exact absurd hm List.not_mem_nil
    · rw [hs₂]
    · rw [hs₂]
      rfl
    · rw [hs₂]
    · rw [hs₂]
      rfl

/-- `ServerSend` in another phase changes nothing. -/
theorem serverSend_other {fuel : Nat} (hr : s.rpcs id = some r) (hphase : r.phase ≠ .complete)
    (h : s.serverSend p fuel id = .ok (ms, s')) : ms = [] ∧ s' = s := by
  unfold serverSend at h
  obtain ⟨r', hr', h⟩ := bind_eq_ok.mp h
  obtain ⟨s₁, hcc, h⟩ := bind_eq_ok.mp h
  rw [require_eq_ok] at hr'
  cases hr.symm.trans hr'
  rw [if_neg (fun hboth => hphase hboth.2)] at hcc
  rw [if_neg hphase] at h
  cases hcc
  cases h
  exact ⟨rfl, rfl⟩

/-! ### The turns -/

/-- The state machines send in `RPC_PHASE_COMPLETE` in the last turn of a WRITE, and nowhere
else. -/
theorem stateMachine_complete (p : Params) (op : Op) (state : State) :
    (stateMachine p op state).send = some .complete ↔
      op = .write ∧ (stateMachine p op state).next = none := by
  cases op <;> cases state <;> cases hscale : p.scale <;> cases hdisk : p.networkNodisk <;>
    simp [stateMachine, writeStateMachine, readStateMachine, openStateMachine, hscale, hdisk]

/-- The last turn of a READ or an OPEN. -/
theorem stateMachine_last (p : Params) {op : Op} (state : State) (hop : op ≠ .write) :
    (stateMachine p op state).next = none ↔
      (op = .read ∧ state = .readCompletion) ∨ (op = .open ∧ state = .openComplete) := by
  cases op with
  | write => exact absurd rfl hop
  | read =>
      cases state <;> cases hscale : p.scale <;> cases hdisk : p.networkNodisk <;>
        simp [stateMachine, readStateMachine, hscale, hdisk]
  | «open» => cases state <;> simp [stateMachine, openStateMachine]

/-- A turn moves the thread of its RPC. A turn that is not the last one keeps the books. The last
turn takes the RPC from those in progress. Then the turn of a WRITE takes it off the books, and
another one does not. -/
theorem handle_cases {fuel : Nat} (h : s.handle p fuel id = .ok (ms, s')) :
    ∃ r, s.rpcs id = some r ∧
      (∀ i, s'.thread i = if i = id then
        some (r.op, (stateMachine p r.op r.state).next.getD r.state) else s.thread i) ∧
      (((stateMachine p r.op r.state).next ≠ none ∧ ms = [] ∧ SameBooks s s') ∨
        (stateMachine p r.op r.state).next = none ∧ s'.tasks = s.tasks.erase id ∧
          ((r.op = .write ∧ CountedOut p id ms s s') ∨
            r.op ≠ .write ∧ ms = [] ∧ s'.rpcnt = s.rpcnt)) := by
  unfold handle at h
  obtain ⟨r, hr, h⟩ := bind_eq_ok.mp h
  obtain ⟨⟨ms', s₁⟩, hsend, h⟩ := bind_eq_ok.mp h
  rw [require_eq_ok] at hr
  cases h
  refine ⟨r, hr, ?_⟩
  have hcomplete := stateMachine_complete p r.op r.state
  generalize stateMachine p r.op r.state = turn at hsend hcomplete ⊢
  generalize hr' : ({ r with
    phase := turn.send.getD .rpc, state := turn.next.getD r.state } : Rpc) = r' at hsend
  have hop' : r'.op = r.op := by rw [← hr']
  have hstate' : r'.state = turn.next.getD r.state := by rw [← hr']
  -- the state before the message is sent has the books of `s`
  have htimed : ∀ i, (s.setRpc id r').timed i = s.timed i :=
    map_setRpc_same hr (by rw [← hr'])
  have hthread : ∀ i, (s.setRpc id r').thread i =
      if i = id then some (r.op, turn.next.getD r.state) else s.thread i := by
    intro i
    rw [← hop', ← hstate']
    exact map_setRpc (fun r => (r.op, r.state)) s id r' i
  by_cases hlast : turn.send = some .complete
  · obtain ⟨hop, hnext⟩ := hcomplete.mp hlast
    rw [if_pos (by rw [hlast]; rfl)] at hsend
    obtain ⟨hout, htasks, hthread'⟩ := serverSend_complete (if_pos rfl)
      (by rw [← hr', hlast]; rfl) hsend
    rw [if_pos (by rw [hnext]; rfl)]
    refine ⟨fun i => ?_, Or.inr ⟨hnext, congrArg (List.erase · id) htasks,
      Or.inl ⟨hop, hout.rpcnt, hout.fresh, fun hoff => ?_, fun hon hwf => ?_⟩⟩⟩
    · exact (map_setPhase _ id _ (fun _ => rfl) i).trans ((hthread' i).trans (hthread i))
    · obtain ⟨hms, hq, htimed'⟩ := hout.off hoff
      exact ⟨hms, hq, fun i =>
        (map_setPhase _ id _ (fun _ => rfl) i).trans ((htimed' i).trans (htimed i))⟩
    · obtain ⟨hwf', hperm, hreplies, htimed'⟩ := hout.queue hon hwf
      refine ⟨hwf', hperm, hreplies, fun i => ?_⟩
      exact (map_setPhase _ id _ (fun _ => rfl) i).trans ((htimed' i).trans (by rw [htimed i]))
  · -- whatever is sent, the books stay
    have hsame : ms' = [] ∧ s₁ = s.setRpc id r' := by
      split at hsend
      · refine serverSend_other (if_pos rfl) ?_ hsend
        rw [← hr']
        intro hphase
        replace hphase : turn.send.getD .rpc = .complete := hphase
        cases hturn : turn.send with
        | none =>
            rw [hturn] at hphase
            cases hphase
        | some phase =>
            rw [hturn] at hphase
            exact hlast (hturn.trans (congrArg some hphase))
      · cases hsend
        exact ⟨rfl, rfl⟩
    obtain ⟨rfl, rfl⟩ := hsame
    cases hnext : turn.next with
    | some state =>
        refine ⟨fun i => ?_, Or.inl ⟨Option.some_ne_none _, rfl, rfl, rfl, fun i => ?_,
          fun h => ⟨h, .refl _⟩⟩⟩
        · rw [hnext] at hthread
          exact (map_setPhase _ id _ (fun _ => rfl) i).trans (hthread i)
        · exact (map_setPhase _ id _ (fun _ => rfl) i).trans (htimed i)
    | none =>
        refine ⟨fun i => ?_, Or.inr ⟨rfl, rfl,
          Or.inr ⟨fun hop => hlast (hcomplete.mpr ⟨hop, hnext⟩), rfl, rfl⟩⟩⟩
        rw [hnext] at hthread
        exact (map_setPhase _ id _ (fun _ => rfl) i).trans (hthread i)

/-! ### One step -/

/-- `ServerRecv` counts a new RPC, and with early replies puts it into the queue. -/
theorem serverRecv_spec {op : Op} {deadline : Nat} (h : s.serverRecv p id op deadline = .ok s') :
    s'.rpcnt = s.rpcnt + 1 ∧ s'.tasks = s.tasks ++ [id] ∧
    (∀ i, s'.thread i = if i = id then some (op, op.firstState) else s.thread i) ∧
    (p.epOn = false → s'.epQ = s.epQ) ∧
    (p.epOn = true → (∀ i, s'.timed i = if i = id then some true else s.timed i) ∧
      (s.epQ.WF → s'.epQ.WF ∧ s'.epQ.entries.Perm (id :: s.epQ.entries))) := by
  unfold serverRecv at h
  dsimp only at h
  split at h
  · rename_i hon
    obtain ⟨r, q, timer, hr, -, rfl, hqueue⟩ := addTimed_spec h
    replace hr : (if id = id then some _ else s.rpcs id) = some r := hr
    rw [if_pos rfl] at hr
    cases hr
    refine ⟨rfl, rfl, fun i => ?_, fun hoff => ?_, fun _ => ⟨fun i => ?_, hqueue⟩⟩
    · refine (map_setRpc (fun r => (r.op, r.state)) _ id _ i).trans ?_
      split
      · rfl
      · rename_i hi
        exact (map_setRpc (fun r => (r.op, r.state)) s id _ i).trans (if_neg hi)
    · rw [hon] at hoff
      cases hoff
    · refine (map_setRpc Rpc.erpTimed _ id _ i).trans ?_
      split
      · rfl
      · rename_i hi
        exact (map_setRpc Rpc.erpTimed s id _ i).trans (if_neg hi)
  · rename_i hoff
    cases h
    exact ⟨rfl, rfl, map_setRpc (fun r => (r.op, r.state)) s id _, fun _ => rfl,
      fun hon => absurd hon hoff⟩

/-- An RPC that was never received has no thread. -/
theorem thread_none (h : s.rpcs id = none) : s.thread id = none := by
  unfold thread
  rw [h]
  rfl

/-- Every step keeps the RPCs in progress known. -/
theorem step_known (hknown : Known s) (hstep : Step p s e s') : Known s' := by
  have hrest : AtRest s s' → Known s' := by
    intro h
    refine ⟨?_, fun i hi => ?_⟩
    · rw [h.tasks]
      exact hknown.nodup
    · rw [h.thread]
      rw [h.tasks] at hi
      exact hknown.known i hi
  cases hstep with
  | clock _ _ => exact hrest (.of_eq s _ s.epTimer s.est)
  | expire _ h => exact hrest ((AtRest.of_eq s s.now none s.est).trans (checkTimed_books h).1)
  | @recv _ id _ _ hnew h =>
      obtain ⟨-, htasks, hthread, -, -⟩ := serverRecv_spec h
      have hnot : id ∉ s.tasks := fun hmem => hknown.known id hmem (thread_none hnew)
      refine ⟨?_, fun i hi => ?_⟩
      · rw [htasks]
        exact (List.perm_append_singleton id s.tasks).nodup_iff.mpr
          (List.nodup_cons.mpr ⟨hnot, hknown.nodup⟩)
      · rw [hthread]
        split
        · exact Option.some_ne_none _
        · rename_i hne
          rw [htasks, List.mem_append, List.mem_singleton, or_iff_left hne] at hi
          exact hknown.known i hi
  | @turn _ id _ _ hmem h =>
      obtain ⟨r, -, hthread, hcases⟩ := handle_cases h
      have htasks : s'.tasks = s.tasks ∨ s'.tasks = s.tasks.erase id := by
        rcases hcases with ⟨-, -, hbooks⟩ | ⟨-, htasks, -⟩
        · exact Or.inl hbooks.tasks
        · exact Or.inr htasks
      refine ⟨?_, fun i hi => ?_⟩
      · rcases htasks with htasks | htasks
        · rw [htasks]
          exact hknown.nodup
        · rw [htasks]
          exact hknown.nodup.erase id
      · rw [hthread]
        split
        · exact Option.some_ne_none _
        · refine hknown.known i ?_
          rcases htasks with htasks | htasks
          · rwa [htasks] at hi
          · exact List.mem_of_mem_erase (htasks ▸ hi)

/-- The books stay right when they stay the same. -/
theorem SameBooks.accounted (h : SameBooks s s') (haccounted : Accounted p s) (hwf : s.epQ.WF) :
    Accounted p s' ∧ s'.epQ.WF := by
  obtain ⟨hwf', hperm⟩ := h.queue hwf
  refine ⟨⟨?_, fun hon => ?_, fun hon i => ?_⟩, hwf'⟩
  · rw [h.rpcnt, h.tasks]
    exact haccounted.rpcnt
  · rw [h.tasks]
    exact hperm.trans (haccounted.queue hon)
  · rw [h.timed, h.tasks]
    exact haccounted.timed hon i

/-- A new RPC goes onto the books. -/
theorem serverRecv_accounted {op : Op} {deadline : Nat} (haccounted : Accounted p s)
    (hwf : s.epQ.WF) (h : s.serverRecv p id op deadline = .ok s') :
    Accounted p s' ∧ s'.epQ.WF := by
  obtain ⟨hrpcnt, htasks, -, hoff, hon⟩ := serverRecv_spec h
  refine ⟨⟨?_, fun hep => ?_, fun hep i => ?_⟩, ?_⟩
  · rw [hrpcnt, htasks, List.length_append, haccounted.rpcnt]
    rfl
  · rw [htasks]
    exact (((hon hep).2 hwf).2.trans ((haccounted.queue hep).cons id)).trans
      (List.perm_append_singleton id s.tasks).symm
  · rw [(hon hep).1, htasks, List.mem_append, List.mem_singleton]
    split
    · rename_i hi
      exact iff_of_true rfl (Or.inr hi)
    · rename_i hi
      rw [haccounted.timed hep i, or_iff_left hi]
  · cases hep : p.epOn with
    | true => exact ((hon hep).2 hwf).1
    | false =>
        rw [hoff hep]
        exact hwf

/-- The queue without an RPC that goes off the books holds the other RPCs in progress. -/
theorem CountedOut.perm (h : CountedOut p id ms s s') (haccounted : Accounted p s)
    (hwf : s.epQ.WF) (hmem : id ∈ s.tasks) (hon : p.epOn = true) :
    s'.epQ.entries.Perm (s.tasks.erase id) := by
  obtain ⟨-, hperm, -, -⟩ := h.queue hon hwf
  exact (List.perm_cons id).mp
    (hperm.symm.trans ((haccounted.queue hon).trans (List.perm_cons_erase hmem)))

/-- The last turn of a WRITE goes off the books. -/
theorem CountedOut.accounted (h : CountedOut p id ms s s') (hinv : Inv p s) (hmem : id ∈ s.tasks)
    (htasks : s'.tasks = s.tasks.erase id) : Accounted p s' ∧ s'.epQ.WF := by
  refine ⟨⟨?_, fun hon => ?_, fun hon i => ?_⟩, ?_⟩
  · rw [h.rpcnt, htasks, List.length_erase_of_mem hmem, hinv.accounted.rpcnt]
    have := List.length_pos_of_mem hmem
    omega
  · rw [htasks]
    exact h.perm hinv.accounted hinv.wf hmem hon
  · obtain ⟨-, -, -, htimed⟩ := h.queue hon hinv.wf
    rw [htimed, htasks, hinv.nodup.mem_erase_iff]
    split
    · rename_i hi
      exact iff_of_false (fun h => nomatch h) fun h => h.1 hi
    · rename_i hi
      rw [hinv.accounted.timed hon i, and_iff_right hi]
  · cases hon : p.epOn with
    | true => exact (h.queue hon hinv.wf).1
    | false =>
        rw [(h.off hon).2.1]
        exact hinv.wf

/-- A counted step keeps the books. -/
theorem step_inv (hinv : Inv p s) (hcounted : Counted s e) (hstep : Step p s e s') : Inv p s' := by
  suffices hbooks : Accounted p s' ∧ s'.epQ.WF from
    ⟨step_known hinv.toKnown hstep, hbooks.1, hbooks.2⟩
  cases hstep with
  | clock _ _ =>
      exact (AtRest.of_eq s _ s.epTimer s.est).toSameBooks.accounted hinv.accounted hinv.wf
  | recv _ h => exact serverRecv_accounted hinv.accounted hinv.wf h
  | turn hmem h =>
      obtain ⟨r, hr, -, ⟨-, -, hbooks⟩ | ⟨hnext, htasks, ⟨-, hout⟩ | ⟨hop, -, -⟩⟩⟩ :=
        handle_cases h
      · exact hbooks.accounted hinv.accounted hinv.wf
      · exact hout.accounted hinv hmem htasks
      · obtain ⟨hread, hopen⟩ := hcounted r hr
        rcases (stateMachine_last p r.state hop).mp hnext with hlast | hlast
        · exact absurd hlast hread
        · exact absurd hlast hopen
  | expire _ h =>
      exact ((AtRest.of_eq s s.now none s.est).trans
        (checkTimed_books h).1).toSameBooks.accounted hinv.accounted hinv.wf

/-- The RPC of an early reply has not timed out. -/
theorem step_fresh (hstep : Step p s e s') : ∀ m ∈ e.replies, m.timedout = false := by
  intro m hm
  cases hstep with
  | clock _ _ => cases hm
  | recv _ _ => cases hm
  | turn _ h =>
      obtain ⟨r, -, -, ⟨-, rfl, -⟩ | ⟨-, -, ⟨-, hout⟩ | ⟨-, rfl, -⟩⟩⟩ := handle_cases h
      · cases hm
      · exact hout.fresh m hm
      · cases hm
  | expire _ h => exact ((checkTimed_books h).2 m hm).1

/-- With the books right, early replies go to RPCs in progress. -/
theorem step_replies (hon : p.epOn = true) (hinv : Inv p s) (hstep : Step p s e s') :
    ∀ m ∈ e.replies, m.orig ∈ s'.tasks := by
  intro m hm
  cases hstep with
  | clock _ _ => cases hm
  | recv _ _ => cases hm
  | turn hmem h =>
      obtain ⟨r, -, -, ⟨-, rfl, -⟩ | ⟨-, htasks, ⟨-, hout⟩ | ⟨-, rfl, -⟩⟩⟩ := handle_cases h
      · cases hm
      · obtain ⟨-, -, hreplies, -⟩ := hout.queue hon hinv.wf
        rw [htasks]
        exact (hout.perm hinv.accounted hinv.wf hmem hon).mem_iff.mp (hreplies m hm)
      · cases hm
  | expire _ h =>
      obtain ⟨hbooks, hreplies⟩ := checkTimed_books h
      rw [hbooks.tasks]
      exact (hinv.accounted.queue hon).mem_iff.mp ((hreplies m hm).2 hinv.wf)

/-- The last turn of a READ or an OPEN leaves the RPC on the books. -/
theorem step_uncounted (hinv : Inv p s) (hstep : Step p s e s') (hnot : ¬ Counted s e) :
    ¬ Accounted p s' := by
  intro haccounted
  cases hstep with
  | clock _ _ => exact hnot trivial
  | recv _ _ => exact hnot trivial
  | expire _ _ => exact hnot trivial
  | turn hmem h =>
      obtain ⟨r, hr, -, ⟨hnext, -, -⟩ | ⟨-, htasks, ⟨hop, -⟩ | ⟨-, -, hrpcnt⟩⟩⟩ := handle_cases h
      · refine hnot fun r' hr' => ?_
        cases hr.symm.trans hr'
        by_cases hop : r.op = .write
        · rw [hop]
          exact ⟨(fun h => nomatch h.1), fun h => nomatch h.1⟩
        · rw [ne_eq, stateMachine_last p r.state hop, not_or] at hnext
          exact hnext
      · refine hnot fun r' hr' => ?_
        cases hr.symm.trans hr'
        rw [hop]
        exact ⟨(fun h => nomatch h.1), fun h => nomatch h.1⟩
      · have hlen := haccounted.rpcnt
        rw [hrpcnt, hinv.accounted.rpcnt, htasks, List.length_erase_of_mem hmem] at hlen
        have := List.length_pos_of_mem hmem
        omega

/-! ### Runs -/

/-- No RPC is in progress at first. -/
theorem known_start (algo : AdaptiveTimeout.Algo) : Known (start algo) :=
  ⟨.nil, fun _ h => nomatch h⟩

/-- The books are right at first. -/
theorem inv_start (p : Params) (algo : AdaptiveTimeout.Algo) : Inv p (start algo) :=
  ⟨known_start algo,
    ⟨rfl, fun _ => .refl _, fun _ _ => ⟨(fun h => nomatch h), fun h => nomatch h⟩⟩,
    NrsRbtree.wf_new⟩

/-- In a run where no READ and no OPEN takes its last turn, `rpcnt` counts the RPCs in progress, and
the early-reply queue has exactly them. The next step sends early replies to them only, and it
keeps the books exactly when it is such a step again. -/
theorem books_iff (p : Params) (algo : AdaptiveTimeout.Algo) (events : List Event)
    (s : PtlrpcServer)
    (hrun : Run (fun s e s' => Counted s e ∧ Step p s e s') (start algo) events s) :
    Accounted p s ∧ (p.epOn = true → s.tasks = [] → s.epQ.entries = []) ∧
      ∀ e s', Step p s e s' →
        (p.epOn = true → ∀ m ∈ e.replies, m.orig ∈ s'.tasks) ∧ (Accounted p s' ↔ Counted s e) := by
  have hinv : Inv p s :=
    hrun.invariant (fun _ _ _ hinv hstep => step_inv hinv hstep.1 hstep.2) (inv_start p algo)
  refine ⟨hinv.accounted, fun hon hnone => ?_, fun e s' hstep => ⟨fun hon => ?_, ?_, fun h => ?_⟩⟩
  · exact List.perm_nil.mp (hnone ▸ hinv.accounted.queue hon)
  · exact step_replies hon hinv hstep
  · intro haccounted
    by_contra hnot
    exact step_uncounted hinv hstep hnot haccounted
  · exact (step_inv hinv h hstep).accounted

/-- Early replies 5 seconds before the deadline, for 30 seconds more, without a disk. -/
def exampleParams : Params :=
  ⟨true, false, false, true, 5, 30, ⟨10, 600, 75, fun at_ _ => at_.estimate⟩⟩

/-- A WRITE completes while a READ is in progress. -/
theorem books_write :
    ∃ s, Run (fun s e s' => Counted s e ∧ Step exampleParams s e s') (start .max)
        [.recv 0 .write 100, .recv 1 .read 200, .turn 0 [], .turn 1 [], .turn 0 []] s ∧
      Accounted exampleParams s ∧ (exampleParams.epOn = true → s.tasks = [] → s.epQ.entries = []) ∧
      ∀ e s', Step exampleParams s e s' →
        (exampleParams.epOn = true → ∀ m ∈ e.replies, m.orig ∈ s'.tasks) ∧
          (Accounted exampleParams s' ↔ Counted s e) := by
  have hrun : ∃ s, Run (fun s e s' => Counted s e ∧ Step exampleParams s e s') (start .max)
      [.recv 0 .write 100, .recv 1 .read 200, .turn 0 [], .turn 1 [], .turn 0 []] s :=
    ⟨_, .cons ⟨trivial, .recv rfl rfl⟩ <|
      .cons ⟨trivial, .recv rfl rfl⟩ <|
      .cons ⟨fun r hr => by cases hr; decide, @Step.turn _ _ _ _ 0 _ (by decide) rfl⟩ <|
      .cons ⟨fun r hr => by cases hr; decide, @Step.turn _ _ _ _ 0 _ (by decide) rfl⟩ <|
      .cons ⟨fun r hr => by cases hr; decide, @Step.turn _ _ _ _ 0 _ (by decide) rfl⟩ (.nil _)⟩
  obtain ⟨s, hrun⟩ := hrun
  exact ⟨s, hrun, books_iff exampleParams .max _ s hrun⟩

/-- A READ completes and stays on the books. Later it gets an early reply. -/
theorem books_read :
    ∃ s s', Run (Step exampleParams) (start .max)
        [.recv 0 .read 100, .turn 0 [], .turn 0 [], .turn 0 [], .clock 50] s ∧
      Step exampleParams s (.expire [⟨0, 0, 50, 35, 0, false⟩]) s' ∧ s.tasks = [] ∧ s'.tasks = [] ∧
      s.epQ.entries = [0] ∧ s.rpcnt = 1 ∧ ¬ Accounted exampleParams s := by
  refine ⟨_, _, .cons (.recv rfl rfl) <|
    .cons (@Step.turn _ _ _ _ 0 _ (by decide) rfl) <|
    .cons (@Step.turn _ _ _ _ 0 _ (by decide) rfl) <|
    .cons (@Step.turn _ _ _ _ 0 _ (by decide) rfl) <|
    .cons (.clock (by decide) (fun t ht => ?_)) (.nil _),
    @Step.expire _ _ _ 2 _ rfl rfl, rfl, rfl, rfl, rfl, fun h => ?_⟩
  · cases ht
    decide
  · exact absurd h.rpcnt (by decide)

end LustreSimulator.PtlrpcServer
