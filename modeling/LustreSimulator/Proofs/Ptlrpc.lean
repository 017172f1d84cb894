import Mathlib.Data.List.Perm.Subperm
import LustreSimulator.Ptlrpc
import LustreSimulator.Proofs.PtlrpcServer

/-!
# `LustreSimulator.Proofs.Ptlrpc`: the timers of the RPCs

`Kept` says that the timers outlive nothing: an armed timer belongs to an RPC that is outstanding
and has not timed out, `ModTimer` is called with a later time, no RPC is touched after its last
message was received, and no RPC times out twice. `Timely` is the condition on a step that
`timers_iff` needs.

The clients keep it (`Clients`) as long as every early reply comes in time, every last message of
an RPC that did not time out has the phase `RPC_PHASE_COMPLETE`, and the early-reply queue is free
of finished RPCs. The server sends the last message of an RPC once (`Spent`), so an RPC is finished
once.

`ClientRecv` tests `timedout` of the early reply in place of the RPC (`timers_late`).
-/

set_option autoImplicit false

namespace LustreSimulator.Ptlrpc

open Lib
open PtlrpcServer (Early Op State)

variable {p : Params} {s s' : Ptlrpc} {e : Event} {id : Nat} {r : Rpc}

/-- The timers outlive nothing. -/
structure Kept (s : Ptlrpc) : Prop where
  armed : ∀ id r expire, s.rpcs id = some r → r.timer = some expire →
    id ∉ s.finished ∧ r.timedout = false
  calls : ∀ call ∈ s.calls, call.1 < call.2
  late : s.late = []
  once : s.fired.Nodup
  numrto : s.numrto ≤ s.numrpc
  stopped : s.stopped = false

/-- The event does not reach a timer too late. -/
def Timely (p : Params) (s : Ptlrpc) : Event → Prop
  | .serve e => ∀ id ∈ s.touched p e, id ∉ s.finished
  | .recvEarly m => p.srv.epOn = true →
      m.orig ∉ s.finished ∧ s.now < s.deadline m.orig ∧
        ∀ r, s.rpcs m.orig = some r → r.timedout = false
  | .recvLast m => m.phase = .complete ∨ ∀ r, s.rpcs m.id = some r → r.timedout = true
  | _ => True

/-- The server sends nothing more for the RPC. -/
def Spent (srv : PtlrpcServer) (id : Nat) : Prop :=
  srv.thread id ≠ none ∧ (id ∈ srv.tasks → srv.thread id = some (.read, .readCompletion))

/-- The clients keep their timers, and know which RPCs timed out. -/
structure Clients (s : Ptlrpc) : Prop where
  kept : Kept s
  running : ∀ id r, s.rpcs id = some r → r.timedout = false → id ∉ s.finished → r.timer ≠ none
  fired : ∀ id ∈ s.fired, ∃ r, s.rpcs id = some r ∧ r.timedout = true
  finished : ∀ id ∈ s.finished, s.rpcs id ≠ none
  numrto : s.numrto = s.fired.length
  sent : ∃ ids : List Nat, s.numrpc = ids.length ∧ ∀ id, s.rpcs id ≠ none → id ∈ ids

/-- The last message of an RPC is sent and received once. -/
structure Served (s : Ptlrpc) : Prop where
  known : s.srv.Known
  lasts : (s.lasts.map Last.id ++ s.finished).Nodup
  spent : ∀ id ∈ s.lasts.map Last.id ++ s.finished, Spent s.srv id
  fresh : ∀ m ∈ s.early, m.timedout = false

/-! ### The server -/

/-- The turn that sends the last message is the last one, or the one before the last of a READ. -/
theorem isLast_iff (p : PtlrpcServer.Params) (op : Op) (state : State) :
    isLast (PtlrpcServer.stateMachine p op state) = true ↔
      (PtlrpcServer.stateMachine p op state).send ≠ none ∧
        ((PtlrpcServer.stateMachine p op state).next = none ∨
          (PtlrpcServer.stateMachine p op state).next = some .readCompletion) := by
  unfold isLast
  rw [Bool.and_eq_true, Bool.or_eq_true, Option.isSome_iff_ne_none, Option.isNone_iff_eq_none,
    beq_iff_eq]

/-- Only a READ goes into `ost_ReadCompletionState`, and from there it sends nothing. -/
theorem readCompletion_iff (p : PtlrpcServer.Params) (op : Op) (state : State) :
    ((PtlrpcServer.stateMachine p op state).next = some .readCompletion → op = .read) ∧
      (PtlrpcServer.stateMachine p .read .readCompletion).next = none ∧
      (PtlrpcServer.stateMachine p .read .readCompletion).send = none := by
  refine ⟨?_, rfl, rfl⟩
  cases op <;> cases state <;> cases hscale : p.scale <;> cases hdisk : p.networkNodisk <;>
    simp [PtlrpcServer.stateMachine, PtlrpcServer.writeStateMachine, PtlrpcServer.openStateMachine,
      hscale, hdisk]

/-- When nothing more is sent for an RPC, it stays so. -/
theorem Spent.step {srv srv' : PtlrpcServer} {p : PtlrpcServer.Params} {e : PtlrpcServer.Event}
    (h : Spent srv id) (hknown : srv.Known) (hstep : PtlrpcServer.Step p srv e srv') :
    Spent srv' id := by
  have hrest : srv.AtRest srv' → Spent srv' id := by
    intro hrest
    unfold Spent
    rw [hrest.thread, hrest.tasks]
    exact h
  cases hstep with
  | clock _ _ => exact hrest (.of_eq srv _ srv.epTimer srv.est)
  | expire _ hcheck =>
      exact hrest ((PtlrpcServer.AtRest.of_eq srv srv.now none srv.est).trans
        (PtlrpcServer.checkTimed_books hcheck).1)
  | @recv _ i _ _ hnew hrecv =>
      obtain ⟨-, htasks, hthread, -, -⟩ := PtlrpcServer.serverRecv_spec hrecv
      have hne : id ≠ i := by
        rintro rfl
        exact h.1 (PtlrpcServer.thread_none hnew)
      unfold Spent
      rw [hthread, if_neg hne, htasks, List.mem_append, List.mem_singleton, or_iff_left hne]
      exact h
  | @turn _ i _ _ hmem hhandle =>
      obtain ⟨r, hr, hthread, hcases⟩ := PtlrpcServer.handle_cases hhandle
      have hsub : ∀ k ∈ srv'.tasks, k ∈ srv.tasks := by
        intro k hk
        rcases hcases with ⟨-, -, hbooks⟩ | ⟨-, htasks, -⟩
        · rwa [hbooks.tasks] at hk
        · exact List.mem_of_mem_erase (htasks ▸ hk)
      unfold Spent
      rw [hthread]
      by_cases hi : id = i
      · -- the RPC is a READ before its last turn, and this is the last turn
        rw [if_pos hi]
        refine ⟨Option.some_ne_none _, fun hin => ?_⟩
        have hlast := h.2 (hi ▸ hmem)
        rw [hi, PtlrpcServer.thread, hr] at hlast
        obtain ⟨hop, hstate⟩ := Prod.mk.inj (Option.some.inj hlast)
        rw [hop, hstate] at hcases
        rcases hcases with ⟨hnext, -⟩ | ⟨-, htasks, -⟩
        · exact absurd rfl hnext
        · rw [htasks, hi, hknown.nodup.mem_erase_iff] at hin
          exact absurd rfl hin.1
      · rw [if_neg hi]
        exact ⟨h.1, fun hin => h.2 (hsub id hin)⟩

/-- After the turn that sends the last message nothing more is sent, and before there was. -/
theorem spent_of_last {srv srv' : PtlrpcServer} {p : PtlrpcServer.Params} {r : PtlrpcServer.Rpc}
    {replies : List Early} (hknown : srv.Known)
    (hstep : PtlrpcServer.Step p srv (.turn id replies) srv') (hr : srv.rpcs id = some r)
    (hlast : isLast (PtlrpcServer.stateMachine p r.op r.state) = true) :
    ¬ Spent srv id ∧ Spent srv' id := by
  obtain ⟨hsend, hnext⟩ := (isLast_iff p r.op r.state).mp hlast
  cases hstep with
  | turn hmem hhandle =>
      obtain ⟨r', hr', hthread, hcases⟩ := PtlrpcServer.handle_cases hhandle
      cases hr.symm.trans hr'
      constructor
      · intro hspent
        have hthread := hspent.2 hmem
        rw [PtlrpcServer.thread, hr] at hthread
        obtain ⟨hop, hstate⟩ := Prod.mk.inj (Option.some.inj hthread)
        rw [hop, hstate] at hsend
        exact hsend rfl
      · unfold Spent
        rw [hthread, if_pos rfl]
        refine ⟨Option.some_ne_none _, fun hin => ?_⟩
        rcases hnext with hnext | hnext
        · rcases hcases with ⟨hsome, -⟩ | ⟨-, htasks, -⟩
          · exact absurd hnext hsome
          · rw [htasks, hknown.nodup.mem_erase_iff] at hin
            exact absurd rfl hin.1
        · rw [hnext, (readCompletion_iff p r.op r.state).1 hnext]
          rfl

/-- An event on the server sends no last message, or a turn sends the one of its RPC. -/
theorem sentLast_cases (s : Ptlrpc) (p : Params) (srv : PtlrpcServer) (queued : Nat)
    (e : PtlrpcServer.Event) : s.sentLast p srv queued e = [] ∨
    ∃ id replies r m, e = .turn id replies ∧ s.srv.rpcs id = some r ∧
      isLast (PtlrpcServer.stateMachine p.srv r.op r.state) = true ∧
      s.sentLast p srv queued e = [m] ∧ m.id = id := by
  cases e with
  | clock _ => exact Or.inl rfl
  | recv _ _ _ => exact Or.inl rfl
  | expire _ => exact Or.inl rfl
  | turn id replies =>
      unfold sentLast
      dsimp only
      cases hr : s.srv.rpcs id with
      | none => exact Or.inl rfl
      | some r =>
          dsimp only
          by_cases hlast : isLast (PtlrpcServer.stateMachine p.srv r.op r.state) = true
          · rw [if_pos hlast]
            refine Or.inr ⟨id, replies, r, ?_⟩
            split
            · refine ⟨_, rfl, hr, hlast, rfl, ?_⟩
              rfl
            · refine ⟨_, rfl, hr, hlast, rfl, ?_⟩
              rfl
          · exact Or.inl (if_neg hlast)

/-- An event on the server sends the last message of an RPC once. -/
theorem Served.serve {srv : PtlrpcServer} {queued : Nat} {e : PtlrpcServer.Event} (h : Served s)
    (hstep : PtlrpcServer.Step p.srv s.srv e srv) : Served (s.serve p srv queued e) := by
  have hold : ∀ id ∈ s.lasts.map Last.id ++ s.finished, Spent srv id :=
    fun id hid => (h.spent id hid).step h.known hstep
  have hfresh : ∀ m ∈ s.early ++ e.replies, m.timedout = false := by
    intro m hm
    rcases List.mem_append.mp hm with hm | hm
    · exact h.fresh m hm
    · exact PtlrpcServer.step_fresh hstep m hm
  have hknown := PtlrpcServer.step_known h.known hstep
  rcases sentLast_cases s p srv queued e with hnone |
    ⟨id, replies, r, m, rfl, hr, hlast, hsent, hid⟩
  · refine ⟨hknown, ?_, ?_, hfresh⟩
    · show ((s.lasts ++ s.sentLast p srv queued e).map Last.id ++ s.finished).Nodup
      rw [hnone, List.append_nil]
      exact h.lasts
    · show ∀ id ∈ (s.lasts ++ s.sentLast p srv queued e).map Last.id ++ s.finished, Spent srv id
      rw [hnone, List.append_nil]
      exact hold
  · obtain ⟨hbefore, hafter⟩ := spent_of_last h.known hstep hr hlast
    have hperm : ((s.lasts ++ s.sentLast p srv queued (.turn id replies)).map Last.id ++
        s.finished).Perm (id :: (s.lasts.map Last.id ++ s.finished)) := by
      rw [hsent, List.map_append, List.map_singleton, hid, List.append_assoc]
      exact List.perm_middle
    refine ⟨hknown, hperm.nodup_iff.mpr (List.nodup_cons.mpr
      ⟨fun hin => hbefore (h.spent id hin), h.lasts⟩), fun i hi => ?_, hfresh⟩
    rcases List.mem_cons.mp (hperm.mem_iff.mp hi) with rfl | hi
    · exact hafter
    · exact hold i hi

/-! ### What the functions of a client change -/

/-- Touching RPCs that are not finished is of no consequence. -/
theorem touch_of_not {ids : List Nat} (h : ∀ id ∈ ids, id ∉ s.finished) : s.touch ids = s := by
  have hnone : ids.filter (fun i => decide (i ∈ s.finished)) = [] :=
    List.filter_eq_nil_iff.mpr fun i hi hin => h i hi (of_decide_eq_true hin)
  unfold touch
  rw [hnone, List.append_nil]

/-- Touching a finished RPC is noted. -/
theorem mem_touch {ids : List Nat} (hid : id ∈ ids) (hfinished : id ∈ s.finished) :
    id ∈ (s.touch ids).late :=
  List.mem_append_right _ (List.mem_filter.mpr ⟨hid, decide_eq_true hfinished⟩)

/-- `ModTimer` with a later time arms the timer. -/
theorem modTimer_of_lt {expire : Nat} (h : s.now < expire) : s.modTimer id r expire =
    { s.setRpc id { r with timer := some expire } with
      calls := s.calls ++ [(s.now, expire)] } := by
  unfold modTimer
  dsimp only
  rw [show Timer.modTimer ({ s with calls := s.calls ++ [(s.now, expire)] } : Ptlrpc).now r.timer
    expire = some (some expire) from Timer.modTimer_of_lt h]
  rfl

/-- `ModTimer` changes an RPC, or stops the program. -/
theorem modTimer_frame (s : Ptlrpc) (id : Nat) (r : Rpc) (expire : Nat) :
    ∃ rpcs stopped, s.modTimer id r expire =
      { s with calls := s.calls ++ [(s.now, expire)], rpcs := rpcs, stopped := stopped } := by
  unfold modTimer
  dsimp only
  split
  · exact ⟨s.rpcs, true, rfl⟩
  · exact ⟨_, s.stopped, rfl⟩

/-- The estimates of an import change, and nothing else. -/
theorem adjust_frame {imp arrivalTime servTime servEst : Nat}
    (h : s.adjust p imp arrivalTime servTime servEst = .ok s') :
    s' = { s with imps := s'.imps } := by
  unfold adjust at h
  obtain ⟨_, -, h⟩ := bind_eq_ok.mp h
  obtain ⟨_, -, h⟩ := bind_eq_ok.mp h
  obtain ⟨_, -, h⟩ := bind_eq_ok.mp h
  cases h
  rfl

/-- An early reply changes the estimates. With early replies on it touches its RPC and moves the
timer. -/
theorem recvEarly_cases {m : Early} (hfresh : m.timedout = false)
    (h : s.recvEarly p m = .ok s') : ∃ r imps, s.rpcs m.orig = some r ∧
      ((p.srv.epOn = false ∧ s' = { s with early := s.early.erase m, imps := imps }) ∨
        p.srv.epOn = true ∧ s' = (({ s with early := s.early.erase m, imps := imps } :
          Ptlrpc).touch [m.orig]).modTimer m.orig r (s.deadline m.orig)) := by
  unfold recvEarly at h
  obtain ⟨r, hr, h⟩ := bind_eq_ok.mp h
  obtain ⟨s₁, hadjust, h⟩ := bind_eq_ok.mp h
  rw [require_eq_ok] at hr
  have hs₁ := adjust_frame hadjust
  refine ⟨r, s₁.imps, hr, ?_⟩
  split at h
  · rename_i hon
    obtain ⟨_, -, h⟩ := bind_eq_ok.mp h
    cases h
    right
    refine ⟨hon.1, ?_⟩
    rw [hs₁]
    rfl
  · rename_i hoff
    cases h
    left
    refine ⟨?_, hs₁⟩
    cases hon : p.srv.epOn with
    | true => exact absurd ⟨hon, hfresh⟩ hoff
    | false => rfl

/-- The last message of an RPC finishes it. In `RPC_PHASE_COMPLETE` it deletes the timer of an RPC
that did not time out. -/
theorem recvLast_cases {m : Last} (h : s.recvLast p m = .ok s') :
    ∃ r imps, s.rpcs m.id = some r ∧
      s' = { (s.touch [m.id]).setRpc m.id
          (if m.phase = .complete ∧ r.timedout = false then { r with timer := none } else r) with
        lasts := s.lasts.erase m, finished := s.finished ++ [m.id], imps := imps } := by
  unfold recvLast at h
  obtain ⟨r, hr, h⟩ := bind_eq_ok.mp h
  rw [require_eq_ok] at hr
  refine ⟨r, s'.imps, hr, ?_⟩
  dsimp only at h
  split at h
  · rw [adjust_frame h]
    rfl
  · cases h
    rfl

/-! ### One step of the clients -/

/-- The server, the estimates and the messages do not matter to the clients. -/
theorem Clients.frame (h : Clients s) (srv : PtlrpcServer) (imps : Nat → ImpAt)
    (requests : List (Nat × Op)) (early : List Early) (lasts : List Last) :
    Clients { s with srv := srv, imps := imps, requests := requests, early := early
                     lasts := lasts } :=
  ⟨⟨h.kept.armed, h.kept.calls, h.kept.late, h.kept.once, h.kept.numrto, h.kept.stopped⟩,
    h.running, h.fired, h.finished, h.numrto, h.sent⟩

/-- What is needed of one RPC: an armed timer is one of an outstanding RPC that has not timed out,
such an RPC has an armed timer, and only an RPC that has timed out is among those. -/
structure Sound (s : Ptlrpc) (id : Nat) (r : Rpc) : Prop where
  armed : ∀ expire, r.timer = some expire → id ∉ s.finished ∧ r.timedout = false
  running : r.timedout = false → id ∉ s.finished → r.timer ≠ none
  fired : id ∈ s.fired → r.timedout = true

/-- The clients after one RPC changed. -/
theorem Clients.set (h : Clients s) (id : Nat) (r : Rpc)
    (hrpcs : ∀ i, s'.rpcs i = if i = id then some r else s.rpcs i)
    (hsound : Sound s' id r) (hfinished : ∀ i, i ≠ id → (i ∈ s'.finished ↔ i ∈ s.finished))
    (hfired : ∀ i, i ≠ id → (i ∈ s'.fired ↔ i ∈ s.fired))
    (hcalls : ∀ call ∈ s'.calls, call.1 < call.2) (hlate : s'.late = []) (honce : s'.fired.Nodup)
    (hstopped : s'.numrto ≤ s'.numrpc → s'.stopped = false)
    (hnumrto : s'.numrto = s'.fired.length)
    (hsent : ∃ ids : List Nat, s'.numrpc = ids.length ∧ id ∈ ids ∧
      ∀ i, s.rpcs i ≠ none → i ∈ ids) : Clients s' := by
  have hknown : ∀ i, (i = id ∨ s.rpcs i ≠ none) → s'.rpcs i ≠ none := by
    intro i hi
    rw [hrpcs]
    split
    · exact Option.some_ne_none _
    · rename_i hne
      exact hi.resolve_left hne
  have hfired' : ∀ i ∈ s'.fired, ∃ r, s'.rpcs i = some r ∧ r.timedout = true := by
    intro i hi
    rw [hrpcs]
    split
    · rename_i heq
      exact ⟨r, rfl, hsound.fired (heq ▸ hi)⟩
    · rename_i hne
      exact h.fired i ((hfired i hne).mp hi)
  obtain ⟨ids, hlen, hid, hmem⟩ := hsent
  have hsent' : ∀ i, s'.rpcs i ≠ none → i ∈ ids := by
    intro i hi
    rw [hrpcs] at hi
    split at hi
    · rename_i heq
      exact heq ▸ hid
    · exact hmem i hi
  -- the RPCs that timed out are different RPCs that were sent
  have hle : s'.numrto ≤ s'.numrpc := by
    have hsub : s'.fired ⊆ ids := by
      intro i hi
      obtain ⟨r', hr', -⟩ := hfired' i hi
      exact hsent' i (by rw [hr']; exact Option.some_ne_none _)
    rw [hnumrto, hlen]
    exact (honce.subperm hsub).length_le
  refine ⟨⟨fun i r' expire hr' hexpire => ?_, hcalls, hlate, honce, hle, hstopped hle⟩,
    fun i r' hr' hfalse hnot => ?_, hfired', fun i hi => ?_, hnumrto, ids, hlen, hsent'⟩
  · rw [hrpcs] at hr'
    split at hr'
    · rename_i heq
      cases hr'
      exact heq ▸ hsound.armed expire hexpire
    · rename_i hne
      rw [hfinished i hne]
      exact h.kept.armed i r' expire hr' hexpire
  · rw [hrpcs] at hr'
    split at hr'
    · rename_i heq
      cases hr'
      exact hsound.running hfalse (heq ▸ hnot)
    · rename_i hne
      exact h.running i r' hr' hfalse fun hin => hnot ((hfinished i hne).mpr hin)
  · refine hknown i ?_
    by_cases heq : i = id
    · exact Or.inl heq
    · exact Or.inr (h.finished i ((hfinished i heq).mp hi))

/-- A client knows the RPCs it sent. -/
theorem Clients.sent_of (h : Clients s) (hr : s.rpcs id = some r) :
    ∃ ids : List Nat, s.numrpc = ids.length ∧ id ∈ ids ∧ ∀ i, s.rpcs i ≠ none → i ∈ ids := by
  obtain ⟨ids, hlen, hmem⟩ := h.sent
  exact ⟨ids, hlen, hmem id (by rw [hr]; exact Option.some_ne_none _), hmem⟩

/-- `ModTimer` with a later time, for an RPC that is outstanding and has not timed out. -/
theorem Clients.modTimer {expire : Nat} (h : Clients s) (hfinished : id ∉ s.finished)
    (hfired : id ∉ s.fired) (htimedout : r.timedout = false) (hlt : s.now < expire)
    (hsent : ∃ ids : List Nat, s.numrpc = ids.length ∧ id ∈ ids ∧
      ∀ i, s.rpcs i ≠ none → i ∈ ids) : Clients (s.modTimer id r expire) := by
  rw [modTimer_of_lt hlt]
  refine h.set id { r with timer := some expire } (fun _ => rfl)
    ⟨fun _ _ => ⟨hfinished, htimedout⟩, fun _ _ => Option.some_ne_none _,
      fun hin => absurd hin hfired⟩
    (fun _ _ => Iff.rfl) (fun _ _ => Iff.rfl) ?_ h.kept.late h.kept.once
    (fun _ => h.kept.stopped) h.numrto hsent
  intro call hcall
  rcases List.mem_append.mp hcall with hcall | hcall
  · exact h.kept.calls call hcall
  · rw [List.mem_singleton.mp hcall]
    exact hlt

/-- The last message of an RPC whose timer is off then. -/
theorem Clients.finish (h : Clients s) (hr : s.rpcs id = some r) {r' : Rpc}
    (htimedout : r'.timedout = r.timedout) (htimer : r'.timer = none) :
    Clients { s.setRpc id r' with finished := s.finished ++ [id] } := by
  refine h.set id r' (fun _ => rfl) ⟨fun expire hexpire => ?_,
    fun _ hnot => absurd (List.mem_append_right _ (.head _)) hnot, fun hin => ?_⟩
    (fun i hne => ?_) (fun _ _ => Iff.rfl) h.kept.calls h.kept.late h.kept.once
    (fun _ => h.kept.stopped) h.numrto (h.sent_of hr)
  · rw [htimer] at hexpire
    cases hexpire
  · obtain ⟨r₁, hr₁, htrue⟩ := h.fired id hin
    cases hr.symm.trans hr₁
    exact htimedout.trans htrue
  · show i ∈ s.finished ++ [id] ↔ _
    rw [List.mem_append, List.mem_singleton, or_iff_left hne]

/-- An RPC that has not timed out is not among those that have. -/
theorem Clients.not_fired (h : Clients s) (hr : s.rpcs id = some r)
    (hfalse : r.timedout = false) : id ∉ s.fired := by
  intro hin
  obtain ⟨r', hr', htrue⟩ := h.fired id hin
  cases hr.symm.trans hr'
  rw [hfalse] at htrue
  cases htrue

/-- An armed timer expires. -/
theorem Clients.timeout (h : Clients s) (hr : s.rpcs id = some r) {expire : Nat}
    (htimer : r.timer = some expire) : Clients (s.timeoutEvent id r) := by
  obtain ⟨hnot, hfalse⟩ := h.kept.armed id r expire hr htimer
  have hnew : id ∉ s.fired := h.not_fired hr hfalse
  have htouch : s.touch [id] = s := by
    refine touch_of_not fun i hi => ?_
    rw [List.mem_singleton.mp hi]
    exact hnot
  have honce : (s.fired ++ [id]).Nodup :=
    (List.perm_append_singleton id s.fired).nodup_iff.mpr
      (List.nodup_cons.mpr ⟨hnew, h.kept.once⟩)
  have hlen : s.numrto + 1 = (s.fired ++ [id]).length := by
    rw [List.length_append, h.numrto]
    rfl
  refine h.set id { r with timedout := true, timer := none } (fun _ => rfl)
    ⟨(fun _ hexpire => nomatch hexpire), (fun htrue => nomatch htrue), fun _ => rfl⟩
    (fun _ _ => Iff.rfl) (fun i hne => ?_) h.kept.calls ?_ honce (fun hle => ?_) hlen (h.sent_of hr)
  · show i ∈ s.fired ++ [id] ↔ _
    rw [List.mem_append, List.mem_singleton, or_iff_left hne]
  · show (s.touch [id]).late = []
    rw [htouch]
    exact h.kept.late
  · show (!decide (s.numrpc ≥ s.numrto + 1)) = false
    rw [decide_eq_true (show s.numrpc ≥ s.numrto + 1 from hle)]
    rfl

/-! ### One step -/

/-- The clients and the server keep what they have to. -/
structure Inv (s : Ptlrpc) : Prop where
  clients : Clients s
  served : Served s

/-- The deadline of a new RPC is later. -/
theorem lt_sendDeadline {srvAlgo : AdaptiveTimeout.Algo} {iat : ImpAt} {now rand : Nat}
    (hunit : 0 < p.timeUnit) (hobd : 0 < p.obdTimeout) :
    now < sendDeadline .exact p srvAlgo iat now rand := by
  have hserv : 0 < atGetServtime .exact p srvAlgo iat := by
    unfold atGetServtime
    split
    · exact Nat.mul_pos hobd hunit
    · exact Nat.mul_pos (Nat.succ_pos _) hunit
  have hsched : now < now + atSchedBase * p.timeUnit + rand := by
    have : 0 < atSchedBase * p.timeUnit := Nat.mul_pos (by decide) hunit
    omega
  have hest : now < estimated .exact p srvAlgo iat now := by
    show now < now + atGetServtime .exact p srvAlgo iat + atGetNetLatency .exact p iat
    omega
  unfold sendDeadline
  dsimp only
  split
  · exact hsched
  · split
    · omega
    · exact hest

/-- `ClientSend` arms the timer of a new RPC. -/
theorem clientSend_inv {op : Op} {imp rand : Nat}
    (hpos : p.srv.epOn = true ∨ 0 < p.timeUnit ∧ 0 < p.obdTimeout) (hinv : Inv s)
    (hnew : s.rpcs id = none) (h : s.clientSend p id op imp rand = .ok s') : Inv s' := by
  obtain ⟨deadline, hdeadline, h⟩ := bind_eq_ok.mp h
  obtain ⟨_, hmargin, hdeadline⟩ := bind_eq_ok.mp hdeadline
  rw [check_eq_ok] at hmargin
  cases h
  cases hdeadline
  have hlt : s.now < sendDeadline .exact p s.srv.est.flags (s.imps imp) s.now rand := by
    rcases hpos with hon | ⟨hunit, hobd⟩
    · exact Nat.lt_of_le_of_lt (Nat.le_add_right _ _) (hmargin hon)
    · exact lt_sendDeadline hunit hobd
  have hbase : Clients { s with numrpc := s.numrpc + 1, requests := s.requests ++ [(id, op)] } := by
    obtain ⟨ids, hlen, hmem⟩ := hinv.clients.sent
    have hkept := hinv.clients.kept
    exact ⟨⟨hkept.armed, hkept.calls, hkept.late, hkept.once, Nat.le_succ_of_le hkept.numrto,
      hkept.stopped⟩, hinv.clients.running, hinv.clients.fired, hinv.clients.finished,
      hinv.clients.numrto, id :: ids, by rw [List.length_cons, ← hlen],
      fun i hi => List.mem_cons_of_mem id (hmem i hi)⟩
  constructor
  · refine hbase.modTimer (fun hin => hinv.clients.finished id hin hnew) (fun hin => ?_) rfl hlt ?_
    · obtain ⟨r, hr, -⟩ := hinv.clients.fired id hin
      rw [hnew] at hr
      cases hr
    · obtain ⟨ids, hlen, hmem⟩ := hinv.clients.sent
      exact ⟨id :: ids, by rw [List.length_cons, ← hlen], List.mem_cons_self ..,
        fun i hi => List.mem_cons_of_mem id (hmem i hi)⟩
  · obtain ⟨rpcs, stopped, heq⟩ := modTimer_frame
      { s with numrpc := s.numrpc + 1, requests := s.requests ++ [(id, op)] } id
      ⟨imp, sendDeadline .exact p s.srv.est.flags (s.imps imp) s.now rand, false, none⟩
      (sendDeadline .exact p s.srv.est.flags (s.imps imp) s.now rand)
    rw [heq]
    exact ⟨hinv.served.known, hinv.served.lasts, hinv.served.spent, hinv.served.fresh⟩

/-- An event on the server that touches no finished RPC. -/
theorem serve_inv {srv : PtlrpcServer} {e : PtlrpcServer.Event} (queued : Nat) (hinv : Inv s)
    (htouched : ∀ id ∈ s.touched p e, id ∉ s.finished)
    (hstep : PtlrpcServer.Step p.srv s.srv e srv) : Inv (s.serve p srv queued e) := by
  refine ⟨?_, hinv.served.serve hstep⟩
  unfold serve
  rw [touch_of_not htouched]
  exact hinv.clients.frame srv s.imps s.requests _ _

/-- An early reply in time moves the timer of its RPC. -/
theorem recvEarly_inv {m : Early} (hinv : Inv s) (hm : m ∈ s.early)
    (htimely : Timely p s (.recvEarly m)) (h : s.recvEarly p m = .ok s') : Inv s' := by
  have hfresh : ∀ m' ∈ s.early.erase m, m'.timedout = false :=
    fun m' hm' => hinv.served.fresh m' (List.mem_of_mem_erase hm')
  obtain ⟨r, imps, hr, ⟨-, rfl⟩ | ⟨hon, rfl⟩⟩ := recvEarly_cases (hinv.served.fresh m hm) h
  · exact ⟨hinv.clients.frame s.srv imps s.requests _ s.lasts,
      hinv.served.known, hinv.served.lasts, hinv.served.spent, hfresh⟩
  · obtain ⟨hnot, hlt, htimedout⟩ := htimely hon
    have hfalse := htimedout r hr
    have htouch : ({ s with early := s.early.erase m, imps := imps } : Ptlrpc).touch [m.orig] =
        { s with early := s.early.erase m, imps := imps } := by
      refine touch_of_not fun i hi => ?_
      rw [List.mem_singleton.mp hi]
      exact hnot
    rw [htouch]
    constructor
    · exact (hinv.clients.frame s.srv imps s.requests _ s.lasts).modTimer hnot
        (hinv.clients.not_fired hr hfalse) hfalse hlt (hinv.clients.sent_of hr)
    · obtain ⟨rpcs, stopped, heq⟩ := modTimer_frame
        { s with early := s.early.erase m, imps := imps } m.orig r (s.deadline m.orig)
      rw [heq]
      exact ⟨hinv.served.known, hinv.served.lasts, hinv.served.spent, hfresh⟩

/-- A last message on its way is the only one of its RPC, which is not finished. -/
theorem Served.finish {m : Last} (h : Served s) (hm : m ∈ s.lasts) :
    m.id ∉ s.finished ∧ ((s.lasts.erase m).map Last.id ++ (s.finished ++ [m.id])).Perm
      (s.lasts.map Last.id ++ s.finished) := by
  constructor
  · intro hin
    exact (List.nodup_append.mp h.lasts).2.2 m.id (List.mem_map_of_mem hm) m.id hin rfl
  · have hperm : (s.lasts.map Last.id).Perm (m.id :: (s.lasts.erase m).map Last.id) :=
      (List.perm_cons_erase hm).map Last.id
    rw [← List.append_assoc]
    exact (List.perm_append_singleton m.id _).trans (hperm.symm.append_right s.finished)

/-- The last message deletes the timer, or there was none. -/
theorem recvLast_inv {m : Last} (hinv : Inv s) (hm : m ∈ s.lasts)
    (htimely : Timely p s (.recvLast m)) (h : s.recvLast p m = .ok s') : Inv s' := by
  obtain ⟨hnot, hperm⟩ := hinv.served.finish hm
  obtain ⟨r, imps, hr, rfl⟩ := recvLast_cases h
  have htouch : s.touch [m.id] = s := by
    refine touch_of_not fun i hi => ?_
    rw [List.mem_singleton.mp hi]
    exact hnot
  rw [htouch]
  constructor
  · refine (hinv.clients.finish hr ?_ ?_).frame s.srv imps s.requests s.early _
    · split
      · rfl
      · rfl
    · split
      · rfl
      · rename_i hkeep
        -- the RPC has timed out, so its timer is off
        have htrue : r.timedout = true := by
          rcases htimely with hphase | htrue
          · rw [← Bool.not_eq_false]
            exact fun hfalse => hkeep ⟨hphase, hfalse⟩
          · exact htrue r hr
        cases htimer : r.timer with
        | none => rfl
        | some expire =>
            rw [(hinv.clients.kept.armed m.id r expire hr htimer).2] at htrue
            cases htrue
  · exact ⟨hinv.served.known, hperm.nodup_iff.mpr hinv.served.lasts,
      fun i hi => hinv.served.spent i (hperm.mem_iff.mp hi), hinv.served.fresh⟩

/-- A timely step keeps everything. -/
theorem step_inv (hpos : p.srv.epOn = true ∨ 0 < p.timeUnit ∧ 0 < p.obdTimeout) (hinv : Inv s)
    (htimely : Timely p s e) (hstep : Step p s e s') : Inv s' := by
  cases hstep with
  | @clock srv _ _ hclock _ =>
      exact ⟨hinv.clients.frame srv s.imps s.requests s.early s.lasts,
        PtlrpcServer.step_known hinv.served.known hclock, hinv.served.lasts,
        fun i hi => (hinv.served.spent i hi).step hinv.served.known hclock, hinv.served.fresh⟩
  | send _ hnew h => exact clientSend_inv hpos hinv hnew h
  | @request srv id queued op _ _ hserve =>
      obtain ⟨hclients, hserved⟩ := serve_inv queued hinv htimely hserve
      exact ⟨hclients.frame _ s.imps _ _ _, hserved.known, hserved.lasts, hserved.spent,
        hserved.fresh⟩
  | turn _ hserve => exact serve_inv _ hinv htimely hserve
  | expire _ hserve => exact serve_inv _ hinv htimely hserve
  | recvEarly _ hm h => exact recvEarly_inv hinv hm htimely h
  | recvLast _ hm h => exact recvLast_inv hinv hm htimely h
  | timeout _ hr htimer =>
      exact ⟨hinv.clients.timeout hr htimer, hinv.served.known, hinv.served.lasts,
        hinv.served.spent, hinv.served.fresh⟩

/-- A step that is not timely breaks the promise. -/
theorem step_late (hinv : Inv s) (hnot : ¬ Timely p s e) (hstep : Step p s e s') : ¬ Kept s' := by
  intro hkept
  have hserve : ∀ srv queued e', (s.serve p srv queued e').late = [] →
      Timely p s (.serve e') := by
    intro srv queued e' hlate id hid hfinished
    have hmem : id ∈ (s.serve p srv queued e').late := mem_touch hid hfinished
    rw [hlate] at hmem
    cases hmem
  cases hstep with
  | clock _ _ _ => exact hnot trivial
  | send _ _ _ => exact hnot trivial
  | timeout _ _ _ => exact hnot trivial
  | @request srv id queued op _ _ _ => exact hnot (hserve srv queued _ hkept.late)
  | @turn srv id queued _ _ _ => exact hnot (hserve srv queued _ hkept.late)
  | @expire srv queued _ _ _ => exact hnot (hserve srv queued _ hkept.late)
  | @recvEarly _ m _ hm h =>
      obtain ⟨r, imps, hr, ⟨hoff, -⟩ | ⟨-, rfl⟩⟩ :=
        recvEarly_cases (hinv.served.fresh m hm) h
      · refine hnot fun hon => ?_
        rw [hoff] at hon
        cases hon
      · refine hnot fun _ => ?_
        obtain ⟨rpcs, stopped, heq⟩ := modTimer_frame (({ s with
          early := s.early.erase m, imps := imps } : Ptlrpc).touch [m.orig]) m.orig r
          (s.deadline m.orig)
        have hlate := hkept.late
        have hcalls := hkept.calls
        rw [heq] at hlate hcalls
        have hlt : s.now < s.deadline m.orig :=
          hcalls (s.now, s.deadline m.orig) (List.mem_append_right _ (.head _))
        refine ⟨fun hfinished => ?_, hlt, fun r' hr' => ?_⟩
        · have hmem := mem_touch (s := { s with early := s.early.erase m, imps := imps })
            (List.mem_singleton_self m.orig) hfinished
          rw [show (({ s with early := s.early.erase m, imps := imps } : Ptlrpc).touch
            [m.orig]).late = [] from hlate] at hmem
          cases hmem
        · cases hr.symm.trans hr'
          rw [modTimer_of_lt (s := ({ s with early := s.early.erase m, imps := imps } :
            Ptlrpc).touch [m.orig]) hlt] at hkept
          exact (hkept.armed m.orig _ _ (if_pos rfl) rfl).2
  | @recvLast _ m _ hm h =>
      obtain ⟨r, imps, hr, rfl⟩ := recvLast_cases h
      rw [Timely, not_or] at hnot
      obtain ⟨hphase, htimedout⟩ := hnot
      have hfalse : r.timedout = false := by
        rw [← Bool.not_eq_true]
        refine fun htrue => htimedout fun r' hr' => ?_
        cases hr.symm.trans hr'
        exact htrue
      -- the RPC has not timed out, so its timer is on and stays on
      cases htimer : r.timer with
      | none => exact hinv.clients.running m.id r hr hfalse (hinv.served.finish hm).1 htimer
      | some expire =>
          rw [if_neg (fun hboth => hphase hboth.1)] at hkept
          exact (hkept.armed m.id r expire (if_pos rfl) htimer).1
            (List.mem_append_right _ (.head _))

/-! ### Runs -/

/-- No RPC was sent at first. -/
theorem inv_start (algo : AdaptiveTimeout.Algo) : Inv (start algo) :=
  ⟨⟨⟨(fun _ _ _ h => nomatch h), (fun _ h => nomatch h), rfl, .nil, Nat.le_refl 0, rfl⟩,
    (fun _ _ h => nomatch h), (fun _ h => nomatch h), (fun _ h => nomatch h), rfl, [], rfl,
    fun _ h => absurd rfl h⟩,
    PtlrpcServer.known_start algo, .nil, (fun _ h => nomatch h), fun _ h => nomatch h⟩

/-- In a run of timely steps, the timers outlive nothing. The next step keeps that exactly when it
is timely again. -/
theorem timers_iff (p : Params) (algo : AdaptiveTimeout.Algo) (events : List Event) (s : Ptlrpc)
    (hpos : p.srv.epOn = true ∨ 0 < p.timeUnit ∧ 0 < p.obdTimeout)
    (hrun : Run (fun s e s' => Timely p s e ∧ Step p s e s') (start algo) events s) :
    Kept s ∧ ∀ e s', Step p s e s' → (Kept s' ↔ Timely p s e) := by
  have hinv : Inv s := hrun.invariant
    (fun _ _ _ hinv hstep => step_inv hpos hinv hstep.1 hstep.2) (inv_start algo)
  refine ⟨hinv.clients.kept, fun e s' hstep => ⟨fun hkept => ?_, fun htimely => ?_⟩⟩
  · by_contra hnot
    exact step_late hinv hnot hstep hkept
  · exact (step_inv hpos hinv htimely hstep).clients.kept

/-- Early replies 5 ticks before the deadline, for 30 ticks more. -/
def exampleParams : Params :=
  ⟨{ PtlrpcServer.exampleParams with at_ := ⟨1, 600, 75, fun at_ _ => at_.estimate⟩ },
    false, 30, 100⟩

/-- A WRITE with the deadline 67 that gets an early reply at 62. -/
def exampleEvents : List Event :=
  [.send 0 .write 0 0, .serve (.recv 0 .write 67), .clock 62,
    .serve (.expire [⟨0, 0, 62, 92, 0, false⟩])]

/-- The clock goes on while the timer of the only RPC is not due. -/
theorem due_of_one {now : Nat} (hr : s.rpcs 0 = some r) (hother : ∀ i, i ≠ 0 → s.rpcs i = none)
    (hdue : ∀ expire, r.timer = some expire → now ≤ expire) :
    ∀ id r expire, s.rpcs id = some r → r.timer = some expire → now ≤ expire := by
  intro id r' expire hr' htimer
  by_cases hid : id = 0
  · rw [hid, hr] at hr'
    cases hr'
    exact hdue expire htimer
  · rw [hother id hid] at hr'
    cases hr'

/-- The early reply comes before the deadline. -/
theorem timers_write :
    ∃ s, Run (fun s e s' => Timely exampleParams s e ∧ Step exampleParams s e s') (start .max)
        (exampleEvents ++ [.clock 64, .recvEarly ⟨0, 0, 62, 92, 0, false⟩]) s ∧
      Kept s ∧ ∀ e s', Step exampleParams s e s' → (Kept s' ↔ Timely exampleParams s e) := by
  have hrun : ∃ s, Run (fun s e s' => Timely exampleParams s e ∧ Step exampleParams s e s')
      (start .max) (exampleEvents ++ [.clock 64, .recvEarly ⟨0, 0, 62, 92, 0, false⟩]) s :=
    ⟨_, .cons ⟨trivial, .send rfl rfl rfl⟩ <|
      .cons ⟨(fun _ _ h => nomatch h), @Step.request _ _ _ _ 0 _ rfl (by decide) (.recv rfl rfl)⟩ <|
      .cons ⟨trivial, .clock rfl (.clock (by decide) fun t ht => by cases ht; decide)
        (due_of_one rfl (fun i hi => if_neg hi) fun t ht => by cases ht; decide)⟩ <|
      .cons ⟨(fun _ _ h => nomatch h),
        @Step.expire _ _ _ 0 _ rfl (@PtlrpcServer.Step.expire _ _ _ 2 _ rfl rfl)⟩ <|
      .cons ⟨trivial, .clock rfl (.clock (by decide) fun t ht => by cases ht; decide)
        (due_of_one rfl (fun i hi => if_neg hi) fun t ht => by cases ht; decide)⟩ <|
      .cons ⟨fun _ => ⟨(fun h => nomatch h), by decide, fun r hr => by cases hr; rfl⟩,
        .recvEarly rfl (by decide) rfl⟩ (.nil _)⟩
  obtain ⟨s, hrun⟩ := hrun
  exact ⟨s, hrun, timers_iff exampleParams .max _ s (Or.inl rfl) hrun⟩

/-- The early reply comes after the timeout and arms the timer again. The last message does not
delete it, and the RPC times out a second time. -/
theorem timers_late :
    ∃ s, Run (Step exampleParams) (start .max)
        (exampleEvents ++ [.clock 67, .timeout 0, .clock 70,
          .recvEarly ⟨0, 0, 62, 92, 0, false⟩, .serve (.turn 0 []), .serve (.turn 0 []), .clock 80,
          .recvLast ⟨0, .complete, 0, 70, 92⟩, .clock 87, .serve (.expire []), .clock 92,
          .timeout 0]) s ∧
      s.finished = [0] ∧ s.fired = [0, 0] ∧ s.late = [0] ∧ s.numrpc = 1 ∧ s.numrto = 2 ∧
      ¬ Kept s := by
  refine ⟨_, .cons (.send rfl rfl rfl) <|
    .cons (@Step.request _ _ _ _ 0 _ rfl (by decide) (.recv rfl rfl)) <|
    .cons (.clock rfl (.clock (by decide) fun t ht => by cases ht; decide)
      (due_of_one rfl (fun i hi => if_neg hi) fun t ht => by cases ht; decide)) <|
    .cons (@Step.expire _ _ _ 0 _ rfl (@PtlrpcServer.Step.expire _ _ _ 2 _ rfl rfl)) <|
    .cons (.clock rfl (.clock (by decide) fun t ht => by cases ht; decide)
      (due_of_one rfl (fun i hi => if_neg hi) fun t ht => by cases ht; decide)) <|
    .cons (.timeout rfl rfl rfl) <|
    .cons (.clock rfl (.clock (by decide) fun t ht => by cases ht; decide)
      (due_of_one rfl (fun i hi => ?_) fun t ht => nomatch ht)) <|
    .cons (.recvEarly rfl (by decide) rfl) <|
    .cons (@Step.turn _ _ _ _ 0 _ rfl (@PtlrpcServer.Step.turn _ _ _ _ 0 _ (by decide) rfl)) <|
    .cons (@Step.turn _ _ _ _ 0 _ rfl (@PtlrpcServer.Step.turn _ _ _ _ 0 _ (by decide) rfl)) <|
    .cons (.clock rfl (.clock (by decide) fun t ht => by cases ht; decide)
      (due_of_one rfl (fun i hi => ?_) fun t ht => by cases ht; decide)) <|
    .cons (.recvLast rfl (by decide) rfl) <|
    .cons (.clock rfl (.clock (by decide) fun t ht => by cases ht; decide)
      (due_of_one rfl (fun i hi => ?_) fun t ht => by cases ht; decide)) <|
    .cons (@Step.expire _ _ _ 0 _ rfl (@PtlrpcServer.Step.expire _ _ _ 0 _ rfl rfl)) <|
    .cons (.clock rfl (.clock (by decide) fun t ht => by cases ht)
      (due_of_one rfl (fun i hi => ?_) fun t ht => by cases ht; decide)) <|
    .cons (.timeout rfl rfl rfl) (.nil _), rfl, rfl, rfl, rfl, rfl, fun hkept => ?_⟩
  · exact (if_neg hi).trans (if_neg hi)
  · exact (if_neg hi).trans ((if_neg hi).trans (if_neg hi))
  · exact (if_neg hi).trans ((if_neg hi).trans ((if_neg hi).trans (if_neg hi)))
  · exact (if_neg hi).trans ((if_neg hi).trans ((if_neg hi).trans (if_neg hi)))
  · exact absurd hkept.once (by decide)

end LustreSimulator.Ptlrpc
