import Mathlib.Order.Nat
import LustreSimulator.Proofs.AdaptiveTimeout
import LustreSimulator.Proofs.PtlrpcServer

/-!
# `LustreSimulator.Proofs.EarlyReply`: the sweep of the early-reply queue

`ptlrpc_at_check_timed` takes the first RPC out of the queue, moves its deadline and puts it back,
until the first deadline is far enough. The queue is in the order of the deadlines (`Ordered`), and
the largest value of the estimate is one that is in its window or larger (`Topped`). Both hold in
every run of a server (`ordered_of_run`).

So the new deadline is more than the margin away: `at_add` has just put the time so far and
`at_extra` into the window, and `at_extra` is more than the margin. An RPC that is due is not due
after its turn (`resend_due`), and the sweep ends with nothing due (`checkTimed_spec`).

The seconds of a service time are an `int`, and times have 64 bits. `Sweeping` asks that they fit.
An RPC that has been waiting for `2 ^ 32` seconds gets a deadline that has passed
(`sweep_overflow`).
-/

set_option autoImplicit false

namespace LustreSimulator.PtlrpcServer

open Lib
open AdaptiveTimeout (atWindCnt)

variable {p : Params} {s s' : PtlrpcServer} {e : Event} {id : Nat} {ms : List Early} {m : Early}

/-! ### The window of the estimate -/

/-- No value of the window is larger than `at_max`. Before the first second of the clock is over the
window has one value. -/
structure Topped (at_ : AdaptiveTimeout) : Prop where
  hist : ∀ x ∈ at_.hist, x ≤ at_.max
  fresh : at_.start = 0 → ∀ x ∈ at_.hist.tail, x = 0

/-- The distance of a time to `at_start` fits into an `int`. -/
def Near (p : AdaptiveTimeout.Params) (at_ : AdaptiveTimeout) (now : Nat) : Prop :=
  at_.start = 0 ∨ (now / p.timeUnit - at_.start) / p.step < 2 ^ 31

/-- The largest of the values that `at_add` keeps at a time. The first value of all replaces the one
of `at_init`, and a shift forgets the values that it moves out of the window. -/
def kept (p : AdaptiveTimeout.Params) (at_ : AdaptiveTimeout) (now : Nat) : Nat :=
  if at_.start = 0 then 0
  else if now / p.timeUnit - at_.start < p.step then at_.max
  else supAll (at_.hist.take (atWindCnt - (now / p.timeUnit - at_.start) / p.step))

section Window

variable {q : AdaptiveTimeout.Params} {at_ at' : AdaptiveTimeout} {val t now : Nat}

/-- A bound of the values of a list, after the first one is replaced. -/
theorem le_of_mem_set_zero {l : List Nat} {b : Nat} (hval : val ≤ b) (htail : ∀ x ∈ l.tail, x ≤ b) :
    ∀ x ∈ l.set 0 val, x ≤ b := by
  intro x hx
  cases l with
  | nil => cases hx
  | cons y l =>
      rcases List.mem_cons.mp hx with rfl | hx
      · exact hval
      · exact htail x hx

/-- What is kept is not larger than `at_max`. -/
theorem Topped.kept_le (h : Topped at_) : kept q at_ now ≤ at_.max := by
  unfold kept
  split
  · exact Nat.zero_le _
  · split
    · exact Nat.le_refl _
    · exact supAll_le_iff.mpr fun x hx => h.hist x (List.mem_of_mem_take hx)

/-- A new value is not larger than `at_max` afterwards, and `at_max` does not pass a bound of the
new value and of what is kept. -/
theorem addValue_max {r : AdaptiveTimeout × Bool} (h : Topped at_)
    (hadd : at_.addValue q val t now = .ok r) :
    Topped r.1 ∧ val ≤ r.1.max ∧
      (Near q at_ now → Near q r.1 now ∧ ∀ b, kept q at_ now ≤ b → val ≤ b → r.1.max ≤ b) := by
  rcases AdaptiveTimeout.addValue_cases hadd with ⟨hstart, hhist, hmax, hstart'⟩ |
    ⟨hstart, hsame, hhist, hmax, hstart'⟩ |
    ⟨shift, hstart, hshift, hpos, hlater, hhist, hmax, hstart'⟩
  · -- the first value, or one more in the second 0
    have htail : (at_.hist.set 0 val).tail = at_.hist.tail := by
      cases at_.hist with
      | nil => rfl
      | cons x l => rfl
    refine ⟨⟨?_, fun _ x hx => ?_⟩, Nat.le_of_eq hmax.symm, fun _ => ⟨?_, fun b _ hb => ?_⟩⟩
    · rw [hhist, hmax]
      refine le_of_mem_set_zero (Nat.le_refl _) fun x hx => ?_
      rw [h.fresh hstart x hx]
      exact Nat.zero_le _
    · rw [hhist, htail] at hx
      exact h.fresh hstart x hx
    · right
      rw [hstart', Nat.sub_self, Nat.zero_div]
      decide
    · rwa [hmax]
  · have hhead : at_.hist.headD 0 ≤ at_.max := by
      cases hlist : at_.hist with
      | nil => exact Nat.zero_le _
      | cons x l => exact h.hist x (hlist ▸ .head l)
    have hmax' : r.1.max = at_.max ⊔ val := by
      rw [hmax]
      split <;> omega
    refine ⟨⟨?_, fun hzero => absurd (hstart' ▸ hzero) hstart⟩, ?_, fun hnear => ⟨?_,
      fun b hb hval => ?_⟩⟩
    · rw [hhist, hmax']
      exact le_of_mem_set_zero (sup_le_sup_right hhead val) fun x hx =>
        le_sup_of_le_left (h.hist x (List.mem_of_mem_tail hx))
    · rw [hmax']
      exact le_sup_right
    · unfold Near
      rw [hstart']
      exact hnear
    · rw [kept, if_neg hstart, if_pos hsame] at hb
      rw [hmax']
      exact sup_le hb hval
  · rw [AdaptiveTimeout.foldl_max] at hmax
    refine ⟨⟨?_, fun hzero => ?_⟩, ?_, fun hnear => ?_⟩
    · rw [hhist, hmax]
      refine le_of_mem_set_zero le_sup_left fun x hx => ?_
      rcases List.mem_append.mp (List.mem_of_mem_tail hx) with hx | hx
      · rw [(List.mem_replicate.mp hx).2]
        exact Nat.zero_le _
      · exact le_sup_of_le_right (le_supAll hx)
    · rw [hstart'] at hzero
      omega
    · rw [hmax]
      exact le_sup_left
    · have hfits := hnear.resolve_left hstart
      refine ⟨.inr ?_, fun b hb hval => ?_⟩
      · rw [hstart']
        exact Nat.lt_of_le_of_lt (Nat.div_le_div_right (by omega)) hfits
      · -- the shift is the distance that fits
        rw [toInt32_eq hfits] at hshift
        rw [kept, if_neg hstart, if_neg (Nat.not_lt.mpr hlater)] at hb
        rw [hmax, ← hshift]
        exact sup_le hval hb

/-- `at_add` keeps `at_max` on top. -/
theorem Topped.atAdd (h : Topped at_) (hadd : at_.atAdd q val t now = .ok at') :
    Topped at' ∧ at'.flags = at_.flags := by
  unfold AdaptiveTimeout.atAdd at hadd
  split at hadd
  · cases hadd
    exact ⟨h, rfl⟩
  obtain ⟨_, -, hadd⟩ := bind_eq_ok.mp hadd
  split at hadd
  · cases hadd
    exact ⟨h, rfl⟩
  · obtain ⟨r, hr, hadd⟩ := bind_eq_ok.mp hadd
    obtain ⟨htopped, -⟩ := addValue_max h hr
    cases hadd
    exact ⟨⟨htopped.hist, htopped.fresh⟩, AdaptiveTimeout.addValue_flags hr⟩

/-- `at_add` with a distance that fits takes the value into account. -/
theorem exists_atAdd (h : Topped at_) (hflags : at_.flags ≠ .queuedRpc ∧ at_.flags ≠ .fixed)
    (hval : val ≠ 0) (hunit : 0 < q.timeUnit) (hstep : 0 < q.step) (hnear : Near q at_ now) :
    ∃ at', at_.atAdd q val t now = .ok at' ∧ Topped at' ∧ at'.flags = at_.flags ∧ val ≤ at'.max ∧
      (∀ b, kept q at_ now ≤ b → val ≤ b → at'.max ≤ b) ∧ Near q at' now := by
  obtain ⟨r, hr⟩ := AdaptiveTimeout.exists_addValue val t hstep hnear
  obtain ⟨htopped, hle, hkeeps⟩ := addValue_max h hr
  obtain ⟨hnear', hbound⟩ := hkeeps hnear
  rcases AdaptiveTimeout.atAdd_eq t now hflags hval (Nat.ne_of_gt hunit) with
    ⟨f, hfail, -⟩ | ⟨r', est, hr', hok⟩
  · cases hr.symm.trans hfail
  · cases hr.symm.trans hr'
    exact ⟨_, hok, ⟨htopped.hist, htopped.fresh⟩, AdaptiveTimeout.addValue_flags hr, hle, hbound,
      hnear'⟩

end Window

/-! ### The order of the queue -/

/-- `rpc->arrivalTime`. -/
def arrivalTime (s : PtlrpcServer) (id : Nat) : Nat := ((s.rpcs id).map Rpc.arrivalTime).getD 0

/-- What is read of an RPC. -/
theorem reads_of_rpcs {r : Rpc} (hr : s.rpcs id = some r) :
    s.deadline id = r.deadline ∧ s.arrivalTime id = r.arrivalTime := by
  unfold deadline arrivalTime
  rw [hr]
  exact ⟨rfl, rfl⟩

/-- The queue is a tree in the order of the deadlines, and `erp_timed` is set in what it links. -/
structure Ordered (s : PtlrpcServer) : Prop where
  wf : s.epQ.WF
  nodup : s.epQ.entries.Nodup
  sorted : s.epQ.entries.Pairwise fun a b => s.deadline a ≤ s.deadline b
  timed : ∀ id ∈ s.epQ.entries, s.timed id = some true

/-- The order reads the queue and the RPCs in it. -/
theorem Ordered.frame (h : Ordered s) (hqueue : s'.epQ = s.epQ)
    (hsame : ∀ id ∈ s.epQ.entries, s'.deadline id = s.deadline id ∧ s'.timed id = s.timed id) :
    Ordered s' := by
  refine ⟨hqueue ▸ h.wf, hqueue ▸ h.nodup, ?_, fun id hid => ?_⟩
  · rw [hqueue]
    refine h.sorted.imp_of_mem fun ha hb hle => ?_
    rw [(hsame _ ha).1, (hsame _ hb).1]
    exact hle
  · rw [hqueue] at hid
    rw [(hsame id hid).2]
    exact h.timed id hid

/-- Replacing another RPC does not change what is read of this one. -/
theorem rpcs_setRpc_of_ne (s : PtlrpcServer) (r : Rpc) {i : Nat} (h : i ≠ id) :
    (s.setRpc id r).rpcs i = s.rpcs i := if_neg h

/-- The RPC that was replaced. -/
theorem rpcs_setRpc_self (s : PtlrpcServer) (id : Nat) (r : Rpc) :
    (s.setRpc id r).rpcs id = some r := if_pos rfl

/-- `Erase` takes an RPC out of the order. It may change at once. -/
theorem Ordered.erase (h : Ordered s) {q : NrsRbtree Nat} (herase : s.epQ.erase id = some q)
    (r : Rpc) : Ordered { s.setRpc id r with epQ := q } ∧ id ∉ q.entries ∧
      s.epQ.entries.Perm (id :: q.entries) := by
  obtain ⟨hwf, l, k, hlist, hlist'⟩ := h.wf.erase_split herase
  have hperm : s.epQ.entries.Perm (id :: q.entries) := by
    rw [hlist, hlist']
    exact List.perm_middle
  have hnot : id ∉ q.entries := (List.nodup_cons.mp (hperm.nodup_iff.mp h.nodup)).1
  have hsub : q.entries.Sublist s.epQ.entries := by
    rw [hlist, hlist']
    exact (List.Sublist.refl l).append (List.sublist_cons_self id k)
  have hrest : ∀ i ∈ q.entries, (s.setRpc id r).rpcs i = s.rpcs i := fun i hi =>
    rpcs_setRpc_of_ne s r fun heq => hnot (heq ▸ hi)
  refine ⟨⟨hwf, h.nodup.sublist hsub, ?_, fun i hi => ?_⟩, hnot, hperm⟩
  · refine (h.sorted.sublist hsub).imp_of_mem fun ha hb hle => ?_
    show ((s.setRpc id r).rpcs _ |>.map Rpc.deadline).getD 0 ≤ _
    unfold deadline
    dsimp only
    rw [hrest _ ha, hrest _ hb]
    exact hle
  · unfold PtlrpcServer.timed
    dsimp only
    rw [hrest i hi]
    exact h.timed i (hsub.subset hi)

/-- `Enqueue` puts an RPC at its place. -/
theorem Ordered.enqueue (h : Ordered s) {q : NrsRbtree Nat} (hnot : id ∉ s.epQ.entries)
    (htimed : s.timed id = some true) (henqueue : s.epQ.enqueue s.deadlineCompare id = some q) :
    Ordered { s with epQ := q } ∧ q.entries.Perm (id :: s.epQ.entries) := by
  have hneg : ∀ i, s.deadlineCompare id i < 0 ↔ s.deadline id ≤ s.deadline i := by
    intro i
    unfold deadlineCompare
    split
    · rename_i hgt
      exact iff_of_false (by decide) (Nat.not_le.mpr hgt)
    · rename_i hle
      exact iff_of_true (by decide) (Nat.not_lt.mp hle)
  obtain ⟨q', heq, hwf, hsorted, hperm⟩ := @NrsRbtree.enqueue_sorted Nat s.deadlineCompare s.epQ id
    (fun a b => s.deadline a ≤ s.deadline b) h.wf h.sorted
    (fun i _ hlt => (hneg i).mp hlt)
    (fun i _ hlt => Nat.le_of_not_le fun hle => hlt ((hneg i).mpr hle))
    (fun i _ j _ hle hlt => (hneg j).mpr (((hneg i).mp hlt).trans hle))
  cases heq.symm.trans henqueue
  refine ⟨⟨hwf, hperm.nodup_iff.mpr (List.nodup_cons.mpr ⟨hnot, h.nodup⟩), hsorted, ?_⟩, hperm⟩
  intro i hi
  rcases List.mem_cons.mp (hperm.mem_iff.mp hi) with rfl | hi
  · exact htimed
  · exact h.timed i hi

/-! ### Every operation keeps the order -/

/-- The queue of `s'` is in order when the one of `s` is, and so is the estimate. -/
structure Follows (s s' : PtlrpcServer) : Prop where
  ordered : Ordered s → Ordered s'
  est : Topped s.est → Topped s'.est ∧ s'.est.flags = s.est.flags

namespace Follows

/-- Nothing changes. -/
theorem refl (s : PtlrpcServer) : Follows s s := ⟨id, fun h => ⟨h, rfl⟩⟩

/-- One operation after the other. -/
theorem trans {s₁ : PtlrpcServer} (h : Follows s s₁) (h' : Follows s₁ s') : Follows s s' := by
  refine ⟨fun hs => h'.ordered (h.ordered hs), fun hs => ?_⟩
  obtain ⟨hs₁, hflags⟩ := h.est hs
  obtain ⟨hs', hflags'⟩ := h'.est hs₁
  exact ⟨hs', hflags'.trans hflags⟩

/-- What the order and the estimate read stays. -/
theorem of_same (hqueue : s'.epQ = s.epQ) (hest : s'.est = s.est)
    (hsame : ∀ id ∈ s.epQ.entries, s'.deadline id = s.deadline id ∧ s'.timed id = s.timed id) :
    Follows s s' :=
  ⟨fun h => h.frame hqueue hsame, fun h => by rw [hest]; exact ⟨h, rfl⟩⟩

end Follows

/-- `at_add` follows. -/
theorem estAdd_follows {val t : Nat} (h : s.estAdd p val t = .ok s') : Follows s s' := by
  have hframe := estAdd_frame h
  refine ⟨fun hs => ?_, fun htop => ?_⟩
  · rw [hframe]
    exact hs.frame rfl fun _ _ => ⟨rfl, rfl⟩
  · unfold estAdd at h
    cases hadd : s.est.atAdd p.at_ val t s.now with
    | error f =>
        rw [hadd] at h
        cases h
    | ok est =>
        rw [hadd] at h
        cases h
        exact htop.atAdd hadd

/-- The timer is read by neither. -/
theorem setTimer_follows (h : s.setTimer p = .ok s') : Follows s s' := by
  rw [setTimer_frame h]
  exact .of_same rfl rfl fun _ _ => ⟨rfl, rfl⟩

/-- `ptlrpc_at_add_timed` puts an RPC at its place. -/
theorem addTimed_follows {retimed : Bool} (h : s.addTimed p id retimed = .ok s') :
    Follows s s' := by
  unfold addTimed at h
  obtain ⟨r, hr, h⟩ := bind_eq_ok.mp h
  obtain ⟨_, hfalse, h⟩ := bind_eq_ok.mp h
  obtain ⟨q, henqueue, h⟩ := bind_eq_ok.mp h
  obtain ⟨-, -, h⟩ := bind_eq_ok.mp h
  rw [require_eq_ok] at hr henqueue
  rw [check_eq_ok] at hfalse
  have hadded : Follows s { s.setRpc id { r with erpTimed := true } with epQ := q } := by
    refine ⟨fun hs => ?_, fun htop => ⟨htop, rfl⟩⟩
    have hnot : id ∉ s.epQ.entries := by
      intro hid
      have htimed := hs.timed id hid
      unfold PtlrpcServer.timed at htimed
      rw [hr, Option.map_some, hfalse] at htimed
      cases htimed
    have hflag : Ordered (s.setRpc id { r with erpTimed := true }) := by
      refine hs.frame rfl fun i hi => ?_
      unfold deadline PtlrpcServer.timed
      have hne : i ≠ id := fun heq => hnot (heq ▸ hi)
      rw [rpcs_setRpc_of_ne s _ hne]
      exact ⟨rfl, rfl⟩
    refine (hflag.enqueue hnot ?_ henqueue).1
    unfold PtlrpcServer.timed
    rw [rpcs_setRpc_self]
    rfl
  cases retimed with
  | true => exact hadded.trans (setTimer_follows h)
  | false =>
      cases h
      exact hadded

/-- `ptlrpc_at_send_early_reply` changes the estimate by `at_add`. -/
theorem sendEarlyReply_est (h : s.sendEarlyReply p id = .ok (m, s')) :
    Topped s.est → Topped s'.est ∧ s'.est.flags = s.est.flags := by
  unfold sendEarlyReply at h
  obtain ⟨r, -, h⟩ := bind_eq_ok.mp h
  obtain ⟨s₁, hadd, h⟩ := bind_eq_ok.mp h
  have hfollows : Follows s s₁ := by
    split at hadd
    · exact estAdd_follows hadd
    · cases hadd
      exact .refl s
  have hest : s'.est = s₁.est := by
    dsimp only at h
    split at h
    · cases h
      rfl
    · obtain ⟨-, -, h⟩ := bind_eq_ok.mp h
      cases h
      rfl
  rw [hest]
  exact hfollows.est

/-- An RPC that gets an early reply goes to another place of the queue. -/
theorem resend_ordered (h : s.resend p id = .ok (m, s')) (hs : Ordered s) :
    Ordered s' ∧ s'.epQ.entries.Perm s.epQ.entries := by
  obtain ⟨-, r, dl, q, q', -, htimed, herase, henqueue, hs'⟩ := resend_eq h
  obtain ⟨hordered, hnot, hperm⟩ := hs.erase herase { r with deadline := dl }
  have hself : ({ s.setRpc id { r with deadline := dl } with epQ := q } : PtlrpcServer).timed id =
      some true := by
    unfold PtlrpcServer.timed
    dsimp only
    rw [rpcs_setRpc_self, Option.map_some, htimed]
  obtain ⟨hordered', hperm'⟩ := hordered.enqueue hnot hself henqueue
  rw [hs']
  exact ⟨hordered'.frame rfl fun _ _ => ⟨rfl, rfl⟩, hperm'.trans hperm.symm⟩

/-- A turn of the sweep follows. -/
theorem resend_follows (h : s.resend p id = .ok (m, s')) : Follows s s' := by
  refine ⟨fun hs => (resend_ordered h hs).1, ?_⟩
  unfold resend at h
  obtain ⟨r, -, h⟩ := bind_eq_ok.mp h
  obtain ⟨_, -, h⟩ := bind_eq_ok.mp h
  obtain ⟨q, -, h⟩ := bind_eq_ok.mp h
  obtain ⟨⟨m', s₁⟩, hsend, h⟩ := bind_eq_ok.mp h
  obtain ⟨s₂, hadd, h⟩ := bind_eq_ok.mp h
  cases h
  intro htop
  obtain ⟨htop₁, hflags⟩ := sendEarlyReply_est hsend htop
  obtain ⟨htop', hflags'⟩ := (addTimed_follows hadd).est htop₁
  exact ⟨htop', hflags'.trans hflags⟩

/-- The sweep follows. -/
theorem sweep_follows {fuel : Nat} (h : sweep p fuel s = .ok (ms, s')) : Follows s s' := by
  induction fuel generalizing s ms with
  | zero => cases h
  | succ fuel ih =>
      unfold sweep at h
      split at h
      · cases h
        exact .refl _
      · split at h
        · cases h
          exact .refl _
        · obtain ⟨⟨m', s₁⟩, hresend, h⟩ := bind_eq_ok.mp h
          obtain ⟨⟨ms', s₂⟩, hsweep, h⟩ := bind_eq_ok.mp h
          cases h
          exact (resend_follows hresend).trans (ih hsweep)

/-- `ptlrpc_at_check_timed` follows. -/
theorem checkTimed_follows {fuel : Nat} (h : s.checkTimed p fuel = .ok (ms, s')) :
    Follows s s' := by
  unfold checkTimed at h
  split at h
  · cases h
    exact .refl s
  · obtain ⟨-, -, h⟩ := bind_eq_ok.mp h
    split at h
    · obtain ⟨s₁, htimer, h⟩ := bind_eq_ok.mp h
      cases h
      exact setTimer_follows htimer
    · obtain ⟨⟨ms', s₁⟩, hsweep, h⟩ := bind_eq_ok.mp h
      obtain ⟨s₂, htimer, h⟩ := bind_eq_ok.mp h
      cases h
      exact (sweep_follows hsweep).trans (setTimer_follows htimer)

/-- `ServerSend` follows. -/
theorem serverSend_follows {fuel : Nat} (h : s.serverSend p fuel id = .ok (ms, s')) :
    Follows s s' := by
  unfold serverSend at h
  obtain ⟨r, -, h⟩ := bind_eq_ok.mp h
  obtain ⟨s₁, hcc, h⟩ := bind_eq_ok.mp h
  have hfollows : Follows s s₁ := by
    split at hcc
    · exact estAdd_follows hcc
    · cases hcc
      exact .refl s
  split at h
  · obtain ⟨s₂, hadd, h⟩ := bind_eq_ok.mp h
    have hcount : Follows s₁ { s₁ with rpcnt := s₁.rpcnt - 1 } :=
      .of_same rfl rfl fun _ _ => ⟨rfl, rfl⟩
    replace hfollows := (hfollows.trans hcount).trans (estAdd_follows hadd)
    split at h
    · obtain ⟨_, -, h⟩ := bind_eq_ok.mp h
      obtain ⟨q, herase, h⟩ := bind_eq_ok.mp h
      rw [require_eq_ok] at herase
      have herased : Follows s₂ { s₂.setRpc id { r with erpTimed := false } with epQ := q } :=
        ⟨fun hs => (hs.erase herase _).1, fun htop => ⟨htop, rfl⟩⟩
      exact (hfollows.trans herased).trans (checkTimed_follows h)
    · cases h
      exact hfollows
  · cases h
    exact hfollows

/-- A turn of a thread follows. -/
theorem handle_follows {fuel : Nat} (h : s.handle p fuel id = .ok (ms, s')) : Follows s s' := by
  unfold handle at h
  obtain ⟨r, hr, h⟩ := bind_eq_ok.mp h
  obtain ⟨⟨ms', s₁⟩, hsend, h⟩ := bind_eq_ok.mp h
  rw [require_eq_ok] at hr
  cases h
  generalize stateMachine p r.op r.state = turn at hsend ⊢
  have hset : Follows s (s.setRpc id { r with
      phase := turn.send.getD .rpc, state := turn.next.getD r.state }) := by
    refine .of_same rfl rfl fun i _ => ⟨?_, map_setRpc_same hr (by rfl) i⟩
    exact congrArg (Option.getD · 0) (map_setRpc_same (f := Rpc.deadline) hr (by rfl) i)
  have hsent : Follows (s.setRpc id { r with
      phase := turn.send.getD .rpc, state := turn.next.getD r.state }) s₁ := by
    split at hsend
    · exact serverSend_follows hsend
    · cases hsend
      exact .refl _
  have hdone : Follows s₁ ((if turn.next.isNone then { s₁ with tasks := s₁.tasks.erase id }
      else s₁).setPhase id turn.phase) := by
    refine .of_same ?_ ?_ fun i _ => ⟨?_, ?_⟩
    · split <;> rfl
    · split <;> rfl
    · refine congrArg (Option.getD · 0) ((map_setPhase (f := Rpc.deadline) _ id turn.phase
        (fun _ => rfl) i).trans ?_)
      split <;> rfl
    · refine (map_setPhase (f := Rpc.erpTimed) _ id turn.phase (fun _ => rfl) i).trans ?_
      split <;> rfl
  exact (hset.trans hsent).trans hdone

/-- Every step of a server follows. -/
theorem step_follows (h : Step p s e s') : Follows s s' := by
  cases h with
  | clock _ _ => exact .of_same rfl rfl fun _ _ => ⟨rfl, rfl⟩
  | @recv _ i op dl hnew hrecv =>
      unfold serverRecv at hrecv
      dsimp only at hrecv
      have hset : Follows s { s.setRpc i ⟨op, .new, op.firstState, false, dl, s.now⟩ with
          rpcnt := s.rpcnt + 1, tasks := s.tasks ++ [i] } := by
        refine ⟨fun hs => hs.frame rfl fun j hj => ?_, fun htop => ⟨htop, rfl⟩⟩
        -- a new RPC is not in the queue
        have hne : j ≠ i := by
          rintro rfl
          have htimed := hs.timed j hj
          unfold PtlrpcServer.timed at htimed
          rw [hnew] at htimed
          cases htimed
        unfold deadline PtlrpcServer.timed
        dsimp only
        rw [rpcs_setRpc_of_ne s _ hne]
        exact ⟨rfl, rfl⟩
      split at hrecv
      · exact hset.trans (addTimed_follows hrecv)
      · cases hrecv
        exact hset
  | turn _ hhandle => exact handle_follows hhandle
  | expire _ hcheck =>
      have hfired : Follows s { s with epTimer := none } :=
        .of_same rfl rfl fun _ _ => ⟨rfl, rfl⟩
      exact hfired.trans (checkTimed_follows hcheck)

/-- In every run of a server the queue is in order, and so is the estimate. -/
theorem ordered_of_run {algo : AdaptiveTimeout.Algo} {events : List Event}
    (hrun : Run (Step p) (start algo) events s) :
    Ordered s ∧ Topped s.est ∧ s.est.flags = algo := by
  refine hrun.invariant (P := fun s => Ordered s ∧ Topped s.est ∧ s.est.flags = algo)
    (fun _ _ _ h hstep => ?_) ⟨⟨NrsRbtree.wf_new, .nil, .nil, fun _ hid => ?_⟩, ⟨?_, fun _ => ?_⟩, rfl⟩
  · obtain ⟨hordered, htop, hflags⟩ := h
    obtain ⟨htop', hflags'⟩ := (step_follows hstep).est htop
    exact ⟨(step_follows hstep).ordered hordered, htop', hflags'.trans hflags⟩
  · cases hid
  · show ∀ x ∈ List.replicate atWindCnt 0, x ≤ 0
    decide
  · show ∀ x ∈ (List.replicate atWindCnt 0).tail, x = 0
    decide

/-! ### One RPC of the sweep -/

/-- The RPC expires soon. -/
def Due (p : Params) (s : PtlrpcServer) (id : Nat) : Prop := s.deadline id ≤ s.now + p.margin

instance (p : Params) (s : PtlrpcServer) : DecidablePred (Due p s) := fun _ =>
  inferInstanceAs (Decidable (_ ≤ _))

/-- The sweep is under way. The seconds that it puts into the window and those that stay there are at
most `b`, and the deadlines that come from `b` seconds fit. -/
structure Sweeping (p : Params) (b : Nat) (s : PtlrpcServer) : Prop where
  ordered : Ordered s
  top : Topped s.est
  flags : s.est.flags ≠ .queuedRpc ∧ s.est.flags ≠ .fixed
  near : Near p.at_ s.est s.now
  kept_le : kept p.at_ s.est s.now ≤ b
  arrived : ∀ id ∈ s.epQ.entries, s.arrivalTime id ≤ s.now
  room : ∀ id ∈ s.epQ.entries, Due p s id →
    p.extra + (s.now - s.arrivalTime id) / p.timeUnit ≤ b ∧
      s.arrivalTime id + b * p.timeUnit < 2 ^ 64

/-- What the sweep needs of the parameters, and of the seconds. -/
structure Extends (p : Params) (b : Nat) : Prop where
  unit : 0 < p.timeUnit
  step : 0 < p.at_.step
  extra : p.epMargin < p.extra
  bound : b < 2 ^ 31

/-- The service time so far, in whole seconds, and `at_extra` end after the margin. -/
theorem margin_lt {b arrival now top : Nat} (h : Extends p b) (harrived : arrival ≤ now)
    (htop : p.extra + (now - arrival) / p.timeUnit ≤ top) :
    now + p.margin < arrival + top * p.timeUnit := by
  have hrest : now - arrival < ((now - arrival) / p.timeUnit + 1) * p.timeUnit := by
    rw [Nat.mul_comm]
    exact Nat.lt_mul_div_succ (now - arrival) h.unit
  have hmore : (p.epMargin + ((now - arrival) / p.timeUnit + 1)) * p.timeUnit ≤
      top * p.timeUnit := by
    have hextra := h.extra
    exact Nat.mul_le_mul_right _ (by omega)
  rw [Nat.add_mul] at hmore
  unfold Params.margin
  omega

variable {b : Nat} {r : Rpc}

/-- `ptlrpc_at_send_early_reply` of an RPC that is due moves its deadline past the margin. -/
theorem sendEarlyReply_due (hp : Extends p b) (hr : s.rpcs id = some r) (htop : Topped s.est)
    (hflags : s.est.flags ≠ .queuedRpc ∧ s.est.flags ≠ .fixed) (hnear : Near p.at_ s.est s.now)
    (hkept : kept p.at_ s.est s.now ≤ b) (harrived : r.arrivalTime ≤ s.now) (hdue : r.deadline ≤ s.now + p.margin)
    (hsecs : p.extra + (s.now - r.arrivalTime) / p.timeUnit ≤ b)
    (hroom : r.arrivalTime + b * p.timeUnit < 2 ^ 64) :
    ∃ m dl est, s.sendEarlyReply p id =
        .ok (m, { s.setRpc id { r with deadline := dl } with est := est }) ∧
      s.now + p.margin < dl ∧ Near p.at_ est s.now ∧ est.max ≤ b := by
  have hbound := hp.bound
  have hval : (p.extra + (s.now - r.arrivalTime) / p.timeUnit) % 2 ^ 32 =
      p.extra + (s.now - r.arrivalTime) / p.timeUnit := Nat.mod_eq_of_lt (by omega)
  have hextra : p.extra ≠ 0 := Nat.ne_of_gt (Nat.zero_lt_of_lt hp.extra)
  obtain ⟨est, hadd, -, hflags', htop', hle, hnear'⟩ := @exists_atAdd p.at_ s.est
    (p.extra + (s.now - r.arrivalTime) / p.timeUnit) r.arrivalTime s.now htop hflags
    (Nat.ne_of_gt (Nat.add_pos_left (Nat.pos_of_ne_zero hextra) _)) hp.unit hp.step hnear
  have hest : est.max ≤ b := hle b hkept hsecs
  have hlater := margin_lt hp harrived htop'
  have hfits : r.arrivalTime + est.max * p.timeUnit < 2 ^ 64 :=
    Nat.lt_of_le_of_lt (Nat.add_le_add_left (Nat.mul_le_mul_right _ hest) _) hroom
  have hnewdl : toWord64 (r.arrivalTime + toInt32 est.atGetMax * p.timeUnit) =
      r.arrivalTime + est.max * p.timeUnit := by
    have hmax' : est.atGetMax = est.max := rfl
    rw [hmax', toInt32_eq (by omega)]
    exact toWord64_eq hfits
  refine ⟨⟨id, r.arrivalTime, s.now - r.arrivalTime, est.atGetMax, 0, false⟩,
    r.arrivalTime + est.max * p.timeUnit, est, ?_, hlater, hnear', hest⟩
  have hestAdd : s.estAdd p (p.extra + (s.now - r.arrivalTime) / p.timeUnit) r.arrivalTime =
      .ok { s with est := est } := by
    unfold estAdd
    rw [hadd]
  have hpast : r.arrivalTime + est.max * p.timeUnit > r.deadline ∧
      r.arrivalTime + est.max * p.timeUnit > add64 p.margin s.now := by
    rw [add64_eq (by omega)]
    omega
  unfold sendEarlyReply
  rw [require_eq_ok.mpr hr, ok_bind, if_pos hextra, hval, hestAdd, ok_bind]
  dsimp only
  rw [if_neg (by rw [hflags']; exact hflags.2), hnewdl, check_true hpast, ok_bind]
  rfl

/-- `ptlrpc_at_add_timed` of an RPC that is not due. -/
theorem exists_addTimed (hwf : s.epQ.WF) (hr : s.rpcs id = some r) (htimed : r.erpTimed = false)
    (hlater : s.now + p.margin < r.deadline) : ∃ q, s.addTimed p id false =
      .ok { s.setRpc id { r with erpTimed := true } with epQ := q } := by
  obtain ⟨q, l, k, henqueue, -⟩ := @NrsRbtree.enqueue_spec Nat
    (s.setRpc id { r with erpTimed := true }).deadlineCompare s.epQ id hwf
  refine ⟨q, ?_⟩
  have hmargin : r.deadline > p.margin ∧ r.deadline - p.margin ≥ s.now := by omega
  unfold addTimed
  rw [require_eq_ok.mpr hr, ok_bind, check_true htimed, ok_bind]
  refine bind_eq_ok.mpr ⟨q, require_eq_ok.mpr henqueue, ?_⟩
  refine bind_eq_ok.mpr ⟨(), check_true hmargin, ?_⟩
  rfl

/-- **One turn.** An RPC that is due gets an early reply, and it is not due afterwards. -/
theorem resend_due (hp : Extends p b) (h : Sweeping p b s) (hid : id ∈ s.epQ.entries)
    (hdue : Due p s id) : ∃ m s', s.resend p id = .ok (m, s') ∧ m.orig = id ∧ Sweeping p b s' ∧
      s'.epQ.entries.Perm s.epQ.entries ∧ s'.now = s.now ∧ s'.epTimer = s.epTimer ∧
      ¬ Due p s' id ∧ ∀ i, i ≠ id → s'.rpcs i = s.rpcs i := by
  have htimed := h.ordered.timed id hid
  obtain ⟨r, hr, htimed⟩ := Option.map_eq_some_iff.mp htimed
  obtain ⟨hdl, harr⟩ := reads_of_rpcs hr
  obtain ⟨hsecs, hroom⟩ := h.room id hid hdue
  have harrived := h.arrived id hid
  unfold Due at hdue
  rw [hdl] at hdue
  rw [harr] at hsecs hroom harrived
  obtain ⟨q, -, -, herase, hwf, -⟩ := NrsRbtree.erase_spec h.ordered.wf hid
  have hself : ({ s.setRpc id { r with erpTimed := false } with epQ := q } : PtlrpcServer).rpcs id =
      some { r with erpTimed := false } := rpcs_setRpc_self s id _
  obtain ⟨m, dl, est, hsend, hlater, hnear, hmax⟩ := sendEarlyReply_due hp hself h.top h.flags h.near
    h.kept_le harrived hdue hsecs hroom
  obtain ⟨q', hadd⟩ := @exists_addTimed p
    { ({ s.setRpc id { r with erpTimed := false } with epQ := q } : PtlrpcServer).setRpc id
      { r with erpTimed := false, deadline := dl } with est := est } id
    { r with erpTimed := false, deadline := dl } hwf (rpcs_setRpc_self _ id _) rfl hlater
  obtain ⟨s', hok, hnow, htimer, hest, hself', hrest⟩ : ∃ s', s.resend p id = .ok (m, s') ∧
      s'.now = s.now ∧ s'.epTimer = s.epTimer ∧ s'.est = est ∧
      s'.rpcs id = some { r with erpTimed := true, deadline := dl } ∧
      ∀ i, i ≠ id → s'.rpcs i = s.rpcs i := by
    exact ⟨_, bind_eq_ok.mpr ⟨r, require_eq_ok.mpr hr, bind_eq_ok.mpr ⟨(), check_true htimed,
      bind_eq_ok.mpr ⟨q, require_eq_ok.mpr herase, bind_eq_ok.mpr ⟨_, hsend,
        bind_eq_ok.mpr ⟨_, hadd, rfl⟩⟩⟩⟩⟩, rfl, rfl, rfl,
      rpcs_setRpc_self _ id _, fun i hi => (if_neg hi).trans ((if_neg hi).trans (if_neg hi))⟩
  obtain ⟨hordered, hperm⟩ := resend_ordered hok h.ordered
  obtain ⟨htop, hflags⟩ := (resend_follows hok).est h.top
  obtain ⟨hdl', harr'⟩ := reads_of_rpcs hself'
  have hnotdue : ¬ Due p s' id := by
    unfold Due
    rw [hdl', hnow]
    exact Nat.not_le.mpr hlater
  have hsame : ∀ i, i ≠ id → s'.deadline i = s.deadline i ∧ s'.arrivalTime i = s.arrivalTime i := by
    intro i hi
    unfold deadline arrivalTime
    rw [hrest i hi]
    exact ⟨rfl, rfl⟩
  refine ⟨m, s', hok, (resend_eq hok).1.1, ⟨hordered, htop, hflags ▸ h.flags, ?_, ?_, fun i hi => ?_,
    fun i hi hdue' => ?_⟩, hperm, hnow, htimer, hnotdue, hrest⟩
  · rw [hest, hnow]
    exact hnear
  · exact htop.kept_le.trans (hest ▸ hmax)
  · rw [hnow]
    by_cases hne : i = id
    · rw [hne, harr']
      exact harrived
    · rw [(hsame i hne).2]
      exact h.arrived i (hperm.mem_iff.mp hi)
  · have hne : i ≠ id := by
      rintro rfl
      exact hnotdue hdue'
    unfold Due at hdue'
    rw [(hsame i hne).1, hnow] at hdue'
    rw [(hsame i hne).2, hnow]
    exact h.room i (hperm.mem_iff.mp hi) hdue'

/-! ### The sweep -/

/-- The RPCs of the queue that are due. -/
def dueList (p : Params) (s : PtlrpcServer) : List Nat := s.epQ.entries.filter (Due p s ·)

/-- Words do not wrap where the RPCs are due. -/
theorem Sweeping.due_iff (hp : Extends p b) (h : Sweeping p b s) (hid : id ∈ s.epQ.entries) :
    s.deadline id > add64 s.now p.margin ↔ ¬ Due p s id := by
  unfold Due
  by_cases hdue : s.deadline id ≤ s.now + p.margin
  · obtain ⟨hsecs, hroom⟩ := h.room id hid hdue
    have hfits := margin_lt hp (h.arrived id hid) hsecs
    rw [add64_eq (by omega)]
    omega
  · have hle : add64 s.now p.margin ≤ s.now + p.margin := Nat.mod_le _ _
    omega

/-- The first entry of the queue. -/
theorem first_eq_some {id : Nat} (h : s.epQ.first = some id) : id ∈ s.epQ.entries :=
  List.mem_of_head? ((NrsRbtree.first_eq_head s.epQ).symm.trans h)

/-- When the first RPC is not due, no RPC is. -/
theorem Ordered.not_due (h : Ordered s) (hfirst : s.epQ.first = some id) (hnot : ¬ Due p s id) :
    ∀ i ∈ s.epQ.entries, ¬ Due p s i := by
  rw [NrsRbtree.first_eq_head, List.head?_eq_some_iff] at hfirst
  obtain ⟨rest, hlist⟩ := hfirst
  have hsorted := h.sorted
  rw [hlist, List.pairwise_cons] at hsorted
  intro i hi hdue
  rw [hlist] at hi
  rcases List.mem_cons.mp hi with rfl | hi
  · exact hnot hdue
  · exact hnot ((hsorted.1 i hi).trans hdue)

/-- A turn takes its RPC off the ones that are due. -/
theorem dueList_perm (hnodup : s.epQ.entries.Nodup) (hid : id ∈ s.epQ.entries) (hdue : Due p s id)
    (hperm : s'.epQ.entries.Perm s.epQ.entries) (hnow : s'.now = s.now) (hnot : ¬ Due p s' id)
    (hrest : ∀ i, i ≠ id → s'.rpcs i = s.rpcs i) :
    (dueList p s).Perm (id :: dueList p s') := by
  have hsame : ∀ i, Due p s' i ↔ i ≠ id ∧ Due p s i := by
    intro i
    by_cases hi : i = id
    · exact iff_of_false (hi ▸ hnot) fun h => h.1 hi
    · unfold Due deadline
      rw [hrest i hi, hnow]
      exact (and_iff_right hi).symm
  have hfilter : s.epQ.entries.filter (Due p s' ·) = (dueList p s).erase id := by
    unfold dueList
    rw [List.Nodup.erase_eq_filter (hnodup.filter _), List.filter_filter]
    refine List.filter_congr fun i _ => ?_
    simp only [hsame, ne_eq, Bool.decide_and, decide_not]
    rfl
  have hmem : id ∈ dueList p s := List.mem_filter.mpr ⟨hid, decide_eq_true hdue⟩
  refine (List.perm_cons_erase hmem).trans (List.Perm.cons id ?_)
  rw [← hfilter]
  exact (hperm.filter _).symm

/-- What a sweep leaves: nothing due, the same RPCs, and an early reply for each that was due. -/
structure Swept (p : Params) (b : Nat) (ms : List Early) (s s' : PtlrpcServer) : Prop where
  sweeping : Sweeping p b s'
  none_due : ∀ id ∈ s'.epQ.entries, ¬ Due p s' id
  perm : s'.epQ.entries.Perm s.epQ.entries
  now : s'.now = s.now
  replies : (ms.map Early.orig).Perm (dueList p s)

/-- Nothing is due and nothing is done. -/
theorem Sweeping.swept_self (h : Sweeping p b s) (hnone : ∀ id ∈ s.epQ.entries, ¬ Due p s id) :
    Swept p b [] s s := by
  refine ⟨h, hnone, .refl _, rfl, ?_⟩
  have hempty : dueList p s = [] :=
    List.filter_eq_nil_iff.mpr fun i hi hdue => hnone i hi (of_decide_eq_true hdue)
  rw [hempty]
  exact .nil

/-- The sweep ends after one turn for each RPC that is due. -/
theorem sweep_spec {fuel : Nat} (hp : Extends p b) (h : Sweeping p b s)
    (hfuel : (dueList p s).length < fuel) :
    ∃ ms s', sweep p fuel s = .ok (ms, s') ∧ Swept p b ms s s' := by
  induction fuel generalizing s with
  | zero => exact absurd hfuel (Nat.not_lt_zero _)
  | succ fuel ih =>
      unfold sweep
      cases hfirst : s.epQ.first with
      | none =>
          have hempty : s.epQ.entries = [] := by
            rwa [NrsRbtree.first_eq_head, List.head?_eq_none_iff] at hfirst
          refine ⟨[], s, rfl, h.swept_self fun id hid => ?_⟩
          rw [hempty] at hid
          cases hid
      | some id =>
          have hid := first_eq_some hfirst
          dsimp only
          by_cases hdue : Due p s id
          · rw [if_neg fun hlater => (h.due_iff hp hid).mp hlater hdue]
            obtain ⟨m, s₁, hok, horig, hsweeping, hperm, hnow, -, hnot, hrest⟩ :=
              resend_due hp h hid hdue
            have hdues := dueList_perm h.ordered.nodup hid hdue hperm hnow hnot hrest
            have hlength := hdues.length_eq
            rw [List.length_cons] at hlength
            obtain ⟨ms, s', hsweep, hswept⟩ := ih hsweeping (by omega)
            refine ⟨m :: ms, s', bind_eq_ok.mpr ⟨_, hok, bind_eq_ok.mpr ⟨_, hsweep, rfl⟩⟩,
              hswept.sweeping, hswept.none_due, hswept.perm.trans hperm, hswept.now.trans hnow, ?_⟩
            rw [List.map_cons, horig]
            exact (hswept.replies.cons id).trans hdues.symm
          · rw [if_pos ((h.due_iff hp hid).mpr hdue)]
            exact ⟨[], s, rfl, h.swept_self (h.ordered.not_due hfirst hdue)⟩

/-- The timer goes off `at_epmargin` before the first deadline. -/
theorem exists_setTimer (hne : s.epQ.entries ≠ []) (h : Ordered s)
    (hnone : ∀ id ∈ s.epQ.entries, ¬ Due p s id) :
    ∃ id ∈ s.epQ.entries, (∀ i ∈ s.epQ.entries, s.deadline id ≤ s.deadline i) ∧
      s.now < s.deadline id - p.margin ∧
      s.setTimer p = .ok { s with epTimer := some (s.deadline id - p.margin) } := by
  cases hlist : s.epQ.entries with
  | nil => exact absurd hlist hne
  | cons id rest =>
      have hfirst : s.epQ.first = some id := by
        rw [NrsRbtree.first_eq_head, hlist]
        rfl
      have hid := first_eq_some hfirst
      have hnot := hnone id hid
      unfold Due at hnot
      have hsorted := h.sorted
      rw [hlist, List.pairwise_cons] at hsorted
      refine ⟨id, hlist ▸ hid, fun i hi => ?_, by omega, ?_⟩
      · rcases List.mem_cons.mp hi with rfl | hi
        · exact Nat.le_refl _
        · exact hsorted.1 i hi
      · have hmargin : s.deadline id > p.margin ∧ s.deadline id - p.margin ≥ s.now := by omega
        unfold setTimer
        rw [require_eq_ok.mpr hfirst, ok_bind]
        dsimp only
        rw [check_true hmargin, ok_bind, Timer.modTimer_of_lt (by omega)]
        rfl

/-- The queue when the sweep starts: no deadline has passed. -/
structure Waiting (s : PtlrpcServer) : Prop where
  ordered : Ordered s
  top : Topped s.est
  nonempty : s.epQ.entries ≠ []
  deadline : ∀ id ∈ s.epQ.entries, s.now ≤ s.deadline id
  arrived : ∀ id ∈ s.epQ.entries, s.arrivalTime id ≤ s.now

/-- When an RPC is due, the seconds and the new deadlines fit. -/
def Fits (p : Params) (s : PtlrpcServer) : Prop :=
  (∃ id ∈ s.epQ.entries, Due p s id) → Near p.at_ s.est s.now ∧ ∃ b, b < 2 ^ 31 ∧
    kept p.at_ s.est s.now ≤ b ∧ ∀ id ∈ s.epQ.entries, Due p s id →
      p.extra + (s.now - s.arrivalTime id) / p.timeUnit ≤ b ∧
        s.arrivalTime id + b * p.timeUnit < 2 ^ 64

/-- What `ptlrpc_at_check_timed` restores: the same RPCs, all of them with a deadline after the
margin, each extended once at most, and the timer armed for the first one. -/
structure Restored (p : Params) (ms : List Early) (s s' : PtlrpcServer) : Prop where
  once : (ms.map Early.orig).Nodup
  perm : s'.epQ.entries.Perm s.epQ.entries
  later : ∀ id ∈ s'.epQ.entries, s.now + p.margin < s'.deadline id
  timer : ∃ id ∈ s'.epQ.entries, (∀ i ∈ s'.epQ.entries, s'.deadline id ≤ s'.deadline i) ∧
    s'.epTimer = some (s'.deadline id - p.margin) ∧ s.now < s'.deadline id - p.margin

/-- With nothing due, the timer is all that is left to do. -/
theorem restored_of_none_due (ms : List Early) {s₁ : PtlrpcServer}
    (hperm : s₁.epQ.entries.Perm s.epQ.entries) (hne : s.epQ.entries ≠ []) (hnow : s₁.now = s.now) (hordered : Ordered s₁)
    (hnone : ∀ id ∈ s₁.epQ.entries, ¬ Due p s₁ id)
    (honce : (ms.map Early.orig).Nodup) :
    ∃ s', s₁.setTimer p = .ok s' ∧ Restored p ms s s' := by
  have hne₁ : s₁.epQ.entries ≠ [] := fun hempty => hne (List.nil_perm.mp (hempty ▸ hperm))
  obtain ⟨id, hid, hfirst, hlater, htimer⟩ := exists_setTimer hne₁ hordered hnone
  refine ⟨_, htimer, honce, hperm, fun i hi => ?_, id, hid, hfirst, rfl, hnow ▸ hlater⟩
  have hnot := hnone i hi
  unfold Due at hnot
  rw [hnow] at hnot
  exact Nat.not_le.mp hnot

/-- **The sweep of the early-reply queue** ends, none of its assertions fails, and it leaves every
deadline after the margin and the timer armed for the first one. -/
theorem checkTimed_spec {fuel : Nat} (hunit : 0 < p.timeUnit) (hstep : 0 < p.at_.step)
    (hextra : p.epMargin < p.extra) (hflags : s.est.flags = .max ∨ s.est.flags = .curfit)
    (h : Waiting s) (hfits : Fits p s) (hfuel : s.epQ.entries.length < fuel) :
    ∃ ms s', s.checkTimed p fuel = .ok (ms, s') ∧ Restored p ms s s' := by
  have hfirst : ∃ id, s.epQ.first = some id := by
    rw [NrsRbtree.first_eq_head]
    exact ⟨_, List.head?_eq_some_head h.nonempty⟩
  obtain ⟨id, hfirst⟩ := hfirst
  have hid := first_eq_some hfirst
  have hdl := h.deadline id hid
  unfold checkTimed
  rw [hfirst]
  dsimp only
  rw [check_true hdl, ok_bind]
  by_cases hdue : Due p s id
  · -- the window and the deadlines have room for what the sweep adds
    obtain ⟨hnear, b, hb, hkept, hroom⟩ := hfits ⟨id, hid, hdue⟩
    have hsweeping : Sweeping p b s := by
      refine ⟨h.ordered, h.top, ?_, hnear, hkept, h.arrived, hroom⟩
      rcases hflags with hflags | hflags
      · rw [hflags]
        exact ⟨by decide, by decide⟩
      · rw [hflags]
        exact ⟨by decide, by decide⟩
    have hlength : (dueList p s).length ≤ s.epQ.entries.length := List.length_filter_le ..
    obtain ⟨ms, s₁, hsweep, hswept⟩ := sweep_spec ⟨hunit, hstep, hextra, hb⟩ hsweeping
      (Nat.lt_of_le_of_lt hlength hfuel)
    have honce : (ms.map Early.orig).Nodup :=
      hswept.replies.nodup_iff.mpr (h.ordered.nodup.filter _)
    obtain ⟨s', htimer, hrestored⟩ := restored_of_none_due ms hswept.perm h.nonempty hswept.now
      hswept.sweeping.ordered hswept.none_due honce
    unfold Due at hdue
    rw [if_neg (by omega)]
    exact ⟨ms, s', bind_eq_ok.mpr ⟨_, hsweep, bind_eq_ok.mpr ⟨_, htimer, rfl⟩⟩, hrestored⟩
  · obtain ⟨s', htimer, hrestored⟩ := restored_of_none_due [] (.refl _) h.nonempty rfl h.ordered
      (h.ordered.not_due hfirst hdue) List.nodup_nil
    unfold Due at hdue
    rw [if_pos (by omega)]
    exact ⟨[], s', bind_eq_ok.mpr ⟨_, htimer, rfl⟩, hrestored⟩

/-- Two WRITEs, and the first one is due. -/
theorem checkTimed_two :
    ∃ s ms s', Run (Step exampleParams) (start .curfit)
        [.recv 0 .write 1000, .recv 1 .write 2000, .clock 950] s ∧
      s.checkTimed exampleParams 3 = .ok (ms, s') ∧ Restored exampleParams ms s s' := by
  have hrun : ∃ s, Run (Step exampleParams) (start .curfit)
      [.recv 0 .write 1000, .recv 1 .write 2000, .clock 950] s ∧
      s.epQ.entries = [0, 1] ∧ s.now = 950 ∧ s.deadline 0 = 1000 ∧
      s.deadline 1 = 2000 ∧ s.arrivalTime 0 = 0 ∧ s.arrivalTime 1 = 0 ∧
      s.est.start = 0 := by
    refine ⟨_, .cons (.recv rfl rfl) <| .cons (.recv rfl rfl) <|
      .cons (.clock (by decide) fun t ht => ?_) (.nil _), rfl, rfl, rfl, rfl, rfl, rfl, rfl⟩
    cases ht
    decide
  obtain ⟨s, hrun, hlist, hnow, hdl₀, hdl₁, harr₀, harr₁, hstart⟩ := hrun
  obtain ⟨hordered, htop, hflags⟩ := ordered_of_run hrun
  have hcases : ∀ id ∈ s.epQ.entries, (s.deadline id = 1000 ∨
      s.deadline id = 2000) ∧ s.arrivalTime id = 0 := by
    rw [hlist]
    intro id hid
    rcases List.mem_pair.mp hid with rfl | rfl
    · exact ⟨.inl hdl₀, harr₀⟩
    · exact ⟨.inr hdl₁, harr₁⟩
  have hwaiting : Waiting s := by
    refine ⟨hordered, htop, by rw [hlist]; exact List.cons_ne_nil _ _, fun id hid => ?_,
      fun id hid => ?_⟩
    · rw [hnow]
      rcases (hcases id hid).1 with h | h <;> omega
    · rw [(hcases id hid).2]
      exact Nat.zero_le _
  have hfits : Fits exampleParams s := by
    refine fun _ => ⟨.inl hstart, 125, by decide, by rw [kept, if_pos hstart]; decide,
      fun id hid _ => ?_⟩
    rw [(hcases id hid).2, hnow]
    decide
  obtain ⟨ms, s', hok⟩ := checkTimed_spec (p := exampleParams) (s := s) (by decide) (by decide)
    (by decide) (.inr hflags) hwaiting hfits (show s.epQ.entries.length < 3 by rw [hlist]; decide)
  exact ⟨s, ms, s', hrun, hok⟩

/-- The early replies of the source: 5 seconds before the deadline, for 30 seconds more. -/
def earlyParams : Params :=
  ⟨true, false, false, true, 5, 30, ⟨1000000000, 600, 5, fun at_ _ => at_.estimate⟩⟩

/-- A WRITE that waits for `2 ^ 32` seconds: `extra_time` is 30 again, and the new deadline has
passed. -/
theorem sweep_overflow :
    ¬ ∀ (p : Params) (s : PtlrpcServer) (fuel : Nat), 0 < p.timeUnit → 0 < p.at_.step →
      p.epMargin < p.extra → s.est.flags = .max ∨ s.est.flags = .curfit → Waiting s →
      s.epQ.entries.length < fuel →
      ∃ ms s', s.checkTimed p fuel = .ok (ms, s') ∧ Restored p ms s s' := by
  intro hall
  have hrun : ∃ s, Run (Step earlyParams) (start .curfit)
      [.recv 0 .write 4294967301000000000, .clock 4294967296000000000] s ∧
      s.epQ.entries = [0] ∧ s.now = 4294967296000000000 ∧ s.deadline 0 = 4294967301000000000 ∧
      s.arrivalTime 0 = 0 ∧ (s.checkTimed earlyParams 2).toOption.isNone = true := by
    refine ⟨_, .cons (.recv rfl rfl) <| .cons (.clock (by decide) fun t ht => ?_) (.nil _), rfl, rfl,
      rfl, rfl, by decide +kernel⟩
    exact Nat.le_of_eq (Option.some.inj ht)
  obtain ⟨s, hrun, hlist, hnow, hdl, harr, hfail⟩ := hrun
  obtain ⟨hordered, htop, hflags⟩ := ordered_of_run hrun
  have hwaiting : Waiting s := by
    refine ⟨hordered, htop, by rw [hlist]; exact List.cons_ne_nil _ _, fun id hid => ?_,
      fun id hid => ?_⟩
    · rw [hlist] at hid
      rw [List.mem_singleton.mp hid, hnow, hdl]
      decide
    · rw [hlist] at hid
      rw [List.mem_singleton.mp hid, harr]
      exact Nat.zero_le _
  obtain ⟨ms, s', hok, -⟩ := hall earlyParams s 2 (by decide) (by decide) (by decide)
    (.inr hflags) hwaiting (by rw [hlist]; decide)
  rw [hok] at hfail
  cases hfail

end LustreSimulator.PtlrpcServer
