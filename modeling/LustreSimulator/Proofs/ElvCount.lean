import LustreSimulator.Lib.Run
import LustreSimulator.Proofs.Disk

/-!
# `LustreSimulator.Proofs.ElvCount`: the counters of the elevators

`Serving` is an elevator with the requests that were dequeued and are not completed, and `OpStep`
are the calls on it, in any order. `Counts` says that `count` of a direction is the number of its
requests in the elevator and behind it, and that `inflight` is the number of those behind it.

`sorted` is never counted up. `sorted_step` says which calls count it down: those that merge two
requests or dispatch one. `counters_exact` is the result over runs.

`Disk.Step.ops` says that a step of the disk is a run of such calls, so the counters of an elevator
are exact under a disk as well.
-/

set_option autoImplicit false

namespace LustreSimulator

open Lib

namespace Elevator

/-- `Enqueue(req)` without the plugging of the disk. -/
def enqueue (e : Elevator) (p : Params) (req : Submitted) : Except Fault Elevator :=
  (e.mergeIoreq p req).bind fun r =>
  -- the ioreq has joined a request, or it gets one of its own
  if r.1 then .ok r.2 else (r.2.newRequest req).elvAddRequest p r.2.nextReq

/-! ### The counter `sorted` -/

section
variable {e e' : Elevator} {p : Params} {rq : Nat}

/-- `AttemptMerge(rq, next)` merges the two requests. -/
def merges (e : Elevator) (p : Params) (rq next : Nat) : Bool :=
  let a := e.reqs rq
  let b := e.reqs next
  add64 a.off a.count = b.off ∧ a.cmd = b.cmd ∧ add64 a.count b.count ≤ p.maxsize

/-- The ioreq fills the gap between two requests: it joins one, and that one is merged with its
neighbour then. -/
def fillsGap (e : Elevator) (p : Params) (req : Submitted) : Bool :=
  match e.elvMergeVirtual p req.toIoreq with
  | (.backMerge, some rq) =>
      let r := e.reqs rq
      let e' := e.setReq rq { r with batch := r.batch ++ [req], count := add64 r.count req.count }
      decide (add64 r.count req.count ≤ p.maxsize) &&
        (e'.elvLatterRequest rq).any fun next => e'.merges p rq next
  | (.frontMerge, some rq) =>
      let r := e.reqs rq
      let e' := e.setReq rq
        { r with batch := req :: r.batch, count := add64 r.count req.count, off := req.off }
      decide (add64 r.count req.count ≤ p.maxsize) &&
        (e'.elvFormerRequest rq).any fun prev => e'.merges p prev rq
  | _ => false

/-- `AttemptMerge` counts `sorted` down when it merges. -/
theorem attemptMerge_sorted {next : Nat} {r : Bool × Elevator}
    (h : e.attemptMerge p rq next = .ok r) :
    r.2.sorted = if e.merges p rq next then sub64 e.sorted 1 else e.sorted := by
  unfold attemptMerge at h
  dsimp only at h
  unfold merges
  dsimp only
  split at h
  · rename_i hoff
    cases h
    simp [hoff]
  split at h
  · rename_i hcmd
    cases h
    simp [hcmd]
  split at h
  · rename_i hlarge
    cases h
    simp [Nat.not_le.mpr hlarge]
  · rename_i hoff hcmd hlarge
    obtain ⟨_, -, h⟩ := bind_eq_ok.mp h
    obtain ⟨e₁, hmerge, h⟩ := bind_eq_ok.mp h
    cases h
    obtain ⟨s, -, hmerge⟩ := bind_eq_ok.mp hmerge
    obtain ⟨e₂, hrepo, hmerge⟩ := bind_eq_ok.mp hmerge
    cases hmerge
    rw [if_pos (by simpa using ⟨not_not.mp hoff, not_not.mp hcmd, Nat.not_lt.mp hlarge⟩)]
    -- only `ElvMergeRequests` itself counts
    exact congrArg (fun n => sub64 n 1) (rqhashReposition_spec hrepo).1.sorted

/-- `ElvMergedRequest` does not change it. -/
theorem elvMergedRequest_sorted {type : MergeType}
    (h : e.elvMergedRequest p rq type = .ok e') : e'.sorted = e.sorted := by
  obtain ⟨s, -, h⟩ := bind_eq_ok.mp h
  obtain ⟨e₁, hrepo, h⟩ := bind_eq_ok.mp h
  cases h
  split at hrepo
  · exact (rqhashReposition_spec hrepo).1.sorted
  · cases hrepo
    rfl

/-- `AttemptBackMerge` counts it down when it merges. -/
theorem attemptBackMerge_sorted {r : Bool × Elevator} (h : e.attemptBackMerge p rq = .ok r) :
    r.2.sorted = if (e.elvLatterRequest rq).any fun next => e.merges p rq next
      then sub64 e.sorted 1 else e.sorted := by
  unfold attemptBackMerge at h
  split at h
  · rename_i next hnext
    rw [hnext]
    exact attemptMerge_sorted h
  · rename_i hnone
    rw [hnone]
    cases h
    rfl

@[inherit_doc attemptBackMerge_sorted]
theorem attemptFrontMerge_sorted {r : Bool × Elevator} (h : e.attemptFrontMerge p rq = .ok r) :
    r.2.sorted = if (e.elvFormerRequest rq).any fun prev => e.merges p prev rq
      then sub64 e.sorted 1 else e.sorted := by
  unfold attemptFrontMerge at h
  split at h
  · rename_i prev hprev
    rw [hprev]
    exact attemptMerge_sorted h
  · rename_i hnone
    rw [hnone]
    cases h
    rfl

/-- What comes after the attempt to merge a request that grew does not change it. -/
theorem grown_sorted {type : MergeType} {m r : Bool × Elevator}
    (h : (if m.1 then Except.ok (true, m.2)
      else (m.2.elvMergedRequest p rq type).bind fun e => .ok (true, e)) = .ok r) :
    r.2.sorted = m.2.sorted := by
  split at h
  · cases h
    rfl
  · obtain ⟨e₁, hmerged, h⟩ := bind_eq_ok.mp h
    cases h
    exact elvMergedRequest_sorted hmerged

/-- An ioreq that makes its request too large does not count it down. -/
theorem llMergeFn_sorted {io : Ioreq} {grown : Except Fault (Bool × Elevator)} {fills : Bool}
    {r : Bool × Elevator}
    (h : (if (e.llMergeFn p rq io).1 = false then .ok (false, (e.llMergeFn p rq io).2)
      else grown) = .ok r)
    (hgrown : grown = .ok r → r.2.sorted = if fills then sub64 e.sorted 1 else e.sorted) :
    r.2.sorted = if decide (add64 (e.reqs rq).count io.count ≤ p.maxsize) && fills
      then sub64 e.sorted 1 else e.sorted := by
  unfold llMergeFn at h
  split at h
  · rename_i hlarge
    cases h
    simp [Nat.not_le.mpr hlarge]
  · rename_i hfits
    rw [if_neg (show ¬true = false by decide)] at h
    simp only [Nat.not_lt.mp hfits, decide_true, Bool.true_and]
    exact hgrown h

/-- The switch of `Enqueue` counts it down when the ioreq fills a gap. -/
theorem mergeIoreq_sorted {req : Submitted} {r : Bool × Elevator}
    (h : e.mergeIoreq p req = .ok r) :
    r.2.sorted = if e.fillsGap p req then sub64 e.sorted 1 else e.sorted := by
  unfold mergeIoreq at h
  unfold fillsGap
  generalize e.elvMergeVirtual p req.toIoreq = merge at h ⊢
  obtain ⟨type, found⟩ := merge
  cases found with
  | none =>
      -- no request touches the ioreq
      cases type <;>
      · cases h
        rfl
  | some rq =>
      cases type with
      | noMerge =>
          cases h
          rfl
      | backMerge =>
          refine llMergeFn_sorted h fun h => ?_
          obtain ⟨m, hmerged, h⟩ := bind_eq_ok.mp h
          exact (grown_sorted h).trans (attemptBackMerge_sorted hmerged)
      | frontMerge =>
          refine llMergeFn_sorted h fun h => ?_
          obtain ⟨m, hmerged, h⟩ := bind_eq_ok.mp h
          exact (grown_sorted h).trans (attemptFrontMerge_sorted hmerged)

/-- `ElvAddRequest` does not change it. -/
theorem elvAddRequest_sorted (h : e.elvAddRequest p rq = .ok e') : e'.sorted = e.sorted := by
  obtain ⟨e₁, hadd, h⟩ := bind_eq_ok.mp h
  have hsame : e'.sorted = e₁.sorted := by
    unfold addRequest at h
    split at h
    · cases h
      rfl
    · obtain ⟨d, -, h⟩ := bind_eq_ok.mp h
      cases h
      rfl
  exact hsame.trans (rqhashAdd_spec hadd).1.sorted

/-- `Enqueue` counts it down when the ioreq fills a gap. -/
theorem enqueue_sorted {req : Submitted} (h : e.enqueue p req = .ok e') :
    e'.sorted = if e.fillsGap p req then sub64 e.sorted 1 else e.sorted := by
  obtain ⟨r, hmerge, h⟩ := bind_eq_ok.mp h
  rw [← mergeIoreq_sorted hmerge]
  split at h
  · cases h
    rfl
  · exact elvAddRequest_sorted (e := r.2.newRequest req) h

/-- `Dispatch` counts it down when it moves a request, and it does when there is one. -/
theorem dispatch_sorted {o : Option Elevator} (h : e.dispatch = .ok o) :
    if e.queueEmpty then o = none else ∃ e', o = some e' ∧ e'.sorted = sub64 e.sorted 1 := by
  unfold dispatch at h
  unfold queueEmpty
  split at h
  · rename_i hsched
    cases h
    rw [hsched]
    rfl
  · rename_i rq rest hsched
    cases h
    rw [hsched]
    refine ⟨_, rfl, ?_⟩
    have hsame := (rqhashDel_spec { e with sched := .noop rest, last := none } rq).1.sorted
    exact congrArg (fun n => sub64 n 1) hsame
  · rename_i d hsched
    rw [hsched]
    simp only [Bool.and_eq_true, List.isEmpty_iff]
    split at h
    · rename_i hempty
      cases h
      rw [if_pos hempty]
    · rename_i hne
      rw [if_neg hne]
      dsimp only at h
      split at h
      · cases h
      · rename_i node _
        obtain ⟨e₁, hmove, h⟩ := bind_eq_ok.mp h
        cases h
        obtain ⟨d', -, hmove⟩ := bind_eq_ok.mp hmove
        cases hmove
        refine ⟨_, rfl, ?_⟩
        have hsame := (rqhashDel_spec { e with
          sched := .deadline d'
          last := if e.last = some node.entry then none else e.last } node.entry).1.sorted
        exact congrArg (fun n => sub64 n 1) hsame

/-- `Dequeue` counts it down when it has to dispatch. -/
theorem dequeue_sorted {r : Option Nat × Elevator} (h : e.dequeue = .ok r) :
    r.2.sorted = if e.queue ≠ [] ∨ e.queueEmpty then e.sorted else sub64 e.sorted 1 := by
  obtain ⟨m, hnext, h⟩ := bind_eq_ok.mp h
  have hsame : r.2.sorted = m.2.sorted := by
    split at h
    · cases h
      rfl
    · dsimp only at h
      split at h <;> cases h <;> rfl
  rw [hsame]
  unfold elvNextRequest at hnext
  split at hnext
  · rename_i hqueue
    cases hnext
    rw [if_pos (.inl (by simp [hqueue]))]
  · rename_i hqueue
    obtain ⟨o, hdispatch, hnext⟩ := bind_eq_ok.mp hnext
    have hsorted := dispatch_sorted hdispatch
    simp only [hqueue, ne_eq, not_true_eq_false, false_or]
    split at hsorted
    · rename_i hempty
      cases hsorted
      cases hnext
      rw [if_pos hempty]
    · rename_i hne
      obtain ⟨e₁, rfl, hsorted⟩ := hsorted
      rw [if_neg hne, ← hsorted]
      dsimp only at hnext
      split at hnext <;> cases hnext
      rfl

end

/-- An elevator and the requests that were dequeued and are not completed. -/
structure Serving where
  elv : Elevator
  out : List Nat

/-- The calls on an elevator. `ioreq` is the completion of an ioreq of a request, which is before
the completion of the request. -/
inductive Op where
  | enqueue (req : Submitted)
  | dequeue
  | ioreq (rq : Nat)
  | complete (rq : Nat)
  deriving DecidableEq, Repr

/-- A call that does not abort. -/
inductive OpStep (p : Params) : Serving → Op → Serving → Prop where
  | enqueue {s : Serving} {req : Submitted} {e : Elevator} : s.elv.enqueue p req = .ok e →
      OpStep p s (.enqueue req) ⟨e, s.out⟩
  | dequeue {s : Serving} {rq : Nat} {e : Elevator} : s.elv.dequeue = .ok (some rq, e) →
      OpStep p s .dequeue ⟨e, s.out ++ [rq]⟩
  | idle {s : Serving} {e : Elevator} : s.elv.dequeue = .ok (none, e) →
      OpStep p s .dequeue ⟨e, s.out⟩
  | ioreq {s : Serving} {rq : Nat} {req : Submitted} {rest : List Submitted} : rq ∈ s.out →
      (s.elv.reqs rq).batch = req :: rest →
      OpStep p s (.ioreq rq) ⟨s.elv.setReq rq { s.elv.reqs rq with batch := rest }, s.out⟩
  | complete {s : Serving} {rq : Nat} {e : Elevator} : rq ∈ s.out →
      s.elv.putRequest rq = .ok e → OpStep p s (.complete rq) ⟨e, s.out.erase rq⟩

namespace Serving

variable {s s' : Serving} {p : Params} {rq : Nat}

/-- The requests in the elevator and behind it. -/
def live (s : Serving) : List Nat := s.elv.sched.members ++ s.out

/-- The directions of the requests in the elevator and behind it. -/
def cmds (s : Serving) : List Cmd := s.live.map fun i => (s.elv.reqs i).cmd

/-- No request is at two places, and the counters are right. -/
structure Counts (s : Serving) : Prop where
  wf : WF s.elv
  nodup : s.live.Nodup
  lt : ∀ i ∈ s.live, i < s.elv.nextReq
  count : ∀ c, s.elv.count c = s.cmds.count c
  inflight : s.elv.inflight = s.out.length % 2 ^ 64

/-- Requests that keep their directions. -/
theorem cmds_perm {l : List Nat} (hlive : s'.live.Perm l)
    (hcmd : ∀ i ∈ l, (s'.elv.reqs i).cmd = (s.elv.reqs i).cmd) :
    s'.cmds.Perm (l.map fun i => (s.elv.reqs i).cmd) := by
  refine (hlive.map _).trans (List.Perm.of_eq ?_)
  exact List.map_congr_left hcmd

/-- The requests stay, up to their order. -/
theorem Counts.keep (h : Counts s) (hwf : WF s'.elv) (hlive : s'.live.Perm s.live)
    (hcmd : ∀ i ∈ s.live, (s'.elv.reqs i).cmd = (s.elv.reqs i).cmd)
    (hnext : s'.elv.nextReq = s.elv.nextReq) (hcount : s'.elv.count = s.elv.count)
    (hin : s'.elv.inflight = s'.out.length % 2 ^ 64) : Counts s' := by
  refine ⟨hwf, hlive.nodup_iff.mpr h.nodup, fun i hi => ?_, fun c => ?_, hin⟩
  · rw [hnext]
    exact h.lt i (hlive.mem_iff.mp hi)
  · rw [hcount, h.count c, (cmds_perm hlive hcmd).count_eq c]
    rfl

/-- The request `b` comes. -/
theorem Counts.come {b : Nat} (h : Counts s) (hwf : WF s'.elv) (hlive : s'.live.Perm (b :: s.live))
    (hcmd : ∀ i ∈ s.live, (s'.elv.reqs i).cmd = (s.elv.reqs i).cmd) (hb : b = s.elv.nextReq)
    (hnext : s'.elv.nextReq = s.elv.nextReq + 1)
    (hcount : ∀ c, s'.elv.count c =
      if c = (s'.elv.reqs b).cmd then s.elv.count c + 1 else s.elv.count c)
    (hin : s'.elv.inflight = s'.out.length % 2 ^ 64) : Counts s' := by
  -- the addresses of the requests are below `nextReq`, so `b` is new
  have hnew : b ∉ s.live := fun hmem => Nat.lt_irrefl b (hb ▸ h.lt b hmem)
  refine ⟨hwf, hlive.nodup_iff.mpr (List.nodup_cons.mpr ⟨hnew, h.nodup⟩), fun i hi => ?_,
    fun c => ?_, hin⟩
  · rw [hnext]
    rcases List.mem_cons.mp (hlive.mem_iff.mp hi) with rfl | hi
    · omega
    · have := h.lt i hi
      omega
  · have hcmds : s'.cmds.Perm ((s'.elv.reqs b).cmd :: s.cmds) :=
      (hlive.map _).trans ((List.Perm.of_eq (List.map_congr_left hcmd)).cons _)
    rw [hcount c, hcmds.count_eq c, List.count_cons, h.count c]
    by_cases hc : c = (s'.elv.reqs b).cmd
    · rw [if_pos hc, if_pos (beq_iff_eq.mpr hc.symm)]
      rfl
    · rw [if_neg hc, if_neg (fun heq => hc (beq_iff_eq.mp heq).symm)]
      rfl

/-- The request `b` goes. -/
theorem Counts.go {b : Nat} (h : Counts s) (hwf : WF s'.elv) (hlive : s.live.Perm (b :: s'.live))
    (hcmd : ∀ i ∈ s'.live, (s'.elv.reqs i).cmd = (s.elv.reqs i).cmd)
    (hnext : s'.elv.nextReq = s.elv.nextReq)
    (hcount : ∀ c, s'.elv.count c =
      if c = (s.elv.reqs b).cmd then s.elv.count c - 1 else s.elv.count c)
    (hin : s'.elv.inflight = s'.out.length % 2 ^ 64) : Counts s' := by
  refine ⟨hwf, (List.nodup_cons.mp (hlive.nodup_iff.mp h.nodup)).2, fun i hi => ?_, fun c => ?_,
    hin⟩
  · rw [hnext]
    exact h.lt i (hlive.mem_iff.mpr (List.mem_cons_of_mem b hi))
  · -- what is left has the directions that it had
    have hrest : (s'.live.map fun i => (s.elv.reqs i).cmd).Perm s'.cmds :=
      .of_eq (List.map_congr_left fun i hi => (hcmd i hi).symm)
    have hcmds : s.cmds.Perm ((s.elv.reqs b).cmd :: s'.cmds) := (hlive.map _).trans (hrest.cons _)
    have hbefore := h.count c
    rw [hcmds.count_eq c, List.count_cons] at hbefore
    rw [hcount c, hbefore]
    by_cases hc : c = (s.elv.reqs b).cmd
    · rw [if_pos hc, if_pos (beq_iff_eq.mpr hc.symm)]
      omega
    · rw [if_neg hc, if_neg (fun heq => hc (beq_iff_eq.mp heq).symm)]
      rfl

/-! ### The calls -/

/-- The directions of the requests that an ioreq joins or that are merged stay. -/
theorem cmd_setReq {r₁ : Request} (e : Elevator) (hcmd : r₁.cmd = (e.reqs rq).cmd) (i : Nat) :
    ((e.setReq rq r₁).reqs i).cmd = (e.reqs i).cmd := by
  by_cases hi : i = rq
  · rw [hi, reqs_setReq_self, hcmd]
  · rw [reqs_setReq_ne e r₁ hi]

/-- An ioreq joined a request and two members were merged. Only the directions of the requests
matter for the counters. -/
theorem Counts.absorbed {r₁ : Request} {a b : Nat} {e : Elevator} (h : Counts s) (hwf : WF e)
    (hcmd : r₁.cmd = (s.elv.reqs rq).cmd) (habs : Absorbed (s.elv.setReq rq r₁) e a b) :
    Counts ⟨e, s.out⟩ := by
  have hcmds := cmd_setReq s.elv hcmd
  have hgo := habs.count
  rw [hcmds] at hgo
  have hlive : s.live.Perm (b :: live ⟨e, s.out⟩) :=
    ((List.perm_cons_erase habs.mem_right).trans (habs.members.symm.cons b)).append_right s.out
  -- `b` goes, and its ioreqs are those of `a`
  refine h.go hwf hlive (fun i hi => ?_) habs.nextReq hgo (habs.inflight.trans h.inflight)
  have hb : i ≠ b := by
    rintro rfl
    exact (List.nodup_cons.mp (hlive.nodup_iff.mp h.nodup)).1 hi
  -- the direction of `a` stays, as that of the others does
  rw [← hcmds i]
  by_cases ha : i = a
  · rw [ha]
    exact congrArg Prod.fst habs.job
  · exact cmd_of_core (habs.rest i ha hb)

/-- An elevator whose members and counters stay. -/
theorem Counts.unmoved {e : Elevator} (h : Counts s) (hwf : WF e) (hsame : Unmoved s.elv e) :
    Counts ⟨e, s.out⟩ :=
  h.keep hwf (hsame.members.append_right s.out) (fun i _ => cmd_of_core (hsame.core i))
    hsame.nextReq hsame.count (hsame.inflight.trans h.inflight)

/-- `Enqueue` keeps the counters right. -/
theorem Counts.enqueue {req : Submitted} {e : Elevator} (h : Counts s)
    (hok : s.elv.enqueue p req = .ok e) : Counts ⟨e, s.out⟩ := by
  obtain ⟨r, hmerge, hok⟩ := bind_eq_ok.mp hok
  obtain ⟨hwf, ⟨hno, hsame⟩ | ⟨hyes, rq, r₁, hmem, hjoin, hresult⟩⟩ := mergeIoreq_spec hmerge h.wf
  · -- the ioreq gets a request of its own
    rw [if_neg (by rw [hno]; decide)] at hok
    have h₁ := h.unmoved hwf hsame
    obtain ⟨hwf', hadded⟩ := elvAddRequest_spec hwf hok
    -- the new request has the direction of its ioreq
    have hcmd : (e.reqs r.2.nextReq).cmd = req.cmd := congrArg Prod.fst hadded.job
    refine h₁.come hwf' (hadded.members.append_right s.out) (fun i hi => ?_) rfl hadded.nextReq
      (fun c => ?_) (hadded.inflight.trans h₁.inflight)
    · refine cmd_of_core (hadded.rest i ?_)
      exact Nat.ne_of_lt (h₁.lt i hi)
    · rw [hadded.count c, hcmd]
  · -- the ioreq joins a request, and two requests may be merged then
    rw [if_pos hyes] at hok
    cases hok
    have hcmd : r₁.cmd = (s.elv.reqs rq).cmd := hjoin.cmd
    have hcmds := cmd_setReq s.elv hcmd
    rcases hresult with hsame | ⟨a, b, habs⟩
    · exact h.keep hwf (hsame.members.append_right s.out)
        (fun i _ => (cmd_of_core (hsame.core i)).trans (hcmds i)) hsame.nextReq hsame.count
        (hsame.inflight.trans h.inflight)
    · exact h.absorbed hwf hcmd habs

/-- `Dequeue` keeps the counters right. -/
theorem Counts.dequeue {r : Option Nat × Elevator} (h : Counts s) (hok : s.elv.dequeue = .ok r) :
    (r = (none, s.elv)) ∨ ∃ rq, r.1 = some rq ∧ Counts ⟨r.2, s.out ++ [rq]⟩ := by
  rcases dequeue_spec hok h.wf with ⟨hr, -⟩ | ⟨rq, hrq, hwf, htaken, hin⟩
  · exact Or.inl hr
  · -- the request is behind the elevator now, so all requests are where they can be
    have hlive : (live ⟨r.2, s.out ++ [rq]⟩).Perm s.live := by
      show (r.2.sched.members ++ (s.out ++ [rq])).Perm (s.elv.sched.members ++ s.out)
      rw [htaken.members, ← List.append_assoc]
      refine (List.perm_append_singleton rq _).trans ?_
      exact ((List.perm_cons_erase htaken.mem).symm).append_right s.out
    refine Or.inr ⟨rq, hrq, h.keep hwf hlive (fun i _ => cmd_of_core (htaken.core i))
      htaken.nextReq htaken.count ?_⟩
    -- `inflight` is a 64-bit number, and so counts modulo `2 ^ 64`
    show r.2.inflight = (s.out ++ [rq]).length % 2 ^ 64
    rw [hin, h.inflight, List.length_append, List.length_singleton]
    unfold add64
    omega

/-- The completion of an ioreq keeps the counters right. -/
theorem Counts.ioreq {rest : List Submitted} (h : Counts s) :
    Counts ⟨s.elv.setReq rq { s.elv.reqs rq with batch := rest }, s.out⟩ := by
  have hcmd : ({ s.elv.reqs rq with batch := rest } : Request).cmd = (s.elv.reqs rq).cmd := rfl
  exact h.keep (h.wf.setReq rfl rfl) (.refl _) (fun i _ => cmd_setReq s.elv hcmd i) rfl rfl
    h.inflight

/-- There is a request of the direction of `rq`. -/
theorem Counts.count_pos (h : Counts s) (hrq : rq ∈ s.out) :
    0 < s.elv.count (s.elv.reqs rq).cmd := by
  rw [h.count]
  refine Int.natCast_pos.mpr (List.count_pos_iff.mpr ?_)
  exact List.mem_map.mpr ⟨rq, List.mem_append_right _ hrq, rfl⟩

/-- The completion of a request does not abort, and it keeps the counters right. -/
theorem Counts.complete (h : Counts s) (hrq : rq ∈ s.out) :
    ∃ e, s.elv.putRequest rq = .ok e ∧ Counts ⟨e, s.out.erase rq⟩ := by
  have hpos := h.count_pos hrq
  -- `CHECK(count[cmd] > 0)` holds because of the request itself
  have hput : s.elv.putRequest rq = .ok
      { s.elv.addCount (s.elv.reqs rq).cmd (-1) with inflight := sub64 s.elv.inflight 1 } := by
    unfold putRequest
    dsimp only
    rw [check_true (by omega)]
    rfl
  refine ⟨_, hput, ?_⟩
  obtain ⟨hwf, -⟩ := putRequest_spec hput h.wf
  have hlive : s.live.Perm (rq :: (s.elv.sched.members ++ s.out.erase rq)) :=
    ((List.perm_cons_erase hrq).append_left _).trans List.perm_middle
  refine h.go hwf hlive (fun _ _ => rfl) rfl (fun c => rfl) ?_
  -- both sides lose one, also when `inflight` has wrapped
  show sub64 s.elv.inflight 1 = (s.out.erase rq).length % 2 ^ 64
  have hlen := List.length_pos_of_mem hrq
  rw [h.inflight, List.length_erase_of_mem hrq]
  unfold sub64
  omega

/-- Every call keeps the counters right. -/
theorem Counts.step {op : Op} (h : Counts s) (hstep : OpStep p s op s') : Counts s' := by
  cases hstep with
  | enqueue hok => exact h.enqueue hok
  | dequeue hok =>
      rcases h.dequeue hok with hnone | ⟨rq, hrq, hcounts⟩
      · cases hnone
      · cases hrq
        exact hcounts
  | idle hok =>
      rcases h.dequeue hok with hnone | ⟨rq, hrq, -⟩
      · cases hnone
        exact h
      · cases hrq
  | ioreq => exact h.ioreq
  | complete hrq hok =>
      obtain ⟨e, hput, hcounts⟩ := h.complete hrq
      cases hput.symm.trans hok
      exact hcounts

/-! ### The counters -/

/-- Every request has one of the two directions. -/
theorem count_cmds (l : List Cmd) : l.count .read + l.count .write = l.length := by
  induction l with
  | nil => rfl
  | cons c l ih =>
      rw [List.count_cons, List.count_cons, List.length_cons]
      cases c with
      | read => simp; omega
      | write => simp; omega

/-- The number of the requests in the elevator is the difference of the counters. -/
theorem Counts.pending (h : Counts s) : s.elv.getPendingNum = s.elv.size % 2 ^ 64 := by
  have hcmds := count_cmds s.cmds
  have hlen : s.cmds.length = s.elv.sched.members.length + s.out.length := by
    unfold cmds live
    rw [List.length_map, List.length_append]
  -- the two counts are all requests, and those behind the elevator are taken away
  unfold getPendingNum
  rw [h.count, h.count, h.inflight, size_eq h.wf]
  omega

/-- A new elevator. -/
def start (sched : Sched) : Serving := ⟨Elevator.start sched, []⟩

/-- The counters of a new elevator are right. -/
theorem counts_start {sched : Sched} (hsched : sched = .startNoop ∨ sched = .startDeadline) :
    Counts (start sched) := by
  obtain ⟨hwf, hmembers⟩ := wf_start hsched
  have hlive : (start sched).live = [] := by
    show (Elevator.start sched).sched.members ++ [] = []
    rw [hmembers]
    rfl
  refine ⟨hwf, ?_, ?_, fun c => ?_, rfl⟩
  · rw [hlive]
    exact List.nodup_nil
  · rw [hlive]
    exact fun i hi => nomatch hi
  · unfold cmds
    rw [hlive]
    rfl

/-- The counters are those of the requests. -/
structure Exact (s : Serving) : Prop where
  /-- `count` is the number of the requests of the direction, so it is not negative. -/
  count : ∀ c, s.elv.count c = s.cmds.count c
  /-- `inflight` is the number of the requests that were dequeued and are not completed. -/
  inflight : s.elv.inflight = s.out.length % 2 ^ 64
  /-- `GetPendingNum` is the number of the requests in the elevator. -/
  pending : s.elv.getPendingNum = s.elv.size % 2 ^ 64
  /-- The completion of a request finds its counters positive. -/
  complete : ∀ rq ∈ s.out, 0 < s.elv.count (s.elv.reqs rq).cmd ∧
    (s.out.length < 2 ^ 64 → 0 < s.elv.inflight) ∧ ∃ e, s.elv.putRequest rq = .ok e

/-- The counters are exact while they are right. -/
theorem Counts.exact (h : Counts s) : Exact s := by
  refine ⟨h.count, h.inflight, h.pending, fun rq hrq => ⟨h.count_pos hrq, fun hlt => ?_, ?_⟩⟩
  · -- the request is one of those behind the elevator
    have hpos := List.length_pos_of_mem hrq
    rw [h.inflight, Nat.mod_eq_of_lt hlt]
    exact hpos
  · obtain ⟨e, hput, -⟩ := h.complete hrq
    exact ⟨e, hput⟩

/-- Every request in the elevator and behind it has an address of its own, so there are fewer than
`2 ^ 64` of them. Then neither `count` nor `inflight` wraps, and the threshold of unplugging is
compared with the number of the requests in the elevator. -/
theorem counts_exact {sched : Sched} {ops : List Op}
    (hsched : sched = .startNoop ∨ sched = .startDeadline)
    (hrun : Run (OpStep p) (start sched) ops s) :
    Exact s ∧ (s.live.length < 2 ^ 64 →
      s.elv.inflight = s.out.length ∧ s.elv.getPendingNum = s.elv.size) := by
  have h : Counts s := hrun.invariant (fun _ _ _ h hstep => h.step hstep) (counts_start hsched)
  refine ⟨h.exact, fun hlt => ?_⟩
  -- below `2 ^ 64` the two numbers are what they are modulo `2 ^ 64`
  unfold live at hlt
  rw [List.length_append] at hlt
  refine ⟨?_, ?_⟩
  · rw [h.inflight, Nat.mod_eq_of_lt (by omega)]
  · rw [h.pending, size_eq h.wf, Nat.mod_eq_of_lt (by omega)]

/-- The call neither merges two requests nor dispatches one: the ioreq of `Enqueue` fills no gap, and
`Dequeue` finds a request in `Queue` or none in the elevator. -/
def Spares (p : Params) (s : Serving) : Op → Prop
  | .enqueue req => s.elv.fillsGap p req = false
  | .dequeue => s.elv.queue ≠ [] ∨ s.elv.queueEmpty = true
  | .ioreq _ | .complete _ => True

/-- `sorted` is counted down by a call that merges two requests or dispatches one, and by no other
call. No call counts it up. -/
theorem sorted_step {op : Op} (hstep : OpStep p s op s') :
    (Spares p s op → s'.elv.sorted = s.elv.sorted) ∧
    (¬Spares p s op → s'.elv.sorted = sub64 s.elv.sorted 1) := by
  cases hstep with
  | enqueue hok =>
      rw [enqueue_sorted hok]
      refine ⟨fun hspares => ?_, fun hnot => if_pos (Bool.not_eq_false _ ▸ hnot)⟩
      rw [if_neg (Bool.eq_false_iff.mp hspares)]
  | dequeue hok =>
      have hsorted := dequeue_sorted hok
      exact ⟨fun hspares => hsorted.trans (if_pos hspares), fun hnot => hsorted.trans (if_neg hnot)⟩
  | idle hok =>
      have hsorted := dequeue_sorted hok
      exact ⟨fun hspares => hsorted.trans (if_pos hspares), fun hnot => hsorted.trans (if_neg hnot)⟩
  | ioreq => exact ⟨fun _ => rfl, fun hnot => absurd trivial hnot⟩
  | complete _ hok =>
      obtain ⟨_, -, hok⟩ := bind_eq_ok.mp hok
      cases hok
      exact ⟨fun _ => rfl, fun hnot => absurd trivial hnot⟩

/-- **The counters of the elevators.** In every run `count`, `inflight` and `GetPendingNum` are
exact. `sorted` stays 0 as long as no call merges two requests or dispatches one, and the first call
that does takes it below zero: the 64-bit number wraps around. -/
theorem counters_exact {sched : Sched} {ops : List Op}
    (hsched : sched = .startNoop ∨ sched = .startDeadline)
    (hrun : Run (OpStep p) (start sched) ops s) :
    Exact s ∧ (s.live.length < 2 ^ 64 →
      s.elv.inflight = s.out.length ∧ s.elv.getPendingNum = s.elv.size) ∧
    (Run (fun s op t => Spares p s op ∧ OpStep p s op t) (start sched) ops s →
      s.elv.sorted = 0 ∧ ∀ op s', OpStep p s op s' →
        (s'.elv.sorted = 0 ↔ Spares p s op) ∧
        (¬Spares p s op → s'.elv.sorted = 2 ^ 64 - 1)) := by
  obtain ⟨hexact, hlive⟩ := counts_exact hsched hrun
  refine ⟨hexact, hlive, fun hspared => ?_⟩
  have hzero : s.elv.sorted = 0 :=
    hspared.invariant (P := fun s => s.elv.sorted = 0)
      (fun _ _ _ h hstep => ((sorted_step hstep.2).1 hstep.1).trans h) rfl
  refine ⟨hzero, fun op s' hstep => ?_⟩
  obtain ⟨hspares, hcounts⟩ := sorted_step hstep
  rw [hzero] at hspares hcounts
  refine ⟨⟨fun h => ?_, hspares⟩, hcounts⟩
  by_contra hnot
  rw [hcounts hnot] at h
  exact absurd h (by decide)

/-- Two reads that do not touch. Then either the one between them comes, or one of them is
dequeued. -/
theorem counters_exact_merge :
    ∃ s, Run (OpStep ⟨2 ^ 20, 4, fun off => off % 64, 3⟩) (start .startNoop)
        [.enqueue ⟨⟨.read, 0, 0, 0, 4096⟩, 0⟩, .enqueue ⟨⟨.read, 0, 0, 8192, 4096⟩, 1⟩] s ∧
      s.elv.count .read = 2 ∧ s.elv.getPendingNum = s.elv.size ∧ s.elv.sorted = 0 ∧
      (∃ t, OpStep ⟨2 ^ 20, 4, fun off => off % 64, 3⟩ s
        (.enqueue ⟨⟨.read, 0, 0, 4096, 4096⟩, 2⟩) t ∧ t.elv.sorted = 2 ^ 64 - 1) ∧
      ∃ t, OpStep ⟨2 ^ 20, 4, fun off => off % 64, 3⟩ s .dequeue t ∧
        t.elv.sorted = 2 ^ 64 - 1 := by
  have hexists : ∃ s, Run (fun s op t => Spares ⟨2 ^ 20, 4, fun off => off % 64, 3⟩ s op ∧
        OpStep ⟨2 ^ 20, 4, fun off => off % 64, 3⟩ s op t) (start .startNoop)
        [.enqueue ⟨⟨.read, 0, 0, 0, 4096⟩, 0⟩, .enqueue ⟨⟨.read, 0, 0, 8192, 4096⟩, 1⟩] s ∧
      s.elv.count .read = 2 ∧ s.live.length = 2 ∧
      (∃ t, OpStep ⟨2 ^ 20, 4, fun off => off % 64, 3⟩ s
        (.enqueue ⟨⟨.read, 0, 0, 4096, 4096⟩, 2⟩) t ∧
        ¬Spares ⟨2 ^ 20, 4, fun off => off % 64, 3⟩ s
          (.enqueue ⟨⟨.read, 0, 0, 4096, 4096⟩, 2⟩)) ∧
      ∃ t, OpStep ⟨2 ^ 20, 4, fun off => off % 64, 3⟩ s .dequeue t ∧
        ¬Spares ⟨2 ^ 20, 4, fun off => off % 64, 3⟩ s .dequeue :=
    ⟨_, .cons ⟨rfl, .enqueue rfl⟩ <| .cons ⟨rfl, .enqueue rfl⟩ (.nil _), rfl, rfl,
      ⟨_, .enqueue rfl, by unfold Spares; decide⟩, ⟨_, .dequeue rfl, by unfold Spares; decide⟩⟩
  obtain ⟨s, hspared, hcount, hlive, ⟨t, hfill, hfills⟩, ⟨u, hdequeue, hdispatches⟩⟩ := hexists
  obtain ⟨-, hpending, hsorted⟩ :=
    counters_exact (Or.inl rfl) (hspared.mono fun _ _ _ hstep => hstep.2)
  obtain ⟨hzero, hnext⟩ := hsorted hspared
  refine ⟨s, hspared.mono fun _ _ _ hstep => hstep.2, hcount, (hpending ?_).2, hzero,
    ⟨t, hfill, (hnext _ _ hfill).2 hfills⟩, ⟨u, hdequeue, (hnext _ _ hdequeue).2 hdispatches⟩⟩
  rw [hlive]
  decide

/-- One read goes through `ElvNoop`, or through `ElvDeadline`, and `sorted` is below zero: it was 0,
and `Dequeue` counts it down. -/
theorem sorted_wraps :
    (∃ s t, OpStep ⟨2 ^ 20, 4, fun off => off % 64, 3⟩ (start .startNoop)
        (.enqueue ⟨⟨.read, 0, 0, 0, 4096⟩, 0⟩) s ∧ s.elv.sorted = 0 ∧
      OpStep ⟨2 ^ 20, 4, fun off => off % 64, 3⟩ s .dequeue t ∧ t.elv.sorted = 2 ^ 64 - 1) ∧
    ∃ s t, OpStep ⟨2 ^ 20, 4, fun off => off % 64, 3⟩ (start .startDeadline)
        (.enqueue ⟨⟨.read, 0, 0, 0, 4096⟩, 0⟩) s ∧ s.elv.sorted = 0 ∧
      OpStep ⟨2 ^ 20, 4, fun off => off % 64, 3⟩ s .dequeue t ∧ t.elv.sorted = 2 ^ 64 - 1 :=
  ⟨⟨_, _, .enqueue rfl, rfl, .dequeue rfl, rfl⟩, _, _, .enqueue rfl, rfl, .dequeue rfl, rfl⟩

end Serving

end Elevator

/-! ### Under a disk -/

namespace Disk

open Elevator

variable {d d' : Disk} {p : Params} {out : List Nat}

/-- The elevator of the disk with the requests in the `Queue` of the disk and the one that it
serves. -/
def serving (d : Disk) : Serving := ⟨d.elv, d.queue ++ d.current⟩

/-- From `d` to `d'` the elevator gets calls only. -/
def Calls (p : Params) (d d' : Disk) : Prop :=
  ∀ out, out.Perm (d.queue ++ d.current) → ∃ ops out', out'.Perm (d'.queue ++ d'.current) ∧
    Run (OpStep p) ⟨d.elv, out⟩ ops ⟨d'.elv, out'⟩

/-- No call. -/
theorem calls_of_same (helv : d'.elv = d.elv)
    (hout : (d.queue ++ d.current).Perm (d'.queue ++ d'.current)) : Calls p d d' := by
  intro out hperm
  rw [helv]
  exact ⟨[], out, hperm.trans hout, .nil _⟩

/-- Calls after calls. -/
theorem Calls.trans {d₁ : Disk} (h : Calls p d d₁) (h' : Calls p d₁ d') : Calls p d d' := by
  intro out hperm
  obtain ⟨ops, out₁, hperm₁, hrun⟩ := h out hperm
  obtain ⟨ops', out', hperm', hrun'⟩ := h' out₁ hperm₁
  exact ⟨ops ++ ops', out', hperm', hrun.append hrun'⟩

/-- A request that leaves the elevator goes to the `Queue` of the disk. -/
theorem calls_dequeue {rq : Nat} {e : Elevator} (hdequeue : d.elv.dequeue = .ok (some rq, e)) :
    Calls p d (d.ready e [rq]) := by
  intro out hperm
  refine ⟨[.dequeue], out ++ [rq], ?_, .cons (.dequeue hdequeue) (.nil _)⟩
  show (out ++ [rq]).Perm (d.queue ++ [rq] ++ (d.ready e [rq]).current)
  rw [current_ready, List.append_assoc]
  refine (hperm.append_right [rq]).trans ?_
  rw [List.append_assoc]
  exact List.perm_append_comm.append_left d.queue

/-- The loop of `Request`. -/
theorem calls_requestLoop {k : Nat} (h : requestLoop k d = .ok d') (hwf : WF d.elv) :
    Calls p d d' := by
  induction k generalizing d with
  | zero => cases h
  | succ k ih =>
      unfold requestLoop at h
      obtain ⟨r, hdequeue, h⟩ := bind_eq_ok.mp h
      rcases dequeue_spec hdequeue hwf with ⟨rfl, -⟩ | ⟨rq, hrq, hwf', -⟩
      · cases h
        exact calls_of_same rfl (.refl _)
      · rw [hrq] at h
        dsimp only at h
        obtain ⟨d₁, hsubmit, hloop⟩ := bind_eq_ok.mp h
        -- `SubmitRq` moves the request to the `Queue` of the disk
        have hd₁ : d₁ = d.ready r.2 [rq] := submitRq_spec hsubmit
        subst hd₁
        have hdequeue : d.elv.dequeue = .ok (some rq, r.2) := by
          rw [hdequeue, ← hrq]
        exact (calls_dequeue hdequeue).trans (ih hloop hwf')

/-- `Unplug`. -/
theorem calls_unplug (h : d.unplug = .ok d') (hwf : WF d.elv) : Calls p d d' := by
  unfold unplug at h
  split at h
  · exact calls_requestLoop (d := { d with timer := Timer.delTimer d.timer, pluged := false }) h hwf
  · cases h
    exact calls_of_same rfl (.refl _)

/-- `Enqueue` is a call, and the disk may be unplugged after it. -/
theorem calls_submit {r : Ioreq} (h : d.submitIoreq p r = .ok d') (hwf : WF d.elv) :
    Calls p d d' := by
  unfold submitIoreq at h
  dsimp only at h
  obtain ⟨m, hmerge, h⟩ := bind_eq_ok.mp h
  have hwf₁ := (mergeIoreq_spec hmerge hwf).1
  -- the call of `Enqueue`, without the disk
  have hcall : ∀ d₁ : Disk, d.elv.enqueue p ⟨r, d.nextSerial⟩ = .ok d₁.elv →
      d₁.queue = d.queue → d₁.current = d.current → Calls p d d₁ := by
    intro d₁ henq hqueue hcurrent out hperm
    refine ⟨_, out, ?_, .cons (.enqueue henq) (.nil _)⟩
    rw [hqueue, hcurrent]
    exact hperm
  split at h
  · -- merged: the disk does nothing else
    rename_i hyes
    cases h
    refine hcall _ ?_ rfl rfl
    unfold Elevator.enqueue
    rw [hmerge]
    exact if_pos hyes
  · rename_i hno
    -- a new request may plug the disk before and unplug it after
    unfold enqueueNew at h
    dsimp only at h
    obtain ⟨d₁, hplug, h⟩ := bind_eq_ok.mp h
    have hd₁ := plugs_spec (d := { d with elv := m.2, nextSerial := d.nextSerial + 1 })
      (e := m.2.newRequest ⟨r, d.nextSerial⟩) hwf₁ rfl rfl hplug
    subst hd₁
    obtain ⟨e₁, hadd, h⟩ := bind_eq_ok.mp h
    obtain ⟨hwf₂, -⟩ := elvAddRequest_spec hwf₁ hadd
    have henq : d.elv.enqueue p ⟨r, d.nextSerial⟩ = .ok e₁ := by
      unfold Elevator.enqueue
      rw [hmerge]
      exact (if_neg hno).trans hadd
    split at h
    · refine (hcall _ ?_ ?_ ?_).trans (calls_unplug h hwf₂)
      · exact henq
      · rfl
      · rfl
    · cases h
      refine hcall _ ?_ ?_ ?_
      · exact henq
      · rfl
      · rfl

/-- `WorkState` takes the next request from `Queue` to serve it. -/
theorem calls_workState (h : d.workState = .ok d') (hstate : d.diskState ≠ .reqFinished) :
    Calls p d d' := by
  have hcurrent : d.current = [] := if_neg hstate
  unfold workState at h
  split at h
  · -- nothing to serve
    rename_i hqueue
    cases h
    refine calls_of_same rfl ?_
    rw [hcurrent]
    exact .refl _
  · -- the first request of `Queue` is served next, so it stays behind the elevator
    rename_i rq rest hqueue
    obtain ⟨u, -, h⟩ := bind_eq_ok.mp h
    cases h
    refine calls_of_same rfl ?_
    rw [hcurrent, hqueue, List.append_nil]
    exact (List.perm_append_singleton rq rest).symm

/-- The request that is ended. -/
theorem current_ending {rq : Nat} (hs : Sound d) (hending : d.ending = true)
    (hcur : d.curq = some rq) : d.current = [rq] := by
  rw [current, if_pos (hs.ending hending), hcur]
  rfl

/-- The end of a request is its completion. -/
theorem calls_endRequest {rq : Nat} (h : d.endRequest rq = .ok d') (hs : Sound d)
    (hending : d.ending = true) (hcur : d.curq = some rq) : Calls p d d' := by
  unfold endRequest at h
  obtain ⟨e, hput, h⟩ := bind_eq_ok.mp h
  have hcall : ∀ st : DiskState, st ≠ .reqFinished →
      Calls p d { d with elv := e, ending := false, diskState := st } := by
    intro st hst out hperm
    rw [current_ending hs hending hcur] at hperm
    have hmem : rq ∈ out := hperm.mem_iff.mpr (List.mem_append_right _ (List.mem_singleton_self rq))
    refine ⟨[.complete rq], out.erase rq, ?_, .cons (.complete hmem hput) (.nil _)⟩
    -- after the end no request is current
    have hafter : ({ d with elv := e, ending := false, diskState := st } : Disk).current = [] :=
      if_neg hst
    rw [hafter, List.append_nil]
    exact (List.perm_cons_erase hmem).symm.trans
      (hperm.trans (List.perm_append_singleton rq d.queue)) |>.cons_inv
  dsimp only at h
  split at h
  · cases h
    refine hcall .idle ?_
    decide
  · refine (hcall .work ?_).trans (calls_workState h ?_)
    · decide
    · exact fun heq => nomatch heq

/-- **A step of the disk is a run of calls on its elevator.** -/
theorem Step.calls {ev : Event} (h : Step p d ev d') (hs : Sound d) : Calls p d d' := by
  cases h with
  | clock => exact calls_of_same rfl (.refl _)
  | submit hsubmit => exact calls_submit hsubmit hs.wf
  | timer _ _ hunplug => exact calls_unplug (d := { d with timer := none }) hunplug hs.wf
  | thread hending _ hmachine =>
      unfold diskStateMachine at hmachine
      split at hmachine
      · rename_i hstate
        refine calls_workState (d := { d with run := false }) hmachine ?_
        rw [hstate]
        decide
      · split at hmachine
        · cases hmachine
        · cases hmachine
          exact calls_of_same rfl (.refl _)
      · cases hmachine
        exact calls_of_same rfl (.refl _)
  | @complete rq req rest hending hcur hbatch =>
      intro out hperm
      -- the ioreq belongs to the request that is served
      have hmem : rq ∈ out := by
        rw [current_ending hs hending hcur] at hperm
        exact hperm.mem_iff.mpr (List.mem_append_right _ (List.mem_singleton_self rq))
      exact ⟨[.ioreq rq], out, hperm, .cons (.ioreq hmem hbatch) (.nil _)⟩
  | endRequest hending hcur _ hend => exact calls_endRequest hend hs hending hcur
  | @dequeue _ rq e hdequeue hsubmit =>
      have hd' := submitRq_spec hsubmit
      subst hd'
      exact calls_dequeue hdequeue

/-- A run of the disk is a run of calls on its elevator. -/
theorem run_calls {evs : List Event} (hrun : Run (Step p) d evs d') (hs : Sound d) :
    Calls p d d' := by
  induction hrun with
  | nil => exact calls_of_same rfl (.refl _)
  | cons hstep _ ih => exact (hstep.calls hs).trans (ih (step_effect hstep hs).1)

/-- The counters of the elevator are exact in every run of the disk. -/
theorem run_counts {sched : Sched} {evs : List Event}
    (hsched : sched = .startNoop ∨ sched = .startDeadline)
    (hrun : Run (Step p) (start sched) evs d) : d.serving.Exact := by
  obtain ⟨ops, out, hperm, hops⟩ := run_calls hrun (sound_start hsched).1 [] (.refl _)
  have h : Serving.Counts ⟨d.elv, out⟩ :=
    hops.invariant (fun _ _ _ h hstep => h.step hstep) (Serving.counts_start hsched)
  have hinflight : d.elv.inflight = (d.queue ++ d.current).length % 2 ^ 64 := by
    rw [← hperm.length_eq]
    exact h.inflight
  -- the run gives the same requests in another order
  have hcounts : d.serving.Counts :=
    h.keep h.wf (hperm.symm.append_left _) (fun _ _ => rfl) rfl rfl hinflight
  exact hcounts.exact

end Disk

end LustreSimulator
