import LustreSimulator.Proofs.ElvAccept
import LustreSimulator.Proofs.ElvMerge

/-!
# `LustreSimulator.Proofs.ElvJoin`: which ioreqs the deadline elevator merges

An ioreq could join every request of its direction that it is adjacent to, if the two are not too
large together (`CanJoin`). The elevator looks at one request only: at the last one, when the ioreq
is adjacent to that, and else at the newest request in the hash that ends where the ioreq starts
(`Offers`). The request that it looks at can be too large, or have the other direction, and hide one
that would do. Requests that start where the ioreq ends are in a tree, but `ElvDeadline::ElvMerge`
returns `ELEVATOR_NO_MERGE` when it finds one there.

`joined_iff` says that this decides it: `Enqueue` adds the ioreq to a request exactly when the
offered one is not too large.
-/

set_option autoImplicit false

namespace LustreSimulator

open Lib

namespace Elevator

variable {e : Elevator} {p : Params} {rq : Nat} {req : Ioreq} {type : MergeType}

/-- The ioreq could join the request: the two have one direction, are adjacent, and are not too
large together. -/
def CanJoin (e : Elevator) (p : Params) (req : Ioreq) (rq : Nat) : Prop :=
  rq ∈ e.sched.members ∧ (e.reqs rq).cmd = req.cmd ∧
    (add64 (e.reqs rq).off (e.reqs rq).count = req.off ∨
      (e.reqs rq).off = add64 req.off req.count) ∧
    add64 (e.reqs rq).count req.count ≤ p.maxsize

/-- The request that the elevator looks at, and the end at which the ioreq is to join it. -/
inductive Offers (e : Elevator) (p : Params) (req : Ioreq) : MergeType → Nat → Prop where
  /-- The ioreq starts where the last request ends. -/
  | lastBack {rq : Nat} : e.last = some rq →
      add64 (e.reqs rq).off (e.reqs rq).count = req.off → Offers e p req .backMerge rq
  /-- The ioreq ends where the last request starts. -/
  | lastFront {rq : Nat} : e.last = some rq →
      add64 (e.reqs rq).off (e.reqs rq).count ≠ req.off →
      sub64 (e.reqs rq).off req.count = req.off → Offers e p req .frontMerge rq
  /-- The ioreq is not adjacent to the last request. The newest request in the hash that ends where
  the ioreq starts has the direction of the ioreq. -/
  | hash {rq : Nat} :
      (∀ l, e.last = some l → add64 (e.reqs l).off (e.reqs l).count ≠ req.off ∧
        sub64 (e.reqs l).off req.count ≠ req.off) →
      e.rqhashFind p req.off = some rq → (e.reqs rq).cmd = req.cmd → Offers e p req .backMerge rq

/-- `ElvMerge` answers with the request that is offered. -/
theorem elvMergeHash_eq_iff (htype : type ≠ .noMerge) :
    e.elvMergeHash p req = (type, some rq) ↔
      type = .backMerge ∧ e.rqhashFind p req.off = some rq ∧ (e.reqs rq).cmd = req.cmd := by
  unfold elvMergeHash
  constructor
  · intro h
    split at h
    · rename_i found hfind
      split at h
      · rename_i hcmd
        cases h
        exact ⟨rfl, hfind, hcmd⟩
      · cases h
    · cases h
  · rintro ⟨rfl, hfind, hcmd⟩
    rw [hfind]
    exact if_pos hcmd

/-- `Elevator::ElvMerge` answers with the request that is offered. -/
theorem elvMerge_eq_iff (htype : type ≠ .noMerge) :
    e.elvMerge p req = (type, some rq) ↔ Offers e p req type rq := by
  unfold elvMerge
  cases hlast : e.last with
  | none =>
      dsimp only
      rw [elvMergeHash_eq_iff htype]
      constructor
      · rintro ⟨rfl, hfind, hcmd⟩
        exact .hash (fun l h => by rw [hlast] at h; cases h) hfind hcmd
      · intro h
        cases h with
        | lastBack h => rw [hlast] at h; cases h
        | lastFront h => rw [hlast] at h; cases h
        | hash _ hfind hcmd => exact ⟨rfl, hfind, hcmd⟩
  | some l =>
      dsimp only
      split
      · rename_i hback
        constructor
        · intro h
          cases h
          exact .lastBack hlast hback
        · intro h
          cases h with
          | lastBack h => rw [hlast] at h; cases h; rfl
          | lastFront h hnot => rw [hlast] at h; cases h; exact absurd hback hnot
          | hash hnot => exact absurd hback (hnot l hlast).1
      · rename_i hback
        split
        · rename_i hfront
          constructor
          · intro h
            cases h
            exact .lastFront hlast hback hfront
          · intro h
            cases h with
            | lastBack h hadj => rw [hlast] at h; cases h; exact absurd hadj hback
            | lastFront h => rw [hlast] at h; cases h; rfl
            | hash hnot => exact absurd hfront (hnot l hlast).2
        · rename_i hfront
          rw [elvMergeHash_eq_iff htype]
          constructor
          · rintro ⟨rfl, hfind, hcmd⟩
            refine .hash (fun l' h => ?_) hfind hcmd
            rw [hlast] at h
            cases h
            exact ⟨hback, hfront⟩
          · intro h
            cases h with
            | lastBack h hadj => rw [hlast] at h; cases h; exact absurd hadj hback
            | lastFront h _ hadj => rw [hlast] at h; cases h; exact absurd hadj hfront
            | hash _ hfind hcmd => exact ⟨rfl, hfind, hcmd⟩

/-- The two elevators give the same answer: what `ElvDeadline::ElvMerge` finds in the tree is not
used. -/
theorem elvMergeVirtual_eq_iff (htype : type ≠ .noMerge) :
    e.elvMergeVirtual p req = (type, some rq) ↔ Offers e p req type rq := by
  rw [← elvMerge_eq_iff htype]
  unfold elvMergeVirtual
  split
  · exact Iff.rfl
  · dsimp only
    split
    · exact Iff.rfl
    · rename_i hnone
      refine iff_of_false (fun h => ?_) fun h => ?_
      · split at h
        · split at h
          · cases h
            exact htype rfl
          · cases h
        · cases h
      · rw [h] at hnone
        exact hnone htype

/-- The request that is offered is not too large for the ioreq. Where the ioreq joins it at its
front, the new offset is free, or the request before it takes both. -/
def Finds (e : Elevator) (p : Params) (req : Ioreq) : Prop :=
  ∃ type rq, Offers e p req type rq ∧ add64 (e.reqs rq).count req.count ≤ p.maxsize ∧
    (type = .frontMerge → Bridges e p req rq ∨ Vacant e (e.reqs rq).cmd req.off (some rq))

/-- Only requests are offered to join at an end. -/
theorem Offers.type_eq (h : Offers e p req type rq) : type = .backMerge ∨ type = .frontMerge := by
  cases h with
  | lastBack => exact .inl rfl
  | lastFront => exact .inr rfl
  | hash => exact .inl rfl

/-- A request is found when the ioreq joins one and nothing is in the way. -/
theorem finds_iff : Finds e p req ↔ ¬ Alone e p req ∧ FrontFree e p req := by
  constructor
  · rintro ⟨type, rq, hoffers, hsize, hfront⟩
    have hmerge : e.elvMergeVirtual p req = (type, some rq) := by
      refine (elvMergeVirtual_eq_iff ?_).mpr hoffers
      rcases hoffers.type_eq with rfl | rfl
      · decide
      · decide
    constructor
    · intro halone
      rcases hoffers.type_eq with rfl | rfl
      · exact (halone rq).1 ⟨hmerge, hsize⟩
      · exact (halone rq).2 ⟨hmerge, hsize⟩
    · rintro rq' ⟨hmerge', -⟩
      rw [hmerge] at hmerge'
      cases hmerge'
      exact hfront rfl
  · rintro ⟨hsome, hfront⟩
    obtain ⟨rq, hrq⟩ := not_forall.mp hsome
    by_cases hback : e.Takes p req .backMerge rq
    · exact ⟨.backMerge, rq, (elvMergeVirtual_eq_iff (by decide)).mp hback.1, hback.2,
        fun h => nomatch h⟩
    · have htakes : e.Takes p req .frontMerge rq := by
        by_contra hnot
        exact hrq ⟨hback, hnot⟩
      exact ⟨.frontMerge, rq, (elvMergeVirtual_eq_iff (by decide)).mp htakes.1, htakes.2,
        fun _ => hfront rq htakes⟩

end Elevator

namespace Disk

open Elevator

variable {d d' : Disk} {p : Params} {r : Ioreq}

/-- `Enqueue` adds the ioreq to an existing request and creates no new one. -/
def Merges (d : Disk) (p : Params) (r : Ioreq) : Prop :=
  ∃ d', d.submitIoreq p r = .ok d' ∧ d'.elv.nextReq = d.elv.nextReq ∧
    ∃ rq ∈ d'.elv.sched.members, rq ∈ d.elv.sched.members ∧
      ⟨r, d.nextSerial⟩ ∈ (d'.elv.reqs rq).batch

/-- The ioreq is in the batch of the request that it joins. -/
theorem joins_mem {e : Elevator} {req : Submitted} {rq : Nat}
    {c : Cmd × Nat × Nat × List Submitted} (h : Joins e p req rq c) : req ∈ c.2.2.2 := by
  cases h with
  | back => simp
  | front => simp

/-- An ioreq that joins a request stays with it, also when a neighbour is merged with it. -/
theorem merges_of_joins {e : Elevator} {rq : Nat} {r₁ : Request} (hwf : WF d.elv)
    (h : d.submitIoreq p r = .ok d')
    (hd' : d' = { d with elv := e, nextSerial := d.nextSerial + 1 })
    (hmem : rq ∈ d.elv.sched.members) (hjoin : Joins d.elv p ⟨r, d.nextSerial⟩ rq r₁.core)
    (hresult : Unmoved (d.elv.setReq rq r₁) e ∨ ∃ a b, Absorbed (d.elv.setReq rq r₁) e a b) :
    Merges d p r := by
  refine ⟨d', h, ?_⟩
  subst hd'
  have hin : ⟨r, d.nextSerial⟩ ∈ ((d.elv.setReq rq r₁).reqs rq).batch := by
    rw [reqs_setReq_self]
    exact joins_mem hjoin
  rcases hresult with hsame | ⟨a, b, habs⟩
  · refine ⟨hsame.nextReq, rq, hsame.members.mem_iff.mpr hmem, hmem, ?_⟩
    rw [batch_of_core (hsame.core rq)]
    exact hin
  · refine ⟨habs.nextReq, ?_⟩
    have hleft : a ∈ e.sched.members :=
      habs.members.mem_iff.mpr (hwf.nodup.mem_erase_iff.mpr ⟨habs.ne, habs.mem_left⟩)
    by_cases hrqb : rq = b
    · refine ⟨a, hleft, habs.mem_left, ?_⟩
      rw [batch_of_core habs.job, ← hrqb]
      exact List.mem_append_right _ hin
    · by_cases hrqa : rq = a
      · refine ⟨a, hleft, habs.mem_left, ?_⟩
        rw [batch_of_core habs.job, ← hrqa]
        exact List.mem_append_left _ hin
      · refine ⟨rq, habs.members.mem_iff.mpr (hwf.nodup.mem_erase_iff.mpr ⟨hrqb, hmem⟩), hmem, ?_⟩
        rw [batch_of_core (habs.rest rq hrqa hrqb)]
        exact hin

/-- When `Enqueue` does not abort, it merges the ioreq exactly when that is not alone. -/
theorem merges_iff_of_ok (hwf : WF d.elv) (h : d.submitIoreq p r = .ok d') :
    Merges d p r ↔ ¬ Alone d.elv p r := by
  have hsubmit := h
  unfold submitIoreq at h
  dsimp only at h
  obtain ⟨m, hmerge, h⟩ := bind_eq_ok.mp h
  have halone := mergeIoreq_alone hmerge
  obtain ⟨hwf', ⟨hno, hsame⟩ | ⟨hyes, rq, r₁, hmem, hjoin, hresult⟩⟩ := mergeIoreq_spec hmerge hwf
  · rw [if_neg (by rw [hno]; decide)] at h
    refine iff_of_false ?_ fun hnot => hnot (halone.mp hno)
    rintro ⟨d₁, hd₁, hnext, -⟩
    rw [hsubmit] at hd₁
    cases hd₁
    -- a request was made for the ioreq
    obtain ⟨b, t, e₁, e, l, rfl, -, hadded, hhanded, -⟩ := enqueueNew_spec h hwf'
    have hnew : e.nextReq = d.elv.nextReq + 1 := by
      rw [hhanded.nextReq, hadded.nextReq]
      exact congrArg (· + 1) hsame.nextReq
    exact Nat.succ_ne_self _ (hnew.symm.trans hnext)
  · rw [if_pos hyes] at h
    cases h
    refine iff_of_true (merges_of_joins hwf hsubmit rfl hmem hjoin hresult) fun ha => ?_
    rw [halone.mpr ha] at hyes
    cases hyes

/-- `Enqueue` merges the ioreq exactly when the lookups find a request for it. -/
theorem merges_iff (hwf : WF d.elv) (hi : Indexing p none none d.elv) (hc : Calm d) :
    Merges d p r ↔ Finds d.elv p r := by
  rw [finds_iff]
  constructor
  · intro hmerges
    obtain ⟨d', hd', -⟩ := id hmerges
    exact ⟨(merges_iff_of_ok hwf hd').mp hmerges,
      ((submitIoreq_ok_iff hwf hi hc).mp ⟨d', hd'⟩).front⟩
  · rintro ⟨hsome, hfront⟩
    obtain ⟨d', hd'⟩ := (submitIoreq_ok_iff hwf hi hc).mpr
      ⟨fun ha => absurd ha hsome, fun ha => absurd ha hsome, hfront⟩
    exact (merges_iff_of_ok hwf hd').mpr hsome

/-- **Merging whenever it is possible.** In every state of every run of a disk with a deadline
elevator, an ioreq that could join a request is merged exactly when the lookups of `ElvMerge` find
one for it. -/
theorem merged_iff {evs : List Event} (hrun : Run (Step p) (start .startDeadline) evs d)
    (r : Ioreq) : ((∃ rq, CanJoin d.elv p r rq) → Merges d p r) ↔
      ((∃ rq, CanJoin d.elv p r rq) → Finds d.elv p r) := by
  obtain ⟨hs, hi, hc⟩ := run_calm hrun
  exact imp_congr_right fun _ => merges_iff hs.wf hi hc

/-- The ioreq behind the last request is merged. -/
theorem merged_behind :
    ∃ d, Run (Step smallDisk) (start .startDeadline) [.submit ⟨.read, 0, 0, 0, 4096⟩] d ∧
      CanJoin d.elv smallDisk ⟨.read, 0, 0, 4096, 4096⟩ 0 ∧
      Merges d smallDisk ⟨.read, 0, 0, 4096, 4096⟩ := by
  obtain ⟨d, hrun, hcan, hoffers, hsize⟩ : ∃ d,
      Run (Step smallDisk) (start .startDeadline) [.submit ⟨.read, 0, 0, 0, 4096⟩] d ∧
      CanJoin d.elv smallDisk ⟨.read, 0, 0, 4096, 4096⟩ 0 ∧
      Offers d.elv smallDisk ⟨.read, 0, 0, 4096, 4096⟩ .backMerge 0 ∧
      add64 (d.elv.reqs 0).count 4096 ≤ smallDisk.maxsize :=
    ⟨_, .cons (.submit rfl) (.nil _), ⟨by decide, rfl, .inl rfl, by decide⟩, .lastBack rfl rfl,
      by decide⟩
  exact ⟨d, hrun, hcan, (merged_iff hrun _).mpr
    (fun _ => ⟨.backMerge, 0, hoffers, hsize, fun h => nomatch h⟩) ⟨0, hcan⟩⟩

/-- The third ioreq ends where the second request starts, and the two could be merged. The last
request is the first one, so the ioreq gets a request of its own. -/
theorem merged_front : ¬ ∀ (p : Params) (evs : List Event) (d : Disk) (r : Ioreq),
    Run (Step p) (start .startDeadline) evs d → (∃ rq, CanJoin d.elv p r rq) → Merges d p r := by
  intro hall
  obtain ⟨d, hrun, hcan, d', hsubmit, hnext⟩ : ∃ d, Run (Step smallDisk) (start .startDeadline)
      [.submit ⟨.read, 0, 0, 65536, 4096⟩, .submit ⟨.read, 0, 0, 4096, 4096⟩] d ∧
      CanJoin d.elv smallDisk ⟨.read, 0, 0, 0, 4096⟩ 1 ∧
      ∃ d', d.submitIoreq smallDisk ⟨.read, 0, 0, 0, 4096⟩ = .ok d' ∧
        d'.elv.nextReq ≠ d.elv.nextReq :=
    ⟨_, .cons (.submit rfl) <| .cons (.submit rfl) (.nil _),
      ⟨by decide, rfl, .inr rfl, by decide⟩, _, rfl, by decide⟩
  obtain ⟨d₁, hd₁, hsame, -⟩ := hall _ _ d _ hrun ⟨1, hcan⟩
  rw [hsubmit] at hd₁
  cases hd₁
  exact hnext hsame

end Disk

end LustreSimulator
