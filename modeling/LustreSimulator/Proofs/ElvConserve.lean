import LustreSimulator.Lib.Coalesce
import LustreSimulator.Proofs.Disk

/-!
# `LustreSimulator.Proofs.ElvConserve`: the elevator loses and duplicates nothing

The live requests of a disk are a pool of jobs (`Disk.pool`), and a step of the disk is one of
the actions of the pool, two, or none (`effect_pool`). So the rules for pools apply:
`conserve_run` says that every ioreq is in the batch of one live request until its completion is
called, that this happens once, and that the ioreqs of a request tile its range.

Offsets are 64-bit numbers. `Fits` says that the ranges do not wrap around, which holds when those
of the ioreqs do not.
-/

set_option autoImplicit false

namespace LustreSimulator

open Lib Elevator

/-- The range of an ioreq. -/
def Submitted.range (io : Submitted) : Nat × Nat := (io.off, io.count)

/-- A request as a job. -/
def Request.job (c : Cmd × Nat × Nat × List Submitted) (served : List Submitted) : Job Submitted :=
  ⟨c.2.1, c.2.2.1, served, c.2.2.2⟩

/-- The end of a request is part of its core. -/
theorem Request.stop_eq {r : Request} {c : Cmd × Nat × Nat × List Submitted} (h : r.core = c) :
    r.off + r.count = c.2.1 + c.2.2.1 := by
  rw [← h]
  rfl

namespace Disk

variable {d d' : Disk} {p : Params} {rq : Nat}

/-- The live requests as a pool. -/
def pool (d : Disk) : Pool Nat Submitted :=
  ⟨d.live.toFinset, fun i => Request.job (d.elv.reqs i).core (d.servedOf i), d.completed⟩

/-- The range of every live request ends below 2 ^ 64. -/
def Fits (d : Disk) : Prop := ∀ rq ∈ d.live, (d.elv.reqs rq).off + (d.elv.reqs rq).count < 2 ^ 64

/-- The ioreqs that the events submit, numbered from `n`. -/
def submitted : Nat → List Event → List Submitted
  | _, [] => []
  | n, .submit r :: evs => ⟨r, n⟩ :: submitted (n + 1) evs
  | n, _ :: evs => submitted n evs

/-- The pool depends on the live requests only. -/
theorem pool_same (h : Same d d') : d'.pool = d.pool := by
  have hlive : d'.live.toFinset = d.live.toFinset := List.toFinset_eq_of_perm _ _ h.live
  have hjob : ∀ i, Request.job (d'.elv.reqs i).core (d'.servedOf i) =
      Request.job (d.elv.reqs i).core (d.servedOf i) := by
    intro i
    rw [h.core i, h.served i]
  unfold pool
  rw [hlive, h.completed]
  simp only [hjob]

/-- Ranges do not change when the live requests stay. -/
theorem Fits.same (h : Fits d) (hsame : Same d d') : Fits d' := by
  intro rq hrq
  rw [Request.stop_eq (hsame.core rq)]
  exact h rq (hsame.live.mem_iff.mp hrq)

/-- A request in the elevator is not being ended. -/
theorem servedOf_member (hnodup : d.live.Nodup)
    (hending : d.ending = true → d.diskState = .reqFinished) (h : rq ∈ d.elv.sched.members) :
    d.servedOf rq = [] := by
  apply if_neg
  rintro ⟨hend, hcur⟩
  have hcurrent : rq ∈ d.current := by
    rw [current, if_pos (hending hend), hcur]
    exact List.mem_singleton_self rq
  have hdisjoint := (List.nodup_append.mp hnodup).2.2
  exact hdisjoint rq (List.mem_append_left _ h) rq hcurrent rfl

/-- A member is live. -/
theorem mem_live_member (h : rq ∈ d.elv.sched.members) : rq ∈ d.live :=
  List.mem_append_left _ (List.mem_append_left _ h)

/-- An ioreq that joins a request is an action of the pool. -/
theorem joins_pool {req : Submitted} {r₁ : Request} (hs : Sound d) (hfits : Fits d)
    (hmem : rq ∈ d.elv.sched.members) (hjoin : Joins d.elv p req rq r₁.core)
    (hreq : req.off + req.count < 2 ^ 64) :
    Fits { d with elv := d.elv.setReq rq r₁ } ∧
    ∃ act, Pool.Step Submitted.range d.pool act (pool { d with elv := d.elv.setReq rq r₁ }) ∧
      act.given = {req} := by
  have hfit := hfits rq (mem_live_member hmem)
  have hserved := servedOf_member hs.nodup hs.ending hmem
  have hlive : rq ∈ d.pool.live := List.mem_toFinset.mpr (mem_live_member hmem)
  have hkeeps : Pool.Keeps d.pool (pool { d with elv := d.elv.setReq rq r₁ }) rq := by
    intro i _ hi
    show Request.job ((d.elv.setReq rq r₁).reqs i).core _ = _
    rw [reqs_setReq_ne _ _ hi]
    rfl
  have hfits' : r₁.off + r₁.count < 2 ^ 64 → Fits { d with elv := d.elv.setReq rq r₁ } := by
    intro h i hi
    show ((d.elv.setReq rq r₁).reqs i).off + ((d.elv.setReq rq r₁).reqs i).count < 2 ^ 64
    by_cases hirq : i = rq
    · rw [hirq, reqs_setReq_self]
      exact h
    · rw [reqs_setReq_ne _ _ hirq]
      exact hfits i hi
  have hjob : ∀ c, r₁.core = c → (pool { d with elv := d.elv.setReq rq r₁ }).job rq =
      Request.job c [] := by
    intro c hc
    show Request.job ((d.elv.setReq rq r₁).reqs rq).core (d.servedOf rq) = _
    rw [reqs_setReq_self, hserved, hc]
  have hjob₀ : d.pool.job rq = Request.job (d.elv.reqs rq).core [] := by
    show Request.job (d.elv.reqs rq).core (d.servedOf rq) = _
    rw [hserved]
  generalize hc : r₁.core = c at hjoin
  have hstop := Request.stop_eq hc
  have hafter := hjob c hc
  cases hjoin with
  | back hadj _ _ =>
      rw [add64_eq hfit] at hadj
      have hsize : add64 (d.elv.reqs rq).count req.count = (d.elv.reqs rq).count + req.count :=
        add64_eq (by omega)
      refine ⟨hfits' ?_, .back rq req, .back hlive ?_ rfl ?_ hkeeps rfl, rfl⟩
      · rw [hstop]
        dsimp only
        omega
      · rw [hjob₀]
        exact hadj.symm
      · rw [hafter, hjob₀, hsize]
        rfl
  | front hadj _ _ =>
      have hadj : req.off + req.count = (d.elv.reqs rq).off := by
        unfold sub64 at hadj
        omega
      have hsize : add64 (d.elv.reqs rq).count req.count = (d.elv.reqs rq).count + req.count :=
        add64_eq (by omega)
      refine ⟨hfits' ?_, .front rq req, .front hlive ?_ ?_ rfl ?_ hkeeps rfl, rfl⟩
      · rw [hstop]
        dsimp only
        omega
      · rw [hjob₀]
        rfl
      · rw [hjob₀]
        exact hadj
      · rw [hafter, hjob₀, hsize]
        rfl

/-- Two requests that are merged are two jobs that are merged. -/
theorem absorbed_pool {a b n : Nat} {e : Elevator} (hnodup : d.live.Nodup)
    (hending : d.ending = true → d.diskState = .reqFinished) (hfits : Fits d)
    (habs : Absorbed d.elv e a b) :
    Fits { d with elv := e, nextSerial := n } ∧
    Pool.Step Submitted.range d.pool (.merge a b) (pool { d with elv := e, nextSerial := n }) := by
  have ha := mem_live_member habs.mem_left
  have hb := mem_live_member habs.mem_right
  have hfitA := hfits a ha
  have hfitB := hfits b hb
  have hadj := habs.adjacent
  rw [add64_eq hfitA] at hadj
  have hsize : add64 (d.elv.reqs a).count (d.elv.reqs b).count =
      (d.elv.reqs a).count + (d.elv.reqs b).count := add64_eq (by omega)
  have hlive : ∀ i, i ∈ ({ d with elv := e, nextSerial := n } : Disk).live ↔
      i ≠ b ∧ i ∈ d.live := by
    intro i
    rw [(live_absorbed habs rfl).mem_iff, List.Nodup.mem_erase_iff hnodup]
  have hservedB := servedOf_member hnodup hending habs.mem_right
  have hjobB : d.pool.job b = Request.job (d.elv.reqs b).core [] := by
    show Request.job (d.elv.reqs b).core (d.servedOf b) = _
    rw [hservedB]
  constructor
  · intro i hi
    obtain ⟨hib, hi⟩ := (hlive i).mp hi
    show (e.reqs i).off + (e.reqs i).count < 2 ^ 64
    by_cases hia : i = a
    · rw [hia, Request.stop_eq habs.job, hsize]
      dsimp only
      omega
    · rw [Request.stop_eq (habs.rest i hia hib)]
      exact hfits i hi
  · refine .merge (List.mem_toFinset.mpr ha) (List.mem_toFinset.mpr hb) habs.ne ?_ hadj ?_ ?_ ?_ rfl
    · rw [hjobB]
      rfl
    · ext i
      rw [Finset.mem_erase]
      exact (List.mem_toFinset.trans (hlive i)).trans (and_congr Iff.rfl List.mem_toFinset.symm)
    · show Request.job (e.reqs a).core (d.servedOf a) =
        Job.merge (Request.job (d.elv.reqs a).core (d.servedOf a)) (d.pool.job b)
      rw [habs.job, hjobB, hsize]
      rfl
    · intro i hi hia
      obtain ⟨hib, -⟩ := (hlive i).mp (List.mem_toFinset.mp hi)
      show Request.job (e.reqs i).core (d.servedOf i) = _
      rw [habs.rest i hia hib]
      rfl

/-- A new request is a new job. -/
theorem grown_pool {req : Submitted} (hs : Sound d) (hfits : Fits d) (h : Grown d d' req)
    (hreq : req.off + req.count < 2 ^ 64) :
    Fits d' ∧ Pool.Step Submitted.range d.pool (.add d.elv.nextReq req) d'.pool := by
  have hnew : d.elv.nextReq ∉ d.live := fun hi => Nat.lt_irrefl _ (hs.lt _ hi)
  constructor
  · intro i hi
    by_cases hin : i = d.elv.nextReq
    · rw [hin, Request.stop_eq h.job]
      exact hreq
    · rw [Request.stop_eq (h.rest i hin)]
      rcases List.mem_cons.mp (h.live.mem_iff.mp hi) with hi | hi
      · exact absurd hi hin
      · exact hfits i hi
  · refine .add (fun hi => hnew (List.mem_toFinset.mp hi)) ?_ ?_ ?_ ?_
    · ext i
      rw [Finset.mem_insert]
      exact (List.mem_toFinset.trans h.live.mem_iff).trans
        (List.mem_cons.trans (or_congr Iff.rfl List.mem_toFinset.symm))
    · have hserved : d.servedOf d.elv.nextReq = [] := by
        apply if_neg
        rintro ⟨hending, hcur⟩
        exact hnew (mem_live_current (hs.ending hending) hcur)
      show Request.job (d'.elv.reqs d.elv.nextReq).core (d'.servedOf d.elv.nextReq) = _
      rw [h.job, h.served, hserved]
      rfl
    · intro i _ hi
      show Request.job (d'.elv.reqs i).core (d'.servedOf i) = _
      rw [h.rest i hi, h.served]
      rfl
    · show (d'.completed : Multiset Submitted) = d.completed
      rw [h.completed]

/-- The completion of an ioreq serves an item. -/
theorem complete_pool {req : Submitted} {rest : List Submitted} (hfits : Fits d)
    (hending : d.ending = true) (hlive : rq ∈ d.live) (hcur : d.curq = some rq)
    (hbatch : (d.elv.reqs rq).batch = req :: rest) :
    Fits (d.endIoreq rq req rest) ∧
    Pool.Step Submitted.range d.pool (.serve rq req) (d.endIoreq rq req rest).pool := by
  have hne : ∀ i, i ≠ rq → (d.endIoreq rq req rest).elv.reqs i = d.elv.reqs i :=
    fun i hi => reqs_setReq_ne _ _ hi
  have hself : (d.endIoreq rq req rest).elv.reqs rq = { d.elv.reqs rq with batch := rest } :=
    reqs_setReq_self _ _ _
  constructor
  · intro i hi
    by_cases hirq : i = rq
    · rw [hirq, hself]
      exact hfits rq hlive
    · rw [hne i hirq]
      exact hfits i hi
  · refine .serve (List.mem_toFinset.mpr hlive) hbatch rfl ?_ ?_ ?_
    · have hserved : d.servedOf rq = d.served := if_pos ⟨hending, hcur⟩
      have hserved' : (d.endIoreq rq req rest).servedOf rq = d.served ++ [req] :=
        if_pos ⟨hending, hcur⟩
      show Request.job ((d.endIoreq rq req rest).elv.reqs rq).core _ =
        Job.serve (Request.job (d.elv.reqs rq).core (d.servedOf rq)) req rest
      rw [hself, hserved', hserved]
      rfl
    · intro i _ hi
      have hcur' : ¬ (d.ending = true ∧ d.curq = some i) := by
        rintro ⟨-, h⟩
        rw [hcur] at h
        exact hi (Option.some.inj h).symm
      have hserved : d.servedOf i = [] := if_neg hcur'
      have hserved' : (d.endIoreq rq req rest).servedOf i = [] := if_neg hcur'
      show Request.job ((d.endIoreq rq req rest).elv.reqs i).core _ =
        Request.job (d.elv.reqs i).core (d.servedOf i)
      rw [hne i hi, hserved', hserved]
    · exact (Multiset.coe_add d.completed [req]).symm

/-- The end of a request retires a job. -/
theorem ended_pool (hs : Sound d) (hfits : Fits d) (hlive : rq ∈ d.live) (hcur : d.curq = some rq)
    (hbatch : (d.elv.reqs rq).batch = []) (h : Ended d d' rq) :
    Fits d' ∧ Pool.Step Submitted.range d.pool (.retire rq) d'.pool := by
  have hmem : ∀ i, i ∈ d'.live ↔ i ≠ rq ∧ i ∈ d.live := by
    intro i
    have hnew := (List.nodup_cons.mp (h.live.nodup_iff.mp hs.nodup)).1
    rw [h.live.mem_iff, List.mem_cons]
    constructor
    · intro hi
      exact ⟨fun hirq => hnew (hirq ▸ hi), Or.inr hi⟩
    · rintro ⟨hne, hi | hi⟩
      · exact absurd hi hne
      · exact hi
  constructor
  · intro i hi
    rw [Request.stop_eq (h.core i)]
    exact hfits i ((hmem i).mp hi).2
  · refine .retire (List.mem_toFinset.mpr hlive) hbatch ?_ ?_ ?_
    · ext i
      rw [Finset.mem_erase]
      exact (List.mem_toFinset.trans (hmem i)).trans (and_congr Iff.rfl List.mem_toFinset.symm)
    · intro i _ hi
      have hserved : d.servedOf i = [] := by
        apply if_neg
        rintro ⟨-, hi'⟩
        rw [hcur] at hi'
        exact hi (Option.some.inj hi').symm
      show Request.job (d'.elv.reqs i).core (d'.servedOf i) =
        Request.job (d.elv.reqs i).core (d.servedOf i)
      rw [h.core i, h.served i, hserved]
    · show (d'.completed : Multiset Submitted) = d.completed
      rw [h.completed]

/-! ### Steps and runs -/

/-- The ioreqs that an event gives to the disk. -/
def given (n : Nat) : Event → Multiset Submitted
  | .submit r => {⟨r, n⟩}
  | _ => 0

/-- The events from the second on. -/
theorem submitted_cons (d d' : Disk) (ev : Event) (evs : List Event) (heffect : Effect p d ev d') :
    (submitted d.nextSerial (ev :: evs) : Multiset Submitted) =
      given d.nextSerial ev + submitted d'.nextSerial evs := by
  cases heffect with
  | same hev _ hserial =>
      rw [hserial]
      cases ev with
      | submit r => exact absurd rfl (hev r)
      | _ => exact (zero_add _).symm
  | join _ _ _ hserial =>
      rw [hserial]
      exact (Multiset.coe_add [_] _).symm
  | joinMerge => exact (Multiset.coe_add [_] _).symm
  | add _ hserial =>
      rw [hserial]
      exact (Multiset.coe_add [_] _).symm
  | complete => exact (zero_add _).symm
  | ended _ _ _ _ hserial =>
      rw [hserial]
      exact (zero_add _).symm

/-- **A step simulates.** The pool takes the actions of a step, and gets the same ioreqs. -/
theorem effect_pool {ev : Event} (hs : Sound d) (hfits : Fits d) (heffect : Effect p d ev d')
    (hwrap : ∀ r, ev = .submit r → r.off + r.count < 2 ^ 64) :
    Fits d' ∧ ∃ acts, Run (Pool.Step Submitted.range) d.pool acts d'.pool ∧
      (acts.map Pool.Action.given).sum = given d.nextSerial ev := by
  cases heffect with
  | same hev hsame _ =>
      refine ⟨hfits.same hsame, [], ?_, ?_⟩
      · rw [pool_same hsame]
        exact .nil _
      · cases ev with
        | submit r => exact absurd rfl (hev r)
        | _ => rfl
  | join hmem hjoin hsame _ =>
      obtain ⟨hfits₁, act, hstep, hgiven⟩ := joins_pool hs hfits hmem hjoin (hwrap _ rfl)
      refine ⟨hfits₁.same hsame, [act], ?_, ?_⟩
      · rw [pool_same hsame]
        exact .cons hstep (.nil _)
      · rw [List.map_singleton, List.sum_singleton, hgiven]
        rfl
  | @joinMerge r rq a b r₁ e hmem hjoin habs =>
      obtain ⟨hfits₁, act, hstep, hgiven⟩ := joins_pool hs hfits hmem hjoin (hwrap _ rfl)
      obtain ⟨hfits', hmerge⟩ :=
        absorbed_pool (d := { d with elv := d.elv.setReq rq r₁ }) (n := d.nextSerial + 1)
          hs.nodup hs.ending hfits₁ habs
      refine ⟨hfits', [act, .merge a b], .cons hstep (.cons hmerge (.nil _)), ?_⟩
      show (act.given + ((Pool.Action.merge a b : Pool.Action Nat Submitted).given + 0)) = _
      rw [hgiven]
      exact add_zero _
  | add hgrown _ =>
      obtain ⟨hfits', hstep⟩ := grown_pool hs hfits hgrown (hwrap _ rfl)
      refine ⟨hfits', _, .cons hstep (.nil _), ?_⟩
      exact add_zero _
  | complete hending hlive hcur hbatch =>
      obtain ⟨hfits', hstep⟩ := complete_pool hfits hending hlive hcur hbatch
      exact ⟨hfits', _, .cons hstep (.nil _), add_zero _⟩
  | ended hlive hcur hbatch hended _ =>
      obtain ⟨hfits', hstep⟩ := ended_pool hs hfits hlive hcur hbatch hended
      exact ⟨hfits', _, .cons hstep (.nil _), add_zero _⟩

/-- **A run simulates.** -/
theorem run_pool {evs : List Event} (hrun : Run (Step p) d evs d') (hs : Sound d) (hfits : Fits d)
    (hwrap : ∀ r, .submit r ∈ evs → r.off + r.count < 2 ^ 64) :
    ∃ acts, Run (Pool.Step Submitted.range) d.pool acts d'.pool ∧
      (acts.map Pool.Action.given).sum = (submitted d.nextSerial evs : Multiset Submitted) := by
  induction hrun with
  | nil d => exact ⟨[], .nil _, rfl⟩
  | @cons d d₁ d' ev evs hstep _ ih =>
      obtain ⟨hs₁, heffect⟩ := step_effect hstep hs
      obtain ⟨hfits₁, acts, hacts, hgiven⟩ := effect_pool hs hfits heffect
        fun r hr => hwrap r (hr ▸ List.mem_cons_self)
      obtain ⟨acts', hacts', hgiven'⟩ := ih hs₁ hfits₁
        fun r hr => hwrap r (List.mem_cons_of_mem ev hr)
      refine ⟨acts ++ acts', hacts.append hacts', ?_⟩
      rw [List.map_append, List.sum_append, hgiven, hgiven', submitted_cons d d₁ ev evs heffect]

/-! ### Conservation -/

/-- The numbers of the ioreqs that the events submit start at `n`, and no two are the same. -/
theorem nodup_submitted (n : Nat) (evs : List Event) :
    (submitted n evs).Nodup ∧ ∀ io ∈ submitted n evs, n ≤ io.serial := by
  induction evs generalizing n with
  | nil => exact ⟨List.nodup_nil, fun _ h => nomatch h⟩
  | cons ev evs ih =>
      cases ev with
      | submit r =>
          obtain ⟨hnodup, hle⟩ := ih (n + 1)
          refine ⟨List.nodup_cons.mpr ⟨?_, hnodup⟩, ?_⟩
          · intro hmem
            exact absurd (hle _ hmem) (Nat.not_succ_le_self n)
          · intro io hio
            rcases List.mem_cons.mp hio with rfl | hio
            · exact Nat.le_refl n
            · exact Nat.le_of_succ_le (hle io hio)
      | _ => exact ih n

/-- The items of the live jobs are the ioreqs of the live requests. -/
theorem coe_batches (l : List Nat) (batch : Nat → List Submitted) :
    (l.map fun i => (batch i : Multiset Submitted)).sum = (l.flatMap batch : List Submitted) := by
  induction l with
  | nil => rfl
  | cons i l ih =>
      rw [List.map_cons, List.sum_cons, ih, List.flatMap_cons]
      exact Multiset.coe_add _ _

/-- The content of the pool, as a list. -/
theorem pool_content (hs : Sound d) : d.pool.content =
    (d.completed ++ d.live.flatMap fun rq => (d.elv.reqs rq).batch : List Submitted) := by
  have hsum : ∑ i ∈ d.live.toFinset, ((d.elv.reqs i).batch : Multiset Submitted) =
      (d.live.flatMap fun rq => (d.elv.reqs rq).batch : List Submitted) := by
    rw [List.sum_toFinset _ hs.nodup]
    exact coe_batches d.live fun rq => (d.elv.reqs rq).batch
  calc d.pool.content
      _ = (d.completed : Multiset Submitted) +
          ∑ i ∈ d.live.toFinset, ((d.elv.reqs i).batch : Multiset Submitted) := rfl
      _ = _ := by rw [hsum, Multiset.coe_add]

/-- **The elevator loses and duplicates nothing.** After every run, the ioreqs whose completion
was called and the batches of the live requests are together the ioreqs that were submitted,
each once. The ioreqs of a live request tile its range in their order. While `EndRequest` runs for
a request, those that it has taken off the batch come first. -/
theorem conserve_run {sched : Sched} {evs : List Event}
    (hsched : sched = .startNoop ∨ sched = .startDeadline)
    (hrun : Run (Step p) (start sched) evs d)
    (hwrap : ∀ r, .submit r ∈ evs → r.off + r.count < 2 ^ 64) :
    d.live.Nodup ∧ (submitted 0 evs).Nodup ∧
    (d.completed ++ d.live.flatMap fun rq => (d.elv.reqs rq).batch).Perm (submitted 0 evs) ∧
    ∀ rq ∈ d.live, Tiles (d.elv.reqs rq).off
      ((d.servedOf rq ++ (d.elv.reqs rq).batch).map fun io => (io.off, io.count))
      ((d.elv.reqs rq).off + (d.elv.reqs rq).count) := by
  obtain ⟨hsound, hempty⟩ := sound_start hsched
  have hs := sound_run hsched hrun
  have hfits : Fits (start sched) := by
    intro rq hrq
    rw [hempty] at hrq
    cases hrq
  obtain ⟨acts, hacts, hgiven⟩ := run_pool hrun hsound hfits hwrap
  refine ⟨hs.nodup, (nodup_submitted 0 evs).1, ?_, ?_⟩
  · have hcontent := Pool.run_content hacts
    rw [hgiven, pool_content hs, pool_content hsound, hempty] at hcontent
    exact Multiset.coe_eq_coe.mp (hcontent.trans (zero_add _))
  · have htiled : (start sched).pool.Tiled Submitted.range := by
      intro rq hrq
      have hrq := List.mem_toFinset.mp hrq
      rw [hempty] at hrq
      cases hrq
    intro rq hrq
    exact Pool.run_tiled hacts htiled rq (List.mem_toFinset.mpr hrq)

/-- Two ioreqs of which the second ends where the first starts. The timer hands their request to
the disk, and the disk completes the second one, which comes first in the request. -/
def twoIoreqs : List Event :=
  [.submit ⟨.read, 0, 0, 4096, 4096⟩, .submit ⟨.read, 0, 0, 0, 4096⟩, .clock 3, .timer, .thread,
    .thread, .complete]

/-- The claims of `conserve_run` for this run. -/
theorem conserve_twoIoreqs :
    ∃ d, Run (Step ⟨2 ^ 20, 4, fun off => off % 64, 3⟩) (start .startNoop) twoIoreqs d ∧
      d.live = [0] ∧ d.completed = [⟨⟨.read, 0, 0, 0, 4096⟩, 1⟩] ∧
      (d.live.Nodup ∧ (submitted 0 twoIoreqs).Nodup ∧
        (d.completed ++ d.live.flatMap fun rq => (d.elv.reqs rq).batch).Perm
          (submitted 0 twoIoreqs) ∧
        ∀ rq ∈ d.live, Tiles (d.elv.reqs rq).off
          ((d.servedOf rq ++ (d.elv.reqs rq).batch).map fun io => (io.off, io.count))
          ((d.elv.reqs rq).off + (d.elv.reqs rq).count)) := by
  have hexists : ∃ d,
      Run (Step ⟨2 ^ 20, 4, fun off => off % 64, 3⟩) (start .startNoop) twoIoreqs d ∧
        d.live = [0] ∧ d.completed = [⟨⟨.read, 0, 0, 0, 4096⟩, 1⟩] :=
    ⟨_, .cons (.submit rfl) <| .cons (.submit rfl) <| .cons (.clock rfl (by decide) (by decide)) <|
      .cons (.timer rfl rfl rfl) <| .cons (.thread rfl rfl rfl) <| .cons (.thread rfl rfl rfl) <|
      .cons (.complete rfl rfl rfl) (.nil _), rfl, rfl⟩
  obtain ⟨d, hrun, hlive, hcompleted⟩ := hexists
  refine ⟨d, hrun, hlive, hcompleted, conserve_run (Or.inl rfl) hrun ?_⟩
  intro r hr
  simp only [twoIoreqs, List.mem_cons, Event.submit.injEq, reduceCtorEq, List.not_mem_nil,
    or_false] at hr
  rcases hr with rfl | rfl
  · decide
  · decide

end Disk

end LustreSimulator
