import LustreSimulator.Proofs.Disk

/-!
# `LustreSimulator.Proofs.ElvMerge`: the directions of merged ioreqs

A request has one direction, and its ioreqs should have it too. `AttemptMerge` and the search in
the hash compare directions. `ElvMerge` does not when it tries the last request: it takes any
ioreq that is adjacent to it. `MixesLast` describes the ioreqs for which this goes wrong, and
`direction_run` shows that nothing else does. In `direction_readWrite` a write follows a read and
joins it.
-/

set_option autoImplicit false

namespace LustreSimulator

open Lib Elevator

/-- The ioreqs of the request have its direction. -/
def Request.Uniform (r : Request) : Prop := ∀ io ∈ r.batch, io.cmd = r.cmd

/-- The directions are part of the core. -/
theorem Request.uniform_iff {r : Request} {c : Cmd × Nat × Nat × List Submitted}
    (h : r.core = c) : r.Uniform ↔ ∀ io ∈ c.2.2.2, io.cmd = c.1 := by
  rw [← h]
  exact Iff.rfl

/-- Requests with the same core. -/
theorem Request.uniform_congr {r r' : Request} (h : r'.core = r.core) :
    r'.Uniform ↔ r.Uniform := Request.uniform_iff h

namespace Elevator

variable {e : Elevator} {p : Params}

/-- The ioreq joins the last request though that has the other direction. -/
def MixesLast (e : Elevator) (p : Params) (req : Ioreq) : Prop :=
  ∃ rq, e.last = some rq ∧
    (add64 (e.reqs rq).off (e.reqs rq).count = req.off ∨
      sub64 (e.reqs rq).off req.count = req.off) ∧
    add64 (e.reqs rq).count req.count ≤ p.maxsize ∧ (e.reqs rq).cmd ≠ req.cmd

/-- An ioreq that does not join the last request in this way joins a request of its
direction. -/
theorem Joins.cmd_eq {req : Submitted} {rq : Nat} {c : Cmd × Nat × Nat × List Submitted}
    (h : Joins e p req rq c) (hmix : ¬ e.MixesLast p req.toIoreq) :
    (e.reqs rq).cmd = req.cmd := by
  by_contra hne
  cases h with
  | back hadj hdir hsize =>
      rcases hdir with hlast | hcmd
      · exact hmix ⟨rq, hlast, Or.inl hadj, hsize, hne⟩
      · exact hne hcmd
  | front hadj hlast hsize => exact hmix ⟨rq, hlast, Or.inr hadj, hsize, hne⟩

/-- A request that an ioreq of its direction joins stays uniform. -/
theorem Joins.uniform {req : Submitted} {rq : Nat} {r₁ : Request}
    (h : Joins e p req rq r₁.core) (hcmd : (e.reqs rq).cmd = req.cmd)
    (hrq : (e.reqs rq).Uniform) : r₁.Uniform := by
  generalize hc : r₁.core = c at h
  rw [Request.uniform_iff hc]
  cases h with
  | back =>
      intro io hio
      rcases List.mem_append.mp hio with hio | hio
      · exact hrq io hio
      · rw [List.mem_singleton.mp hio]
        exact hcmd.symm
  | front =>
      intro io hio
      rcases List.mem_cons.mp hio with rfl | hio
      · exact hcmd.symm
      · exact hrq io hio

end Elevator

namespace Disk

variable {d d' : Disk} {p : Params}

/-- The event does not let an ioreq join the last request when that has the other direction. -/
def Unmixed (p : Params) (d : Disk) (ev : Event) : Prop :=
  ∀ req, ev = .submit req → ¬ d.elv.MixesLast p req

/-- All live requests are uniform. -/
def Uniform (d : Disk) : Prop := ∀ rq ∈ d.live, (d.elv.reqs rq).Uniform

/-- Live requests that stay are uniform. -/
theorem Uniform.same (h : Uniform d) (hsame : Same d d') : Uniform d' := by
  intro rq hrq
  rw [Request.uniform_congr (hsame.core rq)]
  exact h rq (hsame.live.mem_iff.mp hrq)

/-- A step that does not mix directions keeps the live requests uniform. -/
theorem Uniform.step {ev : Event} (hs : Sound d) (h : Uniform d) (heffect : Effect p d ev d')
    (hmix : Unmixed p d ev) : Uniform d' := by
  have hmembers : ∀ i ∈ d.elv.sched.members, i ∈ d.live :=
    fun i hi => List.mem_append_left _ (List.mem_append_left _ hi)
  -- the request that the ioreq joins
  have hjoined : ∀ {r : Ioreq} {rq : Nat} {r₁ : Request}, ev = .submit r →
      rq ∈ d.elv.sched.members → Joins d.elv p ⟨r, d.nextSerial⟩ rq r₁.core →
      Uniform { d with elv := d.elv.setReq rq r₁ } := by
    intro r rq r₁ hev hmem hjoin i hi
    by_cases hirq : i = rq
    · subst hirq
      show ((d.elv.setReq i r₁).reqs i).Uniform
      rw [reqs_setReq_self]
      exact hjoin.uniform (hjoin.cmd_eq (hmix r hev)) (h i (hmembers i hmem))
    · show ((d.elv.setReq rq r₁).reqs i).Uniform
      rw [reqs_setReq_ne _ _ hirq]
      exact h i hi
  cases heffect with
  | same _ hsame _ => exact h.same hsame
  | join hmem hjoin hsame _ => exact (hjoined rfl hmem hjoin).same hsame
  | @joinMerge r rq a b r₁ e hmem hjoin habs =>
      have h₁ := hjoined rfl hmem hjoin
      have hlive := live_absorbed (n := d.nextSerial + 1) habs rfl
      intro i hi
      obtain ⟨hib, hi⟩ := (List.Nodup.mem_erase_iff hs.nodup).mp (hlive.mem_iff.mp hi)
      by_cases hia : i = a
      · -- the batches of two requests of one direction
        rw [hia, Request.uniform_iff habs.job]
        intro io hio
        rcases List.mem_append.mp hio with hio | hio
        · exact h₁ a (hmembers a habs.mem_left) io hio
        · exact (h₁ b (hmembers b habs.mem_right) io hio).trans habs.cmd.symm
      · rw [Request.uniform_congr (habs.rest i hia hib)]
        exact h₁ i hi
  | add hgrown _ =>
      intro i hi
      by_cases hnew : i = d.elv.nextReq
      · subst hnew
        rw [Request.uniform_iff hgrown.job]
        intro io hio
        rw [List.mem_singleton.mp hio]
      · rw [Request.uniform_congr (hgrown.rest i hnew)]
        rcases List.mem_cons.mp (hgrown.live.mem_iff.mp hi) with hi | hi
        · exact absurd hi hnew
        · exact h i hi
  | @complete rq req rest _ hlive _ hbatch =>
      intro i hi
      show ((d.elv.setReq rq { d.elv.reqs rq with batch := rest }).reqs i).Uniform
      by_cases hirq : i = rq
      · rw [hirq, reqs_setReq_self]
        intro io hio
        exact h rq hlive io (by rw [hbatch]; exact List.mem_cons_of_mem req hio)
      · rw [reqs_setReq_ne _ _ hirq]
        exact h i hi
  | @ended rq _ _ _ _ hended _ =>
      intro i hi
      rw [Request.uniform_congr (hended.core i)]
      exact h i (hended.live.mem_iff.mpr (List.mem_cons_of_mem rq hi))

/-- **Directions.** In a run in which no ioreq joins the last request when that has the other
direction, every ioreq of a request has the direction of the request. -/
theorem direction_run {sched : Sched} {evs : List Event}
    (hsched : sched = .startNoop ∨ sched = .startDeadline)
    (hrun : Run (Step p) (start sched) evs d)
    (hunmixed : ∀ pre ev post d₁, evs = pre ++ ev :: post → Run (Step p) (start sched) pre d₁ →
      Unmixed p d₁ ev) :
    ∀ rq ∈ d.live, ∀ io ∈ (d.elv.reqs rq).batch, io.cmd = (d.elv.reqs rq).cmd := by
  obtain ⟨hsound, hempty⟩ := sound_start hsched
  have hstart : Sound (start sched) ∧ Uniform (start sched) := by
    refine ⟨hsound, ?_⟩
    intro rq hrq
    rw [hempty] at hrq
    cases hrq
  have hinv : Sound d ∧ Uniform d := by
    refine (hrun.guard hunmixed).invariant (P := fun d => Sound d ∧ Uniform d) ?_ hstart
    rintro d₁ ev d₂ ⟨hs, hu⟩ ⟨hmix, hstep⟩
    obtain ⟨hs', heffect⟩ := step_effect hstep hs
    exact ⟨hs', hu.step hs heffect hmix⟩
  exact hinv.2

/-- The parameters of a small disk: every request may grow to 2 ^ 20 bytes, and the disk unplugs
when four requests wait. -/
def smallDisk : Params := ⟨2 ^ 20, 4, fun off => off % 64, 3⟩

/-- Two adjacent reads are merged. -/
theorem direction_reads :
    ∃ d, Run (Step smallDisk) (start .startNoop)
        [.submit ⟨.read, 0, 0, 0, 4096⟩, .submit ⟨.read, 0, 0, 4096, 4096⟩] d ∧
      ∀ rq ∈ d.live, ∀ io ∈ (d.elv.reqs rq).batch, io.cmd = (d.elv.reqs rq).cmd := by
  obtain ⟨d, hrun⟩ : ∃ d, Run (Step smallDisk) (start .startNoop)
      [.submit ⟨.read, 0, 0, 0, 4096⟩, .submit ⟨.read, 0, 0, 4096, 4096⟩] d :=
    ⟨_, .cons (.submit rfl) <| .cons (.submit rfl) (.nil _)⟩
  refine ⟨d, hrun, direction_run (Or.inl rfl) hrun ?_⟩
  intro pre ev post d₁ hsplit hpre req hev
  subst hev
  match pre, hsplit with
  | [], hsplit =>
      obtain rfl := Run.nil_iff.mp hpre
      rintro ⟨rq, hlast, -⟩
      cases hlast
  | [_], hsplit =>
      cases hsplit
      obtain ⟨d₂, hstep, hnil⟩ := Run.cons_iff.mp hpre
      obtain rfl := Run.nil_iff.mp hnil
      cases hstep with
      | submit h =>
          cases h
          rintro ⟨rq, hlast, -, -, hne⟩
          cases hlast
          exact hne rfl
  | _ :: _ :: _, hsplit => simp at hsplit

/-- A write that starts where a read ends becomes a part of the read. -/
theorem direction_readWrite :
    ∃ d, Run (Step smallDisk) (start .startNoop)
        [.submit ⟨.read, 0, 0, 0, 4096⟩, .submit ⟨.write, 0, 0, 4096, 4096⟩] d ∧
      ¬ ∀ rq ∈ d.live, ∀ io ∈ (d.elv.reqs rq).batch, io.cmd = (d.elv.reqs rq).cmd := by
  refine ⟨_, .cons (.submit rfl) <| .cons (.submit rfl) (.nil _), ?_⟩
  decide

end Disk

end LustreSimulator
