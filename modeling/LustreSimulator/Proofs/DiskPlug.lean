import LustreSimulator.Proofs.Disk

/-!
# `LustreSimulator.Proofs.DiskPlug`: no ioreq is stranded behind an idle disk

`Awake` is the invariant of plugging: the disk is plugged while the elevator holds requests, the
timer is armed while the disk is plugged, an idle disk has an empty `Queue` or is plugged, and
the thread of any other disk is in the run queue unless the disk is inside `EndRequest`.

`Dequeue` hands a single request to the disk. The disk calls it from `Request` only, and there
until the elevator is empty. So a run here has no such call of its own.
-/

set_option autoImplicit false

namespace LustreSimulator.Disk

open Lib Elevator

variable {d d' : Disk} {p : Params}

/-- Plugging, the timer and the disk thread go together. -/
structure Awake (d : Disk) : Prop where
  plug : d.pluged = true ↔ d.elv.sched.members ≠ []
  timer : d.timer.isSome = true ↔ d.pluged = true
  idle : d.diskState = .idle → d.queue = [] ∨ d.pluged = true
  busy : d.diskState ≠ .idle → d.run = true ∨ d.ending = true

/-- After the plugging of `Enqueue` the disk is plugged. -/
theorem Awake.plugs (h : Awake d) (p : Params) :
    (d.plugs p).1 = true ∧ (d.plugs p).2.isSome = true := by
  unfold Disk.plugs
  split
  · exact ⟨rfl, rfl⟩
  · rename_i hplug
    have hpluged : d.pluged = true := by
      by_contra hne
      apply hplug
      refine ⟨?_, by simpa using hne⟩
      by_contra hmembers
      exact hne (h.plug.mpr hmembers)
    exact ⟨hpluged, h.timer.mpr hpluged⟩

/-- An unplugged disk that got all requests of the elevator is awake. -/
theorem awake_drained {e : Elevator} {l : List Nat}
    (hbusy : d.diskState ≠ .idle → d.run = true ∨ d.ending = true) (hl : l ≠ [])
    (hempty : e.sched.members = []) :
    Awake ({ d with pluged := false, timer := none }.ready e l) := by
  have hstate : (if l ≠ [] ∧ d.diskState = .idle then DiskState.work else d.diskState) ≠ .idle := by
    split
    · decide
    · rename_i hidle
      exact fun h => hidle ⟨hl, h⟩
  refine ⟨?_, ?_, fun hidle => absurd hidle hstate, fun _ => ?_⟩
  · exact iff_of_false (fun h => nomatch h) (fun h => h hempty)
  · exact iff_of_false (fun h => nomatch h) (fun h => nomatch h)
  · show (if l ≠ [] ∧ d.diskState = .idle then true else d.run) = true ∨ d.ending = true
    by_cases hidle : d.diskState = .idle
    · rw [if_pos ⟨hl, hidle⟩]
      exact Or.inl rfl
    · rw [if_neg fun h => hidle h.2]
      exact hbusy hidle

/-- `WorkState` leaves the disk awake: it is idle with an empty `Queue`, or its thread runs. -/
theorem Awake.workState (h : d.workState = .ok d')
    (hplug : d.pluged = true ↔ d.elv.sched.members ≠ [])
    (htimer : d.timer.isSome = true ↔ d.pluged = true) : Awake d' := by
  unfold Disk.workState at h
  split at h
  · rename_i hqueue
    cases h
    exact ⟨hplug, htimer, fun _ => Or.inl hqueue, fun h => absurd rfl h⟩
  · obtain ⟨u, -, h⟩ := bind_eq_ok.mp h
    cases h
    exact ⟨hplug, htimer, fun h => (nomatch h), fun _ => Or.inl rfl⟩

/-- Submitting an ioreq keeps the disk awake. -/
theorem Awake.submit {r : Ioreq} (ha : Awake d) (hwf : WF d.elv)
    (h : d.submitIoreq p r = .ok d') : Awake d' := by
  rcases submitIoreq_spec h hwf with
    ⟨rq, r₁, e, rfl, -, hmem, -, hresult⟩ | ⟨e₀, hwf₀, hsame, hnew⟩
  · -- the elevator held a request, and it still does
    have hbefore : d.elv.sched.members ≠ [] := List.ne_nil_of_mem hmem
    have hafter : e.sched.members ≠ [] := by
      rcases hresult with hsame | ⟨a, b, habs⟩
      · exact List.ne_nil_of_mem (hsame.members.mem_iff.mpr hmem)
      · exact List.ne_nil_of_mem
          (habs.members.mem_iff.mpr ((List.mem_erase_of_ne habs.ne).mpr habs.mem_left))
    exact ⟨iff_of_true (ha.plug.mpr hbefore) hafter, ha.timer, ha.idle, ha.busy⟩
  · have ha₀ : Awake { d with elv := e₀, nextSerial := d.nextSerial + 1 } := by
      refine ⟨ha.plug.trans (not_congr ?_), ha.timer, ha.idle, ha.busy⟩
      rw [← List.length_eq_zero_iff, ← List.length_eq_zero_iff, hsame.members.length_eq]
    obtain ⟨b, t, e₁, e, l, rfl, -, hadded, hhanded, hcase⟩ := enqueueNew_spec hnew hwf₀
    have hnonempty : e₁.sched.members ≠ [] :=
      List.ne_nil_of_mem (hadded.members.mem_iff.mpr List.mem_cons_self)
    rcases hcase with ⟨hplugs, rfl⟩ | ⟨hplugs, hempty⟩
    · -- the new request waits in the elevator
      obtain ⟨hb, ht⟩ := ha₀.plugs p
      rw [← hplugs] at hb ht
      have hmembers : e.sched.members ≠ [] := by
        intro hempty
        apply hnonempty
        have hperm := hhanded.members
        rw [hempty] at hperm
        exact hperm.nil_eq.symm
      rw [ready_nil]
      exact ⟨iff_of_true hb hmembers, iff_of_true ht hb, fun _ => Or.inr hb, ha.busy⟩
    · -- the disk was unplugged
      cases hplugs
      apply awake_drained (d := { d with elv := e₀, nextSerial := d.nextSerial + 1 }) ha.busy ?_
        hempty
      rintro rfl
      have hperm := hhanded.members
      rw [hempty] at hperm
      exact hnonempty hperm.nil_eq.symm

/-- A step keeps the disk awake. -/
theorem Awake.step {ev : Event} (hs : Sound d) (ha : Awake d) (h : Step p d ev d')
    (hev : ev ≠ .dequeue) : Awake d' := by
  cases h with
  | clock => exact ⟨ha.plug, ha.timer, ha.idle, ha.busy⟩
  | submit hsubmit => exact ha.submit hs.wf hsubmit
  | timer hending htimer hunplug =>
      -- the timer was armed, so the disk is plugged and the elevator holds requests
      have hpluged : d.pluged = true := ha.timer.mp (by rw [htimer]; rfl)
      rcases unplug_spec hunplug hs.wf with ⟨hno, -⟩ | ⟨-, e, l, rfl, -, hempty, hhanded⟩
      · exact absurd hpluged (by rw [show d.pluged = false from hno]; decide)
      · apply awake_drained (d := d) ha.busy ?_ hempty
        rintro rfl
        have hperm := hhanded.members
        rw [hempty] at hperm
        exact ha.plug.mp hpluged hperm.nil_eq.symm
  | thread hending hrun hmachine =>
      unfold diskStateMachine at hmachine
      split at hmachine
      · exact Awake.workState hmachine ha.plug ha.timer
      · rename_i hstate
        split at hmachine
        · cases hmachine
        · cases hmachine
          exact ⟨ha.plug, ha.timer, ha.idle, fun _ => Or.inr rfl⟩
      · rename_i hstate
        cases hmachine
        exact ⟨ha.plug, ha.timer, ha.idle, fun h => absurd hstate h⟩
  | complete => exact ⟨ha.plug, ha.timer, ha.idle, ha.busy⟩
  | endRequest hending hcur hbatch hend =>
      unfold Disk.endRequest at hend
      obtain ⟨e, hput, hend⟩ := bind_eq_ok.mp hend
      obtain ⟨-, hsched, -, -⟩ := putRequest_spec hput hs.wf
      have hplug : d.pluged = true ↔ e.sched.members ≠ [] := by
        rw [hsched]
        exact ha.plug
      dsimp only at hend
      split at hend
      · rename_i hpluged
        cases hend
        exact ⟨hplug, ha.timer, fun _ => Or.inr hpluged, fun h => absurd rfl h⟩
      · exact Awake.workState hend hplug ha.timer
  | dequeue => exact absurd rfl hev

/-- **No ioreq is stranded.** In every state of every run, the elevator holds a request exactly
when the disk is plugged, and the disk is plugged exactly when the timer is armed. When the
`Queue` of the disk holds a request, the disk thread is in the run queue, or the disk is inside
`EndRequest`, or it is plugged and the elevator holds requests. -/
theorem awake_run {sched : Sched} {evs : List Event}
    (hsched : sched = .startNoop ∨ sched = .startDeadline)
    (hrun : Run (Step p) (start sched) evs d) (hdequeue : .dequeue ∉ evs) :
    (d.elv.elvQueueEmpty = false ↔ d.pluged = true) ∧
    (d.pluged = true ↔ d.timer.isSome = true) ∧
    (d.queue ≠ [] → d.run = true ∨ d.ending = true ∨
      d.pluged = true ∧ d.elv.elvQueueEmpty = false) := by
  obtain ⟨hsound, -⟩ := sound_start hsched
  obtain ⟨hwf, hmembers⟩ := wf_start hsched
  have hstart : Sound (start sched) ∧ Awake (start sched) :=
    ⟨hsound, iff_of_false (fun h => nomatch h) (fun h => h hmembers),
      iff_of_false (fun h => nomatch h) (fun h => nomatch h), fun _ => Or.inl rfl,
      fun h => absurd rfl h⟩
  have hguard := hrun.guard (C := fun _ ev => ev ≠ .dequeue) (by
    intro pre ev post _ hsplit _ hev
    apply hdequeue
    rw [hsplit, hev]
    exact List.mem_append_right pre List.mem_cons_self)
  obtain ⟨hs, ha⟩ : Sound d ∧ Awake d :=
    hguard.invariant (P := fun d => Sound d ∧ Awake d)
      (fun _ _ _ h hstep => ⟨(step_effect hstep.2 h.1).1, h.2.step h.1 hstep.2 hstep.1⟩) hstart
  have hholds : d.elv.elvQueueEmpty = false ↔ d.pluged = true := by
    rw [ha.plug, ← Bool.not_eq_true, elvQueueEmpty_iff hs.wf]
  refine ⟨hholds, ha.timer.symm, fun hqueue => ?_⟩
  by_cases hidle : d.diskState = .idle
  · have hpluged := (ha.idle hidle).resolve_left hqueue
    exact Or.inr (Or.inr ⟨hpluged, hholds.mpr hpluged⟩)
  · rcases ha.busy hidle with hthread | hending
    · exact Or.inl hthread
    · exact Or.inr (Or.inl hending)

/-- Two requests are ready, and a third one waits in the
elevator. -/
theorem awake_three :
    ∃ d, Run (Step ⟨2 ^ 20, 4, fun off => off % 64, 3⟩) (start .startDeadline)
        [.submit ⟨.read, 0, 0, 0, 4096⟩, .submit ⟨.write, 0, 0, 9000, 4096⟩, .clock 3, .timer,
          .submit ⟨.read, 0, 0, 50000, 4096⟩] d ∧
      d.queue = [1, 0] ∧
      ((d.elv.elvQueueEmpty = false ↔ d.pluged = true) ∧
        (d.pluged = true ↔ d.timer.isSome = true) ∧
        (d.queue ≠ [] → d.run = true ∨ d.ending = true ∨
          d.pluged = true ∧ d.elv.elvQueueEmpty = false)) := by
  have hexists : ∃ d, Run (Step ⟨2 ^ 20, 4, fun off => off % 64, 3⟩) (start .startDeadline)
      [.submit ⟨.read, 0, 0, 0, 4096⟩, .submit ⟨.write, 0, 0, 9000, 4096⟩, .clock 3, .timer,
        .submit ⟨.read, 0, 0, 50000, 4096⟩] d ∧ d.queue = [1, 0] :=
    ⟨_, .cons (.submit rfl) <| .cons (.submit rfl) <| .cons (.clock rfl (by decide) (by decide)) <|
      .cons (.timer rfl rfl rfl) <| .cons (.submit rfl) (.nil _), rfl⟩
  obtain ⟨d, hrun, hqueue⟩ := hexists
  exact ⟨d, hrun, hqueue, awake_run (Or.inr rfl) hrun (by decide)⟩

end LustreSimulator.Disk
