import LustreSimulator.Lib.Run
import Mathlib.Data.List.Nodup
import Mathlib.Data.List.Perm.Basic
import Mathlib.Data.List.Range

/-!
# `LustreSimulator.Lib.Agenda`: events that fire in the order of their times

An agenda holds pending armings, each of an event for a time. Arming an event again after it
fired or was cancelled gives a new arming with a new number. Time passes only when an arming
fires: the clock then goes to the time of the arming, which no pending arming may precede.

`Agenda.Sound` is what holds of every agenda that runs of `Agenda.Step` reach
(`Agenda.sound_run`): every arming is pending, or it fired once, or it was cancelled, or it was
dropped at the end, and exactly one of these. The armings fire in the order of their times, each
with the clock at its own, and no pending arming is behind.
-/

set_option autoImplicit false

namespace LustreSimulator.Lib

variable {ι : Type*}

/-- The event was armed for the time. No two armings have the same number. -/
structure Arming (ι : Type*) where
  serial : Nat
  event : ι
  time : Nat
  deriving DecidableEq, Repr

/-- The armings that are pending and what became of the others. With each arming that fired
comes the clock then. -/
structure Agenda (ι : Type*) where
  now : Nat
  pending : List (Arming ι)
  armed : List (Arming ι)
  fired : List (Arming ι × Nat)
  cancelled : List (Arming ι)
  dropped : List (Arming ι)

namespace Agenda

/-- What happens to an agenda. -/
inductive Action (ι : Type*) where
  | arm (e : ι) (time : Nat)
  | cancel (e : ι)
  | fire (e : ι)
  | drop

/-- The steps of an agenda. -/
inductive Step : Agenda ι → Action ι → Agenda ι → Prop where
  | arm {s s' : Agenda ι} {e : ι} {time : Nat} : s.now ≤ time →
      s'.pending.Perm (⟨s.armed.length, e, time⟩ :: s.pending) →
      s'.armed = s.armed ++ [⟨s.armed.length, e, time⟩] → s'.now = s.now → s'.fired = s.fired →
      s'.cancelled = s.cancelled → s'.dropped = s.dropped → Step s (.arm e time) s'
  | cancel {s s' : Agenda ι} {a : Arming ι} : s.pending.Perm (a :: s'.pending) →
      s'.cancelled = s.cancelled ++ [a] → s'.armed = s.armed → s'.now = s.now →
      s'.fired = s.fired → s'.dropped = s.dropped → Step s (.cancel a.event) s'
  | fire {s s' : Agenda ι} {a : Arming ι} : s.pending.Perm (a :: s'.pending) →
      (∀ b ∈ s'.pending, a.time ≤ b.time) → s'.now = a.time →
      s'.fired = s.fired ++ [(a, s'.now)] → s'.armed = s.armed → s'.cancelled = s.cancelled →
      s'.dropped = s.dropped → Step s (.fire a.event) s'
  | drop {s s' : Agenda ι} : s'.pending = [] → s'.dropped.Perm (s.dropped ++ s.pending) →
      s'.armed = s.armed → s'.now = s.now → s'.fired = s.fired →
      s'.cancelled = s.cancelled → Step s .drop s'

/-- What became of the armings, all in one list. -/
def settled (s : Agenda ι) : List (Arming ι) :=
  s.pending ++ s.fired.map Prod.fst ++ s.cancelled ++ s.dropped

/-- The state of an agenda is right. -/
structure Sound (s : Agenda ι) : Prop where
  ahead : ∀ a ∈ s.pending, s.now ≤ a.time
  past : ∀ f ∈ s.fired, f.1.time ≤ s.now
  clock : ∀ f ∈ s.fired, f.2 = f.1.time
  sorted : s.fired.Pairwise fun f g => f.1.time ≤ g.1.time
  once : s.settled.Perm s.armed
  numbered : s.armed.map Arming.serial = List.range s.armed.length

variable {s s' : Agenda ι} {act : Action ι}

/-- An agenda on which nothing happened is sound. -/
theorem sound_empty (now : Nat) : Sound (⟨now, [], [], [], [], []⟩ : Agenda ι) := by
  refine ⟨?_, ?_, ?_, List.Pairwise.nil, List.Perm.refl _, rfl⟩
  · exact fun _ h => nomatch h
  · exact fun _ h => nomatch h
  · exact fun _ h => nomatch h

/-- No two armings are the same. -/
theorem Sound.nodup (h : Sound s) : s.armed.Nodup := by
  apply List.Nodup.of_map Arming.serial
  rw [h.numbered]
  exact List.nodup_range

/-- No pending arming is behind one that fired. -/
theorem Sound.fired_le_pending (h : Sound s) {f : Arming ι × Nat} (hf : f ∈ s.fired)
    {a : Arming ι} (ha : a ∈ s.pending) : f.1.time ≤ a.time :=
  Nat.le_trans (h.past f hf) (h.ahead a ha)

/-- A step that arms an event. -/
theorem Sound.arm {e : ι} {time : Nat} (h : Sound s) (htime : s.now ≤ time)
    (hpending : s'.pending.Perm (⟨s.armed.length, e, time⟩ :: s.pending))
    (harmed : s'.armed = s.armed ++ [⟨s.armed.length, e, time⟩]) (hnow : s'.now = s.now)
    (hfired : s'.fired = s.fired) (hcancelled : s'.cancelled = s.cancelled)
    (hdropped : s'.dropped = s.dropped) : Sound s' := by
  refine ⟨?_, ?_, ?_, ?_, ?_, ?_⟩
  · intro a ha
    rw [hnow]
    rcases List.mem_cons.mp (hpending.mem_iff.mp ha) with rfl | ha
    · exact htime
    · exact h.ahead a ha
  · rw [hfired, hnow]
    exact h.past
  · rw [hfired]
    exact h.clock
  · rw [hfired]
    exact h.sorted
  · unfold settled
    rw [harmed, hfired, hcancelled, hdropped]
    calc List.Perm (s'.pending ++ s.fired.map Prod.fst ++ s.cancelled ++ s.dropped)
          (⟨s.armed.length, e, time⟩ :: s.settled) :=
            ((hpending.append_right _).append_right _).append_right _
      List.Perm _ (⟨s.armed.length, e, time⟩ :: s.armed) := h.once.cons _
      List.Perm _ (s.armed ++ [⟨s.armed.length, e, time⟩]) :=
        (List.perm_append_singleton _ _).symm
  · rw [harmed, List.map_append, h.numbered, List.length_append, List.length_singleton,
      List.range_succ]
    rfl

/-- A step that cancels a pending arming. -/
theorem Sound.cancel {a : Arming ι} (h : Sound s) (hpending : s.pending.Perm (a :: s'.pending))
    (hcancelled : s'.cancelled = s.cancelled ++ [a]) (harmed : s'.armed = s.armed)
    (hnow : s'.now = s.now) (hfired : s'.fired = s.fired) (hdropped : s'.dropped = s.dropped) :
    Sound s' := by
  refine ⟨?_, ?_, ?_, ?_, ?_, ?_⟩
  · intro b hb
    rw [hnow]
    exact h.ahead b (hpending.mem_iff.mpr (List.mem_cons_of_mem a hb))
  · rw [hfired, hnow]
    exact h.past
  · rw [hfired]
    exact h.clock
  · rw [hfired]
    exact h.sorted
  · have honce := h.once
    unfold settled at honce ⊢
    rw [harmed, hfired, hcancelled, hdropped]
    refine List.Perm.trans ?_ honce
    apply List.Perm.append_right
    -- the arming moves from the front to the end of the cancelled ones
    calc List.Perm (s'.pending ++ s.fired.map Prod.fst ++ (s.cancelled ++ [a]))
          (s'.pending ++ s.fired.map Prod.fst ++ s.cancelled ++ [a]) := by
            rw [List.append_assoc _ s.cancelled]
      List.Perm _ (a :: (s'.pending ++ s.fired.map Prod.fst ++ s.cancelled)) :=
        List.perm_append_singleton _ _
      List.Perm _ (s.pending ++ s.fired.map Prod.fst ++ s.cancelled) :=
        ((hpending.append_right _).append_right _).symm
  · rw [harmed]
    exact h.numbered

/-- A step that fires a pending arming. -/
theorem Sound.fire {a : Arming ι} (h : Sound s) (hpending : s.pending.Perm (a :: s'.pending))
    (hmin : ∀ b ∈ s'.pending, a.time ≤ b.time) (hnow : s'.now = a.time)
    (hfired : s'.fired = s.fired ++ [(a, s'.now)]) (harmed : s'.armed = s.armed)
    (hcancelled : s'.cancelled = s.cancelled) (hdropped : s'.dropped = s.dropped) :
    Sound s' := by
  have ha : s.now ≤ a.time := h.ahead a (hpending.mem_iff.mpr List.mem_cons_self)
  refine ⟨?_, ?_, ?_, ?_, ?_, ?_⟩
  · intro b hb
    rw [hnow]
    exact hmin b hb
  · intro f hf
    rw [hfired] at hf
    rw [hnow]
    rcases List.mem_append.mp hf with hf | hf
    · exact Nat.le_trans (h.past f hf) ha
    · rw [List.mem_singleton.mp hf]
  · intro f hf
    rw [hfired] at hf
    rcases List.mem_append.mp hf with hf | hf
    · exact h.clock f hf
    · rw [List.mem_singleton.mp hf]
      exact hnow
  · rw [hfired, List.pairwise_append]
    refine ⟨h.sorted, List.pairwise_singleton _ _, ?_⟩
    intro f hf g hg
    rw [List.mem_singleton.mp hg]
    exact Nat.le_trans (h.past f hf) ha
  · have honce := h.once
    unfold settled at honce ⊢
    rw [harmed, hfired, hcancelled, hdropped]
    refine List.Perm.trans ?_ honce
    apply List.Perm.append_right
    apply List.Perm.append_right
    rw [List.map_append, ← List.append_assoc]
    refine (List.perm_append_singleton _ _).trans ?_
    exact (hpending.append_right _).symm
  · rw [harmed]
    exact h.numbered

/-- Only the drop at the end drops armings. -/
theorem Step.dropped_eq (hstep : Step s act s') (hact : act ≠ .drop) :
    s'.dropped = s.dropped := by
  cases hstep with
  | arm _ _ _ _ _ _ hdropped => exact hdropped
  | cancel _ _ _ _ _ hdropped => exact hdropped
  | fire _ _ _ _ _ _ hdropped => exact hdropped
  | drop => exact absurd rfl hact

/-- Arming an event cancels nothing. -/
theorem Step.cancelled_eq {e : ι} {time : Nat} (hstep : Step s (.arm e time) s') :
    s'.cancelled = s.cancelled := by
  cases hstep with
  | arm _ _ _ _ _ hcancelled _ => exact hcancelled

/-- A step keeps an agenda sound. -/
theorem Step.sound (hstep : Step s act s') (h : Sound s) : Sound s' := by
  cases hstep with
  | arm htime hpending harmed hnow hfired hcancelled hdropped =>
      exact h.arm htime hpending harmed hnow hfired hcancelled hdropped
  | cancel hpending hcancelled harmed hnow hfired hdropped =>
      exact h.cancel hpending hcancelled harmed hnow hfired hdropped
  | fire hpending hmin hnow hfired harmed hcancelled hdropped =>
      exact h.fire hpending hmin hnow hfired harmed hcancelled hdropped
  | drop hpending hdropped harmed hnow hfired hcancelled =>
      refine ⟨?_, ?_, ?_, ?_, ?_, ?_⟩
      · intro a ha
        rw [hpending] at ha
        cases ha
      · rw [hfired, hnow]
        exact h.past
      · rw [hfired]
        exact h.clock
      · rw [hfired]
        exact h.sorted
      · have honce := h.once
        unfold settled at honce ⊢
        rw [harmed, hfired, hcancelled, hpending, List.nil_append]
        refine List.Perm.trans (hdropped.append_left _) ?_
        refine List.Perm.trans ?_ honce
        rw [← List.append_assoc]
        refine List.perm_append_comm.trans ?_
        rw [← List.append_assoc, ← List.append_assoc]
      · rw [harmed]
        exact h.numbered

/-- Time does not go back. -/
theorem Step.now_le (hstep : Step s act s') (h : Sound s) : s.now ≤ s'.now := by
  cases hstep with
  | arm _ _ _ hnow _ _ _ => exact Nat.le_of_eq hnow.symm
  | cancel _ _ _ hnow _ _ => exact Nat.le_of_eq hnow.symm
  | @fire _ a hpending _ hnow _ _ _ _ =>
      rw [hnow]
      exact h.ahead a (hpending.mem_iff.mpr List.mem_cons_self)
  | drop _ _ _ hnow _ _ => exact Nat.le_of_eq hnow.symm

/-- A run keeps an agenda sound. -/
theorem sound_run {acts : List (Action ι)} (hrun : Run Step s acts s') (h : Sound s) : Sound s' :=
  hrun.invariant (fun _ _ _ hs hstep => hstep.sound hs) h

end Agenda

end LustreSimulator.Lib
