import LustreSimulator.Lib.Run
import LustreSimulator.NrsEpoch

/-!
# `LustreSimulator.Proofs.NrsEpochClock`: the slice timer of the epoch scheduler

`Clocked` says that the slice timer is armed while there is work, for the end of the slice at the
latest. `SwitchQueue` and `StartTimer` arm the timer so (`switchQueue_ticking`,
`startTimer_ticking`). But `StartTimer` does nothing while `on` is set, and nothing ever resets
`on`. When a slice ends in which the last message left, `SwitchQueue` arms no timer, and a message
that comes then finds `on` set: the timer is never armed again. `Awake` is the condition that no
message comes at such a time, and `slice_clock` says that it decides whether the scheduler stays
clocked.
-/

set_option autoImplicit false

namespace LustreSimulator.NrsEpoch

open Lib

variable {p : Params} {s s' : NrsEpoch} {now msg cid : Nat}

/-- The end of the current slice. -/
def sliceEnd (s : NrsEpoch) : Nat := (s.qvec s.cur).start + (s.qvec s.cur).quota

/-- While there is work the slice timer is armed, for the end of the slice at the latest. -/
def Clocked (s : NrsEpoch) : Prop :=
  s.size > 0 → ∃ expire, s.timer = some expire ∧ expire ≤ s.sliceEnd

/-- The scheduler is clocked, and an armed timer does not outlast the slice even when there is no
work. -/
structure Ticking (s : NrsEpoch) : Prop where
  size : 0 ≤ s.size
  early : ∀ expire, s.timer = some expire → expire ≤ s.sliceEnd
  clocked : Clocked s

/-- A timer that is armed for the rest of the quota is armed for the end of the slice. -/
theorem rest_of_quota (now start quota : Nat) :
    sub64 (add64 now quota) (sub64 now start) ≤ start + quota := by
  unfold sub64 add64
  omega

/-- A timer that is armed for a time in the slice makes the scheduler clocked. -/
theorem modTimer_ticking {expire : Nat} (hsize : 0 ≤ s.size) (hle : expire ≤ s.sliceEnd)
    (hok : s.modTimer now expire = .ok s') : Ticking s' := by
  obtain ⟨timer, htimer, hok⟩ := bind_eq_ok.mp hok
  cases hok
  obtain ⟨rfl, -⟩ := Timer.modTimer_eq_some (require_eq_ok.mp htimer)
  refine ⟨hsize, fun expire' h => ?_, fun _ => ⟨expire, rfl, hle⟩⟩
  cases h
  exact hle

/-- `SwitchQueue` arms the timer for the end of the new slice if there is work. -/
theorem switchQueue_ticking (hsize : 0 ≤ s.size) (hok : s.switchQueue now = .ok s') :
    Ticking s' := by
  obtain ⟨u, -, hok⟩ := bind_eq_ok.mp hok
  dsimp only at hok
  split at hok
  · obtain ⟨t, ht, hok⟩ := bind_eq_ok.mp hok
    cases hok
    have hticking : Ticking t := by
      refine modTimer_ticking ?_ ?_ ht
      · exact hsize
      · refine Nat.le_trans (Nat.mod_le _ _) ?_
        unfold sliceEnd
        dsimp only
        refine Nat.le_of_eq ?_
        rw [if_pos rfl]
    exact ⟨hticking.size, hticking.early, hticking.clocked⟩
  · rename_i hzero
    cases hok
    exact ⟨hsize, fun expire h => (nomatch h), fun hpos => absurd hpos hzero⟩

/-- `StartTimer` arms the timer unless `on` is set. -/
theorem startTimer_ticking (hsize : 0 ≤ s.size) (hoff : s.on = false)
    (hok : s.startTimer now = .ok s') : Ticking s' := by
  unfold startTimer at hok
  rw [if_pos hoff] at hok
  obtain ⟨u, -, hok⟩ := bind_eq_ok.mp hok
  dsimp only at hok
  split at hok
  · exact switchQueue_ticking hsize hok
  · refine modTimer_ticking hsize ?_ hok
    exact rest_of_quota now (s.qvec s.cur).start (s.qvec s.cur).quota

/-- `StartTimer` does nothing while `on` is set. -/
theorem startTimer_on (hon : s.on = true) : s.startTimer now = .ok s := by
  unfold startTimer
  rw [if_neg (by rw [hon]; decide)]

/-! ### Events -/

/-- Two schedulers are in the same slice: the timer, `on` and the times of the slice are the same.
-/
structure SameSlice (s s' : NrsEpoch) : Prop where
  timer : s'.timer = s.timer
  on : s'.on = s.on
  sliceEnd : s'.sliceEnd = s.sliceEnd

/-- Changing a queue does not change the slice. -/
theorem setQueue_sameSlice (s : NrsEpoch) (c : Nat) (q : NrsFifo Nat) :
    SameSlice s (s.setQueue c q) := by
  refine ⟨rfl, rfl, ?_⟩
  show (if s.cur = c then _ else _ : QueueClass).start +
      (if s.cur = c then _ else _ : QueueClass).quota =
    s.sliceEnd
  split
  · rename_i hc
    rw [← hc]
    rfl
  · rfl

/-- The search of `Dequeue` does not change the slice. -/
theorem search_sameSlice (s : NrsEpoch) (k idx : Nat) :
    SameSlice s (s.search k idx).2 ∧ (s.search k idx).2.size = s.size := by
  induction k generalizing idx with
  | zero => exact ⟨⟨rfl, rfl, rfl⟩, rfl⟩
  | succ k ih =>
      unfold search
      split
      · exact ⟨⟨rfl, rfl, rfl⟩, rfl⟩
      · split
        · exact ⟨setQueue_sameSlice s idx _, rfl⟩
        · exact ih _

/-- `Dequeue` does not change the slice, and `size` falls by one unless it is 0. -/
theorem dequeue_sameSlice (s : NrsEpoch) : SameSlice s s.dequeue.2 ∧
    s.dequeue.2.size = if s.size = 0 then 0 else s.size - 1 := by
  unfold dequeue
  split
  · rename_i hzero
    exact ⟨⟨rfl, rfl, rfl⟩, hzero⟩
  · split
    · rename_i e q hq
      obtain ⟨ht, ho, he⟩ := setQueue_sameSlice s s.nrs q
      exact ⟨⟨ht, ho, he⟩, rfl⟩
    · obtain ⟨⟨ht, ho, he⟩, hsize⟩ := search_sameSlice s s.num ((s.cur + 1) % s.num)
      exact ⟨⟨ht, ho, he⟩, congrArg (· - 1) hsize⟩

/-- No message comes when `on` is set and the timer is not armed. -/
def Awake (s : Timed) (ev : Event) : Prop :=
  ∀ msg cid, ev = .enqueue msg cid → ¬ (s.sched.on = true ∧ s.sched.timer = none)

/-- A scheduler in the same slice whose `size` is not less is ticking if the old one had its timer
armed. -/
theorem Ticking.same (h : Ticking s) (hsame : SameSlice s s') (hsize : 0 ≤ s'.size)
    (harmed : s'.size > 0 → s.timer ≠ none) : Ticking s' := by
  have hearly : ∀ expire, s'.timer = some expire → expire ≤ s'.sliceEnd := by
    rw [hsame.timer, hsame.sliceEnd]
    exact h.early
  refine ⟨hsize, hearly, fun hpos => ?_⟩
  obtain ⟨expire, hexpire⟩ := Option.ne_none_iff_exists'.mp (harmed hpos)
  rw [← hsame.timer] at hexpire
  exact ⟨expire, hexpire, hearly expire hexpire⟩

/-- While there is work the timer is armed. -/
theorem Ticking.armed (h : Ticking s) (hpos : s.size > 0) : s.timer ≠ none := by
  obtain ⟨expire, hexpire, -⟩ := h.clocked hpos
  rw [hexpire]
  exact Option.some_ne_none expire

/-- `Enqueue` keeps the scheduler ticking when it is awake. -/
theorem enqueue_ticking (h : Ticking s) (hawake : ¬ (s.on = true ∧ s.timer = none))
    (hok : s.enqueue p now msg cid = .ok s') : Ticking s' := by
  obtain ⟨c, -, hok⟩ := bind_eq_ok.mp hok
  obtain ⟨u, -, hok⟩ := bind_eq_ok.mp hok
  obtain ⟨htimer, hon, hend⟩ := setQueue_sameSlice s c ((s.qvec c).q.enqueue msg)
  have hsize := h.size
  have hpos : 0 ≤ s.size + 1 := by omega
  have hsame : SameSlice s
      { s.setQueue c ((s.qvec c).q.enqueue msg) with size := s.size + 1 } := ⟨htimer, hon, hend⟩
  dsimp only at hok
  split at hok
  · cases hoff : s.on with
    | false =>
        refine startTimer_ticking ?_ ?_ hok
        · exact hpos
        · exact hoff
    | true =>
        -- `StartTimer` does nothing, but the timer is armed
        rw [startTimer_on] at hok
        · cases hok
          exact h.same hsame hpos fun _ hnone => hawake ⟨hoff, hnone⟩
        · exact hoff
  · rename_i hone
    cases hok
    refine h.same hsame hpos fun _ => h.armed ?_
    change ¬ s.size + 1 = 1 at hone
    omega

/-- A message that comes when `on` is set and the timer is not armed leaves it so. -/
theorem enqueue_asleep (h : Ticking s) (hon : s.on = true) (hnone : s.timer = none)
    (hok : s.enqueue p now msg cid = .ok s') : ¬ Clocked s' := by
  obtain ⟨c, -, hok⟩ := bind_eq_ok.mp hok
  obtain ⟨u, -, hok⟩ := bind_eq_ok.mp hok
  have hzero : s.size = 0 := by
    by_contra hne
    have hsize := h.size
    exact h.armed (by omega) hnone
  dsimp only at hok
  rw [if_pos (by rw [hzero]; rfl)] at hok
  rw [startTimer_on] at hok
  · cases hok
    intro hclocked
    obtain ⟨expire, hexpire, -⟩ := hclocked (show s.size + 1 > 0 by omega)
    rw [show s.timer = some expire from hexpire] at hnone
    cases hnone
  · exact hon

/-- An event keeps the scheduler ticking exactly when it is awake. -/
theorem TimedStep.ticking {t t' : Timed} {ev : Event} (hstep : TimedStep p t ev t')
    (h : Ticking t.sched) (hawake : Awake t ev) : Ticking t'.sched := by
  cases hstep with
  | clock => exact h
  | enqueue hok => exact enqueue_ticking h (hawake _ _ rfl) hok
  | dequeue =>
      obtain ⟨hsame, hsize⟩ := dequeue_sameSlice t.sched
      have hnonneg := h.size
      refine h.same hsame ?_ fun hpos => h.armed ?_
      · show 0 ≤ t.sched.dequeue.2.size
        rw [hsize]
        split <;> omega
      · change t.sched.dequeue.2.size > 0 at hpos
        rw [hsize] at hpos
        split at hpos <;> omega
  | expire _ hok => exact switchQueue_ticking (s := { t.sched with timer := none }) h.size hok

/-! ### Runs -/

/-- An event at which the scheduler is awake. -/
def AwakeStep (p : Params) (s : Timed) (ev : Event) (s' : Timed) : Prop :=
  Awake s ev ∧ TimedStep p s ev s'

/-- **The slice clock.** In every run in which no message comes while `on` is set and the timer is
not armed, the slice timer is armed for the end of the slice at the latest whenever there is work.
The next event keeps it so exactly when it is no such message. -/
theorem slice_clock (p : Params) (t₀ : Nat) (evs : List Event) (s : Timed)
    (hrun : Run (AwakeStep p) (start p t₀) evs s) :
    Clocked s.sched ∧ ∀ ev s', TimedStep p s ev s' → (Clocked s'.sched ↔ Awake s ev) := by
  have hticking : Ticking s.sched := by
    refine hrun.invariant (P := fun s => Ticking s.sched)
      (fun _ _ _ h hstep => hstep.2.ticking h hstep.1) ⟨Int.le_refl _, fun _ h => (nomatch h), ?_⟩
    intro hpos
    exact absurd hpos (Int.lt_irrefl _)
  refine ⟨hticking.clocked, fun ev s' hstep => ⟨fun hclocked => ?_, fun hawake => ?_⟩⟩
  · rintro msg cid rfl ⟨hon, hnone⟩
    cases hstep with
    | enqueue hok => exact enqueue_asleep hticking hon hnone hok hclocked
  · exact (hstep.ticking hticking hawake).clocked

/-- Two classes of one client each. -/
def twoClasses : Params := ⟨2, 2, fun _ => 1⟩

/-- A message that comes into an idle scheduler in its first slice starts the timer. -/
theorem slice_clock_first : ∃ s, Run (AwakeStep twoClasses) (start twoClasses 5) [.enqueue 0 0] s ∧
    s.sched.size = 1 ∧ s.sched.timer = some 700000005 ∧ Clocked s.sched := by
  obtain ⟨s, hrun, hsize, htimer⟩ : ∃ s,
      Run (AwakeStep twoClasses) (start twoClasses 5) [.enqueue 0 0] s ∧ s.sched.size = 1 ∧
      s.sched.timer = some 700000005 :=
    ⟨_, .cons ⟨fun _ _ _ h => (nomatch h.1), .enqueue rfl⟩ (.nil _), rfl, rfl⟩
  exact ⟨s, hrun, hsize, htimer, (slice_clock twoClasses 5 _ s hrun).1⟩

/-- A message waits when its slice ends, which sets `on`. It leaves, and the next slice ends in an
idle scheduler. The message after that finds `on` set, and no timer is armed. -/
theorem slice_clock_idle : ¬ ∀ p t₀ evs s,
    Run (TimedStep p) (start p t₀) evs s → Clocked s.sched := by
  intro hall
  obtain ⟨s, hrun, hsize, htimer⟩ : ∃ s, Run (TimedStep twoClasses) (start twoClasses 0)
      [.enqueue 0 0, .clock 700000000, .expire, .dequeue, .clock 1000000000, .expire,
        .enqueue 1 0] s ∧
      s.sched.size = 1 ∧ s.sched.timer = none :=
    ⟨_, .cons (.enqueue rfl) <| .cons (.clock (by decide) (by rintro _ ⟨⟩; decide)) <|
      .cons (.expire rfl rfl) <| .cons .dequeue <|
      .cons (.clock (by decide) (by rintro _ ⟨⟩; decide)) <| .cons (.expire rfl rfl) <|
      .cons (.enqueue rfl) (.nil _), rfl, rfl⟩
  obtain ⟨expire, hexpire, -⟩ := hall _ _ _ s hrun (by rw [hsize]; decide)
  rw [htimer] at hexpire
  cases hexpire

end LustreSimulator.NrsEpoch
