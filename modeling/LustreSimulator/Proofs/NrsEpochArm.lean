import LustreSimulator.Proofs.NrsEpochClock

/-!
# `LustreSimulator.Proofs.NrsEpochArm`: the times that arm the slice timer

`ModTimer` is called in `SwitchQueue` and in `StartTimer`, at most once in an event. `modTimerCall`
is the time that it is given, and `TimedStep.timer_call` says that an event arms the timer for it.

`StartTimer` computes what is left of the quota, and it switches the queue only if more than the
quota is used. So a message that comes at the very end of a slice arms the timer for the current
time (`AtEnd`). The other times are late, unless the end of a slice does not fit into 64 bits
(`Overflows`). `armed_later_iff` is the result over runs.
-/

set_option autoImplicit false

namespace LustreSimulator.NrsEpoch

open Lib

variable {p : Params} {s s' : NrsEpoch} {now msg cid t₀ : Nat}

/-! ### The calls of `ModTimer` -/

/-- The class that `SwitchQueue` switches to. -/
def nextClass (s : NrsEpoch) : Nat := (s.cur + 1) % s.num

/-- The time of the call in `SwitchQueue()`. -/
def switchQueueCall (s : NrsEpoch) (now : Nat) : Option Nat :=
  if s.num ≠ 0 ∧ s.size > 0 then some (add64 now (s.qvec s.nextClass).quota) else none

/-- The time of the call in `StartTimer()`. -/
def startTimerCall (s : NrsEpoch) (now : Nat) : Option Nat :=
  if s.on = false ∧ s.size > 0 then
    let used := sub64 now (s.qvec s.cur).start
    if used > (s.qvec s.cur).quota then s.switchQueueCall now
    else some (sub64 (add64 now (s.qvec s.cur).quota) used)
  else none

/-- The time of the call in `Enqueue(msg)`, for a message of the client `cid`. -/
def enqueueCall (s : NrsEpoch) (p : Params) (now cid : Nat) : Option Nat :=
  match s.getQueueClass p cid with
  | .error _ => none
  | .ok _ => if s.size = 0 then { s with size := s.size + 1 }.startTimerCall now else none

/-- The time that an event gives to `ModTimer`, when it calls it. -/
def modTimerCall (p : Params) (s : Timed) : Event → Option Nat
  | .enqueue _ cid => s.sched.enqueueCall p s.now cid
  | .expire => s.sched.switchQueueCall s.now
  | .clock _ | .dequeue => none

/-- Two schedulers that `StartTimer` does not tell apart. -/
structure SameCalls (s s' : NrsEpoch) : Prop where
  num : s'.num = s.num
  cur : s'.cur = s.cur
  on : s'.on = s.on
  size : s'.size = s.size
  start : ∀ c, (s'.qvec c).start = (s.qvec c).start
  quota : ∀ c, (s'.qvec c).quota = (s.qvec c).quota

/-- `StartTimer` calls `ModTimer` with the same time. -/
theorem SameCalls.startTimerCall (h : SameCalls s s') (now : Nat) :
    s'.startTimerCall now = s.startTimerCall now := by
  unfold NrsEpoch.startTimerCall switchQueueCall nextClass
  -- the call reads only what is the same in both
  rw [h.num, h.cur, h.on, h.size, h.start, h.quota, h.quota]

/-- Changing a queue changes no time. -/
theorem setQueue_times (s : NrsEpoch) (c : Nat) (q : NrsFifo Nat) (i : Nat) :
    ((s.setQueue c q).qvec i).start = (s.qvec i).start ∧
      ((s.setQueue c q).qvec i).quota = (s.qvec i).quota := by
  unfold setQueue
  dsimp only
  split
  · rename_i hi
    rw [hi]
    exact ⟨rfl, rfl⟩
  · exact ⟨rfl, rfl⟩

/-- The scheduler with a new message in a queue. -/
theorem joined_sameCalls (s : NrsEpoch) (c : Nat) (q : NrsFifo Nat) :
    SameCalls { s with size := s.size + 1 } { s.setQueue c q with size := s.size + 1 } :=
  ⟨rfl, rfl, rfl, rfl, fun i => (setQueue_times s c q i).1, fun i => (setQueue_times s c q i).2⟩

/-- Moving the timer arms it. -/
theorem modTimer_timer {expire : Nat} (h : s.modTimer now expire = .ok s') :
    s'.timer = some expire := by
  obtain ⟨timer, htimer, h⟩ := bind_eq_ok.mp h
  cases h
  exact (Timer.modTimer_eq_some (require_eq_ok.mp htimer)).1

/-- `RunAt` accepts a later time. -/
theorem modTimer_accepted {expire : Nat} (h : now < expire) :
    s.modTimer now expire ≠ .error .runAt := by
  unfold modTimer
  rw [Timer.modTimer_of_lt h]
  exact ok_ne_error

/-- `SwitchQueue` arms the timer for the time of its call, or leaves it unarmed. -/
theorem switchQueue_call (h : s.switchQueue now = .ok s') :
    s'.timer = s.switchQueueCall now := by
  obtain ⟨u, hnum, h⟩ := bind_eq_ok.mp h
  have hnum := check_eq_ok.mp hnum
  unfold switchQueueCall
  dsimp only at h
  split at h
  · -- there is work: the timer is moved
    rename_i hpos
    obtain ⟨t, ht, h⟩ := bind_eq_ok.mp h
    cases h
    rw [if_pos ⟨hnum, hpos⟩]
    refine (modTimer_timer ht).trans ?_
    rw [if_pos rfl]
    rfl
  · -- there is none: the timer stays deleted
    rename_i hzero
    cases h
    rw [if_neg fun hcall => hzero hcall.2]
    rfl

/-- `RunAt` does not stop `SwitchQueue` when its call is for a later time. -/
theorem switchQueue_accepted (h : ∀ t, s.switchQueueCall now = some t → now < t) :
    s.switchQueue now ≠ .error .runAt := by
  unfold switchQueue
  refine bind_ne_error (check_ne_error (by decide)) fun u hnum => ?_
  have hnum := check_eq_ok.mp hnum
  dsimp only
  split
  · rename_i hpos
    refine bind_ne_error (modTimer_accepted ?_) fun _ _ => ok_ne_error
    rw [if_pos rfl]
    exact h _ (if_pos ⟨hnum, hpos⟩)
  · exact ok_ne_error

/-- `StartTimer` arms the timer for the time of its call, or leaves it as it is. -/
theorem startTimer_call (h : s.startTimer now = .ok s') :
    s'.timer = (s.startTimerCall now).or s.timer := by
  unfold startTimer at h
  unfold startTimerCall
  split at h
  · rename_i hoff
    obtain ⟨u, hpos, h⟩ := bind_eq_ok.mp h
    have hpos := check_eq_ok.mp hpos
    dsimp only at h ⊢
    rw [if_pos ⟨hoff, hpos⟩]
    split at h
    · rename_i hused
      rw [if_pos hused, switchQueue_call h]
      -- there is work, so `SwitchQueue` has armed the timer
      have hnum : s.num ≠ 0 := by
        obtain ⟨u, hnum, -⟩ := bind_eq_ok.mp h
        exact check_eq_ok.mp hnum
      unfold switchQueueCall
      rw [if_pos ⟨hnum, hpos⟩]
      rfl
    · -- the slice has not been used up
      rename_i hrest
      rw [if_neg hrest]
      exact modTimer_timer h
  · -- the timer is on already
    rename_i hon
    cases h
    rw [if_neg fun hcall => hon hcall.1]
    rfl

/-- `RunAt` does not stop `StartTimer` when its call is for a later time. -/
theorem startTimer_accepted (h : ∀ t, s.startTimerCall now = some t → now < t) :
    s.startTimer now ≠ .error .runAt := by
  unfold startTimer
  unfold startTimerCall at h
  split
  · rename_i hoff
    refine bind_ne_error (check_ne_error (by decide)) fun u hpos => ?_
    have hpos := check_eq_ok.mp hpos
    dsimp only at h ⊢
    rw [if_pos ⟨hoff, hpos⟩] at h
    split
    · rename_i hused
      rw [if_pos hused] at h
      exact switchQueue_accepted h
    · rename_i hrest
      rw [if_neg hrest] at h
      exact modTimer_accepted (h _ rfl)
  · exact ok_ne_error

/-- `Enqueue` arms the timer for the time of its call, or leaves it as it is. -/
theorem enqueue_call (h : s.enqueue p now msg cid = .ok s') :
    s'.timer = (s.enqueueCall p now cid).or s.timer := by
  obtain ⟨c, hc, h⟩ := bind_eq_ok.mp h
  obtain ⟨u, -, h⟩ := bind_eq_ok.mp h
  unfold enqueueCall
  rw [hc]
  dsimp only at h ⊢
  split at h
  · -- the first message
    rename_i hone
    have hzero : s.size = 0 := by
      change s.size + 1 = 1 at hone
      omega
    rw [if_pos hzero, startTimer_call h, (joined_sameCalls s c _).startTimerCall]
    rfl
  · -- other messages wait, so the timer is on
    rename_i hone
    cases h
    have hzero : ¬ s.size = 0 := by
      change ¬ s.size + 1 = 1 at hone
      omega
    rw [if_neg hzero]
    rfl

/-- `RunAt` does not stop `Enqueue` when its call is for a later time. -/
theorem enqueue_accepted (h : ∀ t, s.enqueueCall p now cid = some t → now < t) :
    s.enqueue p now msg cid ≠ .error .runAt := by
  unfold enqueue
  unfold enqueueCall at h
  refine bind_ne_error (bind_ne_error (check_ne_error (by decide))
    fun _ _ => ok_ne_error) fun c hc => ?_
  refine bind_ne_error (check_ne_error (by decide)) fun u _ => ?_
  rw [hc] at h
  dsimp only at h ⊢
  split
  · rename_i hone
    have hzero : s.size = 0 := by
      change s.size + 1 = 1 at hone
      omega
    rw [if_pos hzero] at h
    refine startTimer_accepted ?_
    rw [(joined_sameCalls s c _).startTimerCall]
    exact h
  · exact ok_ne_error

/-- An event that gives a time to `ModTimer` arms the timer for it. -/
theorem TimedStep.timer_call {s s' : Timed} {ev : Event} {t : Nat} (hstep : TimedStep p s ev s')
    (hcall : modTimerCall p s ev = some t) : s'.sched.timer = some t := by
  cases hstep with
  -- neither calls `ModTimer`
  | clock => cases hcall
  | dequeue => cases hcall
  | enqueue hok =>
      rw [enqueue_call hok, show s.sched.enqueueCall p s.now _ = some t from hcall]
      rfl
  | expire _ hok => exact (switchQueue_call hok).trans hcall

/-! ### Which times are late -/

/-- A positive quota from now on ends later, unless the sum does not fit. -/
theorem quota_later {quota : Nat} (hnow : now < 2 ^ 64) (hquota : 0 < quota ∧ quota < 2 ^ 64) :
    now < add64 now quota ↔ now + quota < 2 ^ 64 := by
  unfold add64
  omega

/-- What is left of the quota ends later, unless nothing is left or the end does not fit. -/
theorem rest_later {start quota : Nat} (hnow : now < 2 ^ 64) (hquota : quota < 2 ^ 64)
    (hstart : start ≤ now) (hle : now ≤ start + quota) :
    now < sub64 (add64 now quota) (sub64 now start) ↔
      now ≠ start + quota ∧ start + quota < 2 ^ 64 := by
  -- the time used of the slice, which does not wrap
  have hused : (now - start) % 2 ^ 64 = now - start := Nat.mod_eq_of_lt (by omega)
  rw [sub64_eq hnow hstart]
  unfold sub64 add64
  rw [hused]
  omega

/-- The class of a message can be computed. -/
def Classed (s : NrsEpoch) (p : Params) (cid : Nat) : Prop := ∃ c, s.getQueueClass p cid = .ok c

/-- A message comes into an empty scheduler at the very end of the slice, and `on` is not set. -/
def AtEnd (p : Params) (s : Timed) : Event → Prop
  | .enqueue _ cid => s.sched.Classed p cid ∧ s.sched.size = 0 ∧ s.sched.on = false ∧
      s.now = s.sched.sliceEnd
  | _ => False

/-- The end of the slice that the timer is armed for does not fit into 64 bits. -/
def Overflows (p : Params) (s : Timed) : Event → Prop
  | .enqueue _ cid => s.sched.Classed p cid ∧ s.sched.size = 0 ∧ s.sched.on = false ∧
      2 ^ 64 ≤ if s.now ≤ s.sched.sliceEnd then s.sched.sliceEnd
        else s.now + (s.sched.qvec s.sched.nextClass).quota
  | .expire => s.sched.num ≠ 0 ∧ s.sched.size > 0 ∧
      2 ^ 64 ≤ s.now + (s.sched.qvec s.sched.nextClass).quota
  | _ => False

/-- The slices of the classes began in the past, and the quotas are positive. -/
structure Stamped (s : NrsEpoch) (now : Nat) : Prop where
  clock : now < 2 ^ 64
  start : ∀ c, (s.qvec c).start ≤ now
  quota : ∀ c, 0 < (s.qvec c).quota ∧ (s.qvec c).quota < 2 ^ 64

/-- The call of `SwitchQueue` is for a later time exactly when the sum fits. -/
theorem Stamped.switchQueueCall_later (h : Stamped s now) :
    (∀ t, s.switchQueueCall now = some t → now < t) ↔
      ¬ (s.num ≠ 0 ∧ s.size > 0 ∧ 2 ^ 64 ≤ now + (s.qvec s.nextClass).quota) := by
  have hlater := quota_later h.clock (h.quota s.nextClass)
  unfold switchQueueCall
  constructor
  · rintro hcall ⟨hnum, hpos, hover⟩
    have hlt := hlater.mp (hcall _ (if_pos ⟨hnum, hpos⟩))
    omega
  · intro hfits t ht
    split at ht
    · -- the quota is positive, so only the sum can be at fault
      rename_i hcond
      cases ht
      refine hlater.mpr (Nat.lt_of_not_le fun hover => hfits ⟨hcond.1, hcond.2, hover⟩)
    · cases ht

/-- A message starts the timer when its class exists, no other message waits and the timer is off.
-/
def Starts (s : NrsEpoch) (p : Params) (cid : Nat) : Prop :=
  s.Classed p cid ∧ s.size = 0 ∧ s.on = false

/-- Otherwise `Enqueue` does not call `ModTimer`. -/
theorem enqueueCall_asleep (hstarts : ¬ s.Starts p cid) : s.enqueueCall p now cid = none := by
  unfold enqueueCall
  split
  · -- the class of the message cannot be computed
    rfl
  · next c hc =>
      split
      · next hzero => exact if_neg fun hstart => hstarts ⟨⟨c, hc⟩, hzero, hstart.1⟩
      · rfl

/-- `Enqueue` starts the timer for the rest of the slice, or for the slice of the next class when
the slice is over. -/
theorem Stamped.enqueueCall_started (h : Stamped s now) (hstarts : s.Starts p cid) :
    s.enqueueCall p now cid =
      if now ≤ s.sliceEnd then
        some (sub64 (add64 now (s.qvec s.cur).quota) (sub64 now (s.qvec s.cur).start))
      else some (add64 now (s.qvec s.nextClass).quota) := by
  obtain ⟨⟨c, hc⟩, hzero, hoff⟩ := hstarts
  -- a class can only be computed when there are classes
  have hnum : s.num ≠ 0 := by
    obtain ⟨u, hcheck, -⟩ := bind_eq_ok.mp hc
    exact (check_eq_ok.mp hcheck).2.2
  have hone : s.size + 1 > 0 := by omega
  have hstart := h.start s.cur
  -- the slice did not begin after the clock, so the time used does not wrap
  have hused : sub64 now (s.qvec s.cur).start = now - (s.qvec s.cur).start :=
    sub64_eq h.clock hstart
  unfold enqueueCall startTimerCall switchQueueCall
  rw [hc]
  dsimp only
  rw [if_pos hzero, if_pos ⟨hoff, hone⟩]
  by_cases hle : now ≤ s.sliceEnd
  · -- the slice is not over
    rw [if_pos hle, if_neg]
    unfold sliceEnd at hle
    omega
  · -- it is, so `StartTimer` calls `SwitchQueue`
    rw [if_neg hle, if_pos, if_pos ⟨hnum, hone⟩]
    · rfl
    · unfold sliceEnd at hle
      omega

/-- The call of `Enqueue` is for a later time exactly when the slice is not at its end and its end
fits. -/
theorem Stamped.enqueueCall_later {s : Timed} (h : Stamped s.sched s.now) (msg cid : Nat) :
    (∀ t, s.sched.enqueueCall p s.now cid = some t → s.now < t) ↔
      ¬ AtEnd p s (.enqueue msg cid) ∧ ¬ Overflows p s (.enqueue msg cid) := by
  by_cases hstarts : s.sched.Starts p cid
  swap
  · -- no call, and no condition
    rw [enqueueCall_asleep hstarts]
    refine iff_of_true (fun t ht => nomatch ht) ⟨?_, ?_⟩
    · exact fun hend => hstarts ⟨hend.1, hend.2.1, hend.2.2.1⟩
    · exact fun hover => hstarts ⟨hover.1, hover.2.1, hover.2.2.1⟩
  rw [h.enqueueCall_started hstarts]
  obtain ⟨hclassed, hzero, hoff⟩ := hstarts
  by_cases hle : s.now ≤ s.sched.sliceEnd
  · -- the rest of the slice is above 0 unless the clock is at its end
    rw [if_pos hle]
    have hlater := rest_later h.clock (h.quota _).2 (h.start s.sched.cur) hle
    constructor
    · intro hall
      obtain ⟨hne, hfits⟩ := hlater.mp (hall _ rfl)
      refine ⟨fun hend => hne hend.2.2.2, fun hover => ?_⟩
      have := hover.2.2.2
      rw [if_pos hle] at this
      exact absurd hfits (Nat.not_lt.mpr this)
    · rintro ⟨hend, hover⟩ t ht
      cases ht
      refine hlater.mpr ⟨fun heq => hend ⟨hclassed, hzero, hoff, heq⟩, ?_⟩
      refine Nat.lt_of_not_le fun hbig => hover ⟨hclassed, hzero, hoff, ?_⟩
      rw [if_pos hle]
      exact hbig
  · -- a quota is above 0
    rw [if_neg hle]
    have hlater := quota_later h.clock (h.quota s.sched.nextClass)
    constructor
    · intro hall
      have hfits := hlater.mp (hall _ rfl)
      refine ⟨fun hend => hle (Nat.le_of_eq hend.2.2.2), fun hover => ?_⟩
      have := hover.2.2.2
      rw [if_neg hle] at this
      exact absurd hfits (Nat.not_lt.mpr this)
    · rintro ⟨-, hover⟩ t ht
      cases ht
      refine hlater.mpr (Nat.lt_of_not_le fun hbig => hover ⟨hclassed, hzero, hoff, ?_⟩)
      rw [if_neg hle]
      exact hbig

/-! ### Runs -/

/-- Changing a queue keeps the times. -/
theorem Stamped.setQueue (h : Stamped s now) (c : Nat) (q : NrsFifo Nat) :
    Stamped (s.setQueue c q) now := by
  refine ⟨h.clock, fun i => ?_, fun i => ?_⟩
  · rw [(setQueue_times s c q i).1]
    exact h.start i
  · rw [(setQueue_times s c q i).2]
    exact h.quota i

/-- Moving the timer keeps the times. -/
theorem Stamped.modTimer {expire : Nat} (h : Stamped s now)
    (hok : s.modTimer now expire = .ok s') : Stamped s' now := by
  obtain ⟨timer, -, hok⟩ := bind_eq_ok.mp hok
  cases hok
  exact ⟨h.clock, h.start, h.quota⟩

/-- `SwitchQueue` begins the slice of a class now. -/
theorem Stamped.switchQueue (h : Stamped s now) (hok : s.switchQueue now = .ok s') :
    Stamped s' now := by
  obtain ⟨u, -, hok⟩ := bind_eq_ok.mp hok
  dsimp only at hok
  -- the state before the timer is moved: one slice begins now
  have hswitched : Stamped { s with
      timer := Timer.delTimer s.timer
      cur := (s.cur + 1) % s.num
      nrs := (s.cur + 1) % s.num
      qvec := fun i => if i = (s.cur + 1) % s.num then
        { s.qvec ((s.cur + 1) % s.num) with start := now } else s.qvec i } now := by
    refine ⟨h.clock, fun i => ?_, fun i => ?_⟩
    · dsimp only
      split
      · exact Nat.le_refl now
      · exact h.start i
    · dsimp only
      split
      · exact h.quota _
      · exact h.quota i
  split at hok
  · obtain ⟨t, ht, hok⟩ := bind_eq_ok.mp hok
    cases hok
    have hstamped := hswitched.modTimer ht
    exact ⟨hstamped.clock, hstamped.start, hstamped.quota⟩
  · cases hok
    exact hswitched

/-- `StartTimer` keeps the times in the past. -/
theorem Stamped.startTimer (h : Stamped s now) (hok : s.startTimer now = .ok s') :
    Stamped s' now := by
  unfold NrsEpoch.startTimer at hok
  split at hok
  · obtain ⟨u, -, hok⟩ := bind_eq_ok.mp hok
    dsimp only at hok
    split at hok
    · exact h.switchQueue hok
    · exact h.modTimer hok
  · cases hok
    exact h

/-- `Enqueue` keeps the times in the past. -/
theorem Stamped.enqueue (h : Stamped s now) (hok : s.enqueue p now msg cid = .ok s') :
    Stamped s' now := by
  obtain ⟨c, -, hok⟩ := bind_eq_ok.mp hok
  obtain ⟨u, -, hok⟩ := bind_eq_ok.mp hok
  have hset := h.setQueue c ((s.qvec c).q.enqueue msg)
  have hjoined : Stamped
      { s.setQueue c ((s.qvec c).q.enqueue msg) with size := s.size + 1 } now :=
    ⟨hset.clock, hset.start, hset.quota⟩
  dsimp only at hok
  split at hok
  · exact hjoined.startTimer hok
  · cases hok
    exact hjoined

/-- The search of `Dequeue` keeps the times. -/
theorem Stamped.search (h : Stamped s now) (k idx : Nat) : Stamped (s.search k idx).2 now := by
  induction k generalizing idx with
  | zero => exact h
  | succ k ih =>
      unfold NrsEpoch.search
      split
      · exact h
      · split
        · exact h.setQueue idx _
        · exact ih _

/-- `Dequeue` keeps the times. -/
theorem Stamped.dequeue (h : Stamped s now) : Stamped s.dequeue.2 now := by
  unfold NrsEpoch.dequeue
  split
  · exact h
  · split
    · rename_i e q hq
      have hset := h.setQueue s.nrs q
      exact ⟨hset.clock, hset.start, hset.quota⟩
    · have hsearch := h.search s.num ((s.cur + 1) % s.num)
      exact ⟨hsearch.clock, hsearch.start, hsearch.quota⟩

/-- An event, and the clock is a 64-bit number. -/
def ClockStep (p : Params) (s : Timed) (ev : Event) (s' : Timed) : Prop :=
  s'.now < 2 ^ 64 ∧ TimedStep p s ev s'

/-- An event keeps the times in the past. -/
theorem ClockStep.stamped {s s' : Timed} {ev : Event} (hstep : ClockStep p s ev s')
    (h : Stamped s.sched s.now) : Stamped s'.sched s'.now := by
  obtain ⟨hnow, hstep⟩ := hstep
  cases hstep with
  -- what began in the past stays there
  | clock hle => exact ⟨hnow, fun c => Nat.le_trans (h.start c) hle, h.quota⟩
  | enqueue hok => exact h.enqueue hok
  | dequeue => exact h.dequeue
  | @expire _ hdue hok =>
      -- the timer has fired, and only its handle changes
      have hfired : Stamped { s.sched with timer := none } s.now := ⟨h.clock, h.start, h.quota⟩
      exact hfired.switchQueue hok

/-- The assertion of `RunAt` stops the event. -/
def Stops (p : Params) (s : Timed) : Event → Prop
  | .enqueue msg cid => s.sched.enqueue p s.now msg cid = .error .runAt
  | .expire => s.sched.timeSliceExpire s.now = .error .runAt
  | .clock _ | .dequeue => False

/-- The event calls `ModTimer` only with times after now. -/
def ArmedLater (p : Params) (s : Timed) (ev : Event) : Prop :=
  ∀ t, modTimerCall p s ev = some t → s.now < t

/-- `RunAt` does not stop an event whose call is for a later time. -/
theorem ArmedLater.accepted {s : Timed} {ev : Event} (h : ArmedLater p s ev) : ¬ Stops p s ev := by
  cases ev with
  | clock _ => exact fun h => h
  | dequeue => exact fun h => h
  | enqueue msg cid => exact enqueue_accepted h
  | expire => exact switchQueue_accepted h

/-- **The armed times.** In every state of every run with positive quotas, an event arms the timer
for a later time exactly when no message comes into an empty scheduler at the very end of the slice
with `on` not set, and the end of the slice fits into 64 bits. Then `RunAt` does not stop it. -/
theorem armed_later_iff {evs : List Event} {s : Timed}
    (hquota : ∀ c, 0 < p.quota c ∧ p.quota c < 2 ^ 64) (ht₀ : t₀ < 2 ^ 64)
    (hrun : Run (ClockStep p) (start p t₀) evs s) (ev : Event) :
    (ArmedLater p s ev ↔ ¬ AtEnd p s ev ∧ ¬ Overflows p s ev) ∧
    (ArmedLater p s ev → ¬ Stops p s ev) ∧
    ∀ s' t, TimedStep p s ev s' → modTimerCall p s ev = some t → s'.sched.timer = some t := by
  have hstamped : Stamped s.sched s.now := by
    refine hrun.invariant (P := fun s => Stamped s.sched s.now)
      (fun _ _ _ h hstep => hstep.stamped h) ⟨ht₀, fun c => Nat.le_refl t₀, fun c => ?_⟩
    show 0 < quota p c ∧ quota p c < 2 ^ 64
    -- the quota of every class is positive, also when it is given by the code
    unfold quota
    split
    · decide
    · split
      · decide
      · exact hquota c
  refine ⟨?_, ArmedLater.accepted, fun _ _ hstep hcall => hstep.timer_call hcall⟩
  cases ev with
  | clock now => exact iff_of_true (fun _ h => nomatch h) ⟨fun h => h, fun h => h⟩
  | dequeue => exact iff_of_true (fun _ h => nomatch h) ⟨fun h => h, fun h => h⟩
  | enqueue msg cid => exact hstamped.enqueueCall_later msg cid
  | expire =>
      exact hstamped.switchQueueCall_later.trans ⟨fun h => ⟨fun h => h, h⟩, fun h => h.2⟩

/-- The quotas of the two classes. -/
theorem twoClasses_quota (c : Nat) : 0 < twoClasses.quota c ∧ twoClasses.quota c < 2 ^ 64 :=
  (by decide : 0 < 1 ∧ 1 < 2 ^ 64)

/-- A message comes in the first slice and before its end. -/
theorem armed_later_iff_first :
    ∃ s, Run (ClockStep twoClasses) (start twoClasses 5) [.clock 8] s ∧
      modTimerCall twoClasses s (.enqueue 0 0) = some 700000005 ∧
      (ArmedLater twoClasses s (.enqueue 0 0) ↔
        ¬ AtEnd twoClasses s (.enqueue 0 0) ∧ ¬ Overflows twoClasses s (.enqueue 0 0)) ∧
      (ArmedLater twoClasses s (.enqueue 0 0) → ¬ Stops twoClasses s (.enqueue 0 0)) ∧
      ∀ s' t, TimedStep twoClasses s (.enqueue 0 0) s' →
        modTimerCall twoClasses s (.enqueue 0 0) = some t → s'.sched.timer = some t := by
  have hrun : Run (ClockStep twoClasses) (start twoClasses 5) [.clock 8]
      { start twoClasses 5 with now := 8 } :=
    .cons ⟨by decide, .clock (by decide) fun _ h => nomatch h⟩ (.nil _)
  exact ⟨_, hrun, rfl, armed_later_iff twoClasses_quota (by decide) hrun _⟩

/-- The first message comes exactly at the end of the first slice: `RunAt` stops the program. -/
theorem armed_now : ¬ ∀ p t₀ evs s, (∀ c, 0 < p.quota c ∧ p.quota c < 2 ^ 64) →
    t₀ < 2 ^ 64 → Run (ClockStep p) (start p t₀) evs s →
    ∀ ev, ArmedLater p s ev ∧ ¬ Stops p s ev := by
  intro hall
  have hrun : Run (ClockStep twoClasses) (start twoClasses 0) [.clock 700000000]
      { start twoClasses 0 with now := 700000000 } :=
    .cons ⟨by decide, .clock (by decide) fun _ h => nomatch h⟩ (.nil _)
  have hstops : Stops twoClasses { start twoClasses 0 with now := 700000000 }
      (.enqueue 0 0) := rfl
  exact (hall _ 0 _ _ twoClasses_quota (by decide) hrun (.enqueue 0 0)).2 hstops

end LustreSimulator.NrsEpoch
