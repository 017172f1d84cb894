import LustreSimulator.Proofs.Processor

/-!
# `LustreSimulator.Proofs.CongestController`: a thread pool whose size follows the replies

A completion returns a new size `rcc` of the pool. The pool shrinks by its idle threads and by the
thread that completes, or grows. `congestTaskCompletion_eq` is the completion in closed form. In
every run the pool keeps `Pool`, and no event aborts (`Exec.pool`).

`Served` says that the manager is scheduled to dispatch when a message waits and a thread is idle.
`Exec.served_iff` says which events keep it. `served_run` is the result over runs.
-/

set_option autoImplicit false

namespace LustreSimulator.Processor

open Lib

variable {cqMax : Int} {s s' : Processor} {msg : Nat} {msgs : List Nat}

/-! ### The size of the pool -/

/-- The loop that shrinks the pool takes away idle threads, as many as are too many. -/
theorem shrink_eq (c k : Nat) (s : Processor) (hk : s.rnum ≤ c + k) :
    shrink c k s = { s with
      idle := s.idle - (s.rnum - c)
      rnum := s.rnum - min s.idle (s.rnum - c)
      poolState := if 0 < s.idle ∧ c < s.rnum ∧ s.idle ≤ s.rnum - c then .fullLoadState
        else s.poolState } := by
  induction k generalizing s with
  | zero =>
      have hzero : s.rnum - c = 0 := by omega
      have hnot : ¬ (0 < s.idle ∧ c < s.rnum ∧ s.idle ≤ 0) := by omega
      rw [hzero, if_neg hnot, Nat.min_zero]
      rfl
  | succ k ih =>
      unfold shrink
      by_cases hmore : s.rnum > c
      · rw [if_pos hmore]
        rcases nextIdleThreadFromPool_cases s with ⟨hidle, hnext⟩ | ⟨hidle, hnext⟩
        · -- no idle thread is left
          rw [hnext, hidle, Nat.zero_sub, Nat.zero_min, if_neg (fun h => absurd h.1 (by decide)),
            Nat.sub_zero, ← hidle]
        · rw [hnext]
          dsimp only
          rw [ih _ (by show s.rnum - 1 ≤ c + k; omega)]
          dsimp only
          have hidle' : s.idle - 1 - (s.rnum - 1 - c) = s.idle - (s.rnum - c) := by omega
          have hrnum' : s.rnum - 1 - min (s.idle - 1) (s.rnum - 1 - c) =
              s.rnum - min s.idle (s.rnum - c) := by omega
          rw [hidle', hrnum']
          congr 1
          -- the state of the pool: the last idle thread goes now, or in the turns that follow
          by_cases hlast : s.idle - 1 = 0
          · rw [if_pos hlast, ite_self, if_pos (by omega)]
          · rw [if_neg hlast]
            by_cases hall : s.idle ≤ s.rnum - c
            · rw [if_pos (by omega), if_pos ⟨hidle, hmore, hall⟩]
            · rw [if_neg (by omega), if_neg (fun h => hall h.2.2)]
      · rw [if_neg hmore]
        have hzero : s.rnum - c = 0 := by omega
        rw [hzero, if_neg (fun h => hmore h.2.1), Nat.min_zero]
        rfl

/-- The counts of a pool in which `busy` threads work. -/
structure Counts (s : Processor) (busy : Nat) : Prop where
  threads : s.idle + busy = s.rnum
  le : s.num ≤ s.rnum
  full : 0 < s.idle → s.rnum = s.num

/-- `AdjustThreadPool` without a check: the pool has `c` threads or, when more of them work, only
these. -/
theorem adjustThreadPool_eq {busy : Nat} (h : Counts s busy) (c : Nat) :
    s.adjustThreadPool c false = .ok { s with
      idle := c - busy
      num := c
      rnum := max busy c
      poolState := if c ≠ s.num ∧ c < s.rnum ∧ c ≤ busy then .fullLoadState else s.poolState } := by
  have hthreads := h.threads
  have hle := h.le
  have hfull := h.full
  unfold adjustThreadPool
  by_cases hnum : s.num = c
  · -- the size stays
    have hidle : c - busy = s.idle := by omega
    have hrnum : max busy c = s.rnum := by omega
    rw [if_pos hnum, hidle, hrnum, if_neg (fun hand => hand.1 hnum.symm), ← hnum]
  · rw [if_neg hnum]
    dsimp only
    by_cases hmore : s.rnum > c
    · rw [if_pos hmore, shrink_eq c s.rnum _ (by show s.rnum ≤ c + s.rnum; omega)]
      dsimp only
      have hidle : s.idle - (s.rnum - c) = c - busy := by omega
      have hrnum : s.rnum - min s.idle (s.rnum - c) = max busy c := by omega
      rw [hidle, hrnum]
      by_cases hbusy : c ≤ busy
      · rw [if_pos (by omega), if_pos ⟨fun heq => hnum heq.symm, hmore, hbusy⟩]
      · rw [if_neg (by omega), if_neg (by omega), if_neg (fun hand => hbusy hand.2.2)]
    · rw [if_neg hmore, if_neg (fun hand => absurd hand.2.2 (by decide))]
      have hidle : s.idle + (c - s.rnum) = c - busy := by omega
      have hrnum : max busy c = c := by omega
      rw [hidle, hrnum, if_neg (fun hand => hmore hand.2.1)]

/-- The pool after the completion of `msg` that returns `rcc`, before the manager is signalled. -/
def completed (s : Processor) (msg rcc : Nat) : Processor :=
  { s with
    poolState := if rcc ≠ s.num ∧ rcc < s.rnum ∧ rcc ≤ s.executing.length then .fullLoadState
      else s.poolState
    idle := rcc + 1 - s.executing.length
    num := rcc
    rnum := max (s.executing.length - 1) rcc
    executing := s.executing.erase msg
    csp := { s.csp with uc := s.csp.uc - 1, rcc := rcc } }

/-- The manager is signalled when it sleeps in a pool at full load that has an idle thread. -/
def resumed (s : Processor) : Processor :=
  if s.run = false ∧ s.idle > 0 ∧ s.poolState = .fullLoadState then
    { s with run := true, poolState := .runState }
  else s

/-- The end of `CongestController::TaskCompletion`. -/
theorem resumed_eq (s : Processor) :
    (if s.run = false ∧ s.idle > 0 ∧ s.poolState = .fullLoadState then
      s.signal.bind fun s => .ok { s with poolState := .runState } else .ok s) =
      .ok (resumed s) := by
  unfold resumed
  by_cases hfull : s.run = false ∧ s.idle > 0 ∧ s.poolState = .fullLoadState
  · rw [if_pos hfull, if_pos hfull, signal_eq hfull.1, ok_bind]
  · rw [if_neg hfull, if_neg hfull]

/-- The thread that completes goes back to the pool, or goes away when the pool is too large. -/
theorem congestTaskCompletion_eq {rcc : Nat} (h : Counts s s.executing.length)
    (huc : s.csp.uc = s.executing.length) (hmsg : msg ∈ s.executing) :
    s.congestTaskCompletion msg rcc = .ok (resumed (completed s msg rcc)) := by
  have hlen : (s.executing.erase msg).length + 1 = s.executing.length :=
    List.length_erase_add_one hmsg
  have hcounts : Counts { s with
      executing := s.executing.erase msg
      csp := { s.csp with uc := s.csp.uc - 1, rcc := rcc } } s.executing.length :=
    ⟨h.threads, h.le, h.full⟩
  have huc' : s.csp.uc - 1 ≥ 0 := by omega
  unfold congestTaskCompletion
  dsimp only
  rw [check_true huc', ok_bind, adjustThreadPool_eq hcounts, ok_bind]
  dsimp only
  rw [check_true (rfl : rcc = rcc), ok_bind]
  by_cases hlarge : rcc < s.executing.length
  · -- the pool is too large
    have hmore : max s.executing.length rcc > rcc := by omega
    have hidle : rcc - s.executing.length = rcc + 1 - s.executing.length := by omega
    have hrnum : max s.executing.length rcc - 1 = max (s.executing.length - 1) rcc := by omega
    rw [if_pos hmore, hidle, hrnum]
    exact resumed_eq (completed s msg rcc)
  · have hmore : ¬ max s.executing.length rcc > rcc := by omega
    have hidle : rcc - s.executing.length + 1 = rcc + 1 - s.executing.length := by omega
    have hrnum : max s.executing.length rcc = max (s.executing.length - 1) rcc := by omega
    rw [if_neg hmore, hidle, hrnum]
    exact resumed_eq (completed s msg rcc)

/-! ### What every run keeps -/

/-- The counts of the pool, and what the manager waits for in each state. -/
structure Pool (s : Processor) : Prop where
  counts : Counts s s.executing.length
  pos : 0 < s.num
  uc : s.csp.uc = s.executing.length
  throttling : s.throttling = false
  startState : s.poolState = .startState → s.run = true ∧ s.executing = []
  idleState : s.poolState = .idleState → s.run = false ∧ 0 < s.idle
  runState : s.poolState = .runState → s.run = true ∧ 0 < s.idle

/-- `CheckIoCongestion` changes `csp.congested` only. -/
theorem checkIoCongestion_eq (cqMax : Int) (s : Processor) :
    ∃ b, checkIoCongestion cqMax s = { s with csp := { s.csp with congested := b } } := by
  unfold checkIoCongestion
  by_cases hset : s.csp.depth ≥ cqMax ∧ s.csp.congested = false
  · exact ⟨true, if_pos hset⟩
  · rw [if_neg hset]
    by_cases hclear : s.csp.congested = true ∧ s.csp.depth < cqMax
    · exact ⟨false, if_pos hclear⟩
    · exact ⟨s.csp.congested, if_neg hclear⟩

/-- A message that arrives joins the scheduler. In `pool_IdleState` it wakes the manager. -/
theorem Pool.addNewTask_eq (h : Pool s) :
    s.addNewTask msg = .ok (if s.poolState = .idleState then
      { s with waiting := s.waiting ++ [msg], run := true, poolState := .runState }
      else { s with waiting := s.waiting ++ [msg] }) := by
  unfold Processor.addNewTask
  dsimp only
  by_cases hidle : s.poolState = .idleState
  · obtain ⟨hrun, hpos⟩ := h.idleState hidle
    have hwakeup := wakeup_idle (s := { s with waiting := s.waiting ++ [msg] }) hidle hrun hpos
    rw [if_pos (Or.inr hidle), if_pos hidle, hwakeup]
  · have hwakeup := wakeup_other (s := { s with waiting := s.waiting ++ [msg] }) hidle
    rw [if_neg hidle, hwakeup, ite_self]

/-- The counts after a completion. -/
theorem completed_counts {rcc : Nat} (hmsg : msg ∈ s.executing) :
    Counts (completed s msg rcc) (completed s msg rcc).executing.length := by
  have hlen : (s.executing.erase msg).length + 1 = s.executing.length :=
    List.length_erase_add_one hmsg
  refine ⟨?_, Nat.le_max_right _ _, ?_⟩
  · show rcc + 1 - s.executing.length + (s.executing.erase msg).length =
      max (s.executing.length - 1) rcc
    omega
  · show 0 < rcc + 1 - s.executing.length → max (s.executing.length - 1) rcc = rcc
    omega

/-- The state of the pool after a completion, before the manager is signalled: the threads are all
busy, or there is one more than the messages that execute. -/
theorem Pool.completed_poolState {rcc : Nat} (h : Pool s) (hmsg : msg ∈ s.executing) :
    (completed s msg rcc).poolState =
      if rcc ≤ s.executing.length then .fullLoadState else s.poolState := by
  have hthreads := h.counts.threads
  have hfull := h.counts.full
  show (if rcc ≠ s.num ∧ rcc < s.rnum ∧ rcc ≤ s.executing.length then _ else _) = _
  by_cases hle : rcc ≤ s.executing.length
  · rw [if_pos hle]
    cases hstate : s.poolState with
    | startState =>
        rw [(h.startState hstate).2] at hmsg
        cases hmsg
    | idleState =>
        have hidle := (h.idleState hstate).2
        rw [if_pos (by omega)]
    | runState =>
        have hidle := (h.runState hstate).2
        rw [if_pos (by omega)]
    | fullLoadState => exact ite_self _
  · rw [if_neg hle, if_neg (fun hand => hle hand.2.2)]

/-- A completion keeps the counts and the states. -/
theorem Pool.resumed {rcc : Nat} (h : Pool s) (hrcc : 1 ≤ rcc) (hmsg : msg ∈ s.executing) :
    Pool (resumed (completed s msg rcc)) := by
  have hcounts := @completed_counts s msg rcc hmsg
  have hstate := @Pool.completed_poolState s msg rcc h hmsg
  have hlen : (s.executing.erase msg).length + 1 = s.executing.length :=
    List.length_erase_add_one hmsg
  have huc : (completed s msg rcc).csp.uc = (completed s msg rcc).executing.length := by
    show s.csp.uc - 1 = (s.executing.erase msg).length
    have := h.uc
    omega
  unfold Processor.resumed
  by_cases hresume : (completed s msg rcc).run = false ∧ (completed s msg rcc).idle > 0 ∧
      (completed s msg rcc).poolState = .fullLoadState
  · rw [if_pos hresume]
    refine ⟨⟨hcounts.threads, hcounts.le, hcounts.full⟩, hrcc, huc, h.throttling, ?_, ?_,
      fun _ => ⟨rfl, hresume.2.1⟩⟩
    · intro heq
      cases heq
    · intro heq
      cases heq
  · rw [if_neg hresume]
    -- the state is not the one at full load only when a thread is idle
    have hother : ∀ st, st ≠ PoolState.fullLoadState → (completed s msg rcc).poolState = st →
        s.poolState = st ∧ 0 < rcc + 1 - s.executing.length := by
      intro st hne heq
      rw [hstate] at heq
      by_cases hle : rcc ≤ s.executing.length
      · rw [if_pos hle] at heq
        exact absurd heq.symm hne
      · rw [if_neg hle] at heq
        exact ⟨heq, by omega⟩
    refine ⟨hcounts, hrcc, huc, h.throttling, ?_, ?_, ?_⟩
    · intro heq
      obtain ⟨heq', -⟩ := hother _ (by decide) heq
      rw [(h.startState heq').2] at hmsg
      cases hmsg
    · intro heq
      obtain ⟨heq', hidle⟩ := hother _ (by decide) heq
      exact ⟨(h.idleState heq').1, hidle⟩
    · intro heq
      obtain ⟨heq', hidle⟩ := hother _ (by decide) heq
      exact ⟨(h.runState heq').1, hidle⟩

/-- All threads are idle before the first run of the manager. -/
theorem Pool.idle_start (h : Pool s) (hstate : s.poolState = .startState) : 0 < s.idle := by
  have hthreads := h.counts.threads
  have hle := h.counts.le
  have hpos := h.pos
  rw [(h.startState hstate).2, List.length_nil] at hthreads
  omega

/-- A message that arrives keeps the counts and the states. -/
theorem Pool.arrived (h : Pool s) :
    Pool (if s.poolState = .idleState then
      { s with waiting := s.waiting ++ [msg], run := true, poolState := .runState }
      else { s with waiting := s.waiting ++ [msg] }) := by
  by_cases hidle : s.poolState = .idleState
  · rw [if_pos hidle]
    refine ⟨⟨h.counts.threads, h.counts.le, h.counts.full⟩, h.pos, h.uc, h.throttling, ?_, ?_,
      fun _ => ⟨rfl, (h.idleState hidle).2⟩⟩
    · intro heq
      cases heq
    · intro heq
      cases heq
  · rw [if_neg hidle]
    exact ⟨⟨h.counts.threads, h.counts.le, h.counts.full⟩, h.pos, h.uc, h.throttling,
      h.startState, h.idleState, h.runState⟩

/-- The invariant does not depend on `csp.depth` and `csp.congested`. -/
theorem Pool.depth (h : Pool s) (d : Int) (b : Bool) :
    Pool { s with csp := { s.csp with depth := d, congested := b } } :=
  ⟨⟨h.counts.threads, h.counts.le, h.counts.full⟩, h.pos, h.uc, h.throttling, h.startState,
    h.idleState, h.runState⟩

/-- `CongestController::RunOneTask` counts the message as one that executes. -/
theorem runOneTask_eq (cqMax : Int) (s : Processor) (msg : Nat) :
    ∃ b, runOneTask .congestController cqMax s msg = { s with
      executing := s.executing ++ [msg]
      csp := { s.csp with uc := s.csp.uc + 1, depth := s.csp.depth - 1, congested := b } } :=
  checkIoCongestion_eq cqMax _

/-- What the manager of a congestion controller finds when it runs. -/
structure Busy (s : Processor) : Prop where
  counts : Counts s s.executing.length
  pos : 0 < s.num
  uc : s.csp.uc = s.executing.length
  throttling : s.throttling = false
  run : s.run = false
  state : (s.poolState = .runState ∧ 0 < s.idle) ∨ (s.poolState = .fullLoadState)

/-- The manager runs. -/
theorem Pool.busy (h : Pool s)
    (hstate : (s.poolState = .runState ∧ 0 < s.idle) ∨ s.poolState = .fullLoadState) :
    Busy { s with run := false } :=
  ⟨⟨h.counts.threads, h.counts.le, h.counts.full⟩, h.pos, h.uc, h.throttling, rfl, hstate⟩

/-- A pool at full load has its invariant whatever the manager waits for. -/
theorem Busy.pool_fullLoad (h : Busy s) (hstate : s.poolState = .fullLoadState) : Pool s := by
  refine ⟨h.counts, h.pos, h.uc, h.throttling, ?_, ?_, ?_⟩
  · intro heq
    rw [hstate] at heq
    cases heq
  · intro heq
    rw [hstate] at heq
    cases heq
  · intro heq
    rw [hstate] at heq
    cases heq

/-- The manager goes to sleep with an idle thread. -/
theorem Busy.pool_idle (h : Busy s) (hidle : 0 < s.idle) :
    Pool { s with poolState := .idleState } := by
  refine ⟨⟨h.counts.threads, h.counts.le, h.counts.full⟩, h.pos, h.uc, h.throttling, ?_,
    fun _ => ⟨h.run, hidle⟩, ?_⟩
  · intro heq
    cases heq
  · intro heq
    cases heq

/-- One message goes to an idle thread. -/
theorem Busy.task {rest : List Nat} (h : Busy s) (hidle : 0 < s.idle)
    (hstate : s.poolState = .runState) :
    Busy (runOneTask .congestController cqMax { s with
      waiting := rest
      idle := s.idle - 1
      poolState := if s.idle - 1 = 0 then .fullLoadState else s.poolState } msg) := by
  have hthreads := h.counts.threads
  have hlen : (s.executing ++ [msg]).length = s.executing.length + 1 := by
    rw [List.length_append, List.length_singleton]
  obtain ⟨b, htask⟩ := runOneTask_eq cqMax { s with
    waiting := rest
    idle := s.idle - 1
    poolState := if s.idle - 1 = 0 then .fullLoadState else s.poolState } msg
  rw [htask]
  refine ⟨⟨?_, h.counts.le, ?_⟩, h.pos, ?_, h.throttling, h.run, ?_⟩
  · show s.idle - 1 + (s.executing ++ [msg]).length = s.rnum
    omega
  · show 0 < s.idle - 1 → s.rnum = s.num
    exact fun _ => h.counts.full hidle
  · show s.csp.uc + 1 = (s.executing ++ [msg]).length
    have := h.uc
    omega
  · show ((if s.idle - 1 = 0 then PoolState.fullLoadState else s.poolState) = .runState ∧
        0 < s.idle - 1) ∨
      (if s.idle - 1 = 0 then PoolState.fullLoadState else s.poolState) = .fullLoadState
    by_cases hlast : s.idle - 1 = 0
    · rw [if_pos hlast]
      exact Or.inr rfl
    · rw [if_neg hlast]
      exact Or.inl ⟨hstate, Nat.pos_of_ne_zero hlast⟩

/-- When a message waits and a thread is idle, the manager is scheduled to dispatch. -/
def Served (s : Processor) : Prop :=
  s.waiting ≠ [] → 0 < s.idle → s.run = true ∧ s.poolState = .runState

/-- A pool at full load is served when it has no idle thread, or nothing waits. -/
theorem served_fullLoad (hstate : s.poolState = .fullLoadState) :
    Served s ↔ (s.waiting ≠ [] → s.idle = 0) := by
  constructor
  · intro h hwaiting
    by_contra hidle
    have hrun := (h hwaiting (Nat.pos_of_ne_zero hidle)).2
    rw [hstate] at hrun
    cases hrun
  · intro h hwaiting hidle
    have hzero := h hwaiting
    omega

/-- The manager hands out messages until there is no more, or no idle thread. -/
theorem Busy.poolStateMachine {r : Except Fault Processor}
    (hpsm : PoolStateMachine .congestController cqMax s msgs r) (h : Busy s) :
    ∃ s', r = .ok s' ∧ Pool s' ∧
      ((s.poolState = .fullLoadState → s.waiting ≠ [] → s.idle = 0) → Served s') := by
  induction hpsm with
  | startState hstate =>
      rcases h.state with ⟨hrun, -⟩ | hfull
      · exact absurd (hstate.symm.trans hrun) (by decide)
      · exact absurd (hstate.symm.trans hfull) (by decide)
  | idleState hstate =>
      rcases h.state with ⟨hrun, -⟩ | hfull
      · exact absurd (hstate.symm.trans hrun) (by decide)
      · exact absurd (hstate.symm.trans hfull) (by decide)
  | fullLoadState hstate =>
      exact ⟨_, rfl, h.pool_fullLoad hstate,
        fun hzero => (served_fullLoad hstate).mpr (hzero hstate)⟩
  | throttled _ hthrottling => exact absurd (h.throttling.symm.trans hthrottling) (by decide)
  | none hstate _ hdeq =>
      rcases h.state with ⟨-, hidle⟩ | hfull
      · cases hdeq with
        | empty hempty => exact ⟨_, rfl, h.pool_idle hidle, fun _ hne => absurd hempty hne⟩
      · exact absurd (hstate.symm.trans hfull) (by decide)
  | @noThread s s' msg hstate _ hdeq hnone =>
      rcases h.state with ⟨-, hidle⟩ | hfull
      · cases hdeq with
        | @fifo _ _ rest hwaiting =>
            rcases nextIdleThreadFromPool_cases { s with waiting := rest } with
              ⟨hzero, -⟩ | ⟨-, hsome⟩
            · exact absurd hzero (Nat.pos_iff_ne_zero.mp hidle)
            · rw [hsome] at hnone
              cases hnone
      · exact absurd (hstate.symm.trans hfull) (by decide)
  | @task s s₁ s₂ msg msgs r hstate _ hdeq hnext _ ih =>
      cases hdeq with
      | @fifo _ _ rest hwaiting =>
          rcases nextIdleThreadFromPool_cases { s with waiting := rest } with
            ⟨-, hnone⟩ | ⟨hidle, hsome⟩
          · rw [hnone] at hnext
            cases hnext
          · rw [hsome] at hnext
            cases hnext
            obtain ⟨s', hr, hpool, hserved⟩ := ih (h.task hidle hstate)
            refine ⟨s', hr, hpool, fun _ => hserved ?_⟩
            intro hfull _
            obtain ⟨b, htask⟩ := runOneTask_eq cqMax { s with
              waiting := rest
              idle := s.idle - 1
              poolState := if s.idle - 1 = 0 then .fullLoadState else s.poolState } msg
            rw [htask] at hfull ⊢
            -- the state is the one at full load as this was the last idle thread
            change (if s.idle - 1 = 0 then PoolState.fullLoadState else s.poolState) = _ at hfull
            show s.idle - 1 = 0
            by_contra hlast
            rw [if_neg hlast] at hfull
            exact absurd (hstate.symm.trans hfull) (by decide)

/-- The events after which a message waits with an idle thread and a manager that does not
dispatch: a message arrives before the first run of the manager, or when the pool is in the state at
full load with an idle thread, or a thread completes while the manager is scheduled, a message waits
and the new size of the pool brings it to that state. -/
def Strands (s : Processor) : Action → Prop
  | .readWrite _ | .addNewTask _ =>
      s.poolState = .startState ∨ (s.poolState = .fullLoadState ∧ 0 < s.idle)
  | .completion _ rcc => s.run = true ∧ s.waiting ≠ [] ∧
      ((s.poolState = .runState ∧ rcc = s.executing.length) ∨
        (s.poolState = .fullLoadState ∧ s.executing.length ≤ rcc))
  | .timer => False
  | .manager _ => False

/-- A message that arrives. -/
theorem Pool.arrived_served (h : Pool s) :
    Served (if s.poolState = .idleState then
      { s with waiting := s.waiting ++ [msg], run := true, poolState := .runState }
      else { s with waiting := s.waiting ++ [msg] }) ↔ ¬ Strands s (.readWrite msg) := by
  have hne : s.waiting ++ [msg] ≠ [] := by
    intro heq
    cases List.append_eq_nil_iff.mp heq with
    | intro _ hnil => cases hnil
  by_cases hidle : s.poolState = .idleState
  · rw [if_pos hidle]
    constructor
    · rintro - (hstart | ⟨hfull, -⟩)
      · exact absurd (hidle.symm.trans hstart) (by decide)
      · exact absurd (hidle.symm.trans hfull) (by decide)
    · exact fun _ _ _ => ⟨rfl, rfl⟩
  · rw [if_neg hidle]
    constructor
    · rintro hserved (hstart | ⟨hfull, hpos⟩)
      · exact absurd (hstart.symm.trans (hserved hne (h.idle_start hstart)).2) (by decide)
      · exact absurd (hfull.symm.trans (hserved hne hpos).2) (by decide)
    · intro hstrands _ hpos
      cases hstate : s.poolState with
      | startState => exact absurd (Or.inl hstate) hstrands
      | idleState => exact absurd hstate hidle
      | runState => exact ⟨(h.runState hstate).1, rfl⟩
      | fullLoadState => exact absurd (Or.inr ⟨hstate, hpos⟩) hstrands

/-- A completion. -/
theorem Pool.resumed_served {rcc : Nat} (h : Pool s) (hserved : Served s)
    (hmsg : msg ∈ s.executing) :
    Served (Processor.resumed (completed s msg rcc)) ↔ ¬ Strands s (.completion msg rcc) := by
  have hstate := @Pool.completed_poolState s msg rcc h hmsg
  unfold Processor.resumed
  by_cases hresume : (completed s msg rcc).run = false ∧ (completed s msg rcc).idle > 0 ∧
      (completed s msg rcc).poolState = .fullLoadState
  · -- the manager is signalled now
    rw [if_pos hresume]
    constructor
    · rintro - ⟨hrun, -⟩
      exact absurd (hresume.1.symm.trans hrun) (by decide)
    · exact fun _ _ _ => ⟨rfl, rfl⟩
  · rw [if_neg hresume]
    cases hs : s.poolState with
    | startState =>
        rw [(h.startState hs).2] at hmsg
        cases hmsg
    | idleState =>
        obtain ⟨hrun, hidle⟩ := h.idleState hs
        have hempty : s.waiting = [] := by
          by_contra hne
          exact absurd (hrun.symm.trans (hserved hne hidle).1) (by decide)
        constructor
        · rintro - ⟨hrun', -⟩
          exact absurd (hrun.symm.trans hrun') (by decide)
        · exact fun _ hne => absurd hempty hne
    | runState =>
        obtain ⟨hrun, -⟩ := h.runState hs
        by_cases hle : rcc ≤ s.executing.length
        · rw [if_pos hle] at hstate
          rw [served_fullLoad hstate]
          show (s.waiting ≠ [] → rcc + 1 - s.executing.length = 0) ↔ _
          constructor
          · rintro hzero ⟨-, hne, ⟨-, heq⟩ | ⟨hfull, -⟩⟩
            · have := hzero hne
              omega
            · exact absurd (hs.symm.trans hfull) (by decide)
          · intro hstrands hne
            have hneq : rcc ≠ s.executing.length := fun heq =>
              hstrands ⟨hrun, hne, Or.inl ⟨hs, heq⟩⟩
            omega
        · rw [if_neg hle, hs] at hstate
          constructor
          · rintro - ⟨-, -, ⟨-, heq⟩ | ⟨hfull, -⟩⟩
            · omega
            · exact absurd (hs.symm.trans hfull) (by decide)
          · exact fun _ _ _ => ⟨hrun, hstate⟩
    | fullLoadState =>
        rw [hs, ite_self] at hstate
        rw [served_fullLoad hstate]
        show (s.waiting ≠ [] → rcc + 1 - s.executing.length = 0) ↔ _
        constructor
        · rintro hzero ⟨-, hne, ⟨hrun, -⟩ | ⟨-, hge⟩⟩
          · exact absurd (hs.symm.trans hrun) (by decide)
          · have := hzero hne
            omega
        · intro hstrands hne
          by_contra hpos
          -- the manager was scheduled already, or it would have been signalled
          have hrun : s.run = true := by
            cases hrun : s.run with
            | true => rfl
            | false => exact absurd ⟨hrun, Nat.pos_of_ne_zero hpos, hstate⟩ hresume
          exact hstrands ⟨hrun, hne, Or.inr ⟨hs, by omega⟩⟩

/-- No event aborts. Every event keeps the counts and the states, and the events that strand a
message are the ones of `Strands`. -/
theorem Exec.pool {a : Action} {r : Except Fault Processor} (h : Pool s)
    (hexec : Exec .congestController cqMax s a r) :
    ∃ s', r = .ok s' ∧ Pool s' ∧ (Served s → (Served s' ↔ ¬ Strands s a)) := by
  cases hexec with
  | readWrite => exact ⟨_, h.addNewTask_eq, h.arrived, fun _ => h.arrived_served⟩
  | addNewTask =>
      obtain ⟨b, hcheck⟩ := checkIoCongestion_eq cqMax
        { s with csp := { s.csp with depth := s.csp.depth + 1 } }
      have h' := h.depth (s.csp.depth + 1) b
      dsimp only [congestAddNewTask]
      rw [hcheck]
      exact ⟨_, h'.addNewTask_eq, h'.arrived, fun _ => h'.arrived_served⟩
  | completion hmsg hrcc =>
      exact ⟨_, congestTaskCompletion_eq h.counts h.uc hmsg, h.resumed hrcc hmsg,
        fun hserved => h.resumed_served hserved hmsg⟩
  | timer hthrottling => exact absurd (h.throttling.symm.trans hthrottling) (by decide)
  | manager hrun hpsm =>
      cases hs : s.poolState with
      | startState =>
          obtain ⟨hr, -⟩ := poolStateMachine_start (s := { s with run := false }) hs hpsm
          have hidle := h.idle_start hs
          refine ⟨_, hr, ?_, fun hserved => ⟨fun _ hstrands => hstrands, fun _ hne _ => ?_⟩⟩
          · refine ⟨⟨h.counts.threads, h.counts.le, h.counts.full⟩, h.pos, h.uc, h.throttling, ?_,
              fun _ => ⟨rfl, hidle⟩, ?_⟩
            · intro heq
              cases heq
            · intro heq
              cases heq
          · exact absurd (hs.symm.trans (hserved hne hidle).2) (by decide)
      | idleState => exact absurd ((h.idleState hs).1.symm.trans hrun) (by decide)
      | runState =>
          obtain ⟨s', hr, hpool, hserved⟩ :=
            (h.busy (Or.inl ⟨hs, (h.runState hs).2⟩)).poolStateMachine hpsm
          refine ⟨s', hr, hpool, fun _ => ⟨fun _ hstrands => hstrands, fun _ => hserved ?_⟩⟩
          intro hfull
          exact absurd (hs.symm.trans hfull) (by decide)
      | fullLoadState =>
          obtain ⟨s', hr, hpool, hserved⟩ := (h.busy (Or.inr hs)).poolStateMachine hpsm
          refine ⟨s', hr, hpool, fun hs' => ⟨fun _ hstrands => hstrands, fun _ => hserved ?_⟩⟩
          exact fun _ => (served_fullLoad hs).mp hs'

/-! ### Runs -/

/-- The pool after `Start`. -/
theorem start_pool {threads : Nat} (hpos : 0 < threads) : Pool (start threads) := by
  refine ⟨⟨rfl, Nat.le_refl _, fun _ => rfl⟩, hpos, rfl, rfl, fun _ => ⟨rfl, rfl⟩, ?_, ?_⟩
  · intro heq
    cases heq
  · intro heq
    cases heq

/-- Every run keeps the counts and the states. -/
theorem pool_run {threads : Nat} {acts : List Action} (hpos : 0 < threads)
    (hrun : Run (Step .congestController cqMax) (start threads) acts s) : Pool s := by
  refine hrun.invariant ?_ (start_pool hpos)
  intro s a t h hstep
  obtain ⟨t', heq, h', -⟩ := hstep.pool h
  cases heq
  exact h'

/-- The manager has a run in every state. -/
theorem exists_poolStateMachine (cqMax : Int) (s : Processor) :
    ∃ msgs r, PoolStateMachine .congestController cqMax s msgs r := by
  -- each turn takes one message from the queue
  induction hwaiting : s.waiting generalizing s with
  | nil =>
      cases hs : s.poolState with
      | startState => exact ⟨[], _, .startState hs⟩
      | idleState => exact ⟨[], _, .idleState hs⟩
      | fullLoadState => exact ⟨[], _, .fullLoadState hs⟩
      | runState =>
          cases hthrottling : s.throttling with
          | true => exact ⟨[], _, .throttled hs hthrottling⟩
          | false => exact ⟨[], _, .none hs hthrottling (.empty hwaiting)⟩
  | cons msg rest ih =>
      cases hs : s.poolState with
      | startState => exact ⟨[], _, .startState hs⟩
      | idleState => exact ⟨[], _, .idleState hs⟩
      | fullLoadState => exact ⟨[], _, .fullLoadState hs⟩
      | runState =>
          cases hthrottling : s.throttling with
          | true => exact ⟨[], _, .throttled hs hthrottling⟩
          | false =>
              rcases nextIdleThreadFromPool_cases { s with waiting := rest } with
                ⟨-, hnone⟩ | ⟨-, hsome⟩
              · exact ⟨[], _, .noThread hs hthrottling (.fifo hwaiting) hnone⟩
              · obtain ⟨b, htask⟩ := runOneTask_eq cqMax { s with
                  waiting := rest
                  idle := s.idle - 1
                  poolState := if s.idle - 1 = 0 then .fullLoadState else s.poolState } msg
                obtain ⟨msgs, r, hpsm⟩ := ih (runOneTask .congestController cqMax { s with
                  waiting := rest
                  idle := s.idle - 1
                  poolState := if s.idle - 1 = 0 then .fullLoadState else s.poolState } msg)
                  (by rw [htask])
                exact ⟨msg :: msgs, r, .task hs hthrottling (.fifo hwaiting) hsome hpsm⟩

/-- A manager that is scheduled in `pool_RunState` dispatches. -/
theorem Pool.dispatches {r : Except Fault Processor} (h : Pool s) (hwaiting : s.waiting ≠ [])
    (hstate : s.poolState = .runState)
    (hexec : Exec .congestController cqMax s (.manager msgs) r) : msgs ≠ [] := by
  have hidle := (h.runState hstate).2
  cases hexec with
  | manager _ hpsm =>
      cases hpsm with
      | startState hs => exact absurd (hstate.symm.trans hs) (by decide)
      | idleState hs => exact absurd (hstate.symm.trans hs) (by decide)
      | fullLoadState hs => exact absurd (hstate.symm.trans hs) (by decide)
      | throttled _ hthrottling => exact absurd (h.throttling.symm.trans hthrottling) (by decide)
      | none _ _ hdeq =>
          cases hdeq with
          | empty hempty => exact absurd hempty hwaiting
      | noThread _ _ hdeq hnone =>
          cases hdeq with
          | @fifo _ _ rest _ =>
              rcases nextIdleThreadFromPool_cases { s with run := false, waiting := rest } with
                ⟨hzero, -⟩ | ⟨-, hsome⟩
              · exact absurd hzero (Nat.pos_iff_ne_zero.mp hidle)
              · rw [hsome] at hnone
                cases hnone
      | task _ _ _ _ _ => exact List.cons_ne_nil _ _

/-- In a run whose events all keep away from `Strands`, whenever a message waits and a thread is
idle the manager is scheduled in `pool_RunState`, and its next run, which there is, dispatches a
message. An event of `Strands` always breaks this. -/
theorem served_run {threads : Nat} {acts : List Action} (hpos : 0 < threads)
    (hrun : Run (fun s a t => ¬ Strands s a ∧ Step .congestController cqMax s a t)
      (start threads) acts s) :
    (s.waiting ≠ [] → 0 < s.idle → s.run = true ∧ s.poolState = .runState ∧
      (∃ msgs t, Step .congestController cqMax s (.manager msgs) t) ∧
      ∀ msgs r, Exec .congestController cqMax s (.manager msgs) r → msgs ≠ []) ∧
    ∀ a t, Step .congestController cqMax s a t → (Served t ↔ ¬ Strands s a) := by
  have hinv : Pool s ∧ Served s := by
    refine hrun.invariant (P := fun s => Pool s ∧ Served s) ?_
      ⟨start_pool hpos, fun hne => absurd rfl hne⟩
    intro s a t ⟨hpool, hserved⟩ hstep
    obtain ⟨t', heq, hpool', hiff⟩ := hstep.2.pool hpool
    cases heq
    exact ⟨hpool', (hiff hserved).mpr hstep.1⟩
  obtain ⟨hpool, hserved⟩ := hinv
  constructor
  · intro hwaiting hidle
    obtain ⟨hrun', hstate⟩ := hserved hwaiting hidle
    refine ⟨hrun', hstate, ?_, fun msgs r => hpool.dispatches hwaiting hstate⟩
    obtain ⟨msgs, r, hpsm⟩ := exists_poolStateMachine cqMax { s with run := false }
    obtain ⟨t, hr, -⟩ := Exec.pool hpool (.manager hrun' hpsm)
    rw [hr] at hpsm
    exact ⟨msgs, t, .manager hrun' hpsm⟩
  · intro a t hstep
    obtain ⟨t', heq, -, hiff⟩ := hstep.pool hpool
    cases heq
    exact hiff hserved

/-- One thread: a message is dispatched, another one arrives, and when the first is complete the
manager is scheduled and dispatches the other. -/
theorem served_run_one :
    ∃ s : Processor, Run (fun s a t => ¬ Strands s a ∧ Step .congestController 4 s a t) (start 1)
        [.manager [], .readWrite 7, .manager [7], .readWrite 8, .completion 7 1] s ∧
      s.waiting = [8] ∧ s.idle = 1 ∧ s.run = true ∧ s.poolState = .runState ∧
      (∃ msgs t, Step .congestController 4 s (.manager msgs) t) ∧
      (∀ msgs r, Exec .congestController 4 s (.manager msgs) r → msgs ≠ []) ∧
      ∀ a t, Step .congestController 4 s a t → (Served t ↔ ¬ Strands s a) := by
  have hexists : ∃ s : Processor,
      Run (fun s a t => ¬ Strands s a ∧ Step .congestController 4 s a t) (start 1)
        [.manager [], .readWrite 7, .manager [7], .readWrite 8, .completion 7 1] s ∧
      s.waiting = [8] ∧ s.idle = 1 := by
    refine ⟨{ start 1 with
      run := true, poolState := .runState, waiting := [8], csp := ⟨-1, 1, 0, false⟩ },
      .cons ⟨fun h => h, .manager rfl (.startState rfl)⟩ <| .cons ⟨?_, .readWrite⟩ <|
      .cons ⟨fun h => h, .manager rfl (.task rfl rfl (.fifo rfl) rfl (.fullLoadState rfl))⟩ <|
      .cons ⟨?_, .readWrite⟩ <|
      .cons ⟨?_, .completion List.mem_cons_self (Nat.le_refl 1)⟩ (.nil _), rfl, rfl⟩
    · rintro (h | ⟨h, -⟩) <;> cases h
    · rintro (h | ⟨-, h⟩) <;> cases h
    · rintro ⟨h, -⟩
      cases h
  obtain ⟨s, hrun, hwaiting, hidle⟩ := hexists
  obtain ⟨hserved, hnext⟩ := served_run (by decide) hrun
  obtain ⟨hrun', hstate, hmanager, hdispatch⟩ :=
    hserved (hwaiting ▸ List.cons_ne_nil 8 []) (hidle ▸ Nat.one_pos)
  exact ⟨s, hrun, hwaiting, hidle, hrun', hstate, hmanager, hdispatch, hnext⟩

/-- Two threads, two messages that execute and one that waits. The first completion returns 2 and
schedules the manager. The second returns 1 before the manager runs: the idle thread goes away,
which makes the state the one at full load, the thread that completes becomes idle, and the manager
is not signalled as it is scheduled already. Then the manager does nothing. -/
theorem served_lost :
    ¬ ∀ (threads : Nat) (acts : List Action) (s : Processor), 0 < threads →
      Run (Step .congestController 4) (start threads) acts s → Served s := by
  intro h
  have hfull : Step .congestController 4
      { start 2 with run := true, poolState := .runState, waiting := [1, 2, 3] } (.manager [1, 2])
      { start 2 with
        run := false, poolState := .fullLoadState, waiting := [3], idle := 0, executing := [1, 2]
        csp := ⟨-2, 0, 2, false⟩ } :=
    .manager rfl
      (.task rfl rfl (.fifo rfl) rfl (.task rfl rfl (.fifo rfl) rfl (.fullLoadState rfl)))
  have hrun : Run (Step .congestController 4) (start 2)
      [.manager [], .readWrite 1, .readWrite 2, .readWrite 3, .manager [1, 2], .completion 1 2,
        .completion 2 1, .manager []]
      { start 2 with
        run := false, poolState := .fullLoadState, waiting := [3], idle := 1, num := 1, rnum := 1
        executing := [], csp := ⟨-2, 1, 0, false⟩ } := by
    refine .cons (.manager rfl (.startState rfl)) (.cons .readWrite (.cons .readWrite
      (.cons .readWrite (.cons hfull ?_))))
    refine .cons (.completion (by decide) (by decide)) (.cons (.completion (by decide) (by decide))
      (.cons (.manager rfl (.fullLoadState rfl)) (.nil _)))
  exact absurd (h 2 _ _ (by decide) hrun (by decide) (by decide)).1 (by decide)

end LustreSimulator.Processor
