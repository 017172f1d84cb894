import LustreSimulator.Processor
import Mathlib.Tactic.SplitIfs

/-!
# `LustreSimulator.Proofs.Processor`: a thread pool of a fixed size

`Awake` says for each state of the pool what the manager waits for. In `pool_IdleState` it sleeps,
as no message waits or the scheduler throttles. In `pool_RunState` it is scheduled. In
`pool_FullLoadState` it sleeps until a thread completes. Every event keeps `Awake`, and none aborts
(`Exec.awake`), when no message arrives before the first run of the manager and the scheduler keeps
its contract: `Nrs.Serves` says that `Dequeue` returns `NULL` only when no message waits or it starts
to throttle.

`awake_pool` is the result over runs. A message that arrives in `pool_StartState` is not seen by the
manager (`asleep_start`): `AddNewTask` calls `Wakeup`, which does nothing there.
-/

set_option autoImplicit false

namespace LustreSimulator.Processor

open Lib

variable {cls : Class} {nrs : Nrs} {cqMax : Int} {s s' : Processor} {msg : Nat} {msgs : List Nat}

/-- An idle thread is taken when there is one. -/
theorem nextIdleThreadFromPool_cases (s : Processor) :
    (s.idle = 0 ∧ s.nextIdleThreadFromPool = none) ∨
    (0 < s.idle ∧ s.nextIdleThreadFromPool = some { s with
      idle := s.idle - 1
      poolState := if s.idle - 1 = 0 then .fullLoadState else s.poolState }) := by
  unfold nextIdleThreadFromPool
  by_cases hidle : s.idle = 0
  · exact Or.inl ⟨hidle, if_pos hidle⟩
  · exact Or.inr ⟨Nat.pos_of_ne_zero hidle, if_neg hidle⟩

/-- A sleeping manager can be signalled. -/
theorem signal_eq (hrun : s.run = false) : s.signal = .ok { s with run := true } := by
  unfold signal
  rw [check_true hrun, ok_bind]

/-- `Wakeup` in `pool_IdleState`. -/
theorem wakeup_idle (hstate : s.poolState = .idleState) (hrun : s.run = false)
    (hidle : 0 < s.idle) :
    s.wakeup = .ok { s with run := true, poolState := .runState } := by
  unfold wakeup
  rw [if_pos hstate, check_true hidle, ok_bind, signal_eq hrun, ok_bind]

/-- `Wakeup` in another state. -/
theorem wakeup_other (hstate : s.poolState ≠ .idleState) : s.wakeup = .ok s := if_neg hstate

/-! ### The invariant -/

/-- The threads are idle or they execute a message, and the manager is awake when it has to be. -/
structure Awake (s : Processor) : Prop where
  threads : s.idle + s.executing.length = s.num
  pos : 0 < s.num
  startState : s.poolState = .startState → s.run = true ∧ s.executing = [] ∧ s.waiting = []
  idleState : s.poolState = .idleState →
    s.run = false ∧ 0 < s.idle ∧ (s.waiting = [] ∨ s.throttling = true)
  runState : s.poolState = .runState → s.run = true ∧ 0 < s.idle
  fullLoadState : s.poolState = .fullLoadState → s.run = false ∧ s.idle = 0

/-- A pool whose manager is scheduled in `pool_RunState`. -/
theorem Awake.of_run (hthreads : s.idle + s.executing.length = s.num) (hpos : 0 < s.num)
    (hstate : s.poolState = .runState) (hrun : s.run = true) (hidle : 0 < s.idle) : Awake s := by
  refine ⟨hthreads, hpos, ?_, ?_, fun _ => ⟨hrun, hidle⟩, ?_⟩
  · intro h
    rw [hstate] at h
    cases h
  · intro h
    rw [hstate] at h
    cases h
  · intro h
    rw [hstate] at h
    cases h

/-- A pool whose manager sleeps in `pool_IdleState`. -/
theorem Awake.of_idle (hthreads : s.idle + s.executing.length = s.num) (hpos : 0 < s.num)
    (hstate : s.poolState = .idleState) (hrun : s.run = false) (hidle : 0 < s.idle)
    (hempty : s.waiting = [] ∨ s.throttling = true) : Awake s := by
  refine ⟨hthreads, hpos, ?_, fun _ => ⟨hrun, hidle, hempty⟩, ?_, ?_⟩
  · intro h
    rw [hstate] at h
    cases h
  · intro h
    rw [hstate] at h
    cases h
  · intro h
    rw [hstate] at h
    cases h

/-- A pool whose threads are all busy. -/
theorem Awake.of_fullLoad (hthreads : s.idle + s.executing.length = s.num) (hpos : 0 < s.num)
    (hstate : s.poolState = .fullLoadState) (hrun : s.run = false) (hidle : s.idle = 0) :
    Awake s := by
  refine ⟨hthreads, hpos, ?_, ?_, ?_, fun _ => ⟨hrun, hidle⟩⟩
  · intro h
    rw [hstate] at h
    cases h
  · intro h
    rw [hstate] at h
    cases h
  · intro h
    rw [hstate] at h
    cases h

/-- `Wakeup` keeps the invariant. Before it, a manager that sleeps in `pool_IdleState` may have
something to do. -/
theorem wakeup_awake (hthreads : s.idle + s.executing.length = s.num) (hpos : 0 < s.num)
    (hidle : s.poolState = .idleState → s.run = false ∧ 0 < s.idle)
    (hother : s.poolState ≠ .idleState → Awake s) : ∃ s', s.wakeup = .ok s' ∧ Awake s' := by
  by_cases hstate : s.poolState = .idleState
  · obtain ⟨hrun, hpos'⟩ := hidle hstate
    exact ⟨_, wakeup_idle hstate hrun hpos', .of_run hthreads hpos rfl rfl hpos'⟩
  · exact ⟨s, wakeup_other hstate, hother hstate⟩

/-- `Processor::AddNewTask` keeps the invariant, after the first run of the manager. -/
theorem Awake.addNewTask (h : Awake s) (hstate : s.poolState ≠ .startState) :
    ∃ s', s.addNewTask msg = .ok s' ∧ Awake s' := by
  have hother : s.poolState ≠ .idleState → Awake { s with waiting := s.waiting ++ [msg] } :=
    fun hidle => ⟨h.threads, h.pos, fun h' => absurd h' hstate, fun h' => absurd h' hidle,
      h.runState, h.fullLoadState⟩
  unfold Processor.addNewTask
  dsimp only
  by_cases hidle : s.poolState = .idleState
  · rw [if_pos (Or.inr hidle)]
    exact wakeup_awake h.threads h.pos
      (fun _ => ⟨(h.idleState hidle).1, (h.idleState hidle).2.1⟩) hother
  · rw [if_neg (fun hor => hor.elim hstate hidle)]
    exact ⟨_, rfl, hother hidle⟩

/-- `Processor::TaskCompletion` keeps the invariant. -/
theorem Awake.taskCompletion (h : Awake s) (hmsg : msg ∈ s.executing) :
    ∃ s', s.processorTaskCompletion msg = .ok s' ∧ Awake s' := by
  have hlen : (s.executing.erase msg).length + 1 = s.executing.length :=
    List.length_erase_add_one hmsg
  have hthreads := h.threads
  have hroom : ¬ s.idle + 1 > s.num := by omega
  have hthreads' : s.idle + 1 + (s.executing.erase msg).length = s.num := by omega
  unfold processorTaskCompletion
  dsimp only
  rw [if_neg hroom]
  dsimp only
  by_cases hfull : s.poolState = .fullLoadState
  · rw [if_pos ⟨Nat.succ_pos _, hfull⟩]
    have hsignal := signal_eq
      (s := { s with idle := s.idle + 1, executing := s.executing.erase msg })
      (h.fullLoadState hfull).1
    rw [hsignal, ok_bind]
    exact ⟨_, rfl, .of_run hthreads' h.pos rfl rfl (Nat.succ_pos _)⟩
  · rw [if_neg (fun hand => hfull hand.2)]
    refine ⟨_, rfl, hthreads', h.pos, ?_, ?_, ?_, ?_⟩
    · intro hstate
      rw [(h.startState hstate).2.1] at hmsg
      cases hmsg
    · intro hstate
      obtain ⟨hrun, -, hempty⟩ := h.idleState hstate
      exact ⟨hrun, Nat.succ_pos _, hempty⟩
    · intro hstate
      exact ⟨(h.runState hstate).1, Nat.succ_pos _⟩
    · exact fun hstate => absurd hstate hfull

/-- What the manager finds when it runs: threads for the messages, or none. -/
structure Working (s : Processor) : Prop where
  threads : s.idle + s.executing.length = s.num
  pos : 0 < s.num
  run : s.run = false
  state : (s.poolState = .runState ∧ 0 < s.idle) ∨ (s.poolState = .fullLoadState ∧ s.idle = 0)

/-- The contract of a scheduler: `Dequeue` does not return `NULL` while a message waits, unless it
starts to throttle. -/
def Nrs.Serves (nrs : Nrs) : Prop := ∀ waiting, nrs waiting .null → waiting = []

/-- `Dequeue` changes the scheduler only. One that keeps the contract finds a message, or there is
none, or it throttles. -/
theorem dequeue_frame {out : Option Nat} (hnrs : nrs.Serves)
    (h : Dequeue (.processor nrs) s out s') :
    s'.poolState = s.poolState ∧ s'.idle = s.idle ∧ s'.num = s.num ∧ s'.run = s.run ∧
      s'.executing = s.executing ∧ (out = none → s'.waiting = [] ∨ s'.throttling = true) := by
  cases h with
  | msg => exact ⟨rfl, rfl, rfl, rfl, rfl, fun h => (nomatch h)⟩
  | null hnull => exact ⟨rfl, rfl, rfl, rfl, rfl, fun _ => Or.inl (hnrs _ hnull)⟩
  | throttle => exact ⟨rfl, rfl, rfl, rfl, rfl, fun _ => Or.inr rfl⟩

/-- A pool that runs has an idle thread. -/
theorem Working.running (h : Working s) (hstate : s.poolState = .runState) : 0 < s.idle := by
  rcases h.state with ⟨-, hidle⟩ | ⟨hfull, -⟩
  · exact hidle
  · rw [hfull] at hstate
    cases hstate

/-- The manager does not run in the other states. -/
theorem Working.state_or (h : Working s) :
    s.poolState = .runState ∨ s.poolState = .fullLoadState :=
  h.state.imp And.left And.left

/-- There is no message left, and the pool rests. -/
theorem Working.rest (h : Working s) (hnrs : nrs.Serves) (hstate : s.poolState = .runState)
    (hdeq : Dequeue (.processor nrs) s none s') : Awake { s' with poolState := .idleState } := by
  obtain ⟨-, hidle, hnum, hrun, hexec, hempty⟩ := dequeue_frame hnrs hdeq
  refine .of_idle ?_ ?_ rfl ?_ ?_ (hempty rfl)
  · show s'.idle + s'.executing.length = s'.num
    rw [hidle, hexec, hnum]
    exact h.threads
  · show 0 < s'.num
    rw [hnum]
    exact h.pos
  · exact hrun.trans h.run
  · show 0 < s'.idle
    rw [hidle]
    exact h.running hstate

/-- The next idle thread takes a message. The last one makes the pool fully loaded. -/
theorem Working.task {s₁ s₂ : Processor} (h : Working s) (hnrs : nrs.Serves)
    (hstate : s.poolState = .runState) (hdeq : Dequeue (.processor nrs) s (some msg) s₁)
    (hnext : s₁.nextIdleThreadFromPool = some s₂) :
    Working (runOneTask (.processor nrs) cqMax s₂ msg) := by
  obtain ⟨hstate', hidle', hnum, hrun, hexec, -⟩ := dequeue_frame hnrs hdeq
  have hthreads := h.threads
  have hpos := h.pos
  rcases nextIdleThreadFromPool_cases s₁ with ⟨-, hnone⟩ | ⟨hidle, hsome⟩
  · rw [hnone] at hnext
    cases hnext
  · rw [hsome] at hnext
    cases hnext
    refine ⟨?_, ?_, hrun.trans h.run, ?_⟩
    · show s₁.idle - 1 + (s₁.executing ++ [msg]).length = s₁.num
      rw [List.length_append, List.length_singleton, hexec]
      omega
    · show 0 < s₁.num
      omega
    · show ((if s₁.idle - 1 = 0 then PoolState.fullLoadState else s₁.poolState) = .runState ∧
          0 < s₁.idle - 1) ∨
        ((if s₁.idle - 1 = 0 then PoolState.fullLoadState else s₁.poolState) =
          .fullLoadState ∧ s₁.idle - 1 = 0)
      by_cases hlast : s₁.idle - 1 = 0
      · rw [if_pos hlast]
        exact Or.inr ⟨rfl, hlast⟩
      · rw [if_neg hlast]
        exact Or.inl ⟨hstate'.trans hstate, Nat.pos_of_ne_zero hlast⟩

/-- The manager hands out messages until there is no more, or no thread. It does not abort. -/
theorem Working.poolStateMachine {r : Except Fault Processor} (hnrs : nrs.Serves)
    (hpsm : PoolStateMachine (.processor nrs) cqMax s msgs r) (h : Working s) :
    ∃ s', r = .ok s' ∧ Awake s' := by
  induction hpsm with
  | startState hstate => exact absurd hstate (by rcases h.state_or with h | h <;> rw [h] <;> decide)
  | idleState hstate => exact absurd hstate (by rcases h.state_or with h | h <;> rw [h] <;> decide)
  | @fullLoadState s hstate =>
      rcases h.state with ⟨hrun, -⟩ | ⟨-, hidle⟩
      · rw [hrun] at hstate
        cases hstate
      · exact ⟨s, rfl, .of_fullLoad h.threads h.pos hstate h.run hidle⟩
  | throttled hstate hthrottling =>
      exact ⟨_, rfl, .of_idle h.threads h.pos rfl h.run (h.running hstate) (Or.inr hthrottling)⟩
  | none hstate _ hdeq => exact ⟨_, rfl, h.rest hnrs hstate hdeq⟩
  | @noThread s s' msg hstate _ hdeq hnone =>
      obtain ⟨-, hidle', -⟩ := dequeue_frame hnrs hdeq
      have hidle := h.running hstate
      rcases nextIdleThreadFromPool_cases s' with ⟨hzero, -⟩ | ⟨-, hsome⟩
      · omega
      · rw [hsome] at hnone
        cases hnone
  | task hstate _ hdeq hnext _ ih => exact ih (h.task hnrs hstate hdeq hnext)

/-- The first run of the manager. It does not look at the scheduler. -/
theorem poolStateMachine_start {r : Except Fault Processor} (hstate : s.poolState = .startState)
    (hpsm : PoolStateMachine cls cqMax s msgs r) :
    r = .ok { s with poolState := .idleState } ∧ msgs = [] := by
  cases hpsm with
  | startState => exact ⟨rfl, rfl⟩
  | idleState h => exact absurd (hstate.symm.trans h) (by decide)
  | fullLoadState h => exact absurd (hstate.symm.trans h) (by decide)
  | throttled h _ => exact absurd (hstate.symm.trans h) (by decide)
  | none h _ _ => exact absurd (hstate.symm.trans h) (by decide)
  | noThread h _ _ _ => exact absurd (hstate.symm.trans h) (by decide)
  | task h _ _ _ _ => exact absurd (hstate.symm.trans h) (by decide)

/-- A message arrives before the first run of the manager. -/
def Early (s : Processor) : Action → Prop
  | .readWrite _ => s.poolState = .startState
  | .addNewTask _ => s.poolState = .startState
  | _ => False

/-- A message that arrives before the first run of the manager only joins the scheduler: `Wakeup`
does nothing in `pool_StartState`. -/
theorem addNewTask_start (hstate : s.poolState = .startState) :
    s.addNewTask msg = .ok { s with waiting := s.waiting ++ [msg] } := by
  have hwakeup : ({ s with waiting := s.waiting ++ [msg] } : Processor).wakeup =
      .ok { s with waiting := s.waiting ++ [msg] } := by
    apply wakeup_other
    show s.poolState ≠ .idleState
    rw [hstate]
    decide
  unfold Processor.addNewTask
  dsimp only
  rw [if_pos (Or.inl hstate), hwakeup]

/-- No event aborts, and every event keeps the invariant when it is not early. -/
theorem Exec.awake {a : Action} {r : Except Fault Processor} (h : Awake s) (hnrs : nrs.Serves)
    (hearly : ¬ Early s a) (hexec : Exec (.processor nrs) cqMax s a r) :
    ∃ s', r = .ok s' ∧ Awake s' := by
  cases hexec with
  | readWrite => exact h.addNewTask hearly
  | addNewTask => exact h.addNewTask hearly
  | completion hmsg _ => exact h.taskCompletion hmsg
  | timer _ =>
      refine wakeup_awake h.threads h.pos ?_ ?_
      · intro hstate
        obtain ⟨hrun, hidle, -⟩ := h.idleState hstate
        exact ⟨hrun, hidle⟩
      · intro hstate
        exact ⟨h.threads, h.pos, h.startState, fun h' => absurd h' hstate, h.runState,
          h.fullLoadState⟩
  | manager hrun hpsm =>
      cases hstate : s.poolState with
      | startState =>
          -- the first run of the manager: nothing waits yet, as no message came early
          obtain ⟨-, hexec, hempty⟩ := h.startState hstate
          have hidle : 0 < s.idle := by
            have hthreads := h.threads
            have hpos := h.pos
            rw [hexec, List.length_nil] at hthreads
            omega
          obtain ⟨hr, -⟩ := poolStateMachine_start (s := { s with run := false }) hstate hpsm
          exact ⟨_, hr, .of_idle h.threads h.pos rfl rfl hidle (Or.inl hempty)⟩
      | idleState =>
          rw [(h.idleState hstate).1] at hrun
          cases hrun
      | runState =>
          obtain ⟨-, hidle⟩ := h.runState hstate
          exact Working.poolStateMachine hnrs hpsm ⟨h.threads, h.pos, rfl, Or.inl ⟨hstate, hidle⟩⟩
      | fullLoadState =>
          rw [(h.fullLoadState hstate).1] at hrun
          cases hrun

/-- No event aborts, an early one included. -/
theorem Exec.ok {a : Action} {r : Except Fault Processor} (h : Awake s) (hnrs : nrs.Serves)
    (hexec : Exec (.processor nrs) cqMax s a r) : ∃ s', r = .ok s' := by
  by_cases hearly : Early s a
  · cases hexec with
    | readWrite => exact ⟨_, addNewTask_start hearly⟩
    | addNewTask => exact ⟨_, addNewTask_start hearly⟩
    | completion => exact hearly.elim
    | timer => exact hearly.elim
    | manager => exact hearly.elim
  · obtain ⟨s', hr, -⟩ := hexec.awake h hnrs hearly
    exact ⟨s', hr⟩

/-! ### Runs -/

/-- The pool after `Start`. -/
theorem start_awake {threads : Nat} (hpos : 0 < threads) : Awake (start threads) := by
  refine ⟨rfl, hpos, fun _ => ⟨rfl, rfl, rfl⟩, ?_, ?_, ?_⟩
  · intro h
    cases h
  · intro h
    cases h
  · intro h
    cases h

/-- A pool that has a message to hand out and a thread for it. -/
def Ready (s : Processor) : Prop := s.waiting ≠ [] ∧ s.throttling = false ∧ 0 < s.idle

/-- The manager of a pool that is ready is scheduled, to dispatch. -/
theorem Awake.ready (h : Awake s) (hready : Ready s) : s.run = true ∧ s.poolState = .runState := by
  obtain ⟨hwaiting, hthrottling, hidle⟩ := hready
  cases hstate : s.poolState with
  | startState => exact absurd (h.startState hstate).2.2 hwaiting
  | idleState =>
      rcases (h.idleState hstate).2.2 with hempty | hthrottle
      · exact absurd hempty hwaiting
      · rw [hthrottling] at hthrottle
        cases hthrottle
  | runState => exact ⟨(h.runState hstate).1, rfl⟩
  | fullLoadState =>
      have hzero := (h.fullLoadState hstate).2
      omega

/-- In a run where no message arrives before the first run of the manager, with a scheduler that keeps
its contract, the manager is scheduled to dispatch whenever the pool is ready, and no assertion
fires. -/
theorem awake_pool {threads : Nat} {acts : List Action} (hpos : 0 < threads) (hnrs : nrs.Serves)
    (hrun : Run (fun s a t => ¬ Early s a ∧ Step (.processor nrs) cqMax s a t) (start threads) acts
      s) :
    (Ready s → s.run = true ∧ s.poolState = .runState) ∧
      ∀ a r, Exec (.processor nrs) cqMax s a r → ∃ s', r = .ok s' := by
  have hawake : Awake s := by
    refine hrun.invariant ?_ (start_awake hpos)
    intro s a t h hstep
    obtain ⟨t', heq, h'⟩ := hstep.2.awake h hnrs hstep.1
    cases heq
    exact h'
  exact ⟨hawake.ready, fun a r hexec => hexec.ok hawake hnrs⟩

/-- A scheduler that returns the first message. -/
def nrsFirst : Nrs
  | [], d => d = .null
  | msg :: _, d => d = .msg msg

/-- It keeps the contract. -/
theorem nrsFirst_serves : nrsFirst.Serves := by
  intro waiting hnull
  cases waiting with
  | nil => rfl
  | cons msg rest => cases hnull

/-- One thread: the manager runs, a message arrives and is dispatched, another one arrives, and when
the first is complete the manager is scheduled. -/
theorem awake_pool_one :
    ∃ s : Processor, Run (fun s a t => ¬ Early s a ∧ Step (.processor nrsFirst) 0 s a t) (start 1)
        [.manager [], .readWrite 7, .manager [7], .readWrite 8, .completion 7 1] s ∧
      Ready s ∧ s.run = true ∧ s.poolState = .runState ∧
        ∀ a r, Exec (.processor nrsFirst) 0 s a r → ∃ s', r = .ok s' := by
  have hexists : ∃ s : Processor,
      Run (fun s a t => ¬ Early s a ∧ Step (.processor nrsFirst) 0 s a t) (start 1)
        [.manager [], .readWrite 7, .manager [7], .readWrite 8, .completion 7 1] s ∧ Ready s :=
    ⟨{ start 1 with run := true, poolState := .runState, waiting := [8] },
      .cons ⟨fun h => h, .manager rfl (.startState rfl)⟩ <|
      .cons ⟨nofun, .readWrite⟩ <|
      .cons ⟨fun h => h, .manager rfl (.task rfl rfl (.msg rfl List.mem_cons_self) rfl
        (.fullLoadState rfl))⟩ <|
      .cons ⟨nofun, .readWrite⟩ <|
      .cons ⟨fun h => h, .completion List.mem_cons_self (Nat.le_refl 1)⟩ (.nil _),
      nofun, rfl, Nat.one_pos⟩
  obtain ⟨s, hrun, hready⟩ := hexists
  obtain ⟨hawake, hok⟩ := awake_pool (by decide) nrsFirst_serves hrun
  exact ⟨s, hrun, hready, (hawake hready).1, (hawake hready).2, hok⟩

/-- A message that arrives before the first run of the manager stays with an idle thread and a
manager that sleeps. -/
theorem asleep_start :
    ¬ ∀ (threads : Nat) (acts : List Action) (s : Processor), 0 < threads →
      Run (Step (.processor nrsFirst) 0) (start threads) acts s → Ready s →
      s.run = true ∧ s.poolState = .runState := by
  intro h
  have hrun : Run (Step (.processor nrsFirst) 0) (start 1) [.readWrite 7, .manager []]
      { start 1 with run := false, poolState := .idleState, waiting := [7] } :=
    .cons .readWrite (.cons (.manager rfl (.startState rfl)) (.nil _))
  have hready := h 1 _ _ (by decide) hrun ⟨by decide, rfl, by decide⟩
  exact absurd hready.1 (by decide)

end LustreSimulator.Processor
