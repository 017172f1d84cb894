import LustreSimulator.Proofs.CongestController

/-!
# `LustreSimulator.Proofs.CongestAccount`: the counters of a congestion controller

`csp.uc` and the threads are counted in every run (`pool_run`). `csp.depth` is not: the messages
that `OSC::ReadWrite` submits join the queue without being counted, as the `AddNewTask` of
`CongestController` is not virtual, and `RunOneTask`, which is, takes one off for each
(`Step.depth_eq`). So the counters are right only until the first message (`accounted_iff`).
-/

set_option autoImplicit false

namespace LustreSimulator.Processor

open Lib

variable {cqMax : Int} {s s' : Processor} {msg : Nat} {msgs : List Nat}

/-- The counters of the controller are what their names say. -/
structure Accounted (cqMax : Int) (s : Processor) : Prop where
  depth : s.csp.depth = s.waiting.length
  congested : s.csp.congested = true ↔ s.csp.depth ≥ cqMax
  uc : s.csp.uc = s.executing.length
  threads : (s.idle : Int) + s.csp.uc = s.rnum

/-- `OSC::ReadWrite` submits a message. -/
def Action.submits : Action → Bool
  | .readWrite _ => true
  | _ => false

/-- What the manager dispatches leaves the queue and is taken off `csp.depth`. -/
theorem PoolStateMachine.depth_eq {r : Except Fault Processor}
    (h : PoolStateMachine .congestController cqMax s msgs r) (hr : r = .ok s') :
    s'.csp.depth - s'.waiting.length = s.csp.depth - s.waiting.length := by
  induction h with
  | startState =>
      cases hr
      rfl
  | idleState =>
      cases hr
      rfl
  | fullLoadState =>
      cases hr
      rfl
  | throttled =>
      cases hr
      rfl
  | none _ _ hdeq =>
      cases hr
      cases hdeq
      rfl
  | noThread => cases hr
  | @task s s₁ s₂ msg msgs r _ _ hdeq hnext _ ih =>
      cases hdeq with
      | @fifo _ _ rest hwaiting =>
          rcases nextIdleThreadFromPool_cases { s with waiting := rest } with
            ⟨-, hnone⟩ | ⟨-, hsome⟩
          · rw [hnone] at hnext
            cases hnext
          · rw [hsome] at hnext
            cases hnext
            obtain ⟨b, htask⟩ := runOneTask_eq cqMax { s with
              waiting := rest
              idle := s.idle - 1
              poolState := if s.idle - 1 = 0 then .fullLoadState else s.poolState } msg
            rw [ih hr, htask, hwaiting, List.length_cons]
            show s.csp.depth - 1 - (rest.length : Int) = _
            omega

/-- `csp.depth` falls behind the queue by one for each message that is submitted. -/
theorem Exec.depth_eq {a : Action} {r : Except Fault Processor} (h : Pool s)
    (hexec : Exec .congestController cqMax s a r) (ha : ∀ m, a ≠ .addNewTask m)
    (hr : r = .ok s') :
    s'.csp.depth - s'.waiting.length =
      s.csp.depth - s.waiting.length - (if a.submits then 1 else 0) := by
  cases hexec with
  | @readWrite msg =>
      have heq := h.addNewTask_eq.symm.trans hr
      have hlen : (s.waiting ++ [msg]).length = s.waiting.length + 1 := by
        rw [List.length_append, List.length_singleton]
      show _ = s.csp.depth - (s.waiting.length : Int) - 1
      by_cases hidle : s.poolState = .idleState
      · rw [if_pos hidle] at heq
        cases heq
        show s.csp.depth - ((s.waiting ++ [msg]).length : Int) = _
        omega
      · rw [if_neg hidle] at heq
        cases heq
        show s.csp.depth - ((s.waiting ++ [msg]).length : Int) = _
        omega
  | addNewTask => exact absurd rfl (ha _)
  | @completion msg rcc hmsg _ =>
      have heq := (congestTaskCompletion_eq h.counts h.uc hmsg).symm.trans hr
      show _ = s.csp.depth - (s.waiting.length : Int) - 0
      unfold resumed at heq
      by_cases hresume : (completed s msg rcc).run = false ∧ (completed s msg rcc).idle > 0 ∧
          (completed s msg rcc).poolState = .fullLoadState
      · rw [if_pos hresume] at heq
        cases heq
        rw [Int.sub_zero]
        rfl
      · rw [if_neg hresume] at heq
        cases heq
        rw [Int.sub_zero]
        rfl
  | timer hthrottling => exact absurd (h.throttling.symm.trans hthrottling) (by decide)
  | manager _ hpsm =>
      show _ = s.csp.depth - (s.waiting.length : Int) - 0
      rw [hpsm.depth_eq hr, Int.sub_zero]

/-- In a run `csp.depth` falls behind the queue by the number of messages that are submitted. -/
theorem depth_run {acts : List Action} (h : Pool s)
    (hsubmit : ∀ m, Action.addNewTask m ∉ acts)
    (hrun : Run (Step .congestController cqMax) s acts s') :
    s'.csp.depth - s'.waiting.length =
      s.csp.depth - s.waiting.length - acts.countP Action.submits := by
  induction hrun with
  | nil =>
      rw [List.countP_nil]
      omega
  | @cons s t u a as hstep _ ih =>
      obtain ⟨t', heq, ht, -⟩ := hstep.pool h
      cases heq
      have hfirst := hstep.depth_eq h
        (fun m heq => hsubmit m (heq ▸ List.mem_cons_self)) rfl
      have hrest := ih ht (fun m hmem => hsubmit m (List.mem_cons_of_mem a hmem))
      rw [List.countP_cons]
      push_cast
      by_cases ha : a.submits = true
      · rw [if_pos ha] at hfirst ⊢
        omega
      · rw [if_neg ha] at hfirst ⊢
        omega

/-- Nothing has been submitted. -/
structure Quiet (s : Processor) : Prop where
  waiting : s.waiting = []
  executing : s.executing = []
  congested : s.csp.congested = false

/-- The manager finds nothing to dispatch. -/
theorem Quiet.poolStateMachine {r : Except Fault Processor} (h : Quiet s)
    (hpsm : PoolStateMachine .congestController cqMax s msgs r) (hr : r = .ok s') : Quiet s' := by
  cases hpsm with
  | startState =>
      cases hr
      exact ⟨h.waiting, h.executing, h.congested⟩
  | idleState =>
      cases hr
      exact h
  | fullLoadState =>
      cases hr
      exact h
  | throttled =>
      cases hr
      exact ⟨h.waiting, h.executing, h.congested⟩
  | none _ _ hdeq =>
      cases hr
      cases hdeq
      exact ⟨h.waiting, h.executing, h.congested⟩
  | noThread => cases hr
  | task _ _ hdeq _ _ =>
      cases hdeq with
      | fifo hwaiting => exact absurd (h.waiting.symm.trans hwaiting) (List.cons_ne_nil _ _).symm

/-- Only the manager can run while nothing is submitted, and it dispatches nothing. -/
theorem Quiet.exec {a : Action} {r : Except Fault Processor} (h : Quiet s) (hpool : Pool s)
    (hexec : Exec .congestController cqMax s a r) (hread : ∀ m, a ≠ .readWrite m)
    (hadd : ∀ m, a ≠ .addNewTask m) (hr : r = .ok s') : Quiet s' := by
  cases hexec with
  | readWrite => exact absurd rfl (hread _)
  | addNewTask => exact absurd rfl (hadd _)
  | completion hmsg _ =>
      rw [h.executing] at hmsg
      cases hmsg
  | timer hthrottling => exact absurd (hpool.throttling.symm.trans hthrottling) (by decide)
  | manager _ hpsm =>
      have hquiet : Quiet { s with run := false } := ⟨h.waiting, h.executing, h.congested⟩
      exact hquiet.poolStateMachine hpsm hr

/-- A run that submits nothing dispatches nothing. -/
theorem quiet_run {acts : List Action} (hquiet : Quiet s) (hpool : Pool s)
    (hread : ∀ m, Action.readWrite m ∉ acts) (hadd : ∀ m, Action.addNewTask m ∉ acts)
    (hrun : Run (Step .congestController cqMax) s acts s') : Quiet s' := by
  induction hrun with
  | nil => exact hquiet
  | @cons s t u a as hstep _ ih =>
      obtain ⟨t', heq, ht, -⟩ := hstep.pool hpool
      cases heq
      have hquiet' : Quiet t := hquiet.exec hpool hstep
        (fun m heq => hread m (heq ▸ List.mem_cons_self))
        (fun m heq => hadd m (heq ▸ List.mem_cons_self)) rfl
      exact ih hquiet' ht (fun m hmem => hread m (List.mem_cons_of_mem a hmem))
        (fun m hmem => hadd m (List.mem_cons_of_mem a hmem))

/-- In a run whose messages `OSC::ReadWrite` submits, the counters are right if and only if no
message has been submitted and `CQmax` is positive. -/
theorem accounted_iff {threads : Nat} {acts : List Action} (hpos : 0 < threads)
    (hadd : ∀ m, Action.addNewTask m ∉ acts)
    (hrun : Run (Step .congestController cqMax) (start threads) acts s) :
    Accounted cqMax s ↔ (∀ m, Action.readWrite m ∉ acts) ∧ 0 < cqMax := by
  have hpool := pool_run hpos hrun
  have hdepth := depth_run (start_pool hpos) hadd hrun
  change s.csp.depth - s.waiting.length = 0 - 0 - acts.countP Action.submits at hdepth
  constructor
  · intro h
    have hnone : acts.countP Action.submits = 0 := by
      have := h.depth
      omega
    have hread : ∀ m, Action.readWrite m ∉ acts := by
      intro m hmem
      exact absurd rfl (List.countP_eq_zero.mp hnone _ hmem)
    refine ⟨hread, ?_⟩
    -- the flag is still clear, and `csp.depth` is still 0
    have hquiet : Quiet s := quiet_run ⟨rfl, rfl, rfl⟩ (start_pool hpos) hread hadd hrun
    have hzero : s.csp.depth = 0 := by
      have := h.depth
      rw [hquiet.waiting, List.length_nil] at this
      exact this
    by_contra hle
    have htrue := h.congested.mpr (by omega)
    rw [hquiet.congested] at htrue
    cases htrue
  · rintro ⟨hread, hcq⟩
    have hquiet : Quiet s := quiet_run ⟨rfl, rfl, rfl⟩ (start_pool hpos) hread hadd hrun
    have hnone : acts.countP Action.submits = 0 := by
      refine List.countP_eq_zero.mpr ?_
      intro a hmem ha
      cases a with
      | readWrite m => exact hread m hmem
      | addNewTask m => cases ha
      | completion m rcc => cases ha
      | timer => cases ha
      | manager msgs => cases ha
    have hthreads := hpool.counts.threads
    have huc := hpool.uc
    have hwaiting : s.waiting.length = 0 := by
      rw [hquiet.waiting, List.length_nil]
    refine ⟨by omega, ?_, huc, by omega⟩
    rw [hquiet.congested]
    constructor
    · intro h
      cases h
    · intro hge
      omega

/-- Before the first message the counters are right. After a message that was submitted, dispatched
and completed they are not. -/
theorem accounted_iff_start :
    (∃ s : Processor, Run (Step .congestController 4) (start 1) [.manager []] s ∧ Accounted 4 s) ∧
    ∃ s : Processor, Run (Step .congestController 4) (start 1)
        [.manager [], .readWrite 7, .manager [7], .completion 7 1] s ∧
      s.csp.depth = -1 ∧ ¬ Accounted 4 s := by
  have hnone : ∀ m, Action.addNewTask m ∉ [.manager [], .readWrite 7, .manager [7],
      .completion 7 1] := by
    intro m hmem
    simp at hmem
  have hquiet : Run (Step .congestController 4) (start 1) [.manager []]
      { start 1 with run := false, poolState := .idleState } :=
    .cons (.manager rfl (.startState rfl)) (.nil _)
  have hserved : Run (Step .congestController 4) (start 1)
      [.manager [], .readWrite 7, .manager [7], .completion 7 1]
      { start 1 with run := true, poolState := .runState, csp := ⟨-1, 1, 0, false⟩ } :=
    .cons (.manager rfl (.startState rfl)) <| .cons .readWrite <|
    .cons (.manager rfl (.task rfl rfl (.fifo rfl) rfl (.fullLoadState rfl))) <|
    .cons (.completion List.mem_cons_self (Nat.le_refl 1)) (.nil _)
  refine ⟨⟨_, hquiet, (accounted_iff (by decide) ?_ hquiet).mpr ⟨?_, by decide⟩⟩,
    _, hserved, rfl, fun h => ?_⟩
  · exact fun m hmem => hnone m (List.mem_cons.mpr (.inl (List.mem_singleton.mp hmem)))
  · intro m hmem
    cases List.mem_singleton.mp hmem
  · refine ((accounted_iff (by decide) hnone hserved).mp h).1 7 ?_
    exact List.mem_cons_of_mem _ List.mem_cons_self

/-- One message is submitted and dispatched: `csp.depth` is -1. -/
theorem accounted_lost :
    ¬ ∀ (threads : Nat) (acts : List Action) (s : Processor), 0 < threads →
      (∀ m, Action.addNewTask m ∉ acts) →
      Run (Step .congestController 4) (start threads) acts s → Accounted 4 s := by
  intro h
  have htask : Step .congestController 4
      { start 1 with run := true, poolState := .runState, waiting := [7] } (.manager [7])
      { start 1 with
        run := false, poolState := .fullLoadState, idle := 0, executing := [7]
        csp := ⟨-1, 0, 1, false⟩ } :=
    .manager rfl (.task rfl rfl (.fifo rfl) rfl (.fullLoadState rfl))
  have hrun : Run (Step .congestController 4) (start 1)
      [.manager [], .readWrite 7, .manager [7]]
      { start 1 with
        run := false, poolState := .fullLoadState, idle := 0, executing := [7]
        csp := ⟨-1, 0, 1, false⟩ } :=
    .cons (.manager rfl (.startState rfl)) (.cons .readWrite (.cons htask (.nil _)))
  have hnone : ∀ m, Action.addNewTask m ∉ [.manager [], .readWrite 7, .manager [7]] := by
    intro m hmem
    simp only [List.mem_cons, reduceCtorEq, List.not_mem_nil, or_self] at hmem
  have hdepth := (h 1 _ _ (by decide) hnone hrun).depth
  exact absurd hdepth (by decide)

end LustreSimulator.Processor
