import LustreSimulator.Proofs.NrsTbfRate

/-!
# `LustreSimulator.Proofs.NrsTbfRange`: the range of a rate with dependency

`nrs_tbf_update_rule_rate` raises `tr_speedup` by a step that doubles from round to round and is at
most the headroom `tr_upper_rate - tr_lower_rate - tr_speedup`. But the first step of a ramp is 1,
and nothing compares it with the headroom. A ramp begins when `tr_last_round` is 0, so after a
decrease, and also after an increase that found no headroom. If there is none at the begin of a ramp
(`Oversteps`), `tr_speedup` leaves its range, and the headroom wraps in the round after that.

`InRange` is what holds in a run without such a round. `RuleStep` is a call for a client of the
rule, or anything else that does not touch what the call controls; `HeapStep.ruleRun` makes every
step of the scheduler a run of these. `rate_in_range` is the result.
-/

set_option autoImplicit false

namespace LustreSimulator.NrsTbf

open Lib

variable {p : Params} {s s' s₀ : NrsTbf} {j : Jobid} {c c' : Client} {r : Rule} {i : Nat}

/-! ### One round -/

/-- A round of the rule is due: a call does not return at one of its first tests. -/
def Due (s : NrsTbf) (i : Nat) : Prop :=
  (s.rules i).dependency = true ∧
    (s.rules (s.rules i).deprule).nsecs ≤ s.now - (s.rules i).checkTime

/-- The condition of an increase. -/
def increases (s : NrsTbf) (p : Params) (i : Nat) : Bool :=
  let deprule := s.rules (s.rules i).deprule
  decide (s.now - deprule.lastActiveTime > p.alpha * deprule.nsecs / 100 ∧
    deprule.nsecsBacklog < p.beta * deprule.nsecs / 100)

/-- `tr_speedup` is within the rates of the rule, `tr_last_round` is a part of it, and the rate is
the lower one and `tr_speedup`. -/
structure InRange (r : Rule) : Prop where
  lower : 1 ≤ r.lowerRate
  upper : r.lowerRate ≤ r.upperRate
  word : r.upperRate < 2 ^ 64
  speedup : r.speedup ≤ r.upperRate - r.lowerRate
  lastRound : r.lastRound ≤ r.speedup
  rate : r.rpcRate = r.lowerRate + r.speedup

/-- The headroom does not wrap. -/
theorem InRange.headroom (h : InRange r) :
    sub64 (sub64 r.upperRate r.lowerRate) r.speedup = r.upperRate - r.lowerRate - r.speedup := by
  obtain ⟨-, hupper, hword, hspeedup, -, -⟩ := h
  rw [sub64_eq hword hupper]
  exact sub64_eq (by omega) hspeedup

/-- The rule begins a ramp without headroom. -/
def Full (r : Rule) : Prop := r.lastRound = 0 ∧ r.speedup = r.upperRate - r.lowerRate

/-- A round up stays in the range, unless it begins a ramp without headroom. -/
theorem InRange.nextRound_up (h : InRange r) :
    ∃ speedup lastRound, nextRound r true = .ok (speedup, lastRound) ∧ lastRound ≤ speedup ∧
      (speedup ≤ r.upperRate - r.lowerRate ↔ ¬ Full r) := by
  have hroom := h.headroom
  obtain ⟨hlower, hupper, hword, hspeedup, hlast, -⟩ := h
  unfold nextRound Full
  rw [if_pos rfl]
  dsimp only
  by_cases hzero : r.lastRound = 0
  · -- a new ramp takes a step of 1, and does not look at the headroom
    rw [if_pos hzero, add64_eq (by omega)]
    refine ⟨_, _, rfl, ?_, ?_⟩ <;> omega
  · -- the step is at most the headroom
    rw [if_neg hzero, hroom]
    have hle : min (add64 r.lastRound r.lastRound) (r.upperRate - r.lowerRate - r.speedup) ≤
        r.upperRate - r.lowerRate - r.speedup := Nat.min_le_right _ _
    rw [add64_eq (by omega)]
    refine ⟨_, _, rfl, ?_, ?_⟩ <;> omega

/-- A round down stays in the range, and it takes away from `tr_speedup`. -/
theorem InRange.nextRound_down (h : InRange r) :
    ∃ speedup lastRound, nextRound r false = .ok (speedup, lastRound) ∧ lastRound ≤ speedup ∧
      speedup ≤ r.speedup ∧ (0 < r.speedup → speedup < r.speedup) := by
  have hlast := h.lastRound
  unfold nextRound
  rw [if_neg (by decide)]
  split
  · -- the last step is taken back, and it is at most `tr_speedup`
    rename_i hpos
    rw [check_true hlast]
    refine ⟨_, _, rfl, ?_, ?_, ?_⟩ <;> omega
  · -- without a last step, half of `tr_speedup` is taken away
    rename_i hzero
    refine ⟨_, _, rfl, ?_, ?_, ?_⟩ <;> omega

/-! ### One call -/

/-- A call does nothing when no round is due. -/
theorem updateRuleRate_idle (h : ¬ Due s c.rule) : s.updateRuleRate p j c = .ok (c, s) := by
  unfold updateRuleRate
  dsimp only
  split
  · rfl
  · rename_i hdep
    -- the second test returns, because the rate has been checked a moment ago
    refine if_pos (Nat.lt_of_not_le fun hle => h ⟨eq_true_of_ne_false hdep, hle⟩)

/-- What a round leaves of the rule. -/
structure Rounded (r : Rule) (newSpeedup newLast : Nat) (r' : Rule) : Prop where
  dependency : r'.dependency = r.dependency
  upper : r'.upperRate = r.upperRate
  lower : r'.lowerRate = r.lowerRate
  speedup : r'.speedup = newSpeedup
  lastRound : r'.lastRound = newLast
  rate : r'.rpcRate = min r.upperRate (add64 newSpeedup r.lowerRate)

/-- A call makes a round that is due, and stops only when the new rate is 0. -/
theorem updateRuleRate_due {speedup lastRound : Nat} (h : Due s c.rule)
    (hround : nextRound (s.rules c.rule) (s.increases p c.rule) = .ok (speedup, lastRound)) :
    (min (s.rules c.rule).upperRate (add64 speedup (s.rules c.rule).lowerRate) ≠ 0 →
      ∃ r, s.updateRuleRate p j c = .ok r) ∧
    ∀ c' s', s.updateRuleRate p j c = .ok (c', s') →
      Rounded (s.rules c.rule) speedup lastRound (s'.rules c.rule) := by
  obtain ⟨hdep, hdue⟩ := h
  unfold increases at hround
  dsimp only at hround
  unfold updateRuleRate
  dsimp only
  rw [if_neg (by rw [hdep]; decide), if_neg (Nat.not_lt.mpr hdue), hround, ok_bind]
  by_cases hsame : (s.rules c.rule).rpcRate ≠
      min (s.rules c.rule).upperRate (add64 speedup (s.rules c.rule).lowerRate)
  · -- the rate changes, and the assertion on it is the only one
    rw [if_pos hsame]
    refine ⟨fun hrate => ?_, fun c' s' hok => ?_⟩
    · rw [check_true hrate]
      exact ⟨_, rfl⟩
    · obtain ⟨u, -, hok⟩ := bind_eq_ok.mp hok
      cases hok
      show Rounded _ _ _ (if c.rule = c.rule then _ else _)
      rw [if_pos rfl]
      constructor <;> rfl
  · -- the rate stays, and the round is noted all the same
    rw [if_neg hsame]
    refine ⟨fun _ => ⟨_, rfl⟩, fun c' s' hok => ?_⟩
    cases hok
    show Rounded _ _ _ (if c.rule = c.rule then _ else _)
    rw [if_pos rfl]
    constructor <;> rfl

/-- A round in the range gives the rule the rate of its `tr_speedup`. -/
theorem Rounded.inRange {speedup lastRound : Nat} {r' : Rule}
    (hround : Rounded r speedup lastRound r') (h : InRange r)
    (hspeedup : speedup ≤ r.upperRate - r.lowerRate) (hlast : lastRound ≤ speedup) :
    InRange r' := by
  have hupper := h.upper
  have hword := h.word
  refine ⟨?_, ?_, ?_, ?_, ?_, ?_⟩
  · rw [hround.lower]
    exact h.lower
  · rw [hround.lower, hround.upper]
    exact hupper
  · rw [hround.upper]
    exact hword
  · rw [hround.speedup, hround.upper, hround.lower]
    exact hspeedup
  · rw [hround.lastRound, hround.speedup]
    exact hlast
  · -- the cap at the upper rate changes nothing in the range
    rw [hround.rate, hround.lower, hround.speedup, add64_eq (by omega)]
    omega

/-- A round up of the rule is due and begins a ramp without headroom. -/
def Oversteps (p : Params) (s : NrsTbf) (i : Nat) : Prop :=
  Due s i ∧ s.increases p i = true ∧ Full (s.rules i)

/-- What a call for a client of the rule has done in the range. -/
structure Regulated (p : Params) (s : NrsTbf) (i : Nat) (s' : NrsTbf) : Prop where
  /-- It stays in the range exactly when it does not overstep. -/
  bounded : (s'.rules i).speedup ≤ (s'.rules i).upperRate - (s'.rules i).lowerRate ↔
    ¬ Oversteps p s i
  inRange : ¬ Oversteps p s i → InRange (s'.rules i)
  /-- A decrease lowers a rate above the lower one. -/
  lowers : Due s i → s.increases p i = false → (s.rules i).lowerRate < (s.rules i).rpcRate →
    (s'.rules i).rpcRate < (s.rules i).rpcRate

/-- A call for a client of a rule in the range returns, unless it oversteps. -/
theorem InRange.update (h : InRange (s.rules c.rule)) :
    (¬ Oversteps p s c.rule → ∃ r, s.updateRuleRate p j c = .ok r) ∧
    ∀ c' s', s.updateRuleRate p j c = .ok (c', s') → Regulated p s c.rule s' := by
  by_cases hdue : Due s c.rule
  swap
  · -- no round is due
    rw [updateRuleRate_idle hdue]
    refine ⟨fun _ => ⟨_, rfl⟩, fun c' s' hok => ?_⟩
    cases hok
    exact ⟨iff_of_true h.speedup fun hover => hdue hover.1, fun _ => h,
      fun hdue' => absurd hdue' hdue⟩
  have hlower := h.lower
  have hupper := h.upper
  have hword := h.word
  have hbound := h.speedup
  cases hup : s.increases p c.rule with
  | true =>
      -- up: out of the range exactly at the begin of a ramp without headroom
      obtain ⟨speedup, lastRound, hround, hlast, hiff⟩ := h.nextRound_up
      rw [← hup] at hround
      obtain ⟨hreturns, hrounded⟩ := updateRuleRate_due (j := j) hdue hround
      have hfull : Oversteps p s c.rule ↔ Full (s.rules c.rule) :=
        ⟨fun hover => hover.2.2, fun hfull => ⟨hdue, hup, hfull⟩⟩
      rw [← hfull] at hiff
      refine ⟨fun hover => hreturns ?_, fun c' s' hok => ⟨?_, fun hover => ?_, fun _ hdown => ?_⟩⟩
      · have := hiff.mpr hover
        rw [add64_eq (by omega)]
        omega
      · rw [(hrounded c' s' hok).speedup, (hrounded c' s' hok).upper, (hrounded c' s' hok).lower]
        exact hiff
      · exact (hrounded c' s' hok).inRange h (hiff.mpr hover) hlast
      · rw [hup] at hdown
        cases hdown
  | false =>
      -- down: `tr_speedup` does not grow, and the lower rate is above 0
      obtain ⟨speedup, lastRound, hround, hlast, hle, hless⟩ := h.nextRound_down
      rw [← hup] at hround
      obtain ⟨hreturns, hrounded⟩ := updateRuleRate_due (j := j) hdue hround
      have hnot : ¬ Oversteps p s c.rule := by
        rintro ⟨-, hincrease, -⟩
        rw [hup] at hincrease
        cases hincrease
      refine ⟨fun _ => hreturns ?_, fun c' s' hok => ?_⟩
      · rw [add64_eq (by omega)]
        omega
      · have hrange := (hrounded c' s' hok).inRange h (Nat.le_trans hle hbound) hlast
        refine ⟨iff_of_true hrange.speedup hnot, fun _ => hrange, fun _ _ habove => ?_⟩
        rw [hrange.rate, h.rate, (hrounded c' s' hok).speedup, (hrounded c' s' hok).lower]
        rw [h.rate] at habove
        have := hless (by omega)
        omega

/-! ### The steps of a rule -/

/-- What `nrs_tbf_update_rule_rate` controls of a rule, and the rates that bound it. -/
def Rule.control (r : Rule) : Bool × Nat × Nat × Nat × Nat × Nat :=
  (r.dependency, r.upperRate, r.lowerRate, r.speedup, r.lastRound, r.rpcRate)

/-- What happens to a rule. -/
inductive RuleEvent where
  /-- A call of `nrs_tbf_update_rule_rate` for a client of the rule. -/
  | update (j : Jobid) (c : Client)
  /-- Anything that does not change what the call controls. -/
  | other
  deriving DecidableEq, Repr

/-- A call that does not stop, or something else. Time may pass there, and other rules may change.
-/
inductive RuleStep (p : Params) (i : Nat) : NrsTbf → RuleEvent → NrsTbf → Prop where
  | update {s s' : NrsTbf} {j : Jobid} {c c' : Client} : c.rule = i →
      s.updateRuleRate p j c = .ok (c', s') → RuleStep p i s (.update j c) s'
  | other {s s' : NrsTbf} : (s'.rules i).control = (s.rules i).control →
      RuleStep p i s .other s'

/-- The event is a call that oversteps. -/
def RuleEvent.oversteps (p : Params) (s : NrsTbf) (i : Nat) : RuleEvent → Prop
  | .update _ _ => Oversteps p s i
  | .other => False

/-- A rule with the same control values is in the range too. -/
theorem InRange.congr {r' : Rule} (h : InRange r) (hcontrol : r'.control = r.control) :
    InRange r' := by
  unfold Rule.control at hcontrol
  simp only [Prod.mk.injEq] at hcontrol
  obtain ⟨-, hupper, hlower, hspeedup, hlast, hrate⟩ := hcontrol
  refine ⟨?_, ?_, ?_, ?_, ?_, ?_⟩
  · rw [hlower]
    exact h.lower
  · rw [hlower, hupper]
    exact h.upper
  · rw [hupper]
    exact h.word
  · rw [hspeedup, hupper, hlower]
    exact h.speedup
  · rw [hlast, hspeedup]
    exact h.lastRound
  · rw [hrate, hlower, hspeedup]
    exact h.rate

/-- A step that does not overstep keeps the rule in the range. -/
theorem RuleStep.inRange {e : RuleEvent} (hstep : RuleStep p i s e s') (h : InRange (s.rules i))
    (hsafe : ¬ e.oversteps p s i) : InRange (s'.rules i) := by
  cases hstep with
  | update hrule hok =>
      subst hrule
      exact (h.update.2 _ _ hok).inRange hsafe
  | other hcontrol => exact h.congr hcontrol

/-- Time passes. -/
theorem ruleStep_clock (s : NrsTbf) (now : Nat) : RuleStep p i s .other { s with now := now } :=
  .other rfl

/-- A rule that is replaced by one with the same control values. -/
theorem control_setRule {k : Nat} (h : r.control = (s.rules k).control) :
    ((s.setRule k r).rules i).control = (s.rules i).control := by
  show (if i = k then r else s.rules i).control = _
  split
  · rename_i hi
    rw [h, hi]
  · rfl

/-- A call for a client is a step of its rule, and of every other rule. -/
theorem updateRuleRate_ruleStep (h : s.updateRuleRate p j c = .ok (c', s')) :
    ∃ e, RuleStep p i s e s' := by
  by_cases hrule : c.rule = i
  · exact ⟨_, .update hrule h⟩
  · -- the call writes its own rule only
    refine ⟨.other, .other ?_⟩
    rcases updateRuleRate_cases h with ⟨rfl, -⟩ |
      ⟨-, rule, -, -, ⟨-, -, -, rfl⟩ | ⟨-, -, -, rfl⟩⟩
    · rfl
    · exact congrArg Rule.control (if_neg fun heq => hrule heq.symm)
    · exact congrArg Rule.control (if_neg fun heq => hrule heq.symm)

/-- A `Dequeue` does not touch what the calls control. -/
theorem dequeue_control {root : Option Jobid} {out : Option Msg}
    (h : s.dequeue root = .ok (out, s')) : (s'.rules i).control = (s.rules i).control := by
  rcases dequeue_cases h with ⟨-, -, rfl⟩ |
    ⟨-, j, c, -, -, -, -, -, ⟨-, m, -, hserve⟩ | ⟨-, -, timer, -, rfl⟩⟩
  · rfl
  · obtain ⟨rest, c', -, -, rfl⟩ := serve_cases hserve
    -- the rule notes its activity first, then the backlog
    have hactive : ((s.noteActive c).rules i).control = (s.rules i).control := control_setRule rfl
    refine Eq.trans ?_ hactive
    exact @control_setRule (s.noteActive c) _ i c.rule rfl
  · exact @control_setRule s _ i c.rule rfl

/-- What keeps the control values of the rule is a run of one step. -/
theorem ruleRun_other (h : (s'.rules i).control = (s.rules i).control) :
    ∃ es, Run (RuleStep p i) s es s' := ⟨[.other], .cons (.other h) (.nil s')⟩

/-- A step of the scheduler is a run of steps of every rule. -/
theorem HeapStep.ruleRun {st st' : Heaped} {e : Event} (hstep : HeapStep p st e st') (i : Nat) :
    ∃ es, Run (RuleStep p i) st.tbf es st'.tbf := by
  cases hstep with
  | clock => exact ⟨_, .cons (ruleStep_clock _ _) (.nil _)⟩
  | @enqueue s _ _ msg henq =>
      -- `Enqueue` finds the client, calls, and queues the message
      obtain ⟨c₁, s₁, c', hupdate, hrules, -⟩ := enqueue_rate henq
      have hadd := (cliFindAdd_rate s p msg.jobid).1
      obtain ⟨e, hcall⟩ := updateRuleRate_ruleStep (i := i) hupdate
      exact ⟨[.other, e, .other], .cons (.other (by rw [hadd])) <| .cons hcall <|
        .cons (.other (by rw [hrules])) (.nil _)⟩
  | served _ hdeq => exact ruleRun_other (dequeue_control hdeq)
  | idle _ hdeq => exact ruleRun_other (dequeue_control hdeq)
  | finish hfin => exact ruleRun_other (by rw [(finish_rules hfin).1])
  | timer => exact ruleRun_other rfl

/-! ### Runs -/

/-- A rule with dependency after the configuration. -/
structure Fresh (r : Rule) : Prop where
  lower : 1 ≤ r.lowerRate
  upper : r.lowerRate ≤ r.upperRate
  word : r.upperRate < 2 ^ 64
  speedup : r.speedup = 0
  lastRound : r.lastRound = 0
  rate : r.rpcRate = r.lowerRate

/-- It is in the range. -/
theorem Fresh.inRange (h : Fresh r) : InRange r := by
  obtain ⟨hlower, hupper, hword, hspeedup, hlast, hrate⟩ := h
  exact ⟨hlower, hupper, hword, by omega, by omega, by omega⟩

/-- The configuration makes it so. -/
theorem configureTurns_fresh {q : RuleParams} {n : Nat} (h : configureTurns q n = .ok s)
    (hi : i < n) (hdep : q.depIndex i ≥ 0) (hlower : 1 ≤ q.lowerRate i)
    (hupper : q.lowerRate i ≤ q.upperRate i) (hword : q.upperRate i < 2 ^ 64) :
    Fresh (s.rules i) := by
  induction n generalizing s with
  | zero => exact absurd hi (Nat.not_lt_zero i)
  | succ n ih =>
      rw [configureTurns] at h
      obtain ⟨s₁, hturns, h⟩ := bind_eq_ok.mp h
      by_cases hin : i = n
      · subst hin
        unfold configureRule at h
        dsimp only at h
        obtain ⟨u, -, h⟩ := bind_eq_ok.mp h
        obtain ⟨u, -, h⟩ := bind_eq_ok.mp h
        rw [if_pos hdep] at h
        obtain ⟨u, -, h⟩ := bind_eq_ok.mp h
        obtain ⟨deprule, -, h⟩ := bind_eq_ok.mp h
        cases h
        show Fresh (if i = i then _ else _)
        rw [if_pos rfl]
        exact ⟨hlower, hupper, hword, rfl, rfl, rfl⟩
      · rw [(configureRule_spec h).2.2.2 i hin]
        exact ih hturns (by omega)

/-- **The range of a rate with dependency.** In every run of a rule in which no increase begins a
ramp without headroom, `tr_speedup` is within the rates of the rule and the headroom does not wrap.
A call then returns, it lowers a rate above the lower one when it decreases, and it stays in the
range exactly when it is not such an increase. -/
theorem rate_in_range {es : List RuleEvent} (hfresh : Fresh (s₀.rules i))
    (hrun : Run (fun s e s' => ¬ e.oversteps p s i ∧ RuleStep p i s e s') s₀ es s) :
    InRange (s.rules i) ∧
    sub64 (sub64 (s.rules i).upperRate (s.rules i).lowerRate) (s.rules i).speedup =
      (s.rules i).upperRate - (s.rules i).lowerRate - (s.rules i).speedup ∧
    ∀ j c, c.rule = i → (¬ Oversteps p s i → ∃ r, s.updateRuleRate p j c = .ok r) ∧
      ∀ c' s', s.updateRuleRate p j c = .ok (c', s') → Regulated p s i s' := by
  have hrange : InRange (s.rules i) :=
    hrun.invariant (P := fun s => InRange (s.rules i))
      (fun _ _ _ h hstep => hstep.2.inRange h hstep.1) hfresh.inRange
  refine ⟨hrange, hrange.headroom, ?_⟩
  rintro j c rfl
  exact hrange.update

/-- The rule 1 has the rates 1 and 2 and depends on the rule 0. -/
def rampRules : Nat → Rule := fun i =>
  if i = 1 then ⟨["a"], 1, 100, 2, true, 0, 2, 1, 0, 0, 0, 0, 0⟩
  else ⟨[], 10000000, 100, 2, false, 0, 0, 0, 0, 0, 0, 0, 0⟩

/-- A client of the rule 1. -/
def rampClient : Client := ⟨0, 1, 1, 1, 100, 2, 2, 0, false, [], 0⟩

/-- The rule is fresh. -/
theorem rampRules_fresh : Fresh ((start rampRules [1, 0]).rules 1) :=
  ⟨by decide, by decide, by decide, rfl, rfl, rfl⟩

/-- One increase, to the upper rate. -/
theorem rate_in_range_one : ∃ s, (s.rules 1).rpcRate = 2 ∧
    Run (fun s e s' => ¬ e.oversteps smallParams s 1 ∧ RuleStep smallParams 1 s e s')
      (start rampRules [1, 0]) [.other, .update "a" rampClient] s ∧ InRange (s.rules 1) := by
  have hexists : ∃ s, (s.rules 1).rpcRate = 2 ∧
      Run (fun s e s' => ¬ e.oversteps smallParams s 1 ∧ RuleStep smallParams 1 s e s')
        (start rampRules [1, 0]) [.other, .update "a" rampClient] s := by
    refine ⟨_, ?_, .cons ⟨fun h => h, ruleStep_clock _ 200⟩ <|
      .cons ⟨fun h => ?_, .update rfl rfl⟩ (.nil _)⟩
    · rfl
    · exact absurd h.2.2.2 (by decide)
  obtain ⟨s, hrate, hrun⟩ := hexists
  exact ⟨s, hrate, hrun, (rate_in_range rampRules_fresh hrun).1⟩

/-- The first increase uses the headroom up, the second one finds none and ends the ramp, and the
third one begins a ramp at the upper rate. -/
theorem rate_out_of_range : ¬ ∀ (p : Params) (s₀ s : NrsTbf) (i : Nat) (es : List RuleEvent),
    Fresh (s₀.rules i) → Run (RuleStep p i) s₀ es s →
    (s.rules i).speedup ≤ (s.rules i).upperRate - (s.rules i).lowerRate := by
  intro hall
  have hexists : ∃ s, Run (RuleStep smallParams 1) (start rampRules [1, 0])
      [.other, .update "a" rampClient, .other, .update "a" rampClient, .other,
        .update "a" rampClient] s ∧ (s.rules 1).speedup = 2 ∧ (s.rules 1).upperRate = 2 ∧
      (s.rules 1).lowerRate = 1 :=
    ⟨_, .cons (ruleStep_clock _ 200) <| .cons (.update rfl rfl) <|
      .cons (ruleStep_clock _ 300) <| .cons (.update rfl rfl) <|
      .cons (ruleStep_clock _ 400) <| .cons (.update rfl rfl) (.nil _), rfl, rfl, rfl⟩
  obtain ⟨s, hrun, hspeedup, hupper, hlower⟩ := hexists
  -- the rule depends on an idle one, so every round is a round up
  have hle := hall _ _ s 1 _ rampRules_fresh hrun
  rw [hspeedup, hupper, hlower] at hle
  exact absurd hle (by decide)

end LustreSimulator.NrsTbf
