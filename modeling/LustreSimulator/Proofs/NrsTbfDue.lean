import LustreSimulator.Proofs.NrsTbfWake

/-!
# `LustreSimulator.Proofs.NrsTbfDue`: the deadline assertion of `Enqueue`

While the scheduler throttles, a request of a client without messages may move the timer to the
deadline of that client. `Enqueue` leaves out a deadline before now, and then asserts that a
deadline before that of the timer is after now. A deadline that is right now passes the first test
and fails the assertion.

`AtDeadline` is that case, as a condition on the state before the request, and
`deadline_assertion_iff` says that the assertion fails exactly there.
-/

set_option autoImplicit false

namespace LustreSimulator.NrsTbf

open Lib

variable {p : Params} {s s' : NrsTbf} {c : Client} {msg : Msg}

/-! ### The client of a request -/

/-- The client that a request of the job comes to: the cached one, or a new one. -/
def comesTo (s : NrsTbf) (j : Jobid) : Client := (s.clients j).getD (s.cliInit j)

/-- `tc_nsecs` of a client after `nrs_tbf_update_rule_rate`, if this does not stop. -/
def nsecsAfter (s : NrsTbf) (p : Params) (c : Client) : Option Nat :=
  ((s.updateRuleRate p "" c).map fun r => r.1.nsecs).toOption

/-- `Enqueue` finds the client with another reference, or makes it. -/
theorem cliFindAdd_comesTo (s : NrsTbf) (p : Params) (j : Jobid) :
    (s.cliFindAdd p j).2.rules = s.rules ∧
      ∃ ref, (s.cliFindAdd p j).1 = { s.comesTo j with ref := ref } := by
  unfold cliFindAdd cliFind comesTo
  cases hj : s.clients j with
  -- a cached client
  | some c => exact ⟨rfl, _, rfl⟩
  -- a new one
  | none => exact ⟨rfl, _, rfl⟩

/-- `nrs_tbf_update_rule_rate` reads the rules, the clock and the client only. -/
theorem updateRuleRate_nsecs {s₁ s₂ : NrsTbf} {c₁ c₂ : Client} (hrules : s₂.rules = s₁.rules)
    (hnow : s₂.now = s₁.now) (hrule : c₂.rule = c₁.rule) (hnsecs : c₂.nsecs = c₁.nsecs)
    (i j : Jobid) :
    (s₂.updateRuleRate p i c₂).map (fun r => r.1.nsecs) =
      (s₁.updateRuleRate p j c₁).map fun r => r.1.nsecs := by
  unfold updateRuleRate
  rw [hrules, hnow, hrule]
  dsimp only
  split
  · -- a rule without dependency
    exact congrArg Except.ok hnsecs
  · split
    · exact congrArg Except.ok hnsecs
    · cases nextRound (s₁.rules c₁.rule) _ with
      | error e => rfl
      | ok r =>
          rw [ok_bind, ok_bind]
          split
          · -- the rate changes, and the client follows its rule
            rename_i hchanged
            unfold check
            split
            · show Except.ok _ = Except.ok _
              unfold cliResetValue setRule
              dsimp only
              rw [hrule, if_pos rfl, if_pos rfl]
              rfl
            · rfl
          · exact congrArg Except.ok hnsecs

/-! ### When the assertion fails -/

/-- The assertion fails at a deadline that is now. -/
theorem enqueueTimer_deadline : s.enqueueTimer c = .error .deadline ↔
    s.throttling = true ∧ c.checkTime + c.nsecs = s.now ∧ s.now < s.deadline := by
  unfold enqueueTimer
  dsimp only
  split
  · rename_i hthrottling
    split
    · -- a deadline before now is left out
      rename_i hpast
      exact iff_of_false (fun h => nomatch h) fun h => by omega
    · rename_i hpast
      split
      · -- the assertion: of the deadlines that come here, only one that is now fails it
        rename_i hearlier
        constructor
        · intro h
          rcases bind_eq_error.mp h with hcheck | ⟨u, -, h⟩
          · have hlate := (check_eq_error.mp hcheck).1
            exact ⟨hthrottling, by omega, by omega⟩
          · split at h <;> cases h
        · rintro ⟨-, hdue, -⟩
          exact bind_eq_error.mpr (.inl (check_eq_error.mpr ⟨by omega, rfl⟩))
      · rename_i hearlier
        -- the timer is earlier already
        exact iff_of_false (fun h => nomatch h) fun h => by omega
  · rename_i hthrottling
    exact iff_of_false (fun h => nomatch h) fun h => hthrottling h.1

/-- `Enqueue` fails at the assertion when the client has no messages and its deadline is now. -/
theorem enqueue_deadline : s.enqueue p msg = .error .deadline ↔
    ∃ c s₁, (s.cliFindAdd p msg.jobid).2.updateRuleRate p msg.jobid (s.cliFindAdd p msg.jobid).1 =
      .ok (c, s₁) ∧ c.queue = [] ∧ c.inHeap = false ∧ s₁.throttling = true ∧
      c.checkTime + c.nsecs = s₁.now ∧ s₁.now < s₁.deadline := by
  constructor
  · intro h
    rcases bind_eq_error.mp h with hstop | ⟨⟨c, s₁⟩, hupdate, h⟩
    · -- `nrs_tbf_update_rule_rate` has other assertions
      exact absurd hstop (updateRuleRate_ne_error (fun h => nomatch h) fun h => nomatch h)
    · dsimp only at h
      split at h
      · rename_i hnil
        rcases bind_eq_error.mp h with hcheck | ⟨u, hout, h⟩
        · -- the client without messages is in the heap: another assertion
          cases (check_eq_error.mp hcheck).2
        · rcases bind_eq_error.mp h with htimer | ⟨s₂, -, h⟩
          · have hdue := enqueueTimer_deadline.mp htimer
            exact ⟨c, s₁, hupdate, hnil, check_eq_ok.mp hout, hdue⟩
          · cases h
      · rcases bind_eq_error.mp h with hcheck | ⟨u, -, h⟩
        · cases (check_eq_error.mp hcheck).2
        · cases h
  · rintro ⟨c, s₁, hupdate, hnil, hout, hdue⟩
    refine bind_eq_error.mpr (.inr ⟨(c, s₁), hupdate, ?_⟩)
    dsimp only
    rw [if_pos hnil]
    refine bind_eq_error.mpr (.inr ⟨(), check_true hout, ?_⟩)
    exact bind_eq_error.mpr (.inl (enqueueTimer_deadline.mpr hdue))

/-- The timer waits for a later time, and a request comes to a client without messages whose
deadline is now. -/
structure AtDeadline (p : Params) (s : NrsTbf) (msg : Msg) : Prop where
  throttling : s.throttling = true
  later : s.now < s.deadline
  empty : (s.comesTo msg.jobid).queue = []
  due : ∃ nsecs, s.nsecsAfter p (s.comesTo msg.jobid) = some nsecs ∧
    (s.comesTo msg.jobid).checkTime + nsecs = s.now

/-- The assertion of `Enqueue` fails exactly at a deadline, when the clients with messages are those
in the heap. -/
theorem enqueue_atDeadline
    (hflag : ∀ j c, s.clients j = some c → (c.inHeap = true ↔ c.queue ≠ [])) :
    s.enqueue p msg = .error .deadline ↔ AtDeadline p s msg := by
  obtain ⟨hrules, ref, hclient⟩ := cliFindAdd_comesTo s p msg.jobid
  have hadd := (cliFindAdd_spec s p msg.jobid).1
  obtain ⟨-, -, -, hnowAdd⟩ := gate_eq_iff.mp (cliFindAdd_gate s p msg.jobid)
  have hnsecs : ((s.cliFindAdd p msg.jobid).2.updateRuleRate p msg.jobid
      (s.cliFindAdd p msg.jobid).1).map (fun r => r.1.nsecs) =
      (s.updateRuleRate p "" (s.comesTo msg.jobid)).map fun r => r.1.nsecs :=
    updateRuleRate_nsecs hrules hnowAdd (by rw [hclient]) (by rw [hclient]) _ _
  -- what `Enqueue` sees of the client is what the state before says
  have hseen : ∀ {c : Client} {s₁ : NrsTbf},
      (s.cliFindAdd p msg.jobid).2.updateRuleRate p msg.jobid (s.cliFindAdd p msg.jobid).1 =
        .ok (c, s₁) → s₁.gate = s.gate ∧ c.queue = (s.comesTo msg.jobid).queue ∧
      c.checkTime = (s.comesTo msg.jobid).checkTime ∧
      (c.inHeap = true ↔ c.queue ≠ []) := by
    intro c s₁ hupdate
    obtain ⟨hbucket, hqueue, -⟩ := updateRuleRate_spec hupdate hadd
    have hcheck : c.checkTime = (s.cliFindAdd p msg.jobid).1.checkTime :=
      congrArg Bucket.last hbucket
    refine ⟨(updateRuleRate_gate hupdate).trans (cliFindAdd_gate s p msg.jobid), ?_, ?_, ?_⟩
    · rw [hqueue, hclient]
    · rw [hcheck, hclient]
    · rw [(updateRuleRate_client hupdate).2.1, hqueue]
      exact cliFindAdd_flag p hflag msg.jobid
  rw [enqueue_deadline]
  constructor
  · rintro ⟨c, s₁, hupdate, hnil, -, hthrottling, hdue, hlater⟩
    obtain ⟨hgate₁, hqueue, hcheck, -⟩ := hseen hupdate
    obtain ⟨hthr, -, hdeadline, hnow⟩ := gate_eq_iff.mp hgate₁
    rw [hupdate] at hnsecs
    refine ⟨hthr ▸ hthrottling, ?_, hqueue ▸ hnil, c.nsecs, ?_, ?_⟩
    · rw [← hnow, ← hdeadline]
      exact hlater
    · unfold nsecsAfter
      rw [← hnsecs]
      rfl
    · rw [← hcheck, hdue, hnow]
  · rintro ⟨hthrottling, hlater, hnil, nsecs, hafter, hdue⟩
    -- the call returns, so `Enqueue` comes to the timer
    have hok := toOption_eq_some.mp hafter
    rw [← hnsecs] at hok
    cases hupdate : (s.cliFindAdd p msg.jobid).2.updateRuleRate p msg.jobid
        (s.cliFindAdd p msg.jobid).1 with
    | error e =>
        rw [hupdate] at hok
        cases hok
    | ok r =>
        obtain ⟨c, s₁⟩ := r
        rw [hupdate] at hok
        have hc : c.nsecs = nsecs := Except.ok.inj hok
        obtain ⟨hgate₁, hqueue, hcheck, hflag₁⟩ := hseen hupdate
        obtain ⟨hthr, -, hdeadline, hnow⟩ := gate_eq_iff.mp hgate₁
        have hempty : c.queue = [] := hqueue.trans hnil
        refine ⟨c, s₁, rfl, hempty, ?_, hthr.trans hthrottling, ?_, ?_⟩
        · -- a client without messages is not in the heap
          rw [← Bool.not_eq_true, hflag₁]
          exact fun hne => hne hempty
        · rw [hcheck, hc, hdue, hnow]
        · rw [hnow, hdeadline]
          exact hlater

/-- **The deadline assertion.** In every state of every run, the assertion of `Enqueue` fails
exactly when the scheduler throttles until a later time and the request comes to a client without
messages whose deadline is now. -/
theorem deadline_assertion_iff {rules : Nat → Rule} {ruleList : List Nat} {es : List Event}
    {st : Heaped} (hrun : Run (HeapStep p) ⟨start rules ruleList, []⟩ es st) (msg : Msg) :
    st.tbf.enqueue p msg = .error .deadline ↔ AtDeadline p st.tbf msg := by
  have hinv : HeapInv st :=
    hrun.invariant (fun _ _ _ h hstep => hstep.inv h) (heapInv_start rules ruleList)
  exact enqueue_atDeadline hinv.inHeap

/-- The default rule has one token each second, and the job `a` ten. -/
def slowRules : Nat → Rule := fun i =>
  if i = 1 then ⟨["a"], 10, 100000000, 2, false, 0, 0, 0, 0, 0, 0, 0, 0⟩
  else ⟨[], 1, 1000000000, 2, false, 0, 0, 0, 0, 0, 0, 0, 0⟩

/-- The job `a` is served. The job `b` spends its two tokens, and `Dequeue` throttles. -/
def slowEvents : List Event :=
  [.enqueue 0 ⟨1, "a"⟩, .dequeue 0 (some "a") (some ⟨1, "a"⟩), .enqueue 0 ⟨2, "b"⟩,
    .enqueue 0 ⟨3, "b"⟩, .enqueue 0 ⟨4, "b"⟩, .dequeue 0 (some "b") (some ⟨2, "b"⟩),
    .dequeue 0 (some "b") (some ⟨3, "b"⟩), .dequeue 0 (some "b") none, .clock 100000000]

/-- The next token of the job `a` is due at the end of these events. -/
theorem slowEvents_run : ∃ st,
    Run (HeapStep smallParams) ⟨start slowRules [1, 0], []⟩ slowEvents st ∧
      st.tbf.throttling = true ∧ st.tbf.deadline = 1000000000 ∧
      st.tbf.enqueue smallParams ⟨5, "a"⟩ = .error .deadline :=
  ⟨_, .cons (.enqueue rfl) <|
    .cons (.served ⟨⟨100000000, 0⟩, by decide, by decide⟩ rfl) <|
    .cons (.enqueue rfl) <| .cons (.enqueue rfl) <| .cons (.enqueue rfl) <|
    .cons (.served ⟨⟨1000000000, 0⟩, by decide, by decide⟩ rfl) <|
    .cons (.served ⟨⟨1000000000, 0⟩, by decide, by decide⟩ rfl) <|
    .cons (.idle ⟨⟨1000000000, 0⟩, by decide, by decide⟩ rfl) <|
    .cons (.clock (by decide) (by rintro _ ⟨⟩; decide)) (.nil _), rfl, rfl, rfl⟩

/-- The condition decides about a request of the job `a` at the end of these events. -/
theorem deadline_assertion_iff_slow : ∃ st,
    Run (HeapStep smallParams) ⟨start slowRules [1, 0], []⟩ slowEvents st ∧
      (st.tbf.enqueue smallParams ⟨5, "a"⟩ = .error .deadline ↔
        AtDeadline smallParams st.tbf ⟨5, "a"⟩) := by
  obtain ⟨st, hrun, -⟩ := slowEvents_run
  exact ⟨st, hrun, deadline_assertion_iff hrun _⟩

/-- A request of the job `a` at the end of these events fails at the assertion. -/
theorem deadline_assertion_fails :
    ¬ ∀ (p : Params) (rules : Nat → Rule) (ruleList : List Nat) (es : List Event) (st : Heaped),
      (∀ i, 0 < (rules i).rpcRate) → Run (HeapStep p) ⟨start rules ruleList, []⟩ es st →
      ∀ msg, st.tbf.enqueue p msg ≠ .error .deadline := by
  intro hall
  obtain ⟨st, hrun, -, -, hfails⟩ := slowEvents_run
  refine hall _ slowRules _ _ st (fun i => ?_) hrun _ hfails
  unfold slowRules
  split <;> decide

end LustreSimulator.NrsTbf
