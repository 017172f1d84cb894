import LustreSimulator.NrsTbfRules
import LustreSimulator.Proofs.NrsTbfRefs

/-!
# `LustreSimulator.Proofs.NrsTbfRate`: the rates that the clients see

A rule stores its rate and the time `tr_nsecs` for a token, and a client has a copy of both. The
only function that changes a rate later is `updateRuleRate`, and it computes the time anew and
gives both to the client of the message (`updateRuleRate_rate`). This is the only client of the
rule, since a rule with dependency lists one job (`LoneJob`).

So the rates of the configuration decide (`enforces_iff`). `configureRule` computes the time of a
rule with dependency from `Rate[i]` and then sets the rate to `LowerRate` (`enforces_overload`).
-/

set_option autoImplicit false

namespace LustreSimulator.NrsTbf

open Lib

variable {p : Params} {q : RuleParams} {s s' : NrsTbf} {j : Jobid} {c c' : Client} {msg : Msg}

/-- Every rule has the time for a token that belongs to its rate. -/
def RulesTimed (s : NrsTbf) : Prop :=
  ∀ i ∈ s.ruleList, (s.rules i).nsecs = nsecPerSec / (s.rules i).rpcRate

/-- A client has the rate and the time of its rule. -/
def Client.Follows (c : Client) (rule : Rule) : Prop :=
  c.rpcRate = rule.rpcRate ∧ c.nsecs = rule.nsecs

/-- The scheduler enforces the configured rates. -/
def Enforces (s : NrsTbf) : Prop :=
  RulesTimed s ∧ ∀ j c, s.clients j = some c → c.Follows (s.rules c.rule)

/-- A rule with dependency is the rule of one job only. -/
def LoneJob (s : NrsTbf) : Prop :=
  ∀ i j, (s.rules (s.ruleMatch i)).dependency = true → s.ruleMatch j = s.ruleMatch i → j = i

/-- The clients follow their rules. -/
structure RateInv (s : NrsTbf) : Prop where
  lone : LoneJob s
  matched : ∀ j c, s.clients j = some c → c.rule = s.ruleMatch j
  follows : ∀ j c, s.clients j = some c → c.Follows (s.rules c.rule)

/-! ### What the functions do to the rules -/

/-- What stays of the rules: their list, their jobs and their dependencies. -/
def fixed (s : NrsTbf) : List Nat × (Nat → List Jobid × Bool) :=
  (s.ruleList, fun i => ((s.rules i).jobids, (s.rules i).dependency))

/-- The rate of a rule and its time for a token. -/
def Rule.pace (r : Rule) : Nat × Nat := (r.rpcRate, r.nsecs)

/-- The rule of a job is found by what stays of the rules. -/
theorem ruleMatch_congr (h : s'.fixed = s.fixed) (j : Jobid) : s'.ruleMatch j = s.ruleMatch j := by
  unfold fixed at h
  rw [Prod.mk.injEq] at h
  unfold ruleMatch
  rw [h.1]
  refine congrArg (Option.getD · 0) (congrArg (List.find? · s.ruleList) (funext fun i => ?_))
  rw [show (s'.rules i).jobids = (s.rules i).jobids from congrArg Prod.fst (congrFun h.2 i)]

/-- A rule with dependency keeps it. -/
theorem dependency_congr (h : s'.fixed = s.fixed) (i : Nat) :
    (s'.rules i).dependency = (s.rules i).dependency := by
  unfold fixed at h
  rw [Prod.mk.injEq] at h
  exact congrArg Prod.snd (congrFun h.2 i)

/-- Lone jobs stay alone. -/
theorem LoneJob.congr (h : LoneJob s) (hfixed : s'.fixed = s.fixed) : LoneJob s' := by
  intro i j hdep hmatch
  rw [ruleMatch_congr hfixed, dependency_congr hfixed] at hdep
  rw [ruleMatch_congr hfixed, ruleMatch_congr hfixed] at hmatch
  exact h i j hdep hmatch

/-- Replacing a rule by one with the same jobs and dependency. -/
theorem fixed_of_rules {i : Nat} {r : Rule} (hrules : s'.rules = (s.setRule i r).rules)
    (hlist : s'.ruleList = s.ruleList) (hjobids : r.jobids = (s.rules i).jobids)
    (hdep : r.dependency = (s.rules i).dependency) : s'.fixed = s.fixed := by
  unfold fixed
  rw [hrules, hlist]
  refine congrArg (Prod.mk _) (funext fun k => ?_)
  show ((if k = i then r else s.rules k).jobids, (if k = i then r else s.rules k).dependency) = _
  split
  · rename_i hk
    rw [hk, hjobids, hdep]
  · rfl

/-- Replacing a rule by one with the same rate and time. -/
theorem pace_of_rules {i : Nat} {r : Rule} (hrules : s'.rules = (s.setRule i r).rules)
    (hpace : r.pace = (s.rules i).pace) (k : Nat) : (s'.rules k).pace = (s.rules k).pace := by
  rw [hrules]
  show (if k = i then r else s.rules k).pace = _
  split
  · rename_i hk
    rw [hk, hpace]
  · rfl

/-- `cliFindAdd` returns the cached client, or a new client that follows its rule. -/
theorem cliFindAdd_rate (s : NrsTbf) (p : Params) (j : Jobid) :
    (s.cliFindAdd p j).2.rules = s.rules ∧ (s.cliFindAdd p j).2.ruleList = s.ruleList ∧
    ((∃ c, s.clients j = some c ∧ (s.cliFindAdd p j).1 = { c with ref := c.ref + 1 }) ∨
      (s.cliFindAdd p j).1.rule = s.ruleMatch j ∧
        (s.cliFindAdd p j).1.Follows (s.rules (s.ruleMatch j))) := by
  unfold cliFindAdd cliFind
  cases hj : s.clients j with
  | some c => exact ⟨rfl, rfl, Or.inl ⟨c, rfl, rfl⟩⟩
  | none => exact ⟨rfl, rfl, Or.inr ⟨rfl, rfl, rfl⟩⟩

/-- `updateRuleRate` changes no rate and no client, or it gives the rule of the client a new rate
with its time, and the client follows. -/
theorem updateRuleRate_rate (h : s.updateRuleRate p j c = .ok (c', s')) :
    s'.fixed = s.fixed ∧ c'.rule = c.rule ∧
      (((∀ k, (s'.rules k).pace = (s.rules k).pace) ∧ c' = c) ∨
        ((s.rules c.rule).dependency = true ∧ (∀ k, k ≠ c.rule → s'.rules k = s.rules k) ∧
          (s'.rules c.rule).nsecs = nsecPerSec / (s'.rules c.rule).rpcRate ∧
          c'.Follows (s'.rules c.rule))) := by
  rcases updateRuleRate_cases h with ⟨rfl, rfl⟩ |
    ⟨hdep, rule, hjobids, hdep', ⟨hrate, hnsecs, rfl, rfl⟩ | ⟨-, htimed, rfl, rfl⟩⟩
  · exact ⟨rfl, rfl, Or.inl ⟨fun _ => rfl, rfl⟩⟩
  · refine ⟨fixed_of_rules rfl rfl hjobids hdep', rfl, Or.inl ⟨pace_of_rules rfl ?_, rfl⟩⟩
    -- the new rate is the old one
    exact congrArg₂ Prod.mk hrate hnsecs
  · refine ⟨fixed_of_rules rfl rfl hjobids hdep', rfl,
      Or.inr ⟨hdep, fun k hk => if_neg hk, ?_, ?_⟩⟩
    · show (if c.rule = c.rule then rule else _ : Rule).nsecs =
        nsecPerSec / (if c.rule = c.rule then rule else _ : Rule).rpcRate
      rw [if_pos rfl]
      exact htimed
    · show Client.Follows _ (if c.rule = c.rule then rule else _)
      rw [if_pos rfl]
      exact ⟨rfl, rfl⟩

/-- After the update of its rule, `Enqueue` changes no rule, and no rate of the client. -/
theorem enqueue_rate (h : s.enqueue p msg = .ok s') :
    ∃ c₁ s₁ c', (s.cliFindAdd p msg.jobid).2.updateRuleRate p msg.jobid
        (s.cliFindAdd p msg.jobid).1 = .ok (c₁, s₁) ∧
      s'.rules = s₁.rules ∧ s'.ruleList = s₁.ruleList ∧ s'.clients msg.jobid = some c' ∧
      c'.rule = c₁.rule ∧ c'.rpcRate = c₁.rpcRate ∧ c'.nsecs = c₁.nsecs := by
  obtain ⟨c₁, s₁, hupdate, hcases⟩ := enqueue_cases h
  rcases hcases with ⟨-, c', s₂, hc', htimer, rfl⟩ | ⟨-, c', hc', -, rfl⟩
  · rw [enqueueTimer_frame htimer]
    exact ⟨c₁, s₁, c', hupdate, rfl, rfl, if_pos rfl, by rw [hc'], by rw [hc'], by rw [hc']⟩
  · exact ⟨c₁, s₁, c', hupdate, rfl, rfl, if_pos rfl, by rw [hc'], by rw [hc'], by rw [hc']⟩

/-- Nothing that concerns the rates changes from `s` to `s'`, but clients may go. -/
structure SameRates (s s' : NrsTbf) : Prop where
  fixed : s'.fixed = s.fixed
  pace : ∀ k, (s'.rules k).pace = (s.rules k).pace
  clients : ∀ j c', s'.clients j = some c' → ∃ c, s.clients j = some c ∧
    c'.rule = c.rule ∧ c'.rpcRate = c.rpcRate ∧ c'.nsecs = c.nsecs

/-- `Dequeue` changes no rate. -/
theorem dequeue_rate {root : Option Jobid} {out : Option Msg}
    (h : s.dequeue root = .ok (out, s')) : SameRates s s' := by
  rcases dequeue_cases h with ⟨-, -, rfl⟩ |
    ⟨-, j, c, -, hc, -, -, -, ⟨-, m, -, hserve⟩ | ⟨-, -, timer, -, rfl⟩⟩
  · exact ⟨rfl, fun _ => rfl, fun j c hc => ⟨c, hc, rfl, rfl, rfl⟩⟩
  · obtain ⟨rest, c', -, hc', rfl⟩ := serve_cases hserve
    -- the rule notes the time of its activity first, then the backlog
    have hactive : (s.noteActive c).fixed = s.fixed ∧
        ∀ k, ((s.noteActive c).rules k).pace = (s.rules k).pace :=
      ⟨fixed_of_rules rfl rfl rfl rfl, pace_of_rules rfl rfl⟩
    refine ⟨Eq.trans ?_ hactive.1, fun k => Eq.trans ?_ (hactive.2 k), fun i d hd => ?_⟩
    · exact fixed_of_rules rfl rfl rfl rfl
    · exact pace_of_rules (r := { (s.noteActive c).rules c.rule with
        nsecsBacklog := (s.noteActive c).now - c.backlogCkpt }) rfl rfl k
    · replace hd : (if i = j then some c' else s.clients i) = some d := hd
      split at hd
      · rename_i hi
        cases hd
        exact ⟨c, hi ▸ hc, by rw [hc'], by rw [hc'], by rw [hc']⟩
      · exact ⟨d, hd, rfl, rfl, rfl⟩
  · exact ⟨fixed_of_rules rfl rfl rfl rfl, pace_of_rules rfl rfl,
      fun j c hc => ⟨c, hc, rfl, rfl, rfl⟩⟩

/-- `Finish` does not touch the rules. -/
theorem finish_rules (h : s.finish p msg = .ok s') :
    s'.rules = s.rules ∧ s'.ruleList = s.ruleList := by
  obtain ⟨c, s₁, -, rfl, ⟨-, hpurge⟩ | ⟨-, rfl⟩⟩ := finish_cases h
  · rw [purge_frame hpurge]
    exact ⟨rfl, rfl⟩
  · exact ⟨rfl, rfl⟩

/-- `Finish` changes no rate. -/
theorem finish_rate (h : s.finish p msg = .ok s') : SameRates s s' := by
  have hclients := (finish_heap h).2.1
  have hrules := finish_rules h
  refine ⟨?_, fun k => by rw [hrules.1], fun j c' hc' => ?_⟩
  · unfold fixed
    rw [hrules.1, hrules.2]
  · obtain ⟨c, hc, heq⟩ := hclients j c' hc'
    exact ⟨c, hc, by rw [heq], by rw [heq], by rw [heq]⟩

/-! ### One step -/

/-- A client follows a rule when the two paces are one. -/
theorem follows_iff {r : Rule} : c.Follows r ↔ (c.rpcRate, c.nsecs) = r.pace :=
  (Prod.mk.injEq ..).to_iff.symm

/-- A client follows a rule whose pace stays. -/
theorem Client.Follows.congr {r r' : Rule} (h : c.Follows r) (hpace : r'.pace = r.pace)
    (hrate : c'.rpcRate = c.rpcRate) (hnsecs : c'.nsecs = c.nsecs) : c'.Follows r' := by
  rw [follows_iff] at h ⊢
  rw [hrate, hnsecs, h, hpace]

/-- The time of a rule belongs to its rate as long as the pace stays. -/
theorem timed_congr {r r' : Rule} (h : r.nsecs = nsecPerSec / r.rpcRate)
    (hpace : r'.pace = r.pace) : r'.nsecs = nsecPerSec / r'.rpcRate := by
  unfold Rule.pace at hpace
  rw [Prod.mk.injEq] at hpace
  rw [hpace.1, hpace.2, h]

/-- Where no rate changes, the clients follow their rules and the rules keep their times. -/
theorem RateInv.same (h : RateInv s) (hsame : SameRates s s') :
    RateInv s' ∧ (RulesTimed s → RulesTimed s') := by
  refine ⟨⟨h.lone.congr hsame.fixed, fun j c' hc' => ?_, fun j c' hc' => ?_⟩, fun ht i hi => ?_⟩
  · obtain ⟨c, hc, hrule, -⟩ := hsame.clients j c' hc'
    rw [hrule, h.matched j c hc, ruleMatch_congr hsame.fixed]
  · obtain ⟨c, hc, hrule, hrate, hnsecs⟩ := hsame.clients j c' hc'
    rw [hrule]
    exact (h.follows j c hc).congr (hsame.pace _) hrate hnsecs
  · rw [show s'.ruleList = s.ruleList from congrArg Prod.fst hsame.fixed] at hi
    exact timed_congr (ht i hi) (hsame.pace i)

/-- `Enqueue` keeps the clients with their rules. When it changes the rate of a rule, the client
of the message is the only one of the rule. -/
theorem RateInv.enqueue (h : RateInv s) (henq : s.enqueue p msg = .ok s') :
    RateInv s' ∧ (RulesTimed s → RulesTimed s') := by
  obtain ⟨hother, -⟩ := enqueue_spec henq
  obtain ⟨c₁, s₁, c', hupdate, hrules, hlist, hc', hrule', hrate', hnsecs'⟩ := enqueue_rate henq
  obtain ⟨hrules₀, hlist₀, hfound⟩ := cliFindAdd_rate s p msg.jobid
  obtain ⟨hfixed₁, hrule₁, hchange⟩ := updateRuleRate_rate hupdate
  -- the client that was found or created follows the rule of its job
  have hclient : (s.cliFindAdd p msg.jobid).1.rule = s.ruleMatch msg.jobid ∧
      (s.cliFindAdd p msg.jobid).1.Follows (s.rules (s.ruleMatch msg.jobid)) := by
    rcases hfound with ⟨c, hc, heq⟩ | hnew
    · rw [heq, ← h.matched _ c hc]
      exact ⟨rfl, h.follows _ c hc⟩
    · exact hnew
  generalize (s.cliFindAdd p msg.jobid).1 = c₀ at *
  generalize (s.cliFindAdd p msg.jobid).2 = s₀ at *
  obtain ⟨hmatch, hfollows⟩ := hclient
  have hfixed : s'.fixed = s.fixed := by
    unfold fixed at hfixed₁ ⊢
    rw [hrules, hlist, hfixed₁, hrules₀, hlist₀]
  have hlist' : s'.ruleList = s.ruleList := congrArg Prod.fst hfixed
  rw [hrules₀, hmatch] at hchange
  rw [hmatch] at hrule₁
  refine ⟨⟨h.lone.congr hfixed, fun j c hc => ?_, fun j c hc => ?_⟩, fun ht i hi => ?_⟩
  · rw [ruleMatch_congr hfixed]
    by_cases hj : j = msg.jobid
    · subst hj
      rw [hc'] at hc
      cases hc
      rw [hrule', hrule₁]
    · exact h.matched j c (hother j hj ▸ hc)
  · rw [hrules]
    by_cases hj : j = msg.jobid
    · subst hj
      rw [hc'] at hc
      cases hc
      rw [hrule', hrule₁]
      rcases hchange with ⟨hpace, rfl⟩ | ⟨-, -, -, hfollows'⟩
      · exact hfollows.congr (hpace _) hrate' hnsecs'
      · exact hfollows'.congr rfl hrate' hnsecs'
    · rw [hother j hj] at hc
      have hd := h.follows j c hc
      rcases hchange with ⟨hpace, -⟩ | ⟨hdep, hkept, -, -⟩
      · exact hd.congr (hpace _) rfl rfl
      · -- another client has another rule
        rw [hkept c.rule fun hsame => hj (h.lone _ _ hdep (by rw [← h.matched j c hc, hsame]))]
        exact hd
  · rw [hrules]
    rw [hlist'] at hi
    rcases hchange with ⟨hpace, -⟩ | ⟨-, hkept, htimed, -⟩
    · exact timed_congr (ht i hi) (hpace i)
    · by_cases hi' : i = s.ruleMatch msg.jobid
      · rw [hi']
        exact htimed
      · rw [hkept i hi']
        exact ht i hi

/-- Every step keeps the clients with their rules and the times with the rates. -/
theorem HeapStep.rates {st st' : Heaped} {e : Event} (hstep : HeapStep p st e st')
    (h : RateInv st.tbf) : RateInv st'.tbf ∧ (RulesTimed st.tbf → RulesTimed st'.tbf) := by
  cases hstep with
  | clock => exact h.same ⟨rfl, fun _ => rfl, fun j c hc => ⟨c, hc, rfl, rfl, rfl⟩⟩
  | enqueue henq => exact h.enqueue henq
  | served _ hdeq => exact h.same (dequeue_rate hdeq)
  | idle _ hdeq => exact h.same (dequeue_rate hdeq)
  | finish hfin => exact h.same (finish_rate hfin)
  | timer => exact h.same ⟨rfl, fun _ => rfl, fun j c hc => ⟨c, hc, rfl, rfl, rfl⟩⟩

/-! ### The configuration -/

/-- The rule `i` after its turn. -/
structure IsRule (q : RuleParams) (i : Nat) (r : Rule) : Prop where
  jobids : r.jobids = ruleJobids i
  nsecs : r.nsecs = nsecPerSec / q.rate i
  rpcRate : r.rpcRate = if q.depIndex i ≥ 0 then q.lowerRate i else q.rate i
  dependency : r.dependency = true ↔ q.depIndex i ≥ 0
  default : i = 0 → q.depIndex i < 0

/-- What a turn of the loop does: it puts the rule in front of the others. -/
theorem configureRule_spec {i : Nat} (h : configureRule q s i = .ok s') :
    s'.clients = s.clients ∧ s'.ruleList = i :: s.ruleList ∧ IsRule q i (s'.rules i) ∧
      ∀ k, k ≠ i → s'.rules k = s.rules k := by
  unfold configureRule at h
  dsimp only at h
  obtain ⟨u, -, h⟩ := bind_eq_ok.mp h
  obtain ⟨u, hdefault, h⟩ := bind_eq_ok.mp h
  have hdefault := check_eq_ok.mp hdefault
  split at h
  · rename_i hdep
    obtain ⟨u, -, h⟩ := bind_eq_ok.mp h
    obtain ⟨deprule, -, h⟩ := bind_eq_ok.mp h
    cases h
    refine ⟨rfl, rfl, ?_, fun k hk => (if_neg hk).trans (if_neg hk)⟩
    show IsRule q i (if i = i then _ else _)
    rw [if_pos rfl]
    exact ⟨rfl, rfl, (if_pos hdep).symm, iff_of_true rfl hdep, hdefault⟩
  · rename_i hdep
    cases h
    refine ⟨rfl, rfl, ?_, fun k hk => if_neg hk⟩
    show IsRule q i (if i = i then _ else _)
    rw [if_pos rfl]
    exact ⟨rfl, rfl, (if_neg hdep).symm, iff_of_false Bool.false_ne_true hdep, hdefault⟩

/-- The scheduler after `n` turns of the loop. -/
structure Configured (q : RuleParams) (n : Nat) (s : NrsTbf) : Prop where
  clients : ∀ j, s.clients j = none
  ruleList : ∀ i, i ∈ s.ruleList ↔ i < n
  rule : ∀ i, i < n → IsRule q i (s.rules i)
  rest : ∀ i, n ≤ i → s.rules i = zeroRule

/-- The loop makes the rules one after the other. -/
theorem configureTurns_spec {n : Nat} (h : configureTurns q n = .ok s) : Configured q n s := by
  induction n generalizing s with
  | zero =>
      cases h
      exact ⟨fun j => rfl,
        fun i => ⟨(fun hi => nomatch hi), fun hi => absurd hi (Nat.not_lt_zero i)⟩,
        fun i hi => absurd hi (Nat.not_lt_zero i), fun i _ => rfl⟩
  | succ n ih =>
      rw [configureTurns] at h
      obtain ⟨s₁, hturns, h⟩ := bind_eq_ok.mp h
      obtain ⟨hclients, hlist, hrule, hother⟩ := configureRule_spec h
      obtain ⟨hclients₁, hlist₁, hrule₁, hrest₁⟩ := ih hturns
      refine ⟨fun j => by rw [hclients, hclients₁], fun i => ?_, fun i hi => ?_, fun i hi => ?_⟩
      · rw [hlist, List.mem_cons, hlist₁]
        omega
      · by_cases hin : i = n
        · rw [hin]
          exact hrule
        · rw [hother i hin]
          exact hrule₁ i (by omega)
      · rw [hother i (by omega)]
        exact hrest₁ i (by omega)

/-- A rule with dependency is not the default rule, and it lists one job. -/
theorem Configured.lone {n : Nat} (h : Configured q n s) : LoneJob s := by
  have hlisted : ∀ i, (s.rules (s.ruleMatch i)).dependency = true →
      ruleJobids (s.ruleMatch i) = [i] := by
    intro i hdep
    have hlt : s.ruleMatch i < n := by
      by_contra hge
      rw [h.rest _ (Nat.le_of_not_lt hge)] at hdep
      cases hdep
    have hrule := h.rule _ hlt
    have hne : s.ruleMatch i ≠ 0 := fun hzero => by
      have hpos := hrule.dependency.mp hdep
      have hneg := hrule.default hzero
      omega
    -- so the rule was found by its jobs
    have hmem : i ∈ ruleJobids (s.ruleMatch i) := by
      rw [← hrule.jobids]
      unfold ruleMatch at hne ⊢
      cases hfind : s.ruleList.find? fun k => decide (i ∈ (s.rules k).jobids) with
      | none =>
          rw [hfind] at hne
          exact absurd rfl hne
      | some k =>
          have hfound := List.find?_some hfind
          exact of_decide_eq_true hfound
    unfold ruleJobids at hmem ⊢
    rw [if_neg hne] at hmem ⊢
    exact congrArg (fun x => [x]) (List.mem_singleton.mp hmem).symm
  intro i j hdep hmatch
  have hi := hlisted i hdep
  have hj := hlisted j (hmatch.symm ▸ hdep)
  rw [hmatch, hi] at hj
  exact (List.singleton_inj.mp hj).symm

/-- The rules have their times after the configuration when those with dependency do. -/
theorem Configured.timed_iff {n : Nat} (h : Configured q n s) :
    RulesTimed s ↔ ∀ i, i < n → q.depIndex i ≥ 0 →
      nsecPerSec / q.rate i = nsecPerSec / q.lowerRate i := by
  constructor
  · intro ht i hi hdep
    have htimed := ht i ((h.ruleList i).mpr hi)
    rw [(h.rule i hi).nsecs, (h.rule i hi).rpcRate, if_pos hdep] at htimed
    exact htimed
  · intro hrates i hi
    have hlt := (h.ruleList i).mp hi
    rw [(h.rule i hlt).nsecs, (h.rule i hlt).rpcRate]
    split
    · rename_i hdep
      exact hrates i hlt hdep
    · rfl

/-! ### Runs -/

/-- **The configured rates.** The rules have the times that belong to their rates, and the clients
follow their rules, in every state of every run, if and only if `Rate[i]` and `LowerRate` give the
same time for every rule with dependency. -/
theorem enforces_iff (p : Params) (q : RuleParams) (s₀ : NrsTbf)
    (hconf : configureRules q = .ok s₀) :
    (∀ es st, Run (HeapStep p) ⟨s₀, []⟩ es st → Enforces st.tbf) ↔
      ∀ i, i < q.numJobidRule → q.depIndex i ≥ 0 →
        nsecPerSec / q.rate i = nsecPerSec / q.lowerRate i := by
  have h := configureTurns_spec hconf
  rw [← h.timed_iff]
  constructor
  · intro henforces
    exact (henforces [] _ (.nil _)).1
  · intro htimed es st hrun
    have hstart : RateInv s₀ := by
      refine ⟨h.lone, fun j c hc => ?_, fun j c hc => ?_⟩
      · rw [h.clients] at hc
        cases hc
      · rw [h.clients] at hc
        cases hc
    have hinv : RateInv st.tbf ∧ RulesTimed st.tbf :=
      hrun.invariant (P := fun st => RateInv st.tbf ∧ RulesTimed st.tbf)
        (fun _ _ _ hs hstep => ⟨(hstep.rates hs.1).1, (hstep.rates hs.1).2 hs.2⟩) ⟨hstart, htimed⟩
    exact ⟨hinv.2, hinv.1.follows⟩

/-- The first rules of `TBF_TEST_DEPRULE_OVERLOAD`. -/
def overloadRules : RuleParams :=
  ⟨3, 1, fun i => if i = 0 then 10000 else 50, fun i => if i = 2 then 1 else -1,
    fun i => if i = 2 then 80 else 0, fun i => if i = 2 then 40 else 0⟩

/-- The rates of `TBF_TEST_DEPRULE_OVERLOAD`. -/
theorem enforces_iff_overload : ∃ s₀, configureRules overloadRules = .ok s₀ ∧
    ((∀ es st, Run (HeapStep smallParams) ⟨s₀, []⟩ es st → Enforces st.tbf) ↔
      ∀ i, i < 3 → overloadRules.depIndex i ≥ 0 →
        nsecPerSec / overloadRules.rate i = nsecPerSec / overloadRules.lowerRate i) := by
  have hexists : ∃ s₀, configureRules overloadRules = .ok s₀ := ⟨_, rfl⟩
  obtain ⟨s₀, hconf⟩ := hexists
  exact ⟨s₀, hconf, enforces_iff smallParams overloadRules s₀ hconf⟩

/-- The rule 2 has the rate 40 and the time for a rate of 50. -/
theorem enforces_overload : ¬ ∀ p q s₀, (∀ i, i < q.numJobidRule → 0 < q.rate i) →
    (∀ i, i < q.numJobidRule → q.depIndex i ≥ 0 →
      0 < q.lowerRate i ∧ q.lowerRate i ≤ q.upperRate i) →
    configureRules q = .ok s₀ →
    ∀ es st, Run (HeapStep p) ⟨s₀, []⟩ es st → Enforces st.tbf := by
  intro h
  have hexists : ∃ s₀, configureRules overloadRules = .ok s₀ ∧ 2 ∈ s₀.ruleList ∧
      (s₀.rules 2).nsecs ≠ nsecPerSec / (s₀.rules 2).rpcRate :=
    ⟨_, rfl, List.mem_cons_self .., by decide⟩
  obtain ⟨s₀, hconf, hmem, hne⟩ := hexists
  refine hne ((h smallParams overloadRules s₀ ?_ ?_ hconf [] _ (.nil _)).1 2 hmem)
  · decide
  · decide

end LustreSimulator.NrsTbf
