import LustreSimulator.Proofs.NrsPrioFlavor

/-!
# `LustreSimulator.Proofs.NrsPrioQuantum`: the turns of `PRIO_QUANTUM_ONLY`

A `Dequeue` that returns has found a message in the first queue it looked at, since it does not
leave an empty one. So a quantum is never set again: only the branch of an empty queue does this.
`Turn` says where the scheduler is after `n` messages: ten come from the queue of the priority 1,
then one from the other queue. After these the quantum of the priority 1 goes from 0 to -1 and never
comes back to 0, so every further message comes from its queue.

`rounds_iff` says when `QuantumPrioDequeue` returns, and `fair_iff` in which runs the quanta bound
the messages that come from one queue in sequence.
-/

set_option autoImplicit false

namespace LustreSimulator.NrsPrioFlavor

open Lib NrsMessage NrsPrio

variable {bw fuel now msg n : Nat} {s t : NrsPrioFlavor} {c : Call} {calls : List Call}

/-! ### The messages that calls return -/

/-- The number of messages that a call returns. -/
def Call.returns : Call → Nat
  | .dequeue _ (some _) => 1
  | _ => 0

/-- The number of messages that the calls return. -/
def returned (calls : List Call) : Nat := (Call.dequeued calls).length

/-- One more call. -/
theorem returned_cons (c : Call) (calls : List Call) :
    returned (c :: calls) = c.returns + returned calls := by
  match c with
  | .dequeue _ (some _) => exact Nat.add_comm _ 1
  | .dequeue _ none => exact (Nat.zero_add _).symm
  | .enqueue _ _ _ => exact (Nat.zero_add _).symm
  | .finish _ => exact (Nat.zero_add _).symm

/-- Calls after other calls. -/
theorem returned_append (calls calls' : List Call) :
    returned (calls ++ calls') = returned calls + returned calls' := by
  induction calls with
  | nil => exact (Nat.zero_add _).symm
  | cons c calls ih => rw [List.cons_append, returned_cons, returned_cons, ih, Nat.add_assoc]

/-! ### The turn after a number of messages -/

/-- The queue that `Dequeue` looks at when it has returned `n` messages. -/
def levelAt (n : Nat) : Nat := if (n : Int) = quantumL1 then 0 else 1

/-- The queue to look at and the quanta when `n` messages were returned. -/
structure Turn (s : NrsPrioFlavor) (n : Nat) : Prop where
  level : s.wq.getD (s.idx % prioQueueNum) = levelAt n
  idx : s.idx = levelAt n
  quantum0 : s.quantum 0 = if n ≤ 10 then 1 else 0
  quantum1 : s.quantum 1 = if n ≤ 10 then (10 : Int) - n else (11 : Int) - n

/-- The queue 0 has its turn after ten messages. -/
theorem levelAt_eq_zero : levelAt n = 0 ↔ n = 10 := by
  unfold levelAt quantumL1
  split <;> omega

/-- The queue 1 has its turn otherwise. -/
theorem levelAt_eq_one : levelAt n = 1 ↔ n ≠ 10 := by
  unfold levelAt quantumL1
  split <;> omega

/-- A message takes the scheduler to the next turn. -/
theorem Turn.next {i : Nat} (h : Turn s n) (hi : i = levelAt n)
    (hquantum : t.quantum = fun k => if k = i then s.quantum i - 1 else s.quantum k)
    (hturn : (t.wq, t.idx) = if s.quantum i - 1 = 0 then (none, (s.idx + 1) % prioQueueNum)
      else (some i, s.idx)) : Turn t (n + 1) := by
  obtain ⟨-, hidx, h0, h1⟩ := h
  have hq : ∀ k, t.quantum k = if k = i then s.quantum i - 1 else s.quantum k :=
    fun k => congrFun hquantum k
  by_cases hten : n = 10
  · -- the only message of the queue 0, which uses its quantum up
    obtain rfl : i = 0 := hi.trans (levelAt_eq_zero.mpr hten)
    subst hten
    rw [h0, if_pos (by decide), hidx] at hturn
    have hwq : t.wq = none := congrArg Prod.fst hturn
    have hidx' : t.idx = 1 := congrArg Prod.snd hturn
    refine ⟨?_, hidx', ?_, ?_⟩
    · rw [hwq, hidx']
      rfl
    · rw [hq, if_pos rfl, h0]
      rfl
    · rw [hq, if_neg (by decide), h1]
      rfl
  · -- a message of the queue 1
    obtain rfl : i = 1 := hi.trans (levelAt_eq_one.mpr hten)
    have hlevel : s.idx = 1 := hidx.trans (levelAt_eq_one.mpr hten)
    have h0' : t.quantum 0 = if n + 1 ≤ 10 then 1 else 0 := by
      rw [hq, if_neg (by decide), h0]
      split <;> split <;> omega
    -- behind the ten first messages its quantum is below 0 and stays there
    have h1' : t.quantum 1 = if n + 1 ≤ 10 then (10 : Int) - (n + 1 : Nat)
        else (11 : Int) - (n + 1 : Nat) := by
      rw [hq, if_pos rfl, h1]
      split <;> split <;> omega
    by_cases hnine : n = 9
    · -- the tenth message of the queue 1 uses its quantum up
      subst hnine
      rw [h1, if_pos (by decide), hlevel] at hturn
      have hwq : t.wq = none := congrArg Prod.fst hturn
      have hidx' : t.idx = 0 := congrArg Prod.snd hturn
      refine ⟨?_, hidx', h0', h1'⟩
      rw [hwq, hidx']
      rfl
    · -- otherwise the quantum does not come to 0, and the queue 1 stays
      have hne : s.quantum 1 - 1 ≠ 0 := by
        rw [h1]
        split <;> omega
      rw [if_neg hne, hlevel] at hturn
      have hwq : t.wq = some 1 := congrArg Prod.fst hturn
      have hidx' : t.idx = 1 := congrArg Prod.snd hturn
      have hnext : levelAt (n + 1) = 1 := levelAt_eq_one.mpr (by omega)
      refine ⟨?_, hidx'.trans hnext.symm, h0', h1'⟩
      rw [hwq, hnext]
      rfl

/-- A new scheduler has its first turn. -/
theorem turn_new (io : Nat → Io) : Turn (new io) 0 := ⟨rfl, rfl, rfl, rfl⟩

/-- A state with the same queue to look at and the same quanta. -/
theorem Turn.congr (h : Turn s n) (hwq : t.wq = s.wq) (hidx : t.idx = s.idx)
    (hquantum : t.quantum = s.quantum) : Turn t n := by
  obtain ⟨hlevel, hi, h0, h1⟩ := h
  refine ⟨?_, ?_, ?_, ?_⟩
  · rw [hwq, hidx]
    exact hlevel
  · rw [hidx]
    exact hi
  · rw [hquantum]
    exact h0
  · rw [hquantum]
    exact h1

/-- With quanta, a `Dequeue` that returns is one that the flavor serves. -/
theorem Step.served (h : WF s) (hstep : Step .quantumOnly bw s c t) : c.Served .quantumOnly s := by
  cases hstep with
  | enqueue _ _ => exact trivial
  | finish => exact trivial
  | @dequeue _ fuel now out hok =>
      intro hne
      by_contra hserves
      unfold NrsPrioFlavor.dequeue flavorDequeue at hok
      dsimp only at hok
      -- without a message in that queue the loop does not end
      rw [if_neg hne, quantumPrioDequeue_loop h hserves] at hok
      cases hok

/-- The message comes from the queue `i`. -/
structure Takes (s : NrsPrioFlavor) (msg i : Nat) (t : NrsPrioFlavor) : Prop where
  head : (s.Q i).pq.Q = msg :: (t.Q i).pq.Q
  other : ∀ j, j ≠ i → (t.Q j).pq = (s.Q j).pq

/-- A message comes from one queue. -/
theorem Takes.unique {i j : Nat} (h : Takes s msg i t)
    (hhead : (s.Q j).pq.Q = msg :: (t.Q j).pq.Q) : j = i := by
  by_contra hne
  have hlen := congrArg List.length hhead
  rw [h.other j hne, List.length_cons] at hlen
  omega

/-- `Dequeue` takes its message from the queue whose turn it is. -/
theorem Turn.dequeue {out : Option Nat} (hturn : Turn s n) (h : WF s) (hne : s.size ≠ 0)
    (hok : dequeue .quantumOnly fuel s now = .ok (out, t)) :
    ∃ msg, out = some msg ∧ Takes s msg (levelAt n) t ∧ Turn t (n + 1) := by
  have hstep : Step .quantumOnly 0 s (.dequeue now out) t := .dequeue hok
  have hserves : Serves .quantumOnly s now := hstep.served h hne
  cases fuel with
  -- a call without a round returns nothing
  | zero =>
      unfold NrsPrioFlavor.dequeue at hok
      rw [if_neg hne] at hok
      cases hok
  | succ fuel =>
      unfold Serves at hserves
      dsimp only at hserves
      rw [hturn.level] at hserves
      obtain ⟨msg, rest, hlist⟩ := List.exists_cons_of_ne_nil hserves
      -- the queue whose turn it is has a message, so the first rounds find it
      obtain ⟨u, hrun, hleaves, -, hquantum, hnext⟩ :=
        quantumPrioDequeue_eq h fuel hturn.level hlist
      unfold NrsPrioFlavor.dequeue flavorDequeue at hok
      dsimp only at hok
      rw [if_neg hne, hrun] at hok
      cases hok
      exact ⟨msg, rfl, ⟨hleaves.head, hleaves.other⟩,
        (hturn.next rfl hquantum hnext).congr rfl rfl rfl⟩

/-- `Enqueue` changes no turn. -/
theorem enqueue_turn (hok : s.enqueue bw now msg = .ok t) :
    t.wq = s.wq ∧ t.idx = s.idx ∧ t.quantum = s.quantum := by
  unfold NrsPrioFlavor.enqueue at hok
  cases hrun : s.toNrsPrio.enqueue bw now msg with
  | error e =>
      rw [hrun] at hok
      cases hok
  | ok u =>
      rw [hrun] at hok
      cases hok
      exact ⟨rfl, rfl, rfl⟩

/-- A call takes its message, if it returns one, from the queue whose turn it is. -/
theorem Turn.step (hturn : Turn s n) (h : WF s) (hstep : Step .quantumOnly bw s c t) :
    WF t ∧ Turn t (n + c.returns) ∧
      ∀ now msg, c = .dequeue now (some msg) → Takes s msg (levelAt n) t := by
  obtain ⟨hwf, -⟩ := hstep.moves h (hstep.served h)
  refine ⟨hwf, ?_⟩
  cases hstep with
  | enqueue _ hok =>
      obtain ⟨hwq, hidx, hquantum⟩ := enqueue_turn hok
      exact ⟨hturn.congr hwq hidx hquantum, fun _ _ h => nomatch h⟩
  | @finish msg =>
      have hsame : Turn (s.finish msg) n := by
        rw [finish_eq]
        exact hturn.congr rfl rfl rfl
      exact ⟨hsame, fun _ _ h => nomatch h⟩
  | @dequeue _ fuel now out hok =>
      by_cases hempty : s.size = 0
      · -- no message, no turn
        cases (dequeue_empty hempty).symm.trans hok
        exact ⟨hturn, fun _ _ h => nomatch h⟩
      · obtain ⟨msg, rfl, htakes, hnext⟩ := hturn.dequeue h hempty hok
        refine ⟨hnext, ?_⟩
        rintro _ _ ⟨⟩
        exact htakes

/-- The turn after a run. -/
theorem Turn.run (hturn : Turn s n) (h : WF s) (hrun : Run (Step .quantumOnly bw) s calls t) :
    WF t ∧ Turn t (n + returned calls) := by
  induction hrun generalizing n with
  | nil => exact ⟨h, hturn⟩
  | cons hstep _ ih =>
      obtain ⟨hwf, hnext, -⟩ := hturn.step h hstep
      -- the turn counts the messages that were returned
      rw [returned_cons, ← Nat.add_assoc]
      exact ih hnext hwf

/-! ### Which calls return -/

/-- **Rounds.** In every run with quanta, `QuantumPrioDequeue` returns within three rounds exactly
when the queue whose turn it is has a message. Otherwise no number of rounds is enough. -/
theorem rounds_iff {io : Nat → Io} (hrun : Run (Step .quantumOnly bw) (new io) calls s) :
    s.wq.getD (s.idx % prioQueueNum) = levelAt (returned calls) ∧
    ((∃ msg t, quantumPrioDequeue (prioQueueNum + 1) s = .ok (some msg, t)) ↔
      (s.Q (levelAt (returned calls))).pq.Q ≠ []) ∧
    ((s.Q (levelAt (returned calls))).pq.Q = [] →
      ∀ fuel, quantumPrioDequeue fuel s = .error .fuel) := by
  obtain ⟨hwf, hturn⟩ := (turn_new io).run (wf_new io) hrun
  rw [Nat.zero_add] at hturn
  have hloop : (s.Q (levelAt (returned calls))).pq.Q = [] →
      ∀ fuel, quantumPrioDequeue fuel s = .error .fuel := by
    intro hnil fuel
    -- an empty queue keeps its turn, whatever the other one has
    have hserves : ¬ Serves .quantumOnly s 0 := by
      intro hserves
      refine hserves ?_
      rw [hturn.level]
      exact hnil
    exact quantumPrioDequeue_loop hwf hserves fuel
  refine ⟨hturn.level, ⟨?_, fun hne => ?_⟩, hloop⟩
  · rintro ⟨msg, t, hok⟩ hnil
    cases (hloop hnil _).symm.trans hok
  · obtain ⟨msg, rest, hlist⟩ := List.exists_cons_of_ne_nil hne
    obtain ⟨t, hok, -⟩ := quantumPrioDequeue_eq hwf prioQueueNum hturn.level hlist
    exact ⟨msg, t, hok⟩

/-- A message of the priority 1 is enqueued and `Dequeue` finds it. -/
theorem rounds_iff_one :
    ∃ s, Run (Step .quantumOnly 1) (new fun _ => prioIo 0) [.enqueue 0 1 (prioIo 1)] s ∧
      s.wq.getD (s.idx % prioQueueNum) = levelAt (returned [.enqueue 0 1 (prioIo 1)]) ∧
      ((∃ msg t, quantumPrioDequeue (prioQueueNum + 1) s = .ok (some msg, t)) ↔
        (s.Q (levelAt (returned [.enqueue 0 1 (prioIo 1)]))).pq.Q ≠ []) ∧
      ((s.Q (levelAt (returned [.enqueue 0 1 (prioIo 1)]))).pq.Q = [] →
        ∀ fuel, quantumPrioDequeue fuel s = .error .fuel) := by
  have hrun : ∃ s, Run (Step .quantumOnly 1) (new fun _ => prioIo 0)
      [.enqueue 0 1 (prioIo 1)] s :=
    ⟨_, .cons (.enqueue (fun i h => by
      change 1 ∈ (if i = 0 then _ else _ : PrioQueue).pq.Q at h
      split at h <;> cases h) rfl) (.nil _)⟩
  obtain ⟨s, hrun⟩ := hrun
  exact ⟨s, hrun, rounds_iff hrun⟩

/-- The only message has the priority 0. `QuantumPrioDequeue` looks at the queue of the priority 1
in every round. -/
theorem rounds_endless :
    ¬ ∀ (bw : Nat) (io : Nat → Io) (calls : List Call) (s : NrsPrioFlavor),
      Run (Step .quantumOnly bw) (new io) calls s → s.size ≠ 0 →
        ∃ msg t, quantumPrioDequeue (prioQueueNum + 1) s = .ok (some msg, t) := by
  intro hall
  have hrun : ∃ s, Run (Step .quantumOnly 1) (new fun _ => prioIo 0)
      [.enqueue 0 1 (prioIo 0)] s ∧ s.size ≠ 0 ∧
      quantumPrioDequeue (prioQueueNum + 1) s = .error .fuel :=
    ⟨_, .cons (.enqueue (fun i h => by
      change 1 ∈ (if i = 0 then _ else _ : PrioQueue).pq.Q at h
      split at h <;> cases h) rfl) (.nil _), by decide, rfl⟩
  obtain ⟨s, hrun, hne, hloop⟩ := hrun
  obtain ⟨msg, t, hok⟩ := hall _ _ _ s hrun hne
  cases hok.symm.trans hloop

/-! ### How many messages come from one queue in sequence -/

/-- Both queues have messages. -/
def Both (s : NrsPrioFlavor) : Prop := ∀ i < prioQueueNum, (s.Q i).pq.Q ≠ []

/-- A call while both queues have messages. -/
def BothStep (bw : Nat) (s : NrsPrioFlavor) (c : Call) (t : NrsPrioFlavor) : Prop :=
  Both s ∧ Step .quantumOnly bw s c t

/-- A call while both queues have messages, and a message that it returns comes from the queue `i`.
-/
def FromStep (bw i : Nat) (s : NrsPrioFlavor) (c : Call) (t : NrsPrioFlavor) : Prop :=
  BothStep bw s c t ∧ ∀ now msg, c = .dequeue now (some msg) → (s.Q i).pq.Q = msg :: (t.Q i).pq.Q

/-- While both queues have messages, no more messages than its quantum come from one queue in
sequence, wherever in the run. -/
def Fair (bw : Nat) (io : Nat → Io) (calls : List Call) : Prop :=
  ∀ i < prioQueueNum, ∀ pre seg post s t u, calls = pre ++ (seg ++ post) →
    Run (Step .quantumOnly bw) (new io) pre s → Run (FromStep bw i) s seg t →
    Run (Step .quantumOnly bw) t post u → (returned seg : Int) ≤ initQuantum i

/-- The quanta of both queues are used up. -/
def UsedUp (s : NrsPrioFlavor) : Prop := ∀ i < prioQueueNum, s.quantum i ≤ 0

/-- Whether a call is one of `Dequeue`, as a number. -/
def Call.asks : Call → Nat
  | .dequeue _ _ => 1
  | _ => 0

/-- The number of `Dequeue` calls. -/
def asked : List Call → Nat
  | [] => 0
  | c :: calls => c.asks + asked calls

/-- From a state in which both quanta are used up, `Dequeue` is called more often than the quantum
of the priority 1 while both queues have messages. -/
def LongTail (bw : Nat) (io : Nat → Io) (calls : List Call) : Prop :=
  ∃ pre seg post s t u, calls = pre ++ (seg ++ post) ∧ Run (Step .quantumOnly bw) (new io) pre s ∧
    Run (BothStep bw) s seg t ∧ Run (Step .quantumOnly bw) t post u ∧
    UsedUp s ∧ quantumL1 < asked seg

/-- Both quanta are used up behind the first round, which has eleven messages. -/
theorem Turn.usedUp_iff (hturn : Turn s n) : UsedUp s ↔ 11 ≤ n := by
  obtain ⟨-, -, h0, h1⟩ := hturn
  constructor
  · intro hused
    have hle := hused 0 (by decide)
    rw [h0] at hle
    split at hle <;> omega
  · intro hn i hi
    match i, hi with
    | 0, _ => exact Int.le_of_eq (h0.trans (if_neg (by omega)))
    | 1, _ =>
        rw [h1, if_neg (by omega)]
        omega

/-- A scheduler whose queues both have messages is not empty. -/
theorem Both.size_ne_zero (hboth : Both s) (h : WF s) : s.size ≠ 0 := by
  rw [h.size]
  obtain ⟨msg, hmsg⟩ := List.exists_mem_of_ne_nil _ (hboth 0 (by decide))
  have hpos := List.length_pos_of_mem (mem_queued (by decide) hmsg)
  omega

/-- While both queues have messages, `Dequeue` returns one. -/
theorem Turn.bothStep (hturn : Turn s n) (h : WF s) (hstep : BothStep bw s c t) :
    c.returns = c.asks := by
  obtain ⟨hboth, hcall⟩ := hstep
  cases hcall with
  | enqueue _ _ => rfl
  | finish => rfl
  | dequeue hok =>
      obtain ⟨msg, rfl, -⟩ := hturn.dequeue h (hboth.size_ne_zero h) hok
      rfl

/-- So as many messages are returned as `Dequeue` is called. -/
theorem Turn.bothRun (hturn : Turn s n) (h : WF s) (hrun : Run (BothStep bw) s calls t) :
    returned calls = asked calls := by
  induction hrun generalizing n with
  | nil => rfl
  | cons hstep _ ih =>
      obtain ⟨hwf, hnext, -⟩ := hturn.step h hstep.2
      rw [returned_cons, asked, hturn.bothStep h hstep, ih hnext hwf]

/-- The message of a call that comes from a queue tells whose turn it was. -/
theorem Turn.fromStep {i : Nat} (hturn : Turn s n) (h : WF s) (hstep : FromStep bw i s c t) :
    WF t ∧ Turn t (n + c.returns) ∧ (c.returns = 0 ∨ c.returns = 1 ∧ levelAt n = i) := by
  obtain ⟨⟨-, hcall⟩, hfrom⟩ := hstep
  obtain ⟨hwf, hnext, htakes⟩ := hturn.step h hcall
  refine ⟨hwf, hnext, ?_⟩
  match c with
  | .dequeue now (some msg) =>
      exact .inr ⟨rfl, ((htakes now msg rfl).unique (hfrom now msg rfl)).symm⟩
  | .dequeue _ none => exact .inl rfl
  | .enqueue _ _ _ => exact .inl rfl
  | .finish _ => exact .inl rfl

/-- The messages of calls that come from one queue have its turn, one after the other. -/
theorem Turn.fromRun {i : Nat} (hturn : Turn s n) (h : WF s)
    (hrun : Run (FromStep bw i) s calls t) : ∀ k < returned calls, levelAt (n + k) = i := by
  induction hrun generalizing n with
  | nil =>
      intro k hk
      exact absurd hk (Nat.not_lt_zero k)
  | @cons _ _ _ c calls hstep _ ih =>
      obtain ⟨hwf, hnext, hreturns⟩ := hturn.fromStep h hstep
      intro k hk
      rw [returned_cons] at hk
      -- a call without a message does not count
      rcases hreturns with hzero | ⟨hone, hlevel⟩
      · rw [hzero] at hk hnext
        exact ih hnext hwf k (by omega)
      · rw [hone] at hk hnext
        cases k with
        -- the first message, then the ones behind it
        | zero => exact hlevel
        | succ k =>
            have := ih hnext hwf k (by omega)
            rwa [Nat.add_assoc, Nat.add_comm 1 k] at this

/-- After the first round every message comes from the queue 1. -/
theorem Turn.tail (hturn : Turn s n) (h : WF s) (hn : 11 ≤ n) (hrun : Run (BothStep bw) s calls t) :
    Run (FromStep bw 1) s calls t := by
  induction hrun generalizing n with
  | nil s => exact .nil s
  | cons hstep _ ih =>
      obtain ⟨hwf, hnext, htakes⟩ := hturn.step h hstep.2
      -- the quantum of the queue 1 does not come to 0 again
      have hlevel : levelAt n = 1 := levelAt_eq_one.mpr (by omega)
      refine .cons ⟨hstep, fun now msg hc => ?_⟩ (ih hnext hwf (by omega))
      rw [← hlevel]
      exact (htakes now msg hc).head

/-- A run with a long tail takes too many messages of the queue 1 there. -/
theorem LongTail.unfair {io : Nat → Io} (h : LongTail bw io calls) : ¬ Fair bw io calls := by
  obtain ⟨pre, seg, post, s, t, u, hcalls, hpre, hseg, hpost, hused, hlong⟩ := h
  obtain ⟨hwf, hturn⟩ := (turn_new io).run (wf_new io) hpre
  intro hfair
  -- all of the tail comes from the queue 1
  have htail := hturn.tail hwf (hturn.usedUp_iff.mp hused) hseg
  have hle := hfair 1 (by decide) pre seg post s t u hcalls hpre htail hpost
  rw [hturn.bothRun hwf hseg] at hle
  exact absurd hlong (Int.not_lt.mpr hle)

/-- **Fairness.** In a run with quanta, no more messages than the quantum of a queue come from it in
sequence while both queues have messages, exactly when `Dequeue` is not called eleven times in
sequence while both have messages and both quanta are used up. -/
theorem fair_iff (bw : Nat) (io : Nat → Io) (calls : List Call) :
    Fair bw io calls ↔ ¬ LongTail bw io calls := by
  refine ⟨fun hfair hlong => hlong.unfair hfair, fun hshort => ?_⟩
  intro i hi pre seg post s t u hcalls hpre hseg hpost
  obtain ⟨hwf, hturn⟩ := (turn_new io).run (wf_new io) hpre
  rw [Nat.zero_add] at hturn
  have hlevels := hturn.fromRun hwf hseg
  by_contra hlong
  match i, hi with
  | 0, _ =>
      -- a second message of the queue 0, which has one turn only
      have hcount : 1 < returned seg := by
        unfold initQuantum quantumL0 at hlong
        rw [if_pos rfl] at hlong
        omega
      have hfirst := levelAt_eq_zero.mp (hlevels 0 (by omega))
      have hsecond := levelAt_eq_zero.mp (hlevels 1 hcount)
      omega
  | 1, _ =>
      have hcount : 10 < returned seg := by
        unfold initQuantum quantumL1 at hlong
        rw [if_neg (by decide)] at hlong
        omega
      -- the turn of the queue 0 is not among these messages
      have hfirst : 11 ≤ returned pre := by
        by_contra hlt
        have hten := levelAt_eq_one.mp (hlevels (10 - returned pre) (by omega))
        omega
      have hboth := hseg.mono fun _ _ _ hstep => hstep.1
      refine hshort ⟨pre, seg, post, s, t, u, hcalls, hpre, hboth, hpost,
        hturn.usedUp_iff.mpr hfirst, ?_⟩
      rw [← hturn.bothRun hwf hboth]
      unfold quantumL1
      omega

/-! ### A run that is not fair -/

/-- `Enqueue` computes a deadline. -/
theorem exists_deadline (h : WF s) (i now : Nat) :
    ∃ d, (if (s.Q i).dynamicWt then s.toNrsPrio.getDynamicDeadline 1 now
      else .ok (add64 now (s.Q i).wt)) = .ok d := by
  -- the last deadline is only asked for when there is one
  have hmax : ∃ d, s.toNrsPrio.getDynamicMaxDeadline = .ok d := by
    unfold NrsPrio.getDynamicMaxDeadline
    by_cases hempty : (s.Q 0).pq.empty = true
    · exact ⟨0, if_pos hempty⟩
    · -- a queue that is not empty has a last message
      have hne := mt (h.empty_iff 0).mpr hempty
      rw [if_neg hempty]
      unfold NrsFifo.last
      rw [List.getLast?_eq_some_getLast hne]
      exact ⟨_, rfl⟩
  obtain ⟨d, hd⟩ := hmax
  split
  · unfold NrsPrio.getDynamicDeadline
    rw [hd]
    exact ⟨_, rfl⟩
  · exact ⟨_, rfl⟩

/-- `Enqueue` of a new message of the priority `i` returns. -/
theorem exists_enqueue {i : Nat} (h : WF s) (hi : i < prioQueueNum)
    (hfresh : ∀ j, msg ∉ (s.Q j).pq.Q) :
    ∃ t, Step .quantumOnly 1 s (.enqueue 0 msg (prioIo i)) t ∧
      (t.Q i).pq.Q = (s.Q i).pq.Q ++ [msg] ∧ ∀ j, j ≠ i → (t.Q j).pq = (s.Q j).pq := by
  obtain ⟨d, hd⟩ := exists_deadline (h.setReq msg (prioIo i)) i 0
  have hreq : (s.setReq msg (prioIo i)).io msg = prioIo i := if_pos rfl
  have hprio : 0 ≤ (prioIo i).prio ∧ (prioIo i).prio < prioQueueNum :=
    ⟨Int.natCast_nonneg i, Int.ofNat_lt.mpr hi⟩
  have hnat : (prioIo i).prio.toNat = i := Int.toNat_natCast i
  -- both assertions hold: the priority is in range and the deadline is computed
  have hok : ∃ t, (s.setReq msg (prioIo i)).enqueue 1 0 msg = .ok t ∧
      t.Q = fun k => if k = i then { s.Q i with pq := (s.Q i).pq.enqueue msg } else s.Q k := by
    unfold NrsPrioFlavor.enqueue NrsPrio.enqueue
    dsimp only
    rw [hreq, hnat, check_true hprio, ok_bind, hd, ok_bind]
    exact ⟨_, rfl, rfl⟩
  obtain ⟨t, hok, hQ⟩ := hok
  refine ⟨t, .enqueue hfresh hok, ?_, fun j hj => ?_⟩
  · rw [hQ]
    exact congrArg (fun q : PrioQueue => q.pq.Q) (if_pos rfl)
  · rw [hQ]
    exact congrArg PrioQueue.pq (if_neg hj)

/-- `Enqueue` of new messages of the priority `i`, one after the other. -/
theorem exists_enqueues {i : Nat} (hi : i < prioQueueNum) (msgs : List Nat) (hnodup : msgs.Nodup)
    (h : WF s) (hfresh : ∀ msg ∈ msgs, ∀ j, msg ∉ (s.Q j).pq.Q) :
    ∃ t, Run (Step .quantumOnly 1) s (msgs.map fun msg => .enqueue 0 msg (prioIo i)) t ∧
      (t.Q i).pq.Q = (s.Q i).pq.Q ++ msgs ∧ ∀ j, j ≠ i → (t.Q j).pq = (s.Q j).pq := by
  induction msgs generalizing s with
  | nil => exact ⟨s, .nil s, (List.append_nil _).symm, fun _ _ => rfl⟩
  | cons msg msgs ih =>
      obtain ⟨hnotMem, hnodup⟩ := List.nodup_cons.mp hnodup
      obtain ⟨t, hstep, hQ, hother⟩ := exists_enqueue h hi (hfresh msg List.mem_cons_self)
      have hwf := (hstep.moves h (hstep.served h)).1
      -- the messages that follow are not queued yet
      have hfresh' : ∀ m ∈ msgs, ∀ j, m ∉ (t.Q j).pq.Q := by
        intro m hm j hin
        have hold := hfresh m (List.mem_cons_of_mem _ hm) j
        by_cases hj : j = i
        · subst hj
          rw [hQ, List.mem_append, List.mem_singleton] at hin
          rcases hin with hin | rfl
          · exact hold hin
          · exact hnotMem hm
        · rw [hother j hj] at hin
          exact hold hin
      obtain ⟨u, hrun, hQ', hother'⟩ := ih hnodup hwf hfresh'
      refine ⟨u, .cons hstep hrun, ?_, fun j hj => (hother' j hj).trans (hother j hj)⟩
      rw [hQ', hQ, List.append_assoc]
      rfl

/-- Calls of `Dequeue` return messages as long as both queues have some. -/
theorem exists_dequeues (k : Nat) (h : WF s) (hturn : Turn s n)
    (hlong : ∀ i < prioQueueNum, k ≤ (s.Q i).pq.Q.length) :
    ∃ calls t, Run (BothStep 1) s calls t ∧ returned calls = k ∧
      ∀ i, (s.Q i).pq.Q.length ≤ (t.Q i).pq.Q.length + k := by
  induction k generalizing s n with
  | zero => exact ⟨[], s, .nil s, rfl, fun _ => Nat.le_refl _⟩
  | succ k ih =>
      -- a queue with more than `k` messages is not empty
      have hboth : Both s := by
        intro i hi hnil
        have hlen := hlong i hi
        rw [hnil] at hlen
        exact absurd hlen (Nat.not_succ_le_zero k)
      have hserves : Serves .quantumOnly s 0 := hboth _ h.turn_lt
      obtain ⟨_, msg, t, hok, _⟩ := (delivers_iff h (hboth.size_ne_zero h)).mpr hserves
      have hstep : Step .quantumOnly 1 s (.dequeue 0 (some msg)) t := .dequeue hok
      obtain ⟨hwf, hnext, htakes⟩ := hturn.step h hstep
      -- each call takes one message of one queue
      have hlen : ∀ i, (s.Q i).pq.Q.length ≤ (t.Q i).pq.Q.length + 1 := by
        intro i
        by_cases hi : i = levelAt n
        · have hhead := congrArg List.length (htakes 0 msg rfl).head
          rw [List.length_cons] at hhead
          rw [hi]
          omega
        · rw [(htakes 0 msg rfl).other i hi]
          omega
      obtain ⟨calls, u, hrun, hreturned, hrest⟩ := ih hwf hnext fun i hi => by
        have hold := hlong i hi
        have hnew := hlen i
        omega
      refine ⟨.dequeue 0 (some msg) :: calls, u, .cons ⟨hboth, hstep⟩ hrun, ?_, fun i => ?_⟩
      · rw [returned_cons, hreturned]
        exact Nat.add_comm 1 k
      · have hold := hlen i
        have hnew := hrest i
        omega

/-- With 22 messages of each priority, the calls 12 to 22 of `Dequeue` return eleven messages of the
priority 1 in sequence. -/
theorem fair_first_round :
    ¬ ∀ (bw : Nat) (io : Nat → Io) (calls : List Call), Fair bw io calls := by
  intro hall
  have hwf := wf_new fun _ => prioIo 0
  have hnone : ∀ msg j, msg ∉ ((new fun _ => prioIo 0).Q j).pq.Q := by
    intro msg j hin
    change msg ∈ (if j = 0 then _ else _ : PrioQueue).pq.Q at hin
    split at hin <;> cases hin
  -- 22 messages of the priority 0, and then 22 of the priority 1
  obtain ⟨s, hs, hQ0, hother⟩ := exists_enqueues (i := 0) (by decide) (List.range 22)
    List.nodup_range hwf fun msg _ j => hnone msg j
  have hwf₁ := ((turn_new _).run hwf hs).1
  obtain ⟨t, ht, hQ1, hsame⟩ := exists_enqueues (i := 1) (by decide) (List.range' 22 22)
    List.nodup_range' hwf₁ fun msg hmsg j hin => by
      by_cases hj : j = 0
      · -- the messages of the queue 0 are the first 22 ones
        rw [hj, hQ0] at hin
        have hlt := List.mem_range.mp hin
        have hle := (List.mem_range'_1.mp hmsg).1
        omega
      · rw [hother j hj] at hin
        exact hnone msg j hin
  have hall₂ := hs.append ht
  obtain ⟨hwf₂, hturn⟩ := (turn_new _).run hwf hall₂
  have hreturned : returned
      ((List.range 22).map (fun msg => Call.enqueue 0 msg (prioIo (0 : Nat))) ++
        (List.range' 22 22).map fun msg => Call.enqueue 0 msg (prioIo (1 : Nat))) = 0 := by decide
  have hlen : ∀ i < prioQueueNum, (t.Q i).pq.Q.length = 22 := by
    intro i hi
    match i, hi with
    | 0, _ =>
        rw [hsame 0 (by decide), hQ0]
        rfl
    | 1, _ =>
        rw [hQ1, hother 1 (by decide)]
        rfl
  -- the first round of both quanta
  obtain ⟨pre, u, hpre, hfirst, hrest⟩ := exists_dequeues 11 hwf₂ hturn fun i hi => by
    rw [hlen i hi]
    decide
  have hbefore := hall₂.append (hpre.mono fun _ _ _ hstep => hstep.2)
  obtain ⟨hwf₃, hturn₃⟩ := (turn_new _).run hwf hbefore
  -- eleven messages more, and both queues have some left
  obtain ⟨seg, v, hseg, hcount, -⟩ := exists_dequeues 11 hwf₃ hturn₃ fun i hi => by
    have hold := hrest i
    rw [hlen i hi] at hold
    omega
  refine LongTail.unfair ⟨_, seg, [], u, v, v, rfl, hbefore, hseg, .nil v, ?_, ?_⟩ (hall _ _ _)
  · rw [hturn₃.usedUp_iff, returned_append, hreturned]
    omega
  · rw [← hturn₃.bothRun hwf₃ hseg, hcount]
    decide

end LustreSimulator.NrsPrioFlavor
