import LustreSimulator.Lib.TokenBucket
import LustreSimulator.NrsTbf

/-!
# `LustreSimulator.Proofs.NrsTbf`: the rate bound of the token bucket filter

The bucket of a client (`Client.bucket`) changes in two ways only: the client is created, or it
is served by `Dequeue`. `Step.bucket` says so for one step, from one lemma for each function of
the scheduler. Serving is a grant of the token bucket, so a run of the scheduler, seen from one
job, is a run of grants (`run_grants`), and `dequeue_rate_bound` is the bound of
`Lib.TokenBucket` on it.
-/

set_option autoImplicit false

namespace LustreSimulator.NrsTbf

open Lib

/-- The token bucket of a client. -/
def Client.bucket (c : Client) : Bucket := ⟨c.ntoken, c.checkTime⟩

/-- The messages in the queue of a client belong to its job. -/
def OwnQueues (s : NrsTbf) : Prop :=
  ∀ j c, s.clients j = some c → ∀ m ∈ c.queue, m.jobid = j

/-! ### What the functions can do -/

/-- What `updateRuleRate` can do: nothing, or adapt the rule of the client without changing its
rate, or give the rule another rate with its time and the client the values of the rule. -/
theorem updateRuleRate_cases {s s' : NrsTbf} {p : Params} {j : Jobid} {c c' : Client}
    (h : s.updateRuleRate p j c = .ok (c', s')) :
    (s' = s ∧ c' = c) ∨
    (s.rules c.rule).dependency = true ∧ ∃ rule, rule.jobids = (s.rules c.rule).jobids ∧
      rule.dependency = (s.rules c.rule).dependency ∧
      ((rule.rpcRate = (s.rules c.rule).rpcRate ∧ rule.nsecs = (s.rules c.rule).nsecs ∧
          c' = c ∧ s' = s.setRule c.rule rule) ∨
        ((s.rules c.rule).rpcRate ≠ rule.rpcRate ∧ rule.nsecs = nsecPerSec / rule.rpcRate ∧
          c' = { c with rpcRate := rule.rpcRate, nsecs := rule.nsecs, depth := rule.depth } ∧
          s' = (s.setRule c.rule rule).setClient j (some c'))) := by
  unfold updateRuleRate at h
  dsimp only at h
  split at h
  · cases h
    exact Or.inl ⟨rfl, rfl⟩
  · rename_i hdep
    split at h
    · cases h
      exact Or.inl ⟨rfl, rfl⟩
    · obtain ⟨r, -, h⟩ := bind_eq_ok.mp h
      refine Or.inr ⟨eq_true_of_ne_false hdep, ?_⟩
      split at h
      · rename_i hchanged
        obtain ⟨u, -, h⟩ := bind_eq_ok.mp h
        cases h
        refine ⟨_, ?_, ?_, Or.inr ⟨hchanged, rfl, ?_, rfl⟩⟩
        · rfl
        · rfl
        · unfold cliResetValue
          dsimp only
          rw [if_neg (by decide), show ((s.setRule c.rule _).rules c.rule) = _ from if_pos rfl]
      · rename_i hsame
        cases h
        refine ⟨_, ?_, ?_, Or.inl ⟨(not_ne_iff.mp hsame).symm, ?_, rfl, rfl⟩⟩
        · rfl
        · rfl
        · rfl

/-- Moving the timer changes the deadline and the timer only. -/
theorem enqueueTimer_frame {s s' : NrsTbf} {c : Client} (h : s.enqueueTimer c = .ok s') :
    s' = { s with deadline := s'.deadline, timer := s'.timer } := by
  unfold enqueueTimer at h
  dsimp only at h
  split at h
  · split at h
    · cases h
      rfl
    · split at h
      · obtain ⟨u, -, h⟩ := bind_eq_ok.mp h
        split at h
        · cases h
        · cases h
          rfl
      · cases h
        rfl
  · cases h
    rfl

/-- What `Enqueue` can do after the update of the client `c`: put it in the heap with its first
message, or append the message to its queue. -/
theorem enqueue_cases {s s' : NrsTbf} {p : Params} {msg : Msg} (h : s.enqueue p msg = .ok s') :
    ∃ c s₁, (s.cliFindAdd p msg.jobid).2.updateRuleRate p msg.jobid
        (s.cliFindAdd p msg.jobid).1 = .ok (c, s₁) ∧
      ((c.queue = [] ∧ ∃ c' s₂,
          c' = { c with backlogCkpt := s₁.now, inHeap := true, queue := [msg] } ∧
          { s₁.setClient msg.jobid (some c') with heap := s₁.heap ++ [msg.jobid] }.enqueueTimer c' =
            .ok s₂ ∧
          s' = { s₂ with ptr := fun i => if i = msg.id then some c'.addr else s₂.ptr i }) ∨
        (c.queue ≠ [] ∧ ∃ c', c' = { c with queue := c.queue ++ [msg] } ∧ c.inHeap = true ∧
          s' = { s₁.setClient msg.jobid (some c') with
            ptr := fun i => if i = msg.id then some c'.addr else s₁.ptr i })) := by
  unfold enqueue at h
  dsimp only at h
  obtain ⟨⟨c, s₁⟩, hupdate, h⟩ := bind_eq_ok.mp h
  refine ⟨c, s₁, hupdate, ?_⟩
  dsimp only at h
  split at h
  · rename_i hnil
    obtain ⟨u, -, h⟩ := bind_eq_ok.mp h
    obtain ⟨s₂, htimer, h⟩ := bind_eq_ok.mp h
    cases h
    exact Or.inl ⟨hnil, _, s₂, rfl, htimer, rfl⟩
  · rename_i hne
    obtain ⟨u, hin, h⟩ := bind_eq_ok.mp h
    cases h
    exact Or.inr ⟨hne, _, rfl, check_eq_ok.mp hin, rfl⟩

/-- What serving a client does: it takes the first message of the queue and one token, and a
client without messages leaves the heap. -/
theorem serve_cases {s s' : NrsTbf} {j : Jobid} {c : Client} {ntoken : Nat} {msg : Msg}
    (h : s.serve j c ntoken = .ok (msg, s')) :
    ∃ rest c', c.queue = msg :: rest ∧
      c' = { c with ntoken := ntoken - 1, checkTime := s.now, backlogCkpt := s.now, queue := rest,
                    inHeap := if rest = [] then false else c.inHeap } ∧
      s' = { (s.setRule c.rule
            { s.rules c.rule with nsecsBacklog := s.now - c.backlogCkpt }).setClient j (some c') with
          heap := if rest = [] then s.heap.erase j else s.heap } := by
  unfold serve at h
  split at h
  · cases h
  · rename_i m rest hqueue
    obtain ⟨u, -, h⟩ := bind_eq_ok.mp h
    dsimp only at h
    split at h
    · rename_i hnil
      cases h
      refine ⟨rest, _, hqueue, rfl, ?_⟩
      rw [if_pos hnil, if_pos hnil]
      rfl
    · rename_i hne
      cases h
      refine ⟨rest, _, hqueue, rfl, ?_⟩
      rw [if_neg hne, if_neg hne]
      rfl

/-- The rule of a client that `Dequeue` looks at notes the time. -/
def noteActive (s : NrsTbf) (c : Client) : NrsTbf :=
  s.setRule c.rule { s.rules c.rule with lastActiveTime := s.now }

/-- What `Dequeue` can do: nothing, while the scheduler throttles or the heap is empty, or serve
the client at the root, which has a token, or throttle, when it has none. -/
theorem dequeue_cases {s s' : NrsTbf} {root : Option Jobid} {out : Option Msg}
    (h : s.dequeue root = .ok (out, s')) :
    ((s.throttling = true ∨ root = none) ∧ out = none ∧ s' = s) ∨
    (s.throttling = false ∧ ∃ j c, root = some j ∧ s.clients j = some c ∧ c.inHeap = true ∧
      c.checkTime ≤ s.now ∧ c.nsecs ≠ 0 ∧
      ((0 < tokens c s.now ∧ ∃ msg, out = some msg ∧
          (s.noteActive c).serve j c (tokens c s.now) = .ok (msg, s')) ∨
        (tokens c s.now = 0 ∧ out = none ∧ ∃ timer,
          Timer.modTimer s.now s.timer (c.checkTime + c.nsecs) = some timer ∧
          s' = { s.noteActive c with
            throttling := true, deadline := c.checkTime + c.nsecs, timer := timer }))) := by
  unfold dequeue at h
  split at h
  · rename_i hthrottling
    cases h
    exact Or.inl ⟨Or.inl hthrottling, rfl, rfl⟩
  · rename_i hthrottling
    split at h
    · cases h
      exact Or.inl ⟨Or.inr rfl, rfl, rfl⟩
    · rename_i j
      split at h
      · cases h
      · rename_i c hc
        obtain ⟨u, hin, h⟩ := bind_eq_ok.mp h
        obtain ⟨u, hcheck, h⟩ := bind_eq_ok.mp h
        obtain ⟨u, hnsecs, h⟩ := bind_eq_ok.mp h
        refine Or.inr ⟨Bool.eq_false_iff.mpr hthrottling, j, c, rfl, hc, check_eq_ok.mp hin,
          check_eq_ok.mp hcheck, check_eq_ok.mp hnsecs, ?_⟩
        dsimp only at h
        split at h
        · rename_i htok
          obtain ⟨r, hserve, h⟩ := bind_eq_ok.mp h
          cases h
          exact Or.inl ⟨htok, r.1, rfl, hserve⟩
        · rename_i htok
          split at h
          · cases h
          · rename_i timer hmod
            cases h
            exact Or.inr ⟨Nat.eq_zero_of_not_pos htok, rfl, timer, hmod, rfl⟩

/-- A `Dequeue` that returns nothing changes the throttling, and notes the time in a rule. -/
theorem dequeue_none_frame {s s' : NrsTbf} {root : Option Jobid}
    (h : s.dequeue root = .ok (none, s')) :
    s' = { s with rules := s'.rules, throttling := s'.throttling, deadline := s'.deadline
                  timer := s'.timer } := by
  rcases dequeue_cases h with ⟨-, -, rfl⟩ |
    ⟨-, j, c, -, -, -, -, -, ⟨-, msg, hmsg, -⟩ | ⟨-, -, timer, -, rfl⟩⟩
  · rfl
  · cases hmsg
  · rfl

/-- Purging changes the clients, the LRU lists and the number of items only. -/
theorem purge_frame {p : Params} {b : Nat} {js : List Jobid} {s s' : NrsTbf}
    (h : purge p b js s = .ok s') :
    s' = { s with clients := s'.clients, lru := s'.lru, bdCount := s'.bdCount } := by
  induction js generalizing s with
  | nil =>
      cases h
      rfl
  | cons i rest ih =>
      rw [purge] at h
      split at h
      · split at h
        · cases h
        · obtain ⟨u, -, h⟩ := bind_eq_ok.mp h
          rw [ih h]
          rfl
      · cases h
        rfl

/-- What `Finish` can do: drop the reference of the message, and with the last one purge. -/
theorem finish_cases {s s' : NrsTbf} {p : Params} {msg : Msg} (h : s.finish p msg = .ok s') :
    ∃ c s₁, s.clients msg.jobid = some c ∧
      s₁ = { s.setClient msg.jobid (some { c with ref := c.ref - 1 }) with
        ptr := fun i => if i = msg.id then none else s.ptr i } ∧
      ((c.ref - 1 = 0 ∧ purge p (p.bucketOf msg.jobid)
          (s.lru (p.bucketOf msg.jobid) ++ [msg.jobid]) s₁ = .ok s') ∨
        (c.ref - 1 ≠ 0 ∧ s' = s₁)) := by
  unfold finish at h
  split at h
  · cases h
  · rename_i c hc
    obtain ⟨u, -, h⟩ := bind_eq_ok.mp h
    dsimp only at h
    split at h
    · rename_i hlast
      exact ⟨c, _, hc, rfl, Or.inl ⟨hlast, h⟩⟩
    · rename_i hlast
      cases h
      exact ⟨c, _, hc, rfl, Or.inr ⟨hlast, rfl⟩⟩

/-! ### What the functions do to the clients -/

/-- Replacing the client of one job. -/
theorem clients_setClient (s : NrsTbf) (i j : Jobid) (c : Option Client) :
    (s.setClient j c).clients i = if i = j then c else s.clients i := rfl

/-- `cliFindAdd` returns the client of the job: the cached one, with its bucket and queue, or a
new one without messages. Other clients do not change. -/
theorem cliFindAdd_spec (s : NrsTbf) (p : Params) (j : Jobid) :
    (s.cliFindAdd p j).2.clients j = some (s.cliFindAdd p j).1 ∧
    (∀ i, i ≠ j → (s.cliFindAdd p j).2.clients i = s.clients i) ∧
    (∀ c, s.clients j = some c → (s.cliFindAdd p j).1.bucket = c.bucket ∧
      (s.cliFindAdd p j).1.queue = c.queue) ∧
    (s.clients j = none → (s.cliFindAdd p j).1.queue = []) := by
  unfold cliFindAdd cliFind
  cases hj : s.clients j with
  | some c =>
      refine ⟨by simp [clients_setClient], ?_, ?_, by simp⟩
      · intro i hi
        simp [clients_setClient, hi]
      · intro c' hc'
        cases hc'
        exact ⟨rfl, rfl⟩
  | none =>
      refine ⟨by simp [clients_setClient], ?_, by simp, ?_⟩
      · intro i hi
        simp [clients_setClient, hi]
      · intro _
        rfl

/-- `updateRuleRate` keeps the bucket and the queue of the client and all other clients. -/
theorem updateRuleRate_spec {s s' : NrsTbf} {p : Params} {j : Jobid} {c c' : Client}
    (h : s.updateRuleRate p j c = .ok (c', s')) (hc : s.clients j = some c) :
    c'.bucket = c.bucket ∧ c'.queue = c.queue ∧ s'.clients j = some c' ∧
      ∀ i, i ≠ j → s'.clients i = s.clients i := by
  rcases updateRuleRate_cases h with ⟨rfl, rfl⟩ |
    ⟨-, rule, -, -, ⟨-, -, rfl, rfl⟩ | ⟨-, -, rfl, rfl⟩⟩
  · exact ⟨rfl, rfl, hc, fun _ _ => rfl⟩
  · exact ⟨rfl, rfl, hc, fun _ _ => rfl⟩
  · exact ⟨rfl, rfl, if_pos rfl, fun i hi => if_neg hi⟩

/-- Moving the timer does not touch the clients. -/
theorem enqueueTimer_clients {s s' : NrsTbf} {c : Client} (h : s.enqueueTimer c = .ok s') :
    s'.clients = s.clients := by
  rw [enqueueTimer_frame h]

/-- `Enqueue` appends the message to the queue of its client and keeps the client's bucket, or
creates the client. Other clients do not change. -/
theorem enqueue_spec {s s' : NrsTbf} {p : Params} {msg : Msg} (h : s.enqueue p msg = .ok s') :
    (∀ i, i ≠ msg.jobid → s'.clients i = s.clients i) ∧
    ∃ c', s'.clients msg.jobid = some c' ∧
      (∀ c, s.clients msg.jobid = some c → c'.bucket = c.bucket ∧ c'.queue = c.queue ++ [msg]) ∧
      (s.clients msg.jobid = none → c'.queue = [msg]) := by
  obtain ⟨c, s₁, hupdate, hcases⟩ := enqueue_cases h
  obtain ⟨hadd, hother, hcached, hnew⟩ := cliFindAdd_spec s p msg.jobid
  obtain ⟨hbucket, hqueue, hclient, hother'⟩ := updateRuleRate_spec hupdate hadd
  -- the client with the message added to its queue, cached or new
  have hend : (∀ i, i ≠ msg.jobid → s'.clients i = s₁.clients i) ∧ ∃ c',
      s'.clients msg.jobid = some c' ∧ c'.bucket = c.bucket ∧ c'.queue = c.queue ++ [msg] := by
    rcases hcases with ⟨hnil, c', s₂, rfl, htimer, rfl⟩ | ⟨-, c', rfl, -, rfl⟩
    · dsimp only
      rw [enqueueTimer_clients htimer]
      refine ⟨fun i hi => if_neg hi, _, if_pos rfl, rfl, ?_⟩
      rw [hnil]
      rfl
    · exact ⟨fun i hi => if_neg hi, _, if_pos rfl, rfl, rfl⟩
  obtain ⟨hother₁, c', hc', hbucket', hqueue'⟩ := hend
  refine ⟨fun i hi => by rw [hother₁ i hi, hother' i hi, hother i hi], c', hc', ?_, ?_⟩
  · intro c₀ hc₀
    obtain ⟨h₁, h₂⟩ := hcached c₀ hc₀
    exact ⟨by rw [hbucket', hbucket, h₁], by rw [hqueue', hqueue, h₂]⟩
  · intro hnone
    rw [hqueue', hqueue, hnew hnone]
    rfl

/-- What a `Dequeue` that returns a message did: the first message of a client was served, and
the client's bucket paid a token for it. -/
theorem dequeue_some {s s' : NrsTbf} {root : Option Jobid} {msg : Msg}
    (h : s.dequeue root = .ok (some msg, s')) :
    ∃ j c c' rest, s.clients j = some c ∧ c.queue = msg :: rest ∧ s'.clients j = some c' ∧
      c'.queue = rest ∧ c.checkTime ≤ s.now ∧ 0 < tokens c s.now ∧
      c'.bucket = ⟨tokens c s.now - 1, s.now⟩ ∧
      ∀ i, i ≠ j → s'.clients i = s.clients i := by
  rcases dequeue_cases h with ⟨-, hout, -⟩ |
    ⟨-, j, c, -, hc, -, hcheck, -, ⟨htok, m, hm, hserve⟩ | ⟨-, hout, -⟩⟩
  · cases hout
  · cases hm
    obtain ⟨rest, c', hqueue, rfl, rfl⟩ := serve_cases hserve
    exact ⟨j, c, _, rest, hc, hqueue, if_pos rfl, rfl, hcheck, htok, rfl, fun i hi => if_neg hi⟩
  · cases hout

/-- A `Dequeue` that returns nothing does not touch the clients. -/
theorem dequeue_none {s s' : NrsTbf} {root : Option Jobid}
    (h : s.dequeue root = .ok (none, s')) : s'.clients = s.clients := by
  rw [dequeue_none_frame h]

/-- Purging only removes clients. -/
theorem purge_clients {p : Params} {b : Nat} {js : List Jobid} {s s' : NrsTbf}
    (h : purge p b js s = .ok s') {j : Jobid} {c : Client} (hj : s'.clients j = some c) :
    s.clients j = some c := by
  induction js generalizing s with
  | nil =>
      cases h
      exact hj
  | cons i rest ih =>
      rw [purge] at h
      split at h
      · split at h
        · cases h
        · obtain ⟨u, -, h⟩ := bind_eq_ok.mp h
          have := ih h
          dsimp only at this
          rw [clients_setClient] at this
          split at this
          · cases this
          · exact this
      · cases h
        exact hj

/-- `Finish` only removes clients and drops references. -/
theorem finish_clients {s s' : NrsTbf} {p : Params} {msg : Msg} (h : s.finish p msg = .ok s')
    {j : Jobid} {c' : Client} (hj : s'.clients j = some c') :
    ∃ c, s.clients j = some c ∧ c'.bucket = c.bucket ∧ c'.queue = c.queue := by
  obtain ⟨c, s₁, hc, rfl, hcases⟩ := finish_cases h
  have hset : (s.setClient msg.jobid (some { c with ref := c.ref - 1 })).clients j = some c' := by
    rcases hcases with ⟨-, hpurge⟩ | ⟨-, rfl⟩
    · exact purge_clients hpurge hj
    · exact hj
  rw [clients_setClient] at hset
  split at hset
  · rename_i hjm
    cases hset
    exact ⟨c, hjm ▸ hc, rfl, rfl⟩
  · exact ⟨c', hset, rfl, rfl⟩

/-! ### One step, seen from one job -/

/-- The times at which requests of the job `j` were returned by `Dequeue`. -/
def servedTimes (j : Jobid) : List Event → List Nat
  | [] => []
  | .dequeue now _ (some msg) :: es =>
      if msg.jobid = j then now :: servedTimes j es else servedTimes j es
  | _ :: es => servedTimes j es

/-- Every step keeps the messages in the queues of their own clients. -/
theorem Step.ownQueues {p : Params} {s s' : NrsTbf} {e : Event} (h : Step p s e s')
    (hs : OwnQueues s) : OwnQueues s' := by
  cases h with
  | clock => exact hs
  | @enqueue _ msg henq =>
      obtain ⟨hother, c', hc', hcached, hnew⟩ := enqueue_spec henq
      intro j c hj m hm
      by_cases hjm : j = msg.jobid
      · subst hjm
        rw [hc'] at hj
        cases hj
        cases hold : s.clients msg.jobid with
        | none =>
            rw [hnew hold, List.mem_singleton] at hm
            rw [hm]
        | some c₀ =>
            rw [(hcached c₀ hold).2] at hm
            rcases List.mem_append.mp hm with hm | hm
            · exact hs _ c₀ hold m hm
            · rw [List.mem_singleton] at hm
              rw [hm]
      · rw [hother j hjm] at hj
        exact hs j c hj m hm
  | @dequeue _ root msg hroot hdeq =>
      cases msg with
      | none =>
          intro j c hj
          rw [dequeue_none hdeq] at hj
          exact hs j c hj
      | some msg =>
          obtain ⟨i, c₀, c', rest, hc₀, hqueue, hc', hrest, -, -, -, hother⟩ := dequeue_some hdeq
          intro j c hj m hm
          by_cases hji : j = i
          · subst hji
            rw [hc'] at hj
            cases hj
            rw [hrest] at hm
            exact hs j c₀ hc₀ m (by rw [hqueue]; exact List.mem_cons_of_mem _ hm)
          · rw [hother j hji] at hj
            exact hs j c hj m hm
  | finish hfin =>
      intro j c' hj m hm
      obtain ⟨c, hc, -, hqueue⟩ := finish_clients hfin hj
      rw [hqueue] at hm
      exact hs j c hc m hm
  | timer => exact hs

/-- A step seen from a job whose client stays cached: its bucket does not change, or the step
serves the job and the bucket pays a token. -/
theorem Step.bucket {p : Params} {s s' : NrsTbf} {e : Event} (h : Step p s e s')
    (hs : OwnQueues s) {j : Jobid} {c c' : Client} (hc : s.clients j = some c)
    (hc' : s'.clients j = some c') :
    (servedTimes j [e] = [] ∧ c'.bucket = c.bucket) ∨
    (servedTimes j [e] = [s.now] ∧ c.checkTime ≤ s.now ∧ 0 < tokens c s.now ∧
      c'.bucket = ⟨tokens c s.now - 1, s.now⟩) := by
  cases h with
  | clock =>
      rw [hc] at hc'
      cases hc'
      exact Or.inl ⟨rfl, rfl⟩
  | @enqueue _ msg henq =>
      obtain ⟨hother, c₁, hc₁, hcached, -⟩ := enqueue_spec henq
      refine Or.inl ⟨rfl, ?_⟩
      by_cases hjm : j = msg.jobid
      · subst hjm
        rw [hc₁] at hc'
        cases hc'
        exact (hcached c hc).1
      · rw [hother j hjm, hc] at hc'
        cases hc'
        rfl
  | @dequeue _ root msg hroot hdeq =>
      cases msg with
      | none =>
          rw [dequeue_none hdeq, hc] at hc'
          cases hc'
          exact Or.inl ⟨rfl, rfl⟩
      | some msg =>
          obtain ⟨i, c₀, c₁, rest, hc₀, hqueue, hc₁, -, hle, htok, hbucket, hother⟩ :=
            dequeue_some hdeq
          have hown : msg.jobid = i := hs i c₀ hc₀ msg (by rw [hqueue]; exact List.mem_cons_self ..)
          by_cases hji : j = i
          · subst hji
            rw [hc₀] at hc
            cases hc
            rw [hc₁] at hc'
            cases hc'
            refine Or.inr ⟨?_, hle, htok, hbucket⟩
            show (if msg.jobid = j then [s.now] else []) = [s.now]
            rw [if_pos hown]
          · rw [hother j hji, hc] at hc'
            cases hc'
            refine Or.inl ⟨?_, rfl⟩
            show (if msg.jobid = j then [s.now] else []) = []
            rw [if_neg (by rw [hown]; exact fun heq => hji heq.symm)]
  | finish hfin =>
      obtain ⟨c₀, hc₀, hbucket, -⟩ := finish_clients hfin hc'
      rw [hc] at hc₀
      cases hc₀
      exact Or.inl ⟨rfl, hbucket⟩
  | timer =>
      replace hc' : s.clients j = some c' := hc'
      rw [hc] at hc'
      cases hc'
      exact Or.inl ⟨rfl, rfl⟩

/-- A job without a client is not served. -/
theorem Step.not_served {p : Params} {s s' : NrsTbf} {e : Event} (h : Step p s e s')
    (hs : OwnQueues s) {j : Jobid} (hj : s.clients j = none) : servedTimes j [e] = [] := by
  cases h with
  | @dequeue _ root msg hroot hdeq =>
      cases msg with
      | none => rfl
      | some msg =>
          obtain ⟨i, c, -, rest, hc, hqueue, -⟩ := dequeue_some hdeq
          have hown : msg.jobid = i := hs i c hc msg (by rw [hqueue]; exact List.mem_cons_self ..)
          show (if msg.jobid = j then [s.now] else []) = []
          refine if_neg ?_
          rintro rfl
          rw [hown, hc] at hj
          cases hj
  | clock => rfl
  | enqueue => rfl
  | finish => rfl
  | timer => rfl

/-! ### Runs -/

/-- A step under which the client of the job `j` stays cached once it is, and keeps a `tc_nsecs`
of at least `nsecs` and a `tc_depth` of at most `depth`. -/
def KeptStep (p : Params) (j : Jobid) (nsecs depth : Nat) (s : NrsTbf) (e : Event)
    (s' : NrsTbf) : Prop :=
  Step p s e s' ∧ (s.clients j ≠ none → s'.clients j ≠ none) ∧
    ∀ c, s'.clients j = some c → nsecs ≤ c.nsecs ∧ c.depth ≤ depth

/-- The served times of a run are those of its first event and of the rest. -/
theorem servedTimes_cons (j : Jobid) (e : Event) (es : List Event) :
    servedTimes j (e :: es) = servedTimes j [e] ++ servedTimes j es := by
  cases e with
  | dequeue now root msg =>
      cases msg with
      | none => rfl
      | some msg =>
          show (if msg.jobid = j then _ else _) = (if msg.jobid = j then _ else _) ++ _
          split
          · rfl
          · rfl
  | clock => rfl
  | enqueue => rfl
  | finish => rfl
  | timer => rfl

/-- Serving a request is a grant of the token bucket. -/
theorem grant_of_served {nsecs depth now : Nat} (hnsecs : 0 < nsecs) {c : Client} {b' : Bucket}
    (hc : nsecs ≤ c.nsecs ∧ c.depth ≤ depth) (hle : c.checkTime ≤ now)
    (htok : 0 < tokens c now) (hb : b' = ⟨tokens c now - 1, now⟩) :
    Grant depth nsecs c.bucket now b' := by
  subst hb
  have hdepth : tokens c now ≤ c.depth := Nat.min_le_left _ _
  have hpassed : tokens c now ≤ (now - c.checkTime) / c.nsecs + c.ntoken := Nat.min_le_right _ _
  have hrate : (now - c.checkTime) / c.nsecs ≤ (now - c.checkTime) / nsecs :=
    Nat.div_le_div_left hc.1 hnsecs
  refine ⟨hle, rfl, ?_, ?_⟩
  · show tokens c now - 1 + 1 ≤ depth
    omega
  · show tokens c now - 1 + 1 ≤ c.ntoken + (now - c.checkTime) / nsecs
    omega

/-- A run of the scheduler, seen from a job whose client stays cached, is a run of grants. -/
theorem run_grants {p : Params} {j : Jobid} {nsecs depth : Nat} (hnsecs : 0 < nsecs)
    {s s' : NrsTbf} {es : List Event} (hrun : Run (KeptStep p j nsecs depth) s es s')
    (hown : OwnQueues s)
    (hkept : ∀ c, s.clients j = some c → nsecs ≤ c.nsecs ∧ c.depth ≤ depth) :
    ∃ b b', (∀ c, s.clients j = some c → b = c.bucket) ∧
      Run (Grant depth nsecs) b (servedTimes j es) b' := by
  induction hrun with
  | nil s =>
      cases hj : s.clients j with
      | none => exact ⟨⟨0, 0⟩, _, fun c hc => (by cases hc), .nil _⟩
      | some c => exact ⟨c.bucket, _, fun c' hc' => (by cases hc'; rfl), .nil _⟩
  | @cons s t u e es hstep _ ih =>
      obtain ⟨hstep, hstay, hkept'⟩ := hstep
      obtain ⟨b, b', hb, hgrants⟩ := ih (hstep.ownQueues hown) hkept'
      rw [servedTimes_cons]
      cases hj : s.clients j with
      | none =>
          rw [hstep.not_served hown hj]
          exact ⟨b, b', fun c hc => (by cases hc), hgrants⟩
      | some c =>
          obtain ⟨c', hc'⟩ := Option.ne_none_iff_exists'.mp (hstay (by rw [hj]; simp))
          have hb' := hb c' hc'
          rcases hstep.bucket hown hj hc' with ⟨hnone, heq⟩ | ⟨hserved, hle, htok, heq⟩
          · rw [hnone]
            refine ⟨b, b', fun d hd => ?_, hgrants⟩
            cases hd
            rw [hb', heq]
          · rw [hserved]
            refine ⟨c.bucket, b', fun d hd => (by cases hd; rfl), .cons ?_ hgrants⟩
            exact grant_of_served hnsecs (hkept c hj) hle htok (hb'.trans heq)

/-- **The rate bound.** In every run of the scheduler in which the client of the job `j` stays
cached with a `tc_nsecs` of at least `nsecs` and a `tc_depth` of at most `depth`, the requests of
the job that `Dequeue` returns inside a window `[t₀, t₁]` are at most
`depth + (t₁ - t₀) / nsecs`. -/
theorem dequeue_rate_bound (p : Params) (rules : Nat → Rule) (ruleList : List Nat) (j : Jobid)
    (nsecs depth : Nat) (hnsecs : 0 < nsecs) (es : List Event) (s : NrsTbf)
    (hrun : Run (KeptStep p j nsecs depth) (start rules ruleList) es s) (t₀ t₁ : Nat) :
    countWindow t₀ t₁ (servedTimes j es) ≤ depth + (t₁ - t₀) / nsecs := by
  obtain ⟨b, b', -, hgrants⟩ := run_grants hnsecs hrun
    (fun j c hj => by cases hj) (fun c hc => by cases hc)
  exact grants_window hgrants t₀ t₁

/-- One request of one job, queued and served at the time 0 under a rule of 10 requests per
second with a bucket of depth 3. -/
theorem dequeue_rate_bound_one :
    countWindow 0 1000000000 (servedTimes "a"
      [.enqueue 0 ⟨1, "a"⟩, .dequeue 0 (some "a") (some ⟨1, "a"⟩)]) ≤
        3 + (1000000000 - 0) / 100000000 := by
  refine dequeue_rate_bound ⟨150, 50, fun _ => 0, 1024⟩
    (fun _ => ⟨[], 10, 100000000, 3, false, 0, 0, 0, 0, 0, 0, 0, 0⟩) [0] "a" 100000000 3
    (by decide) _ _ (.cons ⟨.enqueue rfl, ?_, ?_⟩
      (.cons ⟨.dequeue ?_ rfl, ?_, ?_⟩ (.nil _))) 0 1000000000
  · intro _ h
    cases h
  · intro c hc
    cases hc
    decide
  · exact List.mem_cons_self ..
  · intro _ h
    cases h
  · intro c hc
    cases hc
    decide

end LustreSimulator.NrsTbf
