import LustreSimulator.Proofs.NrsTbfHeap

/-!
# `LustreSimulator.Proofs.NrsTbfWake`: the timer of a scheduler that throttles

`NrsTbf` calls `ModTimer` in two places. `Dequeue` arms the timer for the deadline of a client
without a token, and `Enqueue` moves it to an earlier deadline. `modTimerCall` is the time of the
call of an event. It is later than now in `Enqueue` by the assertion before the call, and in
`Dequeue` since a client without a token did not reach its deadline (`unreached_of_no_token`).
`throttling_wakes_up` is the result over runs.
-/

set_option autoImplicit false

namespace LustreSimulator.NrsTbf

open Lib

variable {p : Params} {s s' : NrsTbf} {c : Client} {msg : Msg} {root : Option Jobid}

/-! ### The calls of `ModTimer` -/

/-- The time of the call in `Enqueue` for the client `c`, whose queue was empty. -/
def enqueueTimerCall (s : NrsTbf) (c : Client) : Option Nat :=
  let deadline := c.checkTime + c.nsecs
  if s.throttling = true ∧ ¬ deadline < s.now ∧ s.deadline > deadline ∧ deadline > s.now then
    some deadline
  else none

/-- The time of the call in `Enqueue(msg)`. -/
def enqueueModTimer (s : NrsTbf) (p : Params) (msg : Msg) : Option Nat :=
  let r := s.cliFindAdd p msg.jobid
  match r.2.updateRuleRate p msg.jobid r.1 with
  | .error _ => none
  | .ok (c, s) => if c.queue = [] then s.enqueueTimerCall c else none

/-- The time of the call in `Dequeue()`, with the client of the job `root` at the root of the
heap. -/
def dequeueModTimer (s : NrsTbf) (root : Option Jobid) : Option Nat :=
  match root.bind s.clients with
  | none => none
  | some c =>
      if s.throttling = false ∧ c.nsecs ≠ 0 ∧ tokens c s.now = 0 then some (c.checkTime + c.nsecs)
      else none

/-- The time that an event gives to `ModTimer`, when it calls it. -/
def modTimerCall (s : NrsTbf) (p : Params) : Event → Option Nat
  | .enqueue _ msg => s.enqueueModTimer p msg
  | .dequeue _ root _ => s.dequeueModTimer root
  | _ => none

/-- Every client has a bucket for one token at least, and its tokens take time. -/
def Paced (s : NrsTbf) : Prop :=
  ∀ j c, s.clients j = some c → 1 ≤ c.depth ∧ 0 < c.nsecs

/-- Moving the timer calls `ModTimer`, or leaves the timer alone. -/
theorem enqueueTimer_call (h : s.enqueueTimer c = .ok s') :
    s'.timer = (s.enqueueTimerCall c).or s.timer := by
  unfold enqueueTimer at h
  unfold enqueueTimerCall
  dsimp only at h ⊢
  split at h
  · rename_i hthrottling
    split at h
    · rename_i hpast
      cases h
      rw [if_neg fun hcall => hcall.2.1 hpast]
      rfl
    · rename_i hpast
      split at h
      · rename_i hearlier
        obtain ⟨u, hlate, h⟩ := bind_eq_ok.mp h
        split at h
        · cases h
        · rename_i timer hmod
          cases h
          rw [if_pos ⟨hthrottling, hpast, hearlier, check_eq_ok.mp hlate⟩]
          exact (Timer.modTimer_eq_some hmod).1
      · rename_i hearlier
        cases h
        rw [if_neg fun hcall => hearlier hcall.2.2.1]
        rfl
  · rename_i hthrottling
    cases h
    rw [if_neg fun hcall => hthrottling hcall.1]
    rfl

/-- The call in `Enqueue` is for a time after now. -/
theorem enqueueTimerCall_lt {t : Nat} (h : s.enqueueTimerCall c = some t) : s.now < t := by
  unfold enqueueTimerCall at h
  dsimp only at h
  split at h
  · rename_i hcall
    cases h
    exact hcall.2.2.2
  · cases h

/-- `RunAt` accepts the time of the call in `Enqueue`. -/
theorem enqueueTimer_accepted : s.enqueueTimer c ≠ .error .runAt := by
  unfold enqueueTimer
  dsimp only
  split
  · split
    · exact fun h => nomatch h
    · split
      · refine bind_ne_error (check_ne_error fun h => nomatch h) fun u hlate => ?_
        have hlt := check_eq_ok.mp hlate
        split
        · rename_i hmod
          rw [Timer.modTimer_of_lt hlt] at hmod
          cases hmod
        · exact fun h => nomatch h
      · exact fun h => nomatch h
  · exact fun h => nomatch h

/-! ### One event -/

/-- `nrs_tbf_update_rule_rate` stops at its own assertion or at a division only. -/
theorem updateRuleRate_ne_error {j : Jobid} {e : Fault} (hspeedup : Fault.speedup ≠ e)
    (hdivZero : Fault.divZero ≠ e) : s.updateRuleRate p j c ≠ .error e := by
  unfold updateRuleRate
  dsimp only
  split
  · exact fun h => nomatch h
  · split
    · exact fun h => nomatch h
    · refine bind_ne_error ?_ fun r _ => ?_
      · unfold nextRound
        split
        · exact fun h => nomatch h
        · split
          · exact bind_ne_error (check_ne_error hspeedup) fun u _ => fun h => nomatch h
          · exact fun h => nomatch h
      · split
        · exact bind_ne_error (check_ne_error hdivZero) fun u _ => fun h => nomatch h
        · exact fun h => nomatch h

/-- The clock and the timer before the end of `Enqueue` are those at its begin. -/
theorem update_gate {c' : Client}
    (h : (s.cliFindAdd p msg.jobid).2.updateRuleRate p msg.jobid (s.cliFindAdd p msg.jobid).1 =
      .ok (c', s')) : s'.timer = s.timer ∧ s'.now = s.now := by
  obtain ⟨-, htimer, -, hnow⟩ :=
    gate_eq_iff.mp ((updateRuleRate_gate h).trans (cliFindAdd_gate s p msg.jobid))
  exact ⟨htimer, hnow⟩

/-- `Enqueue` arms the timer by its call. -/
theorem enqueue_call (h : s.enqueue p msg = .ok s') :
    s'.timer = (s.enqueueModTimer p msg).or s.timer := by
  obtain ⟨c, s₁, hupdate, hcases⟩ := enqueue_cases h
  obtain ⟨hsame, -⟩ := update_gate hupdate
  unfold enqueueModTimer
  dsimp only
  rw [hupdate]
  dsimp only
  rcases hcases with ⟨hnil, c', s₂, rfl, htimer, rfl⟩ | ⟨hne, c', -, -, rfl⟩
  · rw [if_pos hnil, ← hsame]
    exact (enqueueTimer_call htimer).trans rfl
  · rw [if_neg hne]
    exact hsame

/-- The call in `Enqueue` is for a time after now. -/
theorem enqueueModTimer_lt {t : Nat} (h : s.enqueueModTimer p msg = some t) : s.now < t := by
  unfold enqueueModTimer at h
  dsimp only at h
  split at h
  · cases h
  · rename_i c s₁ hupdate
    split at h
    · rw [← (update_gate hupdate).2]
      exact enqueueTimerCall_lt h
    · cases h

/-- `RunAt` does not stop `Enqueue`. -/
theorem enqueue_accepted : s.enqueue p msg ≠ .error .runAt := by
  unfold enqueue
  dsimp only
  refine bind_ne_error (updateRuleRate_ne_error (fun h => nomatch h) fun h => nomatch h)
    fun r _ => ?_
  split
  · refine bind_ne_error (check_ne_error fun h => nomatch h) fun u _ => ?_
    exact bind_ne_error enqueueTimer_accepted fun s _ => fun h => nomatch h
  · exact bind_ne_error (check_ne_error fun h => nomatch h) fun u _ => fun h => nomatch h

/-- A client without a token did not reach its deadline. -/
theorem unreached_of_no_token (hdepth : 1 ≤ c.depth) (hnsecs : 0 < c.nsecs) {now : Nat}
    (htok : tokens c now = 0) : now < c.checkTime + c.nsecs := by
  by_contra hreached
  have := tokens_pos hdepth hnsecs (Nat.le_of_not_lt hreached)
  omega

/-- `Dequeue` arms the timer by its call. -/
theorem dequeue_call {out : Option Msg} (h : s.dequeue root = .ok (out, s')) :
    s'.timer = (s.dequeueModTimer root).or s.timer := by
  unfold dequeueModTimer
  rcases dequeue_cases h with ⟨hidle, -, rfl⟩ |
    ⟨hthrottling, j, c, rfl, hc, -, -, hnsecs, ⟨htok, m, -, hserve⟩ | ⟨htok, -, timer, hmod, rfl⟩⟩
  · rcases hidle with hthrottling | rfl
    · split
      · rfl
      · rw [if_neg fun hcall => absurd (hthrottling.symm.trans hcall.1) (by decide)]
        rfl
    · rfl
  · obtain ⟨rest, c', -, -, rfl⟩ := serve_cases hserve
    rw [Option.bind_some, hc]
    dsimp only
    rw [if_neg fun hcall => Nat.ne_of_gt htok hcall.2.2]
    rfl
  · rw [Option.bind_some, hc]
    dsimp only
    rw [if_pos ⟨hthrottling, hnsecs, htok⟩]
    exact (Timer.modTimer_eq_some hmod).1

/-- The call in `Dequeue` is for a time after now. -/
theorem dequeueModTimer_lt (hs : Paced s) {t : Nat} (h : s.dequeueModTimer root = some t) :
    s.now < t := by
  unfold dequeueModTimer at h
  split at h
  · cases h
  · rename_i c hc
    split at h
    · rename_i hcall
      cases h
      obtain ⟨j, -, hj⟩ := Option.bind_eq_some_iff.mp hc
      exact unreached_of_no_token (hs j c hj).1 (hs j c hj).2 hcall.2.2
    · cases h

/-- `RunAt` does not stop `Dequeue`. -/
theorem dequeue_accepted (hs : Paced s) : s.dequeue root ≠ .error .runAt := by
  unfold dequeue
  split
  · exact fun h => nomatch h
  · split
    · exact fun h => nomatch h
    · rename_i j
      split
      · exact fun h => nomatch h
      · rename_i c hc
        refine bind_ne_error (check_ne_error fun h => nomatch h) fun u _ => ?_
        refine bind_ne_error (check_ne_error fun h => nomatch h) fun u _ => ?_
        refine bind_ne_error (check_ne_error fun h => nomatch h) fun u _ => ?_
        dsimp only
        split
        · refine bind_ne_error ?_ fun r _ => fun h => nomatch h
          unfold serve
          split
          · exact fun h => nomatch h
          · refine bind_ne_error (check_ne_error fun h => nomatch h) fun u _ => ?_
            dsimp only
            split
            · exact fun h => nomatch h
            · exact fun h => nomatch h
        · rename_i htok
          have hlt := unreached_of_no_token (hs j c hc).1 (hs j c hc).2
            (Nat.eq_zero_of_not_pos htok)
          split
          · rename_i hmod
            rw [Timer.modTimer_of_lt hlt] at hmod
            cases hmod
          · exact fun h => nomatch h

/-! ### Runs -/

/-- The timer of the scheduler between two events. -/
structure WakesUp (p : Params) (st : Heaped) : Prop where
  /-- A scheduler that throttles has an armed timer. -/
  armed : st.tbf.throttling = true →
    st.tbf.timer = some st.tbf.deadline ∧ st.tbf.now ≤ st.tbf.deadline
  /-- The timer is armed by the calls of `ModTimer`, until it expires. -/
  moved : ∀ e st', HeapStep p st e st' → (∀ now, e ≠ .timer now) →
    st'.tbf.timer = (st.tbf.modTimerCall p e).or st.tbf.timer
  /-- A call of `ModTimer` is for a time after now. -/
  later : Paced st.tbf → ∀ e t, st.tbf.modTimerCall p e = some t → st.tbf.now < t
  /-- The assertion of `RunAt` holds at every call. -/
  accepted : Paced st.tbf → (∀ msg, st.tbf.enqueue p msg ≠ .error .runAt) ∧
    ∀ root, st.tbf.dequeue root ≠ .error .runAt

/-- An event other than the timer arms the timer by its call. -/
theorem HeapStep.moved {st st' : Heaped} {e : Event} (hstep : HeapStep p st e st')
    (he : ∀ now, e ≠ .timer now) :
    st'.tbf.timer = (st.tbf.modTimerCall p e).or st.tbf.timer := by
  cases hstep with
  | clock => rfl
  | enqueue henq => exact enqueue_call henq
  | served _ hdeq => exact dequeue_call hdeq
  | idle _ hdeq => exact dequeue_call hdeq
  | finish hfin => exact (gate_eq_iff.mp (finish_gate hfin)).2.1
  | @timer s h => exact absurd rfl (he s.now)

/-- **The wake-up of a scheduler that throttles.** It holds in every run, between two events. -/
theorem throttling_wakes_up (p : Params) (rules : Nat → Rule) (ruleList : List Nat)
    (es : List Event) (st : Heaped)
    (hrun : Run (HeapStep p) ⟨start rules ruleList, []⟩ es st) : WakesUp p st := by
  have hstart : ThrottleInv (start rules ruleList) := rfl
  have hgate : ThrottleInv st.tbf :=
    hrun.invariant (P := fun st => ThrottleInv st.tbf) (fun _ _ _ hs hstep => hstep.throttle hs)
      hstart
  refine ⟨fun hthrottling => ?_, fun e st' hstep he => hstep.moved he, fun hpaced e t he => ?_,
    fun hpaced => ⟨fun msg => enqueue_accepted, fun root => dequeue_accepted hpaced⟩⟩
  · unfold ThrottleInv at hgate
    rwa [if_pos hthrottling] at hgate
  · cases e with
    | enqueue now msg => exact enqueueModTimer_lt he
    | dequeue now root msg => exact dequeueModTimer_lt hpaced he
    | clock => cases he
    | finish => cases he
    | timer => cases he

/-- The job `b` spends its two tokens and `Dequeue` throttles, and a request of a new job comes. -/
theorem throttling_wakes_up_two : ∃ st : Heaped, st.tbf.throttling = true ∧
    Run (HeapStep smallParams) ⟨start smallRules [0], []⟩
      [.enqueue 0 ⟨1, "b"⟩, .enqueue 0 ⟨2, "b"⟩, .enqueue 0 ⟨3, "b"⟩,
        .dequeue 0 (some "b") (some ⟨1, "b"⟩), .dequeue 0 (some "b") (some ⟨2, "b"⟩),
        .dequeue 0 (some "b") none, .enqueue 0 ⟨4, "a"⟩] st ∧ WakesUp smallParams st := by
  have hexists : ∃ st : Heaped, st.tbf.throttling = true ∧
      Run (HeapStep smallParams) ⟨start smallRules [0], []⟩
        [.enqueue 0 ⟨1, "b"⟩, .enqueue 0 ⟨2, "b"⟩, .enqueue 0 ⟨3, "b"⟩,
          .dequeue 0 (some "b") (some ⟨1, "b"⟩), .dequeue 0 (some "b") (some ⟨2, "b"⟩),
          .dequeue 0 (some "b") none, .enqueue 0 ⟨4, "a"⟩] st :=
    ⟨_, rfl, .cons (.enqueue rfl) <| .cons (.enqueue rfl) <| .cons (.enqueue rfl) <|
      .cons (.served ⟨⟨100000000, 0⟩, by decide, by decide⟩ rfl) <|
      .cons (.served ⟨⟨100000000, 0⟩, by decide, by decide⟩ rfl) <|
      .cons (.idle ⟨⟨100000000, 0⟩, by decide, by decide⟩ rfl) <| .cons (.enqueue rfl) (.nil _)⟩
  obtain ⟨st, hthrottling, hrun⟩ := hexists
  exact ⟨st, hthrottling, hrun, throttling_wakes_up _ _ _ _ st hrun⟩

end LustreSimulator.NrsTbf
