import LustreSimulator.Lib.Run
import LustreSimulator.Proofs.NrsEpoch
import LustreSimulator.Proofs.NrsFRR
import LustreSimulator.Proofs.NrsTbfHeap
import LustreSimulator.Scheduler

/-!
# `LustreSimulator.Proofs.Scheduler`: the counter of the schedulers

`Step.size_iff` is one call: `size` follows the messages that are enqueued and returned, except
where `Miscounts` says. `NrsTbf` never counts, and `NrsFRR` with `NRS_ALGO_DL_ONLY` does not count
what it returns. `size_run` is the result over runs.
-/

set_option autoImplicit false

namespace LustreSimulator

open Lib

/-- `Enqueue` of the priority scheduler counts the message. -/
theorem NrsPrio.enqueue_size {s s' : NrsPrio} {bw now msg : Nat}
    (hok : s.enqueue bw now msg = .ok s') : s'.size = s.size + 1 := by
  unfold NrsPrio.enqueue at hok
  obtain ⟨_, -, hok⟩ := bind_eq_ok.mp hok
  obtain ⟨deadline, -, hok⟩ := bind_eq_ok.mp hok
  cases hok
  rfl

/-- The search of the priority scheduler does not count. -/
theorem NrsPrio.strictPrioDequeue_size (s : NrsPrio) (i : Nat) :
    (s.strictPrioDequeue i).2.size = s.size := by
  induction i with
  | zero => rfl
  | succ i ih =>
      unfold NrsPrio.strictPrioDequeue
      split
      · rfl
      · exact ih

/-- `Dequeue` of the priority scheduler counts the message that it returns. -/
theorem NrsPrio.dequeue_size {s s' : NrsPrio} {out : Option Nat}
    (hok : s.dequeue = .ok (out, s')) :
    s'.size = s.size - (if out.isSome then 1 else 0) := by
  unfold NrsPrio.dequeue at hok
  split at hok
  · cases hok
    exact (Int.sub_zero _).symm
  · obtain ⟨msg, -, hok⟩ := bind_eq_ok.mp hok
    cases hok
    exact congrArg (· - 1) (s.strictPrioDequeue_size NrsPrio.prioQueueNum)

/-- `Finish` of the priority scheduler does not touch the counter. -/
theorem NrsPrio.finish_size (s : NrsPrio) (msg : Nat) : (s.finish msg).size = s.size := by
  unfold NrsPrio.finish
  rfl

/-- `Finish` of round robin does not touch the counter. -/
theorem NrsFRR.finish_size (s : NrsFRR) (msg : Nat) : (s.finish msg).size = s.size := by
  unfold NrsFRR.finish
  rfl

/-- `Dequeue` of the red-black tree counts the entry that it returns. -/
theorem NrsRbtree.dequeue_size {q q' : NrsRbtree Nat} {out : Option Nat}
    (hok : q.dequeue = some (out, q')) : q'.size = q.size - (if out.isSome then 1 else 0) := by
  unfold NrsRbtree.dequeue at hok
  split at hok
  · cases hok
    exact (Int.sub_zero _).symm
  · obtain ⟨t, -, heq⟩ := Option.map_eq_some_iff.mp hok
    cases heq
    rfl

/-- `Dequeue` of the queue counts the entry that it returns. -/
theorem NrsFifo.dequeue_size (q : NrsFifo Nat) :
    q.dequeue.2.size = q.size - (if q.dequeue.1.isSome then 1 else 0) := by
  unfold NrsFifo.dequeue
  cases q.Q with
  | nil => exact (Int.sub_zero _).symm
  | cons e rest => rfl

/-- `Dequeue` returns nothing when the heap is empty. -/
theorem NrsTbf.dequeue_empty {s s' : NrsTbf} {root : Option Jobid} {out : Option NrsTbf.Msg}
    (hheap : s.heap = []) (hroot : s.IsRoot root) (hok : s.dequeue root = .ok (out, s')) :
    out = none ∧ s'.heap = [] := by
  cases root with
  | some j =>
      change j ∈ s.heap at hroot
      rw [hheap] at hroot
      cases hroot
  | none =>
      unfold NrsTbf.dequeue at hok
      split at hok
      · cases hok
        exact ⟨rfl, hheap⟩
      · cases hok
        exact ⟨rfl, hheap⟩

namespace Scheduler

variable {p : Params} {s s' : Scheduler}

/-- The calls that the counter does not follow. -/
def Miscounts (p : Params) : Scheduler → Call → Prop
  | .tbf _ _, .enqueue _ _ _ => True
  | .frr s, .dequeue _ _ => p.frr.deadline = .dlOnly ∧ ¬ (s.Q1.Q = [] ∧ s.Q2.Q = [])
  | _, _ => False

/-- By how much a call should change the counter. -/
def Call.delta : Call → Int
  | .enqueue _ _ _ => 1
  | .dequeue _ (some _) => -1
  | _ => 0

/-- What a policy keeps as long as no call is miscounted. -/
def Kept : Scheduler → Prop
  | .epoch s => s.Counted
  | .tbf s _ => s.heap = []
  | _ => True

/-- `Enqueue`. -/
theorem enqueue_size_iff {now msg : Nat} {m : NrsMessage} (h : Kept s)
    (hok : s.enqueue p now msg m = some s') :
    (s'.size = s.size + 1 ↔ ¬ Miscounts p s (.enqueue now msg m)) ∧
      (¬ Miscounts p s (.enqueue now msg m) → Kept s') := by
  cases s with
  | fifo q =>
      cases hok
      exact ⟨iff_of_true rfl id, fun _ => trivial⟩
  | rbtree c msgs q =>
      dsimp only [enqueue] at hok
      split at hok
      · obtain ⟨q', henq, heq⟩ := Option.map_eq_some_iff.mp hok
        cases heq
        obtain ⟨t, -, heq⟩ := Option.map_eq_some_iff.mp henq
        cases heq
        exact ⟨iff_of_true rfl id, fun _ => trivial⟩
      · cases hok
  | frr s =>
      obtain ⟨t, henq, heq⟩ := Option.map_eq_some_iff.mp hok
      cases heq
      have hsize := NrsFRR.enqueue_size (toOption_eq_some.mp henq)
      exact ⟨iff_of_true hsize id, fun _ => trivial⟩
  | epoch s =>
      obtain ⟨t, henq, heq⟩ := Option.map_eq_some_iff.mp hok
      cases heq
      obtain ⟨hkept, hsize⟩ := NrsEpoch.Counted.enqueue h (toOption_eq_some.mp henq)
      exact ⟨iff_of_true hsize id, fun _ => hkept⟩
  | prio s =>
      obtain ⟨t, henq, heq⟩ := Option.map_eq_some_iff.mp hok
      cases heq
      have hsize := NrsPrio.enqueue_size (toOption_eq_some.mp henq)
      exact ⟨iff_of_true hsize id, fun _ => trivial⟩
  | tbf s size =>
      obtain ⟨t, -, heq⟩ := Option.map_eq_some_iff.mp hok
      cases heq
      -- the counter stays
      refine ⟨iff_of_false ?_ (fun hm => hm trivial), fun hm => absurd trivial hm⟩
      intro hsize
      change size = size + 1 at hsize
      omega

/-- `Dequeue`. -/
theorem dequeue_size_iff {now : Nat} {root : Option Jobid} {out : Option Nat} (h : Kept s)
    (hroot : s.IsRoot root) (hok : s.dequeue p now root = some (out, s')) :
    (s'.size = s.size - (if out.isSome then 1 else 0) ↔ ¬ Miscounts p s (.dequeue now out)) ∧
      (¬ Miscounts p s (.dequeue now out) → Kept s') := by
  cases s with
  | fifo q =>
      cases hok
      exact ⟨iff_of_true q.dequeue_size id, fun _ => trivial⟩
  | rbtree c msgs q =>
      obtain ⟨r, hdeq, heq⟩ := Option.map_eq_some_iff.mp hok
      cases heq
      exact ⟨iff_of_true (NrsRbtree.dequeue_size hdeq) id, fun _ => trivial⟩
  | frr s =>
      obtain ⟨r, hdeq, heq⟩ := Option.map_eq_some_iff.mp hok
      cases heq
      have hdeq := toOption_eq_some.mp hdeq
      refine ⟨?_, fun _ => trivial⟩
      by_cases hmode : p.frr.deadline = .dlOnly
      · -- the counter stays, so nothing may be returned
        obtain ⟨hsize, hnone⟩ := NrsFRR.dequeue_only hmode hdeq
        change r.2.size = s.size - (if r.1.isSome then 1 else 0) ↔ ¬ (_ ∧ _)
        rw [hsize]
        cases hout : r.1 with
        | none =>
            refine iff_of_true (Int.sub_zero _).symm ?_
            rintro ⟨-, hne⟩
            exact hne (hnone.mp hout)
        | some msg =>
            refine iff_of_false ?_ ?_
            · intro heq
              change s.size = s.size - 1 at heq
              omega
            · intro hm
              refine hm ⟨hmode, fun hempty => ?_⟩
              rw [hnone.mpr hempty] at hout
              cases hout
      · exact iff_of_true (NrsFRR.dequeue_size hmode hdeq) (fun hm => hmode hm.1)
  | epoch s =>
      cases hok
      rcases NrsEpoch.Counted.dequeue h with ⟨-, hdeq⟩ | ⟨e, t, hdeq, hkept, hsize⟩
      · change (s.dequeue.2.size = s.size - (if s.dequeue.1.isSome then 1 else 0) ↔ _) ∧
          (_ → s.dequeue.2.Counted)
        rw [hdeq]
        exact ⟨iff_of_true (Int.sub_zero _).symm id, fun _ => h⟩
      · change (s.dequeue.2.size = s.size - (if s.dequeue.1.isSome then 1 else 0) ↔ _) ∧
          (_ → s.dequeue.2.Counted)
        rw [hdeq]
        exact ⟨iff_of_true hsize id, fun _ => hkept⟩
  | prio s =>
      obtain ⟨r, hdeq, heq⟩ := Option.map_eq_some_iff.mp hok
      cases heq
      exact ⟨iff_of_true (NrsPrio.dequeue_size (toOption_eq_some.mp hdeq)) id, fun _ => trivial⟩
  | tbf s size =>
      obtain ⟨r, hdeq, heq⟩ := Option.map_eq_some_iff.mp hok
      cases heq
      have hdeq := toOption_eq_some.mp hdeq
      -- nothing has been enqueued, so there is nothing to return
      obtain ⟨hnone, hheap⟩ := NrsTbf.dequeue_empty (s := { s with now := now }) h hroot hdeq
      rw [hnone]
      exact ⟨iff_of_true (Int.sub_zero _).symm id, fun _ => hheap⟩

/-- `Finish` does not touch the counter. -/
theorem finish_size {now msg : Nat} {m : NrsMessage} (h : Kept s)
    (hok : s.finish p now msg m = some s') : s'.size = s.size ∧ Kept s' := by
  cases s with
  | fifo q =>
      cases hok
      exact ⟨rfl, trivial⟩
  | rbtree c msgs q =>
      cases hok
      exact ⟨rfl, trivial⟩
  | frr s =>
      cases hok
      exact ⟨s.finish_size msg, trivial⟩
  | epoch s =>
      cases hok
      exact ⟨rfl, h⟩
  | prio s =>
      cases hok
      exact ⟨s.finish_size msg, trivial⟩
  | tbf s size =>
      obtain ⟨t, hfin, heq⟩ := Option.map_eq_some_iff.mp hok
      cases heq
      exact ⟨rfl, (NrsTbf.finish_heap (toOption_eq_some.mp hfin)).1.trans h⟩

/-- The timers do not touch the counter. -/
theorem timer_size {now : Nat} (h : Kept s) (hok : s.timer now = some s') :
    s'.size = s.size ∧ Kept s' := by
  cases s with
  | fifo q => cases hok
  | rbtree c msgs q => cases hok
  | frr s => cases hok
  | epoch s =>
      obtain ⟨t, hexpire, heq⟩ := Option.map_eq_some_iff.mp hok
      cases heq
      obtain ⟨hkept, hsize⟩ := NrsEpoch.Counted.timeSliceExpire h (toOption_eq_some.mp hexpire)
      exact ⟨hsize, hkept⟩
  | prio s => cases hok
  | tbf s size =>
      cases hok
      exact ⟨rfl, h⟩

/-- One call changes the counter as it should if and only if it is not one that is miscounted. -/
theorem Step.size_iff {c : Call} (h : Kept s) (hstep : Step p s c s') :
    (s'.size = s.size + c.delta ↔ ¬ Miscounts p s c) ∧ (¬ Miscounts p s c → Kept s') := by
  cases hstep with
  | enqueue hok => exact enqueue_size_iff h hok
  | @dequeue _ now root out hroot hok =>
      have hdelta : s.size + (Call.dequeue now out).delta =
          s.size - (if out.isSome then 1 else 0) := by
        cases out with
        | none =>
            show s.size + 0 = s.size - 0
            rw [Int.add_zero, Int.sub_zero]
        | some msg => rfl
      rw [hdelta]
      exact dequeue_size_iff h hroot hok
  | finish hok =>
      obtain ⟨hsize, hkept⟩ := finish_size h hok
      rw [hsize]
      refine ⟨iff_of_true (Int.add_zero _).symm ?_, fun _ => hkept⟩
      cases s <;> exact id
  | timer hok =>
      obtain ⟨hsize, hkept⟩ := timer_size h hok
      rw [hsize]
      refine ⟨iff_of_true (Int.add_zero _).symm ?_, fun _ => hkept⟩
      cases s <;> exact id

/-! ### Runs -/

/-- A scheduler that a server has just installed is empty. -/
theorem setScheduler_kept {now : Nat} {msgs : Nat → NrsMessage} {a : Option NrsAlgo}
    (hset : setScheduler p now msgs a = some s) : Kept s ∧ s.size = 0 := by
  unfold setScheduler at hset
  cases hname : a.getD .fifo with
  | fifo =>
      rw [hname] at hset
      cases hset
      exact ⟨trivial, rfl⟩
  | fcfs =>
      rw [hname] at hset
      cases hset
      exact ⟨trivial, rfl⟩
  | byobjid =>
      rw [hname] at hset
      cases hset
      exact ⟨trivial, rfl⟩
  | bydeadline =>
      rw [hname] at hset
      cases hset
      exact ⟨trivial, rfl⟩
  | rbtree =>
      rw [hname] at hset
      cases hset
      exact ⟨trivial, rfl⟩
  | frr =>
      rw [hname] at hset
      cases hset
      exact ⟨trivial, rfl⟩
  | epoch =>
      rw [hname] at hset
      cases hset
      exact ⟨NrsEpoch.new_counted p.epoch now, rfl⟩
  | prio =>
      rw [hname] at hset
      cases hset
      exact ⟨trivial, rfl⟩
  | tbf =>
      rw [hname] at hset
      cases hset
      exact ⟨rfl, rfl⟩
  | binheap =>
      rw [hname] at hset
      cases hset
  | bykey =>
      rw [hname] at hset
      cases hset

/-- What a call adds to the two counts of messages. -/
theorem delta_cons (c : Call) (calls : List Call) :
    (enqueued (c :: calls) : Int) - returned (c :: calls) =
      c.delta + ((enqueued calls : Int) - returned calls) := by
  unfold enqueued returned
  rw [List.countP_cons, List.countP_cons]
  push_cast
  cases c with
  | enqueue now msg m =>
      show ((_ : Int) + 1) - (_ + 0) = 1 + _
      omega
  | dequeue now out =>
      cases out with
      | none =>
          show ((_ : Int) + 0) - (_ + 0) = 0 + _
          omega
      | some msg =>
          show ((_ : Int) + 0) - (_ + 1) = -1 + _
          omega
  | finish now msg m =>
      show ((_ : Int) + 0) - (_ + 0) = 0 + _
      omega
  | timer now =>
      show ((_ : Int) + 0) - (_ + 0) = 0 + _
      omega

/-- The counter follows the calls of a run that miscounts none. -/
theorem Kept.run {calls : List Call} (h : Kept s)
    (hrun : Run (fun s c t => ¬ Miscounts p s c ∧ Step p s c t) s calls s') :
    Kept s' ∧ s'.size = s.size + ((enqueued calls : Int) - returned calls) := by
  induction hrun with
  | nil s =>
      refine ⟨h, ?_⟩
      show s.size = s.size + (0 - 0)
      omega
  | @cons s t u c calls hstep _ ih =>
      obtain ⟨hiff, hkept⟩ := hstep.2.size_iff h
      obtain ⟨hu, hsize⟩ := ih (hkept hstep.1)
      refine ⟨hu, ?_⟩
      rw [hsize, hiff.mpr hstep.1, delta_cons]
      omega

/-- For every policy that a server can install, in a run that miscounts no call, `Size` is the
number of messages that were enqueued less the number that `Dequeue` returned. After a call that is
miscounted it is not. -/
theorem size_run {now : Nat} {msgs : Nat → NrsMessage} {a : Option NrsAlgo} {s₀ : Scheduler}
    {calls : List Call} (hset : setScheduler p now msgs a = some s₀)
    (hrun : Run (fun s c t => ¬ Miscounts p s c ∧ Step p s c t) s₀ calls s) :
    s.size = (enqueued calls : Int) - returned calls ∧
    ∀ c t, Step p s c t →
      (t.size = (enqueued (calls ++ [c]) : Int) - returned (calls ++ [c]) ↔ ¬ Miscounts p s c) := by
  obtain ⟨hkept, hzero⟩ := setScheduler_kept hset
  obtain ⟨hkept', hsize⟩ := hkept.run hrun
  rw [hzero, Int.zero_add] at hsize
  refine ⟨hsize, fun c t hstep => ?_⟩
  have hsnoc : (enqueued (calls ++ [c]) : Int) - returned (calls ++ [c]) = s.size + c.delta := by
    have hone := delta_cons c []
    change _ = c.delta + (0 - 0) at hone
    unfold enqueued returned at hone hsize ⊢
    rw [List.countP_append, List.countP_append]
    push_cast
    omega
  rw [hsnoc]
  exact (hstep.size_iff hkept').1

/-- The parameters of the examples: the default rule of `NrsTbf` lets one request pass in a
second. -/
def exampleParams : Params :=
  { frr := NrsFRR.exampleParams .dlOff, epoch := ⟨2, 2, fun _ => 0⟩, bw := 1
    tbf := ⟨0, 0, fun _ => 0, 0⟩
    rules := fun _ => ⟨[], 1, NrsTbf.nsecPerSec, 1, false, 0, 0, 0, 0, 0, 0, 0, 0⟩, ruleList := [] }

/-- A message of the examples. -/
def exampleMessage : NrsMessage := ⟨NrsFRR.exampleIo 0, 0, 0, 0⟩

/-- Two messages are enqueued and returned, and a third one is enqueued. -/
def exampleCalls : List Call :=
  [.enqueue 5 1 exampleMessage, .enqueue 5 2 ⟨NrsFRR.exampleIo 4096, 0, 0, 0⟩, .dequeue 6 (some 1),
    .dequeue 7 (some 2), .enqueue 8 3 ⟨NrsFRR.exampleIo 8192, 0, 0, 0⟩]

/-- The counter of `NrsFRR` is 1 after these calls. -/
theorem size_run_frr :
    ∃ s₀ s, setScheduler exampleParams 0 (fun _ => exampleMessage) (some .frr) = some s₀ ∧
      Run (fun s c t => ¬ Miscounts exampleParams s c ∧ Step exampleParams s c t) s₀
        exampleCalls s ∧
      (s.size = (enqueued exampleCalls : Int) - returned exampleCalls ∧
        ∀ c t, Step exampleParams s c t →
          (t.size = (enqueued (exampleCalls ++ [c]) : Int) - returned (exampleCalls ++ [c]) ↔
            ¬ Miscounts exampleParams s c)) := by
  obtain ⟨s₀, s, hset, hrun⟩ : ∃ s₀ s,
      setScheduler exampleParams 0 (fun _ => exampleMessage) (some .frr) = some s₀ ∧
      Run (fun s c t => ¬ Miscounts exampleParams s c ∧ Step exampleParams s c t) s₀
        exampleCalls s :=
    ⟨_, _, rfl, .cons ⟨id, .enqueue rfl⟩ <| .cons ⟨id, .enqueue rfl⟩ <|
      .cons ⟨fun h => absurd h.1 (by decide), @Step.dequeue _ _ _ _ none _ trivial rfl⟩ <|
      .cons ⟨fun h => absurd h.1 (by decide), @Step.dequeue _ _ _ _ none _ trivial rfl⟩ <|
      .cons ⟨id, .enqueue rfl⟩ (.nil _)⟩
  exact ⟨s₀, s, hset, hrun, size_run hset hrun⟩

/-- One message is enqueued with `NrsTbf`: `Size` is still 0. -/
theorem size_tbf :
    ¬ ∀ (p : Params) (now : Nat) (msgs : Nat → NrsMessage) (a : Option NrsAlgo) (s₀ s : Scheduler)
      (calls : List Call), setScheduler p now msgs a = some s₀ → Run (Step p) s₀ calls s →
      s.size = (enqueued calls : Int) - returned calls := by
  intro h
  have hsize := h exampleParams 0 (fun _ => exampleMessage) (some .tbf) _ _
    [.enqueue 5 1 exampleMessage] rfl (.cons (.enqueue rfl) (.nil _))
  exact absurd hsize (by decide)

end Scheduler

end LustreSimulator
