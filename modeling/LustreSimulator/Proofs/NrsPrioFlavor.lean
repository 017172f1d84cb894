import LustreSimulator.Lib.Ledger
import LustreSimulator.NrsPrioFlavor

/-!
# `LustreSimulator.Proofs.NrsPrioFlavor`: which calls of `Dequeue` deliver

`Serves` is the condition of a flavor. Strict priorities serve always. The quantum looks at one
queue only, `wq` or the one that `idx` names, and jumps back forever when that is empty. The check
of the deadlines looks at the head of every queue, follows a `NULL` message when a queue is empty,
and returns a message that is not due yet without taking it out of its queue.

`flavorDequeue_cases` and `flavorDequeue_serves` say what a call does, and `prio_lossless` is the
result over runs.
-/

set_option autoImplicit false

namespace LustreSimulator.NrsPrioFlavor

open Lib NrsMessage NrsPrio

variable {f : Flavor} {bw fuel now msg : Nat} {s t : NrsPrioFlavor}

/-- The messages in the queues. -/
def queued (s : NrsPrioFlavor) : List Nat := (s.Q 0).pq.Q ++ (s.Q 1).pq.Q

/-- The counters of the queues are right, and `wq` is one of the queues. -/
structure WF (s : NrsPrioFlavor) : Prop where
  pq : ∀ i, (s.Q i).pq.size = (s.Q i).pq.Q.length
  size : s.size = (queued s).length
  wq : ∀ i, s.wq = some i → i < prioQueueNum

/-- The condition under which a flavor serves a scheduler with messages. -/
def Serves (f : Flavor) (s : NrsPrioFlavor) (now : Nat) : Prop :=
  match f with
  | .strict => True
  | .quantumOnly => (s.Q (s.wq.getD (s.idx % prioQueueNum))).pq.Q ≠ []
  | .deadlineOnly | .dqps =>
      ∀ i < prioQueueNum, ∃ msg, (s.Q i).pq.first = some msg ∧ (s.io msg).deadline < now

/-- The message was the first of the queue `i` and has left it, and nothing else has moved. -/
structure Leaves (s : NrsPrioFlavor) (msg i : Nat) (t : NrsPrioFlavor) : Prop where
  lt : i < prioQueueNum
  head : (s.Q i).pq.Q = msg :: (t.Q i).pq.Q
  count : (t.Q i).pq.size = (s.Q i).pq.size - 1
  other : ∀ j, j ≠ i → (t.Q j).pq = (s.Q j).pq

/-- The requests and the counters of the scheduler are the same. -/
structure SameStat (s t : NrsPrioFlavor) : Prop where
  io : t.io = s.io
  size : t.size = s.size
  numQueued : t.numQueued = s.numQueued
  ioQueued : t.ioQueued = s.ioQueued
  numServiced : t.numServiced = s.numServiced
  ioServiced : t.ioServiced = s.ioServiced

/-- A queue is empty when it has no message. -/
theorem WF.empty_iff (h : WF s) (i : Nat) : (s.Q i).pq.empty = true ↔ (s.Q i).pq.Q = [] := by
  unfold NrsFifo.empty
  rw [decide_eq_true_iff, h.pq i]
  exact Int.natCast_eq_zero.trans List.length_eq_zero_iff

/-- The quantum looks at one of the queues. -/
theorem WF.turn_lt (h : WF s) : s.wq.getD (s.idx % prioQueueNum) < prioQueueNum := by
  cases hwq : s.wq with
  | none => exact Nat.mod_lt _ (by decide)
  | some j => exact h.wq j hwq

/-- Taking the first message of a queue. -/
theorem takeFirst_leaves {i : Nat} {rest : List Nat} (hi : i < prioQueueNum)
    (hQ : (s.Q i).pq.Q = msg :: rest) :
    (s.takeFirst i).1 = some msg ∧ Leaves s msg i (s.takeFirst i).2 ∧
      SameStat s (s.takeFirst i).2 := by
  have hdeq : (s.Q i).pq.dequeue = (some msg, ⟨rest, (s.Q i).pq.size - 1⟩) := by
    unfold NrsFifo.dequeue
    rw [hQ]
  have hat : ((s.takeFirst i).2.Q i).pq = ⟨rest, (s.Q i).pq.size - 1⟩ := by
    unfold takeFirst
    rw [hdeq]
    exact congrArg PrioQueue.pq (if_pos rfl)
  refine ⟨by unfold takeFirst; rw [hdeq], ⟨hi, ?_, ?_, fun j hj => ?_⟩,
    ⟨rfl, rfl, rfl, rfl, rfl, rfl⟩⟩
  · rw [hat, hQ]
  · rw [hat]
  · exact congrArg PrioQueue.pq (if_neg hj)

/-- `StrictPrioDequeue` takes the first message of the last queue that has one. -/
theorem strictPrioDequeue_leaves (h : WF s) (hne : s.size ≠ 0) :
    ∃ msg i, s.strictPrioDequeue.1 = some msg ∧ Leaves s msg i s.strictPrioDequeue.2 ∧
      SameStat s s.strictPrioDequeue.2 ∧ s.strictPrioDequeue.2.wq = s.wq := by
  -- the scan ends at one of the two queues
  have hscan : ∃ i, i < prioQueueNum ∧ (s.Q i).pq.Q ≠ [] ∧ s.strictPrioDequeue = s.takeFirst i := by
    by_cases h1 : (s.Q 1).pq.Q = []
    · have h0 : (s.Q 0).pq.Q ≠ [] := by
        intro h0
        have := h.size
        unfold queued at this
        rw [h0, h1] at this
        exact hne this
      refine ⟨0, by decide, h0, ?_⟩
      have hrun : s.toNrsPrio.strictPrioDequeue prioQueueNum = ((s.Q 0).pq.dequeue.1,
          { s.toNrsPrio with
            Q := fun k =>
              if k = 0 then { s.Q 0 with pq := (s.Q 0).pq.dequeue.2 } else s.Q k }) := by
        show (if (s.Q 1).pq.empty = false then _ else if (s.Q 0).pq.empty = false then _ else _) = _
        rw [if_neg (by rw [(h.empty_iff 1).mpr h1]; decide), if_pos]
        rw [← Bool.not_eq_true, h.empty_iff]
        exact h0
      unfold strictPrioDequeue
      rw [hrun]
      rfl
    · refine ⟨1, by decide, h1, ?_⟩
      have hrun : s.toNrsPrio.strictPrioDequeue prioQueueNum = ((s.Q 1).pq.dequeue.1,
          { s.toNrsPrio with
            Q := fun k =>
              if k = 1 then { s.Q 1 with pq := (s.Q 1).pq.dequeue.2 } else s.Q k }) := by
        show (if (s.Q 1).pq.empty = false then _ else _) = _
        rw [if_pos]
        rw [← Bool.not_eq_true, h.empty_iff]
        exact h1
      unfold strictPrioDequeue
      rw [hrun]
      rfl
  obtain ⟨i, hi, hQ, heq⟩ := hscan
  obtain ⟨msg, rest, hlist⟩ := List.exists_cons_of_ne_nil hQ
  obtain ⟨hout, hleaves, hstat⟩ := takeFirst_leaves hi hlist
  rw [heq]
  exact ⟨msg, i, hout, hleaves, hstat, rfl⟩

/-- `QuantumPrioDequeue` takes the first message of its queue and one of the quantum. At the end of
the quantum, `idx` goes on and `wq` is `NULL`. -/
theorem quantumPrioDequeue_eq {i : Nat} {rest : List Nat} (h : WF s) (fuel : Nat)
    (hi : s.wq.getD (s.idx % prioQueueNum) = i) (hlist : (s.Q i).pq.Q = msg :: rest) :
    ∃ t, quantumPrioDequeue (fuel + 1) s = .ok (some msg, t) ∧ Leaves s msg i t ∧ SameStat s t ∧
      t.quantum = (fun k => if k = i then s.quantum i - 1 else s.quantum k) ∧
      (t.wq, t.idx) = if s.quantum i - 1 = 0 then (none, (s.idx + 1) % prioQueueNum)
        else (some i, s.idx) := by
  have hlt : i < prioQueueNum := hi ▸ h.turn_lt
  have hfull : (s.Q i).pq.empty = false := by
    rw [← Bool.not_eq_true, h.empty_iff, hlist]
    exact List.cons_ne_nil _ _
  -- setting `wq` moves no message
  have hlist' : (({ s with wq := some i } : NrsPrioFlavor).Q i).pq.Q = msg :: rest := hlist
  obtain ⟨hout, hleaves, hstat⟩ := takeFirst_leaves hlt hlist'
  have hstat' : SameStat s (({ s with wq := some i } : NrsPrioFlavor).takeFirst i).2 :=
    ⟨hstat.io, hstat.size, hstat.numQueued, hstat.ioQueued, hstat.numServiced, hstat.ioServiced⟩
  unfold quantumPrioDequeue
  rw [hi]
  dsimp only
  rw [if_neg (by rw [hfull]; decide), hout]
  by_cases hq : s.quantum i - 1 = 0
  · rw [if_pos hq, if_pos hq]
    exact ⟨_, rfl, ⟨hlt, hleaves.head, hleaves.count, hleaves.other⟩,
      ⟨hstat'.io, hstat'.size, hstat'.numQueued, hstat'.ioQueued, hstat'.numServiced,
        hstat'.ioServiced⟩, rfl, rfl⟩
  · rw [if_neg hq, if_neg hq]
    exact ⟨_, rfl, ⟨hlt, hleaves.head, hleaves.count, hleaves.other⟩,
      ⟨hstat'.io, hstat'.size, hstat'.numQueued, hstat'.ioQueued, hstat'.numServiced,
        hstat'.ioServiced⟩, rfl, rfl⟩

/-- `QuantumPrioDequeue` takes the first message of its queue. -/
theorem quantumPrioDequeue_leaves (h : WF s) (fuel : Nat) (hserves : Serves .quantumOnly s now) :
    ∃ msg i t, quantumPrioDequeue (fuel + 1) s = .ok (some msg, t) ∧ Leaves s msg i t ∧
      SameStat s t ∧ ∀ j, t.wq = some j → j < prioQueueNum := by
  obtain ⟨msg, rest, hlist⟩ := List.exists_cons_of_ne_nil hserves
  obtain ⟨t, hrun, hleaves, hstat, -, hturn⟩ := quantumPrioDequeue_eq h fuel rfl hlist
  refine ⟨msg, _, t, hrun, hleaves, hstat, fun j hj => ?_⟩
  have hwq := congrArg Prod.fst hturn
  split at hwq
  · cases hwq.symm.trans hj
  · cases hwq.symm.trans hj
    exact h.turn_lt

/-- `QuantumPrioDequeue` jumps back forever when its queue is empty. -/
theorem quantumPrioDequeue_loop (h : WF s) (hserves : ¬ Serves .quantumOnly s now) (fuel : Nat) :
    quantumPrioDequeue fuel s = .error .fuel := by
  have hnil : (s.Q (s.wq.getD (s.idx % prioQueueNum))).pq.Q = [] := not_not.mp hserves
  clear hserves
  induction fuel generalizing s with
  | zero => rfl
  | succ fuel ih =>
      unfold quantumPrioDequeue
      dsimp only
      rw [if_pos ((h.empty_iff _).mpr hnil)]
      refine ih ⟨h.pq, h.size, fun j hj => ?_⟩ hnil
      obtain rfl := Option.some.inj hj
      exact h.turn_lt

/-- The check of the deadlines finds no message when both heads are due. -/
theorem deadlineCheckDequeue_due (hserves : Serves .deadlineOnly s now) :
    ∀ n ≤ prioQueueNum, s.deadlineCheckDequeue now n = .ok none := by
  intro n hn
  induction n with
  | zero => rfl
  | succ i ih =>
      obtain ⟨msg, hfirst, hdue⟩ := hserves i hn
      unfold deadlineCheckDequeue
      rw [hfirst]
      show (if (s.io msg).deadline ≥ now then _ else _) = _
      rw [if_neg (Nat.not_le.mpr hdue)]
      exact ih (Nat.le_of_succ_le hn)

/-- The check of the deadlines goes through when both heads are due. A message that it finds is the
head of a queue and not due yet. -/
theorem deadlineCheckDequeue_ok (n : Nat) (hn : n ≤ prioQueueNum) {out : Option Nat}
    (hok : s.deadlineCheckDequeue now n = .ok out) :
    (out = none ∧ ∀ i < n, ∃ msg, (s.Q i).pq.first = some msg ∧ (s.io msg).deadline < now) ∨
    ∃ i < n, ∃ msg, out = some msg ∧ (s.Q i).pq.first = some msg ∧ now ≤ (s.io msg).deadline := by
  induction n with
  | zero =>
      cases hok
      exact .inl ⟨rfl, fun i hi => absurd hi (Nat.not_lt_zero i)⟩
  | succ k ih =>
      unfold deadlineCheckDequeue at hok
      obtain ⟨msg, hfirst, hok⟩ := bind_eq_ok.mp hok
      have hfirst := require_eq_ok.mp hfirst
      by_cases hdue : (s.io msg).deadline ≥ now
      · rw [if_pos hdue] at hok
        cases hok
        exact .inr ⟨k, Nat.lt_succ_self k, msg, rfl, hfirst, hdue⟩
      · rw [if_neg hdue] at hok
        rcases ih (Nat.le_of_succ_le hn) hok with ⟨rfl, hall⟩ | ⟨i, hi, m, hout, hm, hle⟩
        · refine .inl ⟨rfl, fun i hi => ?_⟩
          rcases Nat.lt_succ_iff_lt_or_eq.mp hi with hlt | rfl
          · exact hall i hlt
          · exact ⟨msg, hfirst, Nat.not_le.mp hdue⟩
        · exact .inr ⟨i, Nat.lt_succ_of_lt hi, m, hout, hm, hle⟩

/-- A queue with a first message is not empty. -/
theorem first_mem {i : Nat} (hfirst : (s.Q i).pq.first = some msg) : msg ∈ (s.Q i).pq.Q :=
  List.mem_of_mem_head? hfirst

/-- When both heads are due, the quantum finds a message. -/
theorem serves_quantum (h : WF s) (hserves : Serves .deadlineOnly s now) :
    Serves .quantumOnly s now := by
  obtain ⟨msg, hfirst, -⟩ := hserves _ h.turn_lt
  exact List.ne_nil_of_mem (first_mem hfirst)

/-- A message in one of the two queues. -/
theorem mem_queued {i : Nat} (hi : i < prioQueueNum) (hmem : msg ∈ (s.Q i).pq.Q) :
    msg ∈ queued s := by
  unfold queued
  match i, hi with
  | 0, _ => exact List.mem_append_left _ hmem
  | 1, _ => exact List.mem_append_right _ hmem

/-- The message was taken out of its queue. -/
def Taken (s : NrsPrioFlavor) (out : Option Nat) (t : NrsPrioFlavor) : Prop :=
  ∃ msg i, out = some msg ∧ Leaves s msg i t ∧ SameStat s t ∧ ∀ j, t.wq = some j → j < prioQueueNum

/-- A flavor that serves takes a message. One unit of fuel is enough. -/
theorem flavorDequeue_serves (h : WF s) (hne : s.size ≠ 0) (fuel : Nat)
    (hserves : Serves f s now) :
    ∃ out t, flavorDequeue f (fuel + 1) s now = .ok (out, t) ∧ Taken s out t := by
  obtain ⟨msg, i, hstrict, hleaves, hstat, hwq⟩ := strictPrioDequeue_leaves h hne
  have htaken : Taken s s.strictPrioDequeue.1 s.strictPrioDequeue.2 :=
    ⟨msg, i, hstrict, hleaves, hstat, fun j hj => h.wq j (hwq ▸ hj)⟩
  unfold flavorDequeue
  cases f with
  | strict => exact ⟨_, _, rfl, htaken⟩
  | quantumOnly =>
      obtain ⟨m, k, t, hrun, hleaves, hstat, hwq⟩ := quantumPrioDequeue_leaves h fuel hserves
      exact ⟨some m, t, hrun, m, k, rfl, hleaves, hstat, hwq⟩
  | deadlineOnly =>
      dsimp only
      unfold dlPrioDequeue
      rw [deadlineCheckDequeue_due hserves _ (Nat.le_refl _)]
      exact ⟨_, _, rfl, htaken⟩
  | dqps =>
      obtain ⟨m, k, t, hrun, hleaves, hstat, hwq⟩ :=
        quantumPrioDequeue_leaves h fuel (serves_quantum h hserves)
      dsimp only
      unfold dqpsDequeue
      rw [deadlineCheckDequeue_due hserves _ (Nat.le_refl _)]
      exact ⟨some m, t, hrun, m, k, rfl, hleaves, hstat, hwq⟩

/-- A flavor that does not serve only looks at a message, if it returns. -/
theorem flavorDequeue_peeks {out : Option Nat} (h : WF s) (hserves : ¬ Serves f s now)
    (hok : flavorDequeue f fuel s now = .ok (out, t)) :
    t = s ∧ ∃ msg ∈ queued s, out = some msg := by
  -- a check of the deadlines that goes through has found a message
  have hpeek : ∀ {cont : Option Nat → Except Stop (Option Nat × NrsPrioFlavor)},
      (∀ msg, cont (some msg) = .ok (some msg, s)) → ¬ Serves .deadlineOnly s now →
      (s.deadlineCheckDequeue now prioQueueNum).bind cont = .ok (out, t) →
      t = s ∧ ∃ msg ∈ queued s, out = some msg := by
    intro cont hfound hnot hrun
    obtain ⟨r, hcheck, hrun⟩ := bind_eq_ok.mp hrun
    rcases deadlineCheckDequeue_ok _ (Nat.le_refl _) hcheck with
      ⟨-, hall⟩ | ⟨i, hi, msg, rfl, hfirst, -⟩
    · exact absurd hall hnot
    · cases (hfound msg).symm.trans hrun
      exact ⟨rfl, msg, mem_queued hi (first_mem hfirst), rfl⟩
  cases f with
  | strict => exact absurd trivial hserves
  | quantumOnly =>
      unfold flavorDequeue at hok
      dsimp only at hok
      rw [quantumPrioDequeue_loop h hserves] at hok
      cases hok
  | deadlineOnly => exact hpeek (fun _ => rfl) hserves hok
  | dqps => exact hpeek (fun _ => rfl) hserves hok

/-- A flavor that serves takes a message, with every amount of fuel that is enough. -/
theorem flavorDequeue_taken {out : Option Nat} (h : WF s) (hne : s.size ≠ 0)
    (hserves : Serves f s now) (hok : flavorDequeue f fuel s now = .ok (out, t)) :
    Taken s out t := by
  cases fuel with
  | succ fuel =>
      obtain ⟨out', t', hrun, htaken⟩ := flavorDequeue_serves h hne fuel hserves
      cases hok.symm.trans hrun
      exact htaken
  | zero =>
      -- without fuel the quantum does not return, and the others need none
      obtain ⟨out', t', hrun, htaken⟩ := flavorDequeue_serves h hne 0 hserves
      cases f with
      | strict =>
          cases hok.symm.trans hrun
          exact htaken
      | quantumOnly => cases hok
      | deadlineOnly =>
          cases hok.symm.trans hrun
          exact htaken
      | dqps =>
          unfold flavorDequeue dqpsDequeue at hok
          rw [deadlineCheckDequeue_due hserves _ (Nat.le_refl _)] at hok
          cases hok

/-! ### Calls -/

/-- What is left of the queues when a message leaves. -/
theorem Leaves.perm {i : Nat} (h : Leaves s msg i t) : (queued s).Perm (msg :: queued t) := by
  have hlt := h.lt
  have hhead := h.head
  have hother := h.other
  unfold queued
  match i, hlt with
  | 0, _ =>
      rw [hhead, hother 1 (by decide)]
      exact .refl _
  | 1, _ =>
      rw [hhead, hother 0 (by decide)]
      exact List.perm_middle

/-- The queues when a message has left. -/
theorem Leaves.wf {i : Nat} (hl : Leaves s msg i t) (h : WF s) (hsize : t.size = s.size - 1)
    (hwq : ∀ j, t.wq = some j → j < prioQueueNum) : WF t := by
  refine ⟨fun j => ?_, ?_, hwq⟩
  · by_cases hj : j = i
    · rw [hj, hl.count, h.pq i, hl.head, List.length_cons]
      omega
    · rw [hl.other j hj]
      exact h.pq j
  · have hlen := hl.perm.length_eq
    rw [List.length_cons] at hlen
    rw [hsize, h.size]
    omega

/-- A new message joins the queue of its priority. -/
theorem enqueue_joins (h : WF s) (hok : s.enqueue bw now msg = .ok t) :
    WF t ∧ (queued t).Perm (msg :: queued s) ∧ (∀ m, (t.io m).count = (s.io m).count) ∧
      t.numQueued = add64 s.numQueued 1 ∧ t.ioQueued = add64 s.ioQueued (s.io msg).count ∧
      t.numServiced = s.numServiced ∧ t.ioServiced = s.ioServiced := by
  unfold NrsPrioFlavor.enqueue at hok
  cases hrun : s.toNrsPrio.enqueue bw now msg with
  | error e =>
      rw [hrun] at hok
      cases hok
  | ok u =>
      rw [hrun] at hok
      cases hok
      unfold NrsPrio.enqueue at hrun
      obtain ⟨_, hprio, hrun⟩ := bind_eq_ok.mp hrun
      obtain ⟨deadline, -, hrun⟩ := bind_eq_ok.mp hrun
      have hprio := check_eq_ok.mp hprio
      cases hrun
      obtain ⟨i, hi⟩ : ∃ i, i = (s.io msg).prio.toNat := ⟨_, rfl⟩
      have hlt : i < prioQueueNum := by
        unfold prioQueueNum at hprio ⊢
        omega
      rw [← hi]
      have hperm : ((if 0 = i then { s.Q i with pq := (s.Q i).pq.enqueue msg } else s.Q 0).pq.Q ++
          (if 1 = i then { s.Q i with pq := (s.Q i).pq.enqueue msg } else s.Q 1).pq.Q).Perm
          (msg :: ((s.Q 0).pq.Q ++ (s.Q 1).pq.Q)) := by
        match i, hlt with
        | 0, _ =>
            rw [if_pos rfl, if_neg (by decide)]
            show ((s.Q 0).pq.Q ++ [msg] ++ (s.Q 1).pq.Q).Perm _
            rw [List.append_assoc]
            exact List.perm_middle
        | 1, _ =>
            rw [if_neg (by decide), if_pos rfl]
            show ((s.Q 0).pq.Q ++ ((s.Q 1).pq.Q ++ [msg])).Perm _
            rw [← List.append_assoc]
            exact List.perm_append_singleton _ _
      refine ⟨⟨fun j => ?_, ?_, h.wq⟩, hperm, fun m => ?_, rfl, rfl, rfl, rfl⟩
      · show ((if j = i then { s.Q i with pq := (s.Q i).pq.enqueue msg }
            else s.Q j).pq.size : Int) =
          ((if j = i then { s.Q i with pq := (s.Q i).pq.enqueue msg }
            else s.Q j).pq.Q.length : Int)
        split
        · show (s.Q i).pq.size + 1 = (((s.Q i).pq.Q ++ [msg]).length : Int)
          rw [h.pq i, List.length_append, List.length_singleton]
          rfl
        · exact h.pq j
      · have hcount : ∀ l : List Nat, l.Perm (msg :: queued s) → s.size + 1 = (l.length : Int) := by
          intro l hl
          rw [hl.length_eq, List.length_cons, h.size]
          rfl
        exact hcount _ hperm
      · show (if m = msg then { s.io msg with deadline := deadline } else s.io m).count = _
        split
        · next heq => rw [heq]
        · rfl

/-- A `Dequeue` that serves takes the message out of its queue and counts it. -/
theorem dequeue_taken {out : Option Nat} (h : WF s) (hne : s.size ≠ 0)
    (hserves : Serves f s now) (hok : dequeue f fuel s now = .ok (out, t)) :
    ∃ msg i, out = some msg ∧ Leaves s msg i t ∧ WF t ∧ t.io = s.io ∧
      t.numQueued = sub64 s.numQueued 1 ∧ t.ioQueued = sub64 s.ioQueued (s.io msg).count ∧
      t.numServiced = add64 s.numServiced 1 ∧
      t.ioServiced = add64 s.ioServiced (s.io msg).count := by
  unfold dequeue at hok
  rw [if_neg hne] at hok
  obtain ⟨⟨out', u⟩, hrun, hok⟩ := bind_eq_ok.mp hok
  obtain ⟨msg, hout, hok⟩ := bind_eq_ok.mp hok
  have hout : out' = some msg := require_eq_ok.mp hout
  obtain ⟨msg', i, hmsg, hleaves, hstat, hwq⟩ := flavorDequeue_taken h hne hserves hrun
  cases hmsg.symm.trans hout
  cases hok
  have hleaves' : Leaves s msg i { u with
      numQueued := sub64 u.numQueued 1
      numServiced := add64 u.numServiced 1
      ioQueued := sub64 u.ioQueued (s.io msg).count
      ioServiced := add64 u.ioServiced (s.io msg).count
      size := u.size - 1 } := ⟨hleaves.lt, hleaves.head, hleaves.count, hleaves.other⟩
  refine ⟨msg, i, rfl, hleaves', hleaves'.wf h ?_ hwq, hstat.io, ?_, ?_, ?_, ?_⟩
  · show u.size - 1 = _
    rw [hstat.size]
  · show sub64 u.numQueued 1 = _
    rw [hstat.numQueued]
  · show sub64 u.ioQueued _ = _
    rw [hstat.ioQueued]
  · show add64 u.numServiced 1 = _
    rw [hstat.numServiced]
  · show add64 u.ioServiced _ = _
    rw [hstat.ioServiced]

/-- `Dequeue` of an empty scheduler. -/
theorem dequeue_empty (hempty : s.size = 0) : dequeue f fuel s now = .ok (none, s) := if_pos hempty

/-- `Finish` is the one of strict priorities. -/
theorem finish_eq (s : NrsPrioFlavor) (msg : Nat) :
    s.finish msg = ⟨s.toNrsPrio.finish msg, s.quantum, s.wq, s.idx⟩ := rfl

/-- `Finish` changes the counters of the service only. -/
theorem finish_fields (s : NrsPrio) (msg : Nat) :
    (s.finish msg).Q = s.Q ∧ (s.finish msg).size = s.size ∧ (s.finish msg).io = s.io ∧
      (s.finish msg).numQueued = s.numQueued ∧ (s.finish msg).ioQueued = s.ioQueued := by
  unfold NrsPrio.finish
  exact ⟨rfl, rfl, rfl, rfl, rfl⟩

/-- `Finish` moves no message. -/
theorem finish_same (h : WF s) (msg : Nat) :
    WF (s.finish msg) ∧ queued (s.finish msg) = queued s := by
  obtain ⟨hQ, hsize, -⟩ := finish_fields s.toNrsPrio msg
  rw [finish_eq]
  have hqueued : queued ⟨s.toNrsPrio.finish msg, s.quantum, s.wq, s.idx⟩ = queued s := by
    unfold queued
    rw [hQ]
  refine ⟨⟨?_, ?_, h.wq⟩, hqueued⟩
  · rw [hQ]
    exact h.pq
  · rw [hqueued, hsize]
    exact h.size

/-! ### Runs -/

/-- What a call does to its message. -/
def Call.booking : Call → Booking Nat
  | .enqueue _ msg io => .arrive msg io.count
  | .dequeue _ (some msg) => .serve msg
  | .dequeue _ none => .idle
  | .finish msg => .leave msg

/-- The messages that the calls enqueue. -/
def Call.enqueued (calls : List Call) : List Nat := arrivals (calls.map Call.booking)

/-- The messages that the calls return. -/
def Call.dequeued (calls : List Call) : List Nat := services (calls.map Call.booking)

/-- A `Dequeue` of a scheduler with messages is one that the flavor serves. -/
def Call.Served (f : Flavor) (s : NrsPrioFlavor) : Call → Prop
  | .dequeue now _ => s.size ≠ 0 → Serves f s now
  | _ => True

/-- The request of a new message moves no message. -/
theorem WF.setReq (h : WF s) (msg : Nat) (io : Io) : WF (s.setReq msg io) := ⟨h.pq, h.size, h.wq⟩

/-- A call that is served keeps the invariant and moves its message only. -/
theorem Step.moves {c : Call} (h : WF s) (hserved : c.Served f s) (hstep : Step f bw s c t) :
    WF t ∧ Moves (queued s) (queued t) c.booking := by
  cases hstep with
  | @enqueue _ now msg io _ hok =>
      obtain ⟨hwf, hperm, -⟩ := enqueue_joins (h.setReq msg io) hok
      exact ⟨hwf, hperm⟩
  | @dequeue _ fuel now out hok =>
      by_cases hempty : s.size = 0
      · cases (dequeue_empty hempty).symm.trans hok
        exact ⟨h, .refl _⟩
      · obtain ⟨msg, i, rfl, hleaves, hwf, -⟩ := dequeue_taken h hempty (hserved hempty) hok
        exact ⟨hwf, hleaves.perm⟩
  | @finish msg =>
      obtain ⟨hwf, hqueued⟩ := finish_same h msg
      refine ⟨hwf, ?_⟩
      show (queued (s.finish msg)).Perm (queued s)
      rw [hqueued]

/-- A new scheduler has no messages. -/
theorem wf_new (io : Nat → Io) : WF (new io) := by
  refine ⟨fun i => ?_, rfl, fun i hi => nomatch hi⟩
  show ((if i = 0 then ⟨true, .new, 0⟩ else ⟨false, .new, 5000000000⟩ : PrioQueue).pq.size : Int) =
    ((if i = 0 then ⟨true, .new, 0⟩ else ⟨false, .new, 5000000000⟩ : PrioQueue).pq.Q.length : Int)
  split <;> rfl

/-- `Dequeue` returns the first message of one of the queues, and takes it out of that queue. -/
def Delivers (f : Flavor) (s : NrsPrioFlavor) (now : Nat) : Prop :=
  ∃ fuel msg t, dequeue f fuel s now = .ok (some msg, t) ∧ ∃ i < prioQueueNum,
    (s.Q i).pq.Q = msg :: (t.Q i).pq.Q ∧ ∀ j, j ≠ i → (t.Q j).pq = (s.Q j).pq

/-- A scheduler with messages delivers exactly when its flavor serves it. -/
theorem delivers_iff (h : WF s) (hne : s.size ≠ 0) : Delivers f s now ↔ Serves f s now := by
  constructor
  · rintro ⟨fuel, msg, t, hok, i, -, hhead, -⟩
    by_contra hserves
    unfold dequeue at hok
    rw [if_neg hne] at hok
    obtain ⟨⟨out, u⟩, hrun, hok⟩ := bind_eq_ok.mp hok
    obtain ⟨m, -, hok⟩ := bind_eq_ok.mp hok
    obtain ⟨hsame, -⟩ := flavorDequeue_peeks h hserves hrun
    cases hok
    -- the queue is as long as before
    have hlen := congrArg List.length hhead
    rw [List.length_cons] at hlen
    change (s.Q i).pq.Q.length = (u.Q i).pq.Q.length + 1 at hlen
    rw [hsame] at hlen
    omega
  · intro hserves
    obtain ⟨out, u, hrun, msg, i, rfl, hleaves, -⟩ := flavorDequeue_serves h hne 0 hserves
    have hok : dequeue f 1 s now = .ok (some msg, { u with
        numQueued := sub64 u.numQueued 1
        numServiced := add64 u.numServiced 1
        ioQueued := sub64 u.ioQueued (s.io msg).count
        ioServiced := add64 u.ioServiced (s.io msg).count
        size := u.size - 1 }) := by
      unfold dequeue
      rw [if_neg hne, hrun]
      rfl
    exact ⟨1, msg, _, hok, i, hleaves.lt, hleaves.head, hleaves.other⟩

/-- In a run in which every `Dequeue` of a scheduler with messages is one that the flavor serves,
the messages enqueued so far are the ones returned and the ones in the queues, each once. A
scheduler with messages delivers exactly when its flavor serves it, and then a message that was
enqueued and, when no message was enqueued twice, not returned before. -/
theorem prio_lossless {io : Nat → Io} {calls : List Call}
    (hrun : Run (fun s c t => c.Served f s ∧ Step f bw s c t) (new io) calls s) :
    (Call.enqueued calls).Perm (Call.dequeued calls ++ queued s) ∧
    s.size = (queued s).length ∧
    (∀ now, s.size ≠ 0 → (Delivers f s now ↔ Serves f s now)) ∧
    ∀ msg ∈ queued s, msg ∈ Call.enqueued calls ∧
      ((Call.enqueued calls).Nodup → msg ∉ Call.dequeued calls) := by
  have hwf : WF s := hrun.invariant (fun _ _ _ h hstep => (hstep.2.moves h hstep.1).1) (wf_new io)
  have hperm : (Call.enqueued calls).Perm (Call.dequeued calls ++ queued s) :=
    Run.conserved WF queued Call.booking
      (fun _ _ _ h hstep => hstep.2.moves h hstep.1) hrun (wf_new io)
  refine ⟨hperm, hwf.size, fun now hne => delivers_iff hwf hne,
    fun msg hmsg => ⟨?_, fun hnodup => ?_⟩⟩
  · exact hperm.mem_iff.mpr (List.mem_append_right _ hmsg)
  · have hapart := (List.nodup_append.mp (hperm.nodup_iff.mp hnodup)).2.2
    exact fun hin => hapart msg hin msg hmsg rfl

/-- A request of a priority. -/
def prioIo (prio : Int) : Io :=
  { cmd := .read, prio := prio, flgDeadline := false, flgDynamicDeadline := false
    flgMandatoryDeadline := false, flgDeadline1 := false, flgDeadline2 := false, fid := 0
    off := 0, count := 4096, jobid := "", deadline := 0 }

/-- With quanta, a message of each priority is enqueued and the one of the priority 1 is served. -/
theorem prio_lossless_two :
    ∃ s, Run (fun s c t => Call.Served .quantumOnly s c ∧ Step .quantumOnly 1 s c t)
        (new fun _ => prioIo 0)
        [.enqueue 0 1 (prioIo 0), .enqueue 0 2 (prioIo 1), .dequeue 3 (some 2)] s ∧
      [1, 2].Perm ([2] ++ queued s) := by
  have hrun : ∃ s, Run (fun s c t => Call.Served .quantumOnly s c ∧ Step .quantumOnly 1 s c t)
      (new fun _ => prioIo 0)
      [.enqueue 0 1 (prioIo 0), .enqueue 0 2 (prioIo 1), .dequeue 3 (some 2)] s :=
    ⟨_, .cons ⟨trivial, .enqueue (fun i h => by
        change 1 ∈ (if i = 0 then _ else _ : PrioQueue).pq.Q at h
        split at h <;> cases h) rfl⟩
      (.cons ⟨trivial, .enqueue (fun i h => by
        change 2 ∈ (if i = 0 then _ else if i = 0 then _ else _ : PrioQueue).pq.Q at h
        split at h
        · revert h
          decide
        · cases h) rfl⟩
      (.cons ⟨fun _ => List.cons_ne_nil _ _, @Step.dequeue _ _ _ _ 1 _ _ rfl⟩ (.nil _)))⟩
  obtain ⟨s, hrun⟩ := hrun
  exact ⟨s, hrun, (prio_lossless hrun).1⟩

/-- The only message has the priority 0. With quanta, `Dequeue` looks at the queue of the priority 1
forever. -/
theorem prio_not_delivered :
    ¬ ∀ (f : Flavor) (bw : Nat) (io : Nat → Io) (calls : List Call) (s : NrsPrioFlavor),
      Run (Step f bw) (new io) calls s → s.size ≠ 0 → ∀ now, Delivers f s now := by
  intro h
  have hstep : ∃ s, Step .quantumOnly 1 (new fun _ => prioIo 0) (.enqueue 0 1 (prioIo 0)) s ∧
      s.size ≠ 0 ∧ (s.Q (s.wq.getD (s.idx % prioQueueNum))).pq.Q = [] :=
    ⟨_, .enqueue (fun i h => by
      change 1 ∈ (if i = 0 then _ else _ : PrioQueue).pq.Q at h
      split at h <;> cases h) rfl, by decide, rfl⟩
  obtain ⟨s, hstep, hne, hnil⟩ := hstep
  have hserved : Call.Served .quantumOnly (new fun _ => prioIo 0) (.enqueue 0 1 (prioIo 0)) :=
    trivial
  have hwf := (hstep.moves (wf_new _) hserved).1
  exact (delivers_iff hwf hne).mp (h _ _ _ _ s (.cons hstep (.nil s)) hne 0) hnil

end LustreSimulator.NrsPrioFlavor
