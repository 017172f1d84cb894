import LustreSimulator.Proofs.Event
import LustreSimulator.Proofs.NrsBinheap

/-!
# `LustreSimulator.Proofs.RunQueue`: the two run queues compared

`returned` is the list of the events that `NextRunEvent` returns in a sequence of operations on the
run queue. `returned_eq` says that the red-black tree and the binary heap return the same list when
no two events in the queue have the same `runTime`, the heap has a cell for each event, and no
operation is `RemoveFromRunQ`. `Matched` relates the two programs after each operation.

`RemoveFromRunQ` leaves the event in a binary heap, as `NrsBinheap::Erase` is not implemented
(`returned_removed`).
-/

set_option autoImplicit false

namespace LustreSimulator.EventLoop

open Lib

/-- The operations on the run queue. An event gets its `runTime` when it is inserted. -/
inductive QueueOp where
  | insert (e runTime : Nat)
  | remove (e : Nat)
  | next
  deriving DecidableEq, Repr

/-- One operation, with the event that it returns. -/
def queueStep (s : EventLoop) : QueueOp → Except Fault (List (Option Nat) × EventLoop)
  | .insert e runTime =>
      (check (s.run e = false) .run).bind fun _ =>
      ((s.setRunTime e runTime).insertRunQ e).bind fun s => .ok ([], s)
  | .remove e => (s.removeFromRunQ e).bind fun s => .ok ([], s)
  | .next => s.nextRunEvent.bind fun r => .ok ([r.1], r.2)

/-- What `NextRunEvent` returns in a sequence of operations. -/
def returned : List QueueOp → EventLoop → Except Fault (List (Option Nat))
  | [], _ => .ok []
  | op :: ops, s =>
      (s.queueStep op).bind fun r =>
      (returned ops r.2).bind fun out => .ok (r.1 ++ out)

/-- The condition holds before each operation. -/
def Along (C : EventLoop → QueueOp → Prop) : List QueueOp → EventLoop → Prop
  | [], _ => True
  | op :: ops, s => C s op ∧ ∀ r, s.queueStep op = .ok r → Along C ops r.2

/-- The number of events in the run queue. -/
def RunQ.size : RunQ → Int
  | .rbtree q => q.size
  | .binheap q => q.size

/-- The operation gives the event a `runTime` that no event in the run queue has. -/
def Distinct (s : EventLoop) : QueueOp → Prop
  | .insert _ runTime => ∀ a, s.run a = true → s.runTime a ≠ runTime
  | _ => True

/-- The operation is not `RemoveFromRunQ`, and a heap has a cell for the event. -/
def Kept (s : EventLoop) : QueueOp → Prop
  | .insert _ _ => s.runQ.size < NrsBinheap.caaCapacity
  | .remove _ => False
  | .next => True

/-- The comparison of the heap is a total preorder. -/
theorem ordered_binheapRunTimeCompare (runTime : Nat → Nat) :
    NrsBinheap.Ordered (binheapRunTimeCompare runTime) := by
  constructor
  · intro x y
    unfold binheapRunTimeCompare
    rw [decide_eq_true_iff, decide_eq_true_iff]
    exact Nat.le_total _ _
  · intro x y z
    unfold binheapRunTimeCompare
    rw [decide_eq_true_iff, decide_eq_true_iff, decide_eq_true_iff]
    exact fun hxy hyz => Nat.le_trans hxy hyz

/-- The program with the tree and the program with the heap hold the same events. -/
structure Matched (s s' : EventLoop) : Prop where
  inv : Inv s
  heap : ∃ h, s'.runQ = .binheap h ∧
    NrsBinheap.WF (binheapRunTimeCompare s.runTime) h ∧ h.elements = (s.runQ.entries : Multiset Nat)
  runTime : s'.runTime = s.runTime
  run : s'.run = s.run
  distinct : ∀ a ∈ s.runQ.entries, ∀ b ∈ s.runQ.entries, s.runTime a = s.runTime b → a = b

variable {s s' : EventLoop} {e time : Nat}

/-- The programs start with empty queues. -/
theorem matched_start (now : Nat) :
    Matched (start (.rbtree .new) now) (start (.binheap .new) now) := by
  refine ⟨(good_start 0 now).inv, ⟨.new, rfl, NrsBinheap.wf_new, rfl⟩, rfl, rfl, ?_⟩
  intro a ha
  cases ha

/-- The counter of the tree is right. -/
theorem Inv.size (h : Inv s) : s.runQ.size = s.runQ.entries.length := by
  obtain ⟨q, hq, hwf⟩ := h.tree
  rw [hq]
  exact hwf.size

/-- The `runTime` of an event that is not in the queues may change. -/
theorem Matched.setRunTime (h : Matched s s') (hrun : s.run e = false) (time : Nat) :
    Matched (s.setRunTime e time) (s'.setRunTime e time) := by
  obtain ⟨q, hq, hwf, helems⟩ := h.heap
  have hother : ∀ a ∈ s.runQ.entries, (s.setRunTime e time).runTime a = s.runTime a := by
    intro a ha
    have hae : a ≠ e := by
      rintro rfl
      rw [(h.inv.run a).mp ha] at hrun
      cases hrun
    exact if_neg hae
  have hmem : ∀ a ∈ q.elements, a ∈ s.runQ.entries := by
    intro a ha
    rw [helems] at ha
    exact ha
  refine ⟨h.inv.setRunTime hrun time, ⟨q, hq, hwf.congr ?_, helems⟩, ?_, h.run, ?_⟩
  · intro x hx y hy
    unfold binheapRunTimeCompare
    rw [hother x (hmem x hx), hother y (hmem y hy)]
  · show (fun i => if i = e then time else s'.runTime i) = fun i => _
    rw [h.runTime]
    rfl
  · intro a ha b hb hab
    rw [hother a ha, hother b hb] at hab
    exact h.distinct a ha b hb hab

/-- `InsertRunQ` does the same on both sides. -/
theorem Matched.insert (h : Matched s s') (hrun : s.run e = false)
    (hdistinct : ∀ a, s.run a = true → s.runTime a ≠ s.runTime e)
    (hroom : s.runQ.size < NrsBinheap.caaCapacity) :
    ∃ s₁ s₁', s.insertRunQ e = .ok s₁ ∧ s'.insertRunQ e = .ok s₁' ∧ Matched s₁ s₁' := by
  obtain ⟨q, hq, hwf, helems⟩ := h.heap
  obtain ⟨t, htree, htwf, hsorted, hperm⟩ := enqueue_spec h.inv e
  have hcap : q.cbhSize < NrsBinheap.caaCapacity := by
    have hcard := NrsBinheap.card_elements q
    rw [helems, Multiset.coe_card] at hcard
    rw [h.inv.size, hcard] at hroom
    exact Int.ofNat_lt.mp hroom
  obtain ⟨q', henq, hwf', helems', -⟩ :=
    NrsBinheap.enqueue_spec (e := e) (ordered_binheapRunTimeCompare s.runTime) hwf hcap
  have hheap : s'.runQ.enqueue s'.runTime e = some (.binheap q') := by
    rw [hq, h.runTime]
    show (q.enqueue _ e).map _ = _
    rw [henq]
    rfl
  have hrun' : s'.run e = false := by
    rw [h.run]
    exact hrun
  have hins : s.insertRunQ e = .ok { s with
      runQ := .rbtree t
      run := fun i => if i = e then true else s.run i
      armNo := fun i => if i = e then s.armed.length else s.armNo i
      armed := s.armed ++ [⟨s.armed.length, e, s.runTime e⟩] } := by
    unfold insertRunQ
    rw [check_true hrun, ok_bind, htree]
  have hins' : s'.insertRunQ e = .ok { s' with
      runQ := .binheap q'
      run := fun i => if i = e then true else s'.run i
      armNo := fun i => if i = e then s'.armed.length else s'.armNo i
      armed := s'.armed ++ [⟨s'.armed.length, e, s'.runTime e⟩] } := by
    unfold insertRunQ
    rw [check_true hrun', ok_bind, hheap]
  refine ⟨_, _, hins, hins', h.inv.insert hrun htwf hsorted hperm rfl (fun _ => rfl) rfl,
    ⟨q', rfl, hwf', ?_⟩, h.runTime, ?_, ?_⟩
  · show q'.elements = (t.entries : Multiset Nat)
    rw [helems', helems, Multiset.cons_coe]
    exact (Multiset.coe_eq_coe.mpr hperm).symm
  · show (fun i => if i = e then true else s'.run i) = fun i => if i = e then true else s.run i
    rw [h.run]
  · intro a ha b hb hab
    rcases List.mem_cons.mp (hperm.mem_iff.mp ha) with hae | ha'
    · rcases List.mem_cons.mp (hperm.mem_iff.mp hb) with hbe | hb'
      · rw [hae, hbe]
      · exact absurd (hae ▸ hab.symm) (hdistinct b ((h.inv.run b).mp hb'))
    · rcases List.mem_cons.mp (hperm.mem_iff.mp hb) with hbe | hb'
      · exact absurd (hbe ▸ hab) (hdistinct a ((h.inv.run a).mp ha'))
      · exact h.distinct a ha' b hb' hab

/-- `NextRunEvent` returns the same event on both sides, as only one has the least `runTime`. -/
theorem Matched.next (h : Matched s s') :
    ∃ o s₁ s₁', s.nextRunEvent = .ok (o, s₁) ∧ s'.nextRunEvent = .ok (o, s₁') ∧
      Matched s₁ s₁' := by
  obtain ⟨q, hq, hwf, helems⟩ := h.heap
  have hdequeue : s'.runQ.dequeue s'.runTime =
      some ((q.dequeue (binheapRunTimeCompare s.runTime)).1,
        .binheap (q.dequeue (binheapRunTimeCompare s.runTime)).2) := by
    rw [hq, h.runTime]
    rfl
  rcases nextRunEvent_spec h.inv with ⟨hempty, s₁, hnext, rfl⟩ | ⟨e, t, hnext, hinv, hlist, hmin⟩
  · rcases NrsBinheap.dequeue_spec (ordered_binheapRunTimeCompare s₁.runTime) hwf with
      ⟨-, hdeq⟩ | ⟨x, q', -, -, hcons, -, -⟩
    · rw [hdeq] at hdequeue
      refine ⟨none, s₁, { s' with runQ := .binheap q }, hnext, ?_, h.inv, ⟨q, rfl, hwf, helems⟩,
        h.runTime, h.run, h.distinct⟩
      unfold nextRunEvent
      rw [hdequeue]
    · rw [helems, hempty] at hcons
      exact absurd hcons.symm (Multiset.cons_ne_zero)
  · rcases NrsBinheap.dequeue_spec (ordered_binheapRunTimeCompare s.runTime) hwf with
      ⟨hzero, -⟩ | ⟨x, q', hdeq, hwf', hcons, hleast, -⟩
    · rw [helems, hlist, ← Multiset.cons_coe] at hzero
      exact absurd hzero (Multiset.cons_ne_zero)
    · have hx : x ∈ s.runQ.entries := by
        have hmem : x ∈ q.elements := by
          rw [hcons]
          exact Multiset.mem_cons_self x q'.elements
        rw [helems] at hmem
        exact hmem
      have he : e ∈ s.runQ.entries := by
        rw [hlist]
        exact List.mem_cons_self
      have hxe : x = e := by
        apply h.distinct x hx e he
        apply Nat.le_antisymm
        · exact of_decide_eq_true (hleast e (by rw [helems]; exact he))
        · rw [hlist] at hx
          rcases List.mem_cons.mp hx with rfl | hx
          · exact Nat.le_refl _
          · exact hmin x hx
      subst hxe
      rw [hdeq] at hdequeue
      refine ⟨some x, _, { s' with
          runQ := .binheap q', run := fun i => if i = x then false else s'.run i }, hnext, ?_, hinv,
        ⟨q', rfl, hwf', ?_⟩, h.runTime, ?_, ?_⟩
      · unfold nextRunEvent
        rw [hdequeue]
      · show q'.elements = (t.entries : Multiset Nat)
        rw [helems, hlist, ← Multiset.cons_coe] at hcons
        exact ((Multiset.cons_inj_right x).mp hcons).symm
      · show (fun i => if i = x then false else s'.run i) =
          fun i => if i = x then false else s.run i
        rw [h.run]
      · intro a ha b hb
        apply h.distinct
        · rw [hlist]
          exact List.mem_cons_of_mem x ha
        · rw [hlist]
          exact List.mem_cons_of_mem x hb

/-- One operation does the same on both sides, or fails on both. -/
theorem Matched.step (h : Matched s s') {op : QueueOp} (hdistinct : Distinct s op)
    (hkept : Kept s op) :
    (∃ f, s.queueStep op = .error f ∧ s'.queueStep op = .error f) ∨
    ∃ out s₁ s₁', s.queueStep op = .ok (out, s₁) ∧ s'.queueStep op = .ok (out, s₁') ∧
      Matched s₁ s₁' := by
  cases op with
  | insert e runTime =>
      cases hrun : s.run e with
      | true =>
          left
          refine ⟨.run, ?_, ?_⟩
          · show (check (s.run e = false) Fault.run).bind _ = _
            rw [hrun]
            rfl
          · show (check (s'.run e = false) Fault.run).bind _ = _
            rw [h.run, hrun]
            rfl
      | false =>
          right
          have hself : (s.setRunTime e runTime).runTime e = runTime := if_pos rfl
          have hdiff : ∀ a, (s.setRunTime e runTime).run a = true →
              (s.setRunTime e runTime).runTime a ≠ (s.setRunTime e runTime).runTime e := by
            intro a ha
            have hae : a ≠ e := by
              rintro rfl
              rw [show s.run a = true from ha] at hrun
              cases hrun
            rw [hself]
            show (if a = e then runTime else s.runTime a) ≠ runTime
            rw [if_neg hae]
            exact hdistinct a ha
          obtain ⟨s₁, s₁', hins, hins', hmatched⟩ :=
            (h.setRunTime hrun runTime).insert hrun hdiff hkept
          refine ⟨[], s₁, s₁', ?_, ?_, hmatched⟩
          · unfold queueStep
            dsimp only
            rw [check_true hrun, ok_bind, hins, ok_bind]
          · unfold queueStep
            dsimp only
            rw [check_true (show s'.run e = false by rw [h.run]; exact hrun), ok_bind, hins',
              ok_bind]
  | remove e => exact absurd hkept id
  | next =>
      right
      obtain ⟨o, s₁, s₁', hnext, hnext', hmatched⟩ := h.next
      refine ⟨[o], s₁, s₁', ?_, ?_, hmatched⟩
      · unfold queueStep
        dsimp only
        rw [hnext, ok_bind]
      · unfold queueStep
        dsimp only
        rw [hnext', ok_bind]

/-- Matched programs return the same events. -/
theorem Matched.returned {ops : List QueueOp} : ∀ {s s' : EventLoop}, Matched s s' →
    Along Distinct ops s → Along Kept ops s → returned ops s = returned ops s' := by
  induction ops with
  | nil => exact fun _ _ _ => rfl
  | cons op ops ih =>
      rintro s s' h ⟨hdistinct, hdistincts⟩ ⟨hkept, hkepts⟩
      unfold EventLoop.returned
      rcases h.step hdistinct hkept with ⟨f, hs, hs'⟩ | ⟨out, s₁, s₁', hs, hs', hmatched⟩
      · rw [hs, hs']
      · rw [hs, hs', ok_bind, ok_bind, ih hmatched (hdistincts _ hs) (hkepts _ hs)]

/-- **The two algorithms.** The red-black tree and the binary heap return the same events in every
sequence of operations in which no two events in the queue have the same `runTime`, no event is
removed, and the heap has a cell for each. -/
theorem returned_eq {ops : List QueueOp} (now : Nat)
    (hdistinct : Along Distinct ops (start (.rbtree .new) now))
    (hkept : Along Kept ops (start (.rbtree .new) now)) :
    returned ops (start (.rbtree .new) now) = returned ops (start (.binheap .new) now) :=
  (matched_start now).returned hdistinct hkept

/-- Two events with different `runTime`. -/
theorem returned_eq_two :
    returned [.insert 0 7, .insert 1 5, .next, .next] (start (.rbtree .new) 0) =
      returned [.insert 0 7, .insert 1 5, .next, .next] (start (.binheap .new) 0) := by
  apply returned_eq
  · refine ⟨fun a ha => (nomatch ha), fun r hr => ?_⟩
    cases hr
    refine ⟨fun a ha => ?_, fun r hr => ?_⟩
    · by_cases ha0 : a = 0
      · rw [ha0]
        decide
      · have hnone : (if a = 0 then true else false) = true := ha
        rw [if_neg ha0] at hnone
        cases hnone
    · cases hr
      refine ⟨trivial, fun r hr => ?_⟩
      cases hr
      exact ⟨trivial, fun _ _ => trivial⟩
  · refine ⟨(by decide : (0 : Int) < NrsBinheap.caaCapacity), fun r hr => ?_⟩
    cases hr
    refine ⟨(by decide : (1 : Int) < NrsBinheap.caaCapacity), fun r hr => ?_⟩
    cases hr
    refine ⟨trivial, fun r hr => ?_⟩
    cases hr
    exact ⟨trivial, fun _ _ => trivial⟩

/-- The heap returns an event that was removed. -/
theorem returned_removed :
    Along Distinct [.insert 0 5, .insert 1 7, .remove 0, .next] (start (.rbtree .new) 0) ∧
      returned [.insert 0 5, .insert 1 7, .remove 0, .next] (start (.rbtree .new) 0) =
        .ok [some 1] ∧
      returned [.insert 0 5, .insert 1 7, .remove 0, .next] (start (.binheap .new) 0) =
        .ok [some 0] := by
  refine ⟨⟨fun a ha => (nomatch ha), fun r hr => ?_⟩, rfl, rfl⟩
  cases hr
  refine ⟨fun a ha => ?_, fun r hr => ?_⟩
  · by_cases ha0 : a = 0
    · rw [ha0]
      decide
    · have hnone : (if a = 0 then true else false) = true := ha
      rw [if_neg ha0] at hnone
      cases hnone
  · cases hr
    refine ⟨trivial, fun r hr => ?_⟩
    cases hr
    exact ⟨trivial, fun _ _ => trivial⟩

end LustreSimulator.EventLoop
