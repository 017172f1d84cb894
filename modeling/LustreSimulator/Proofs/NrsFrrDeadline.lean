import LustreSimulator.Lib.Ledger
import LustreSimulator.Proofs.NrsFRR

/-!
# `LustreSimulator.Proofs.NrsFrrDeadline`: two deadline queues and nothing else

With `NRS_ALGO_DL_ONLY` a message waits in `Q1` or in `Q2`, and `Dequeue2QDeadline` compares the
heads of the two queues. `Choice` lists what it does. It takes the head with the earlier deadline
out of its queue, and with `Q2` empty the head of `Q1`. With `Q1` empty it returns the head of `Q2`
and leaves it there, so the next call returns it again.

`dlOnly_once` is the result over runs that avoid the last case.
-/

set_option autoImplicit false

namespace LustreSimulator.NrsFRR

open Lib NrsMessage

variable {p : Params} {s s' : NrsFRR} {msg now : Nat}

/-- What `Dequeue2QDeadline` does without the test of the time: the message it returns and the two
queues behind it. -/
inductive Choice (io : Nat → Io) (q₁ q₂ : List Nat) : Option Nat → List Nat → List Nat → Prop where
  /-- Both queues are empty. -/
  | empty : q₁ = [] → q₂ = [] → Choice io q₁ q₂ none q₁ q₂
  /-- The first queue is empty: the head of the second is returned and stays. -/
  | peek {m : Nat} {rest : List Nat} : q₁ = [] → q₂ = m :: rest → Choice io q₁ q₂ (some m) q₁ q₂
  /-- The head of the first queue leaves, no later than the head of the second is due. -/
  | first {m : Nat} {rest : List Nat} : q₁ = m :: rest →
      (∀ m' ∈ q₂.head?, (io m).deadline ≤ (io m').deadline) → Choice io q₁ q₂ (some m) rest q₂
  /-- The head of the second queue leaves, due before the head of the first. -/
  | second {m : Nat} {rest : List Nat} : q₂ = m :: rest → q₁ ≠ [] →
      (∀ m' ∈ q₁.head?, (io m).deadline < (io m').deadline) → Choice io q₁ q₂ (some m) q₁ rest

/-- Taking the head of a queue that has one. -/
theorem dequeueA_head {q : NrsFifo Nat} {rest : List Nat} (h : q.Q = msg :: rest) :
    dequeueA q msg = .ok (msg, ⟨rest, q.size - 1⟩) := by
  unfold dequeueA NrsFifo.dequeue
  rw [h]
  exact congrArg (fun r : Except Fault Unit => r.bind _) (check_true rfl)

/-- `Dequeue2QDeadline` without the test of the time never aborts, and does one of the choices. -/
theorem dequeue2QDeadline_choice (io : Nat → Io) (current : Nat) (s1 s2 : NrsFifo Nat) :
    ∃ r, dequeue2QDeadline io current s1 s2 false = .ok r ∧
      Choice io s1.Q s2.Q r.1 r.2.1.Q r.2.2.Q := by
  unfold dequeue2QDeadline NrsFifo.first
  cases h1 : s1.Q with
  | nil =>
      cases h2 : s2.Q with
      | nil => exact ⟨_, rfl, by rw [h1, h2]; exact .empty rfl rfl⟩
      | cons m2 rest => exact ⟨_, rfl, by rw [h1, h2]; exact .peek rfl rfl⟩
  | cons m1 rest1 =>
      cases h2 : s2.Q with
      | nil =>
          refine ⟨(some m1, ⟨rest1, s1.size - 1⟩, s2), ?_, ?_⟩
          · simp [dequeueA_head h1]
          · rw [h2]
            exact .first rfl (fun m' hm => nomatch hm)
      | cons m2 rest2 =>
          by_cases hlate : (io m1).deadline > (io m2).deadline
          · refine ⟨(some m2, s1, ⟨rest2, s2.size - 1⟩), ?_, ?_⟩
            · simp [hlate, dequeueA_head h2]
            · rw [h1]
              refine .second rfl (List.cons_ne_nil _ _) fun m' hm => ?_
              obtain rfl : m1 = m' := Option.some.inj hm
              exact hlate
          · refine ⟨(some m1, ⟨rest1, s1.size - 1⟩, s2), ?_, ?_⟩
            · simp [hlate, dequeueA_head h1]
            · rw [h2]
              refine .first rfl fun m' hm => ?_
              obtain rfl : m2 = m' := Option.some.inj hm
              exact Nat.le_of_not_lt hlate

/-- `Dequeue` with deadlines only never aborts. It does one of the choices, and keeps the requests.
-/
theorem dequeue_choice (hmode : p.deadline = .dlOnly) (s : NrsFRR) (now : Nat) :
    ∃ out t, s.dequeue p now = .ok (out, t) ∧ Choice s.io s.Q1.Q s.Q2.Q out t.Q1.Q t.Q2.Q := by
  obtain ⟨r, hr, hchoice⟩ := dequeue2QDeadline_choice s.io now s.Q1 s.Q2
  refine ⟨r.1, { s with Q1 := r.2.1, Q2 := r.2.2 }, ?_, hchoice⟩
  unfold dequeue ioDeadlineDequeue
  rw [hmode]
  dsimp only
  rw [hr, ok_bind, ok_bind, if_pos rfl]

/-- `Enqueue` with deadlines only appends the message to the queue of its class. -/
theorem enqueue_only (hmode : p.deadline = .dlOnly) (hok : s.enqueue p now msg = .ok s') :
    (s'.Q1.Q = s.Q1.Q ++ [msg] ∧ s'.Q2.Q = s.Q2.Q) ∨
      (s'.Q1.Q = s.Q1.Q ∧ s'.Q2.Q = s.Q2.Q ++ [msg]) := by
  unfold enqueue ioDeadlineEnqueue at hok
  rw [if_pos hmode, ok_bind, hmode] at hok
  dsimp only at hok
  split at hok
  · cases hok
    exact .inl ⟨rfl, rfl⟩
  · obtain ⟨u, hjoin, hok⟩ := bind_eq_ok.mp hok
    obtain ⟨_, -, hjoin⟩ := bind_eq_ok.mp hjoin
    cases hjoin
    cases hok
    exact .inr ⟨rfl, rfl⟩

/-- `Enqueue` of a message that is in a class does not abort. -/
theorem enqueue_flagged (hmode : p.deadline = .dlOnly)
    (hflag : (s.io msg).flgDeadline1 = true ∨ (s.io msg).flgDeadline2 = true) :
    ∃ t, s.enqueue p now msg = .ok t := by
  unfold enqueue ioDeadlineEnqueue
  rw [if_pos hmode, ok_bind, hmode]
  dsimp only
  by_cases h1 : (s.io msg).flgDeadline1 = true
  · rw [if_pos h1]
    exact ⟨_, rfl⟩
  · rw [if_neg h1, check_true (hflag.resolve_left h1)]
    exact ⟨_, rfl⟩

/-! ### Runs -/

/-- What a call does to its message. -/
def Call.booking : Call → Booking Nat
  | .enqueue _ msg io => .arrive msg io.count
  | .dequeue _ (some msg) => .serve msg
  | .dequeue _ none => .idle
  | .finish msg => .leave msg

/-- The messages that the calls enqueue. -/
def Call.enqueued (calls : List Call) : List Nat := arrivals (calls.map Call.booking)

/-- The messages that the calls return. -/
def Call.dequeued (calls : List Call) : List Nat := services (calls.map Call.booking)

/-- The messages that wait in the two queues. -/
def waiting (s : NrsFRR) : List Nat := s.Q1.Q ++ s.Q2.Q

/-- A call of `Dequeue` that finds `Q1` empty and `Q2` not. -/
def Call.peeks (s : NrsFRR) : Call → Prop
  | .dequeue _ _ => s.Q1.Q = [] ∧ s.Q2.Q ≠ []
  | _ => False

/-- The message is the head of its queue, and the head of the other queue is not due before it. -/
def InOrder (s : NrsFRR) (msg : Nat) : Prop :=
  (s.Q1.Q.head? = some msg ∧ ∀ m ∈ s.Q2.Q.head?, (s.io msg).deadline ≤ (s.io m).deadline) ∨
  (s.Q2.Q.head? = some msg ∧ ∀ m ∈ s.Q1.Q.head?, (s.io msg).deadline ≤ (s.io m).deadline)

/-- Such a message waits. -/
theorem InOrder.mem (h : InOrder s msg) : msg ∈ waiting s := by
  rcases h with ⟨hhead, -⟩ | ⟨hhead, -⟩
  · exact List.mem_append_left _ (List.mem_of_mem_head? hhead)
  · exact List.mem_append_right _ (List.mem_of_mem_head? hhead)

/-- `Dequeue` returns no message exactly when none waits, and a message only in order. -/
theorem Choice.order {out : Option Nat} {q₁ q₂ : List Nat}
    (h : Choice s.io s.Q1.Q s.Q2.Q out q₁ q₂) :
    (out = none ↔ waiting s = []) ∧ ∀ m, out = some m → InOrder s m := by
  unfold waiting
  rw [List.append_eq_nil_iff]
  cases h with
  | empty h₁ h₂ => exact ⟨⟨fun _ => ⟨h₁, h₂⟩, fun _ => rfl⟩, fun m hm => nomatch hm⟩
  | @peek x rest h₁ h₂ =>
      refine ⟨⟨(fun hnone => nomatch hnone), fun hnil => ?_⟩, ?_⟩
      · rw [h₂] at hnil
        cases hnil.2
      · rintro m ⟨⟩
        exact .inr ⟨by rw [h₂, List.head?_cons], fun y hy => by rw [h₁] at hy; cases hy⟩
  | @first x rest h₁ hdue =>
      refine ⟨⟨(fun hnone => nomatch hnone), fun hnil => ?_⟩, ?_⟩
      · rw [h₁] at hnil
        cases hnil.1
      · rintro m ⟨⟩
        exact .inl ⟨by rw [h₁, List.head?_cons], hdue⟩
  | @second x rest h₂ _ hdue =>
      refine ⟨⟨(fun hnone => nomatch hnone), fun hnil => ?_⟩, ?_⟩
      · rw [h₂] at hnil
        cases hnil.2
      · rintro m ⟨⟩
        exact .inr ⟨by rw [h₂, List.head?_cons], fun y hy => Nat.le_of_lt (hdue y hy)⟩

/-- `Dequeue` takes the message out of its queue unless it only looks at it. -/
theorem Choice.removes {m : Nat} {q₁ q₂ : List Nat}
    (h : Choice s.io s.Q1.Q s.Q2.Q (some m) q₁ q₂) :
    (waiting s).Perm (m :: (q₁ ++ q₂)) ↔ ¬ (s.Q1.Q = [] ∧ s.Q2.Q ≠ []) := by
  unfold waiting
  cases h with
  | @peek _ rest h₁ h₂ =>
      refine iff_of_false (fun hperm => ?_)
        (fun hnot => hnot ⟨h₁, by rw [h₂]; exact List.cons_ne_nil _ _⟩)
      have := hperm.length_eq
      rw [List.length_cons] at this
      omega
  | @first _ rest h₁ _ =>
      rw [h₁]
      exact iff_of_true (.refl _) fun hnot => nomatch hnot.1
  | @second _ rest h₂ hne _ =>
      rw [h₂]
      exact iff_of_true List.perm_middle fun hnot => hne hnot.1

/-- A call that does not only look at a message keeps the account. -/
theorem Step.moves {c : Call} (hmode : p.deadline = .dlOnly) (hpeek : ¬ c.peeks s)
    (hstep : Step p s c s') : Moves (waiting s) (waiting s') c.booking := by
  cases hstep with
  | @enqueue _ now msg io _ hok =>
      show (waiting s').Perm (msg :: waiting s)
      unfold waiting
      rcases enqueue_only hmode hok with ⟨h₁, h₂⟩ | ⟨h₁, h₂⟩
      · rw [h₁, h₂]
        show (s.Q1.Q ++ [msg] ++ s.Q2.Q).Perm (msg :: (s.Q1.Q ++ s.Q2.Q))
        rw [List.append_assoc]
        exact List.perm_middle
      · rw [h₁, h₂, ← List.append_assoc]
        exact List.perm_append_singleton _ _
  | @dequeue _ now out hok =>
      obtain ⟨out', t, hok', hchoice⟩ := dequeue_choice hmode s now
      cases hok.symm.trans hok'
      cases out with
      | none =>
          show (waiting s').Perm (waiting s)
          unfold waiting
          generalize s'.Q1.Q = q₁, s'.Q2.Q = q₂ at hchoice
          cases hchoice
          exact .refl _
      | some m => exact hchoice.removes.mpr hpeek
  | @finish msg =>
      show (waiting (s.finish msg)).Perm (waiting s)
      unfold waiting NrsFRR.finish
      exact .refl _

/-- With deadlines only, in a run without a `Dequeue` that finds `Q1` empty and `Q2` not, the
messages enqueued so far are the ones returned and the ones that wait, each once. No call aborts,
`Dequeue` returns no message exactly when none waits and every message in order, and it takes the
message out of its queue unless it finds `Q1` empty and `Q2` not. -/
theorem dlOnly_once {io : Nat → Io} {calls : List Call} (hmode : p.deadline = .dlOnly)
    (hrun : Run (fun s c t => ¬ c.peeks s ∧ Step p s c t) (new io) calls s) :
    (Call.enqueued calls).Perm (Call.dequeued calls ++ waiting s) ∧
    (∀ now msg io, io.flgDeadline1 = true ∨ io.flgDeadline2 = true →
      ∃ t, (s.setReq msg io).enqueue p now msg = .ok t) ∧
    ∀ now, ∃ out t, s.dequeue p now = .ok (out, t) ∧ (out = none ↔ waiting s = []) ∧
      ∀ msg, out = some msg → InOrder s msg ∧
        ((waiting s).Perm (msg :: waiting t) ↔ ¬ (s.Q1.Q = [] ∧ s.Q2.Q ≠ [])) := by
  refine ⟨?_, ?_, ?_⟩
  · exact Run.conserved (fun _ => True) waiting Call.booking
      (fun _ _ _ _ hstep => ⟨trivial, hstep.2.moves hmode hstep.1⟩) hrun trivial
  · intro now msg io hflag
    refine enqueue_flagged hmode ?_
    have hreq : (s.setReq msg io).io msg = io := if_pos rfl
    rw [hreq]
    exact hflag
  · intro now
    obtain ⟨out, t, hok, hchoice⟩ := dequeue_choice hmode s now
    refine ⟨out, t, hok, hchoice.order.1, fun msg hout => ⟨hchoice.order.2 msg hout, ?_⟩⟩
    subst hout
    exact hchoice.removes

/-- A request of the first class. -/
def firstIo : Io := { exampleIo 0 with flgDeadline1 := true }

/-- A request of the second class. -/
def secondIo : Io := { exampleIo 0 with flgDeadline2 := true }

/-- A request of the second class waits behind one of the first with the same deadline. -/
theorem dlOnly_once_two :
    ∃ s, Run (fun s c t => ¬ Call.peeks s c ∧ Step (exampleParams .dlOnly) s c t)
        (new fun _ => exampleIo 0)
        [.enqueue 0 1 firstIo, .enqueue 0 2 secondIo, .dequeue 3 (some 1)] s ∧
      [1, 2].Perm ([1] ++ waiting s) := by
  have hrun : ∃ s, Run (fun s c t => ¬ Call.peeks s c ∧ Step (exampleParams .dlOnly) s c t)
      (new fun _ => exampleIo 0)
      [.enqueue 0 1 firstIo, .enqueue 0 2 secondIo, .dequeue 3 (some 1)] s :=
    ⟨_, .cons ⟨id, .enqueue (fun _ h => nomatch h) rfl⟩
      (.cons ⟨id, .enqueue (fun _ h => nomatch h) rfl⟩
      (.cons ⟨(fun h => nomatch h.1), .dequeue rfl⟩ (.nil _)))⟩
  obtain ⟨s, hrun⟩ := hrun
  exact ⟨s, hrun, (dlOnly_once rfl hrun).1⟩

/-- The only message is of the second class. `Dequeue` returns it twice. -/
theorem dlOnly_twice :
    ¬ ∀ (p : Params) (io : Nat → Io) (calls : List Call) (s : NrsFRR), p.deadline = .dlOnly →
      (Call.enqueued calls).Nodup → Run (Step p) (new io) calls s →
      (Call.dequeued calls).Nodup := by
  intro h
  have hnodup := h (exampleParams .dlOnly) (fun _ => exampleIo 0)
    [.enqueue 0 1 secondIo, .dequeue 3 (some 1), .dequeue 4 (some 1)] _ rfl (by decide)
    (.cons (.enqueue (fun _ h => nomatch h) rfl) (.cons (.dequeue rfl)
      (.cons (.dequeue rfl) (.nil _))))
  revert hnodup
  decide

end LustreSimulator.NrsFRR
