import LustreSimulator.Lib.Run
import LustreSimulator.NrsFRR
import LustreSimulator.Proofs.NrsRbtree
import Mathlib.Data.List.Nodup

/-!
# `LustreSimulator.Proofs.NrsFRR`: the queue of the `io_queue`s

`Mirror` is what every call keeps in every run: the flag `IO_QUEUE_QUEUED` is set for what is in `Q`
and clear for `wq`, and `nr` counts the messages. `Listed` says that every `io_queue` with messages
is `wq` or is in `Q` once. An `io_queue` is `Stale` when it is flagged but not in `Q`. It becomes so
when its last message is served because the deadline has passed: it leaves `Q` and keeps the flag.

`Step.listed_iff` says which calls keep `Listed`, and `listed_run` is the result over runs.
-/

set_option autoImplicit false

namespace LustreSimulator.NrsFRR

open Lib NrsMessage

variable {p : Params} {s s' : NrsFRR} {msg now : Nat} {a : Addr}

/-! ### The invariant -/

/-- The flags and `nr` say where the `io_queue`s and their messages are. -/
structure Mirror (s : NrsFRR) : Prop where
  wf : ∀ a, (s.queue a).s.WF
  nr : ∀ a, (s.queue a).nr = (s.queue a).s.entries.length
  inited : ∀ a, (s.queue a).inited = false → (s.queue a).nr = 0
  nodup : s.Q.Q.Nodup
  mem : ∀ a ∈ s.Q.Q, (s.queue a).queued = true ∧ 0 < (s.queue a).nr
  wq : ∀ a, s.wq = some a → (s.queue a).queued = false ∧ 0 < (s.queue a).nr

/-- Every `io_queue` with messages is `wq` or is in `Q` once, and no other one is in `Q`. -/
structure Listed (s : NrsFRR) : Prop where
  once : ∀ a, 0 < (s.queue a).nr →
    (s.wq = some a ∧ a ∉ s.Q.Q) ∨ (s.wq ≠ some a ∧ s.Q.Q.count a = 1)
  empty : ∀ a, (s.queue a).nr = 0 → a ∉ s.Q.Q

/-- The `io_queue` is flagged as queued and is not in `Q`. -/
def Stale (s : NrsFRR) (a : Addr) : Prop := (s.queue a).queued = true ∧ a ∉ s.Q.Q

/-- No `io_queue` is stale. -/
def Flagged (s : NrsFRR) : Prop := ∀ a, (s.queue a).queued = true → a ∈ s.Q.Q

/-- What is in `Q` is not `wq`. -/
theorem Mirror.not_wq (h : Mirror s) (hmem : a ∈ s.Q.Q) : s.wq ≠ some a := by
  intro hwq
  exact absurd ((h.mem a hmem).1.symm.trans (h.wq a hwq).1) (by decide)

/-- The count of messages is not negative. -/
theorem Mirror.nr_nonneg (h : Mirror s) (a : Addr) : 0 ≤ (s.queue a).nr := by
  rw [h.nr a]
  exact Int.natCast_nonneg _

/-- `Listed` in a state that has the invariant. -/
theorem Mirror.listed_iff (h : Mirror s) :
    Listed s ↔ ∀ a, 0 < (s.queue a).nr → s.wq = some a ∨ a ∈ s.Q.Q := by
  constructor
  · intro hlisted a hpos
    rcases hlisted.once a hpos with ⟨hwq, -⟩ | ⟨-, hcount⟩
    · exact Or.inl hwq
    · exact Or.inr (List.count_pos_iff.mp (by omega))
  · intro hmem
    constructor
    · intro a hpos
      rcases hmem a hpos with hwq | hin
      · exact Or.inl ⟨hwq, fun hin => h.not_wq hin hwq⟩
      · exact Or.inr ⟨h.not_wq hin, List.count_eq_one_of_mem h.nodup hin⟩
    · intro a hzero hin
      have := (h.mem a hin).2
      omega

/-- An `io_queue` with messages has been set up. -/
theorem Mirror.inited_of_pos (h : Mirror s) (hpos : 0 < (s.queue a).nr) :
    (s.queue a).inited = true := by
  cases hinited : (s.queue a).inited with
  | true => rfl
  | false =>
      have := h.inited a hinited
      omega

/-- `Q` after an `io_queue` that is not in it joins its end. -/
theorem Mirror.nodup_snoc (h : Mirror s) (hnot : a ∉ s.Q.Q) : (s.Q.Q ++ [a]).Nodup := by
  refine List.nodup_append.mpr ⟨h.nodup, List.nodup_singleton a, ?_⟩
  intro x hx y hy heq
  rw [List.mem_singleton.mp hy] at heq
  exact hnot (heq ▸ hx)

/-- The other ones have been in `Q` before. -/
theorem mem_of_mem_snoc {Q : List Addr} {b : Addr} (hmem : b ∈ Q ++ [a]) (hb : b ≠ a) : b ∈ Q := by
  rcases List.mem_append.mp hmem with hin | hin
  · exact hin
  · exact absurd (List.mem_singleton.mp hin) hb

/-- The invariant does not depend on the rest of the state. -/
theorem Mirror.congr (h : Mirror s) (hqueue : s'.queue = s.queue) (hQ : s'.Q = s.Q)
    (hwq : s'.wq = s.wq) : Mirror s' := by
  refine ⟨?_, ?_, ?_, ?_, ?_, ?_⟩
  · rw [hqueue]
    exact h.wf
  · rw [hqueue]
    exact h.nr
  · rw [hqueue]
    exact h.inited
  · rw [hQ]
    exact h.nodup
  · rw [hQ, hqueue]
    exact h.mem
  · rw [hwq, hqueue]
    exact h.wq

/-- Neither does `Listed`. -/
theorem listed_congr (hqueue : s'.queue = s.queue) (hQ : s'.Q = s.Q) (hwq : s'.wq = s.wq) :
    Listed s' ↔ Listed s := by
  constructor
  · intro h
    refine ⟨?_, ?_⟩
    · have := h.once
      rwa [hqueue, hQ, hwq] at this
    · have := h.empty
      rwa [hqueue, hQ] at this
  · intro h
    refine ⟨?_, ?_⟩
    · rw [hqueue, hQ, hwq]
      exact h.once
    · rw [hqueue, hQ]
      exact h.empty

/-- One `io_queue` changes, with `Q` and `wq`. What is said of the other ones stays true when they
do not join `Q` and do not become `wq`. -/
theorem Mirror.update {q : IoQueue} {Q : NrsFifo Addr} {wq : Option Addr} (h : Mirror s)
    (hwf : q.s.WF) (hnr : q.nr = q.s.entries.length) (hinited : q.inited = true)
    (hnodup : Q.Q.Nodup) (hother : ∀ b ∈ Q.Q, b ≠ a → b ∈ s.Q.Q)
    (hself : a ∈ Q.Q → q.queued = true ∧ 0 < q.nr)
    (hwq : ∀ b, wq = some b → b ≠ a → s.wq = some b)
    (hwqSelf : wq = some a → q.queued = false ∧ 0 < q.nr) :
    Mirror { s.setQueue a q with Q := Q, wq := wq } := by
  have hat : ({ s.setQueue a q with Q := Q, wq := wq } : NrsFRR).queue a = q := if_pos rfl
  have hne : ∀ b, b ≠ a →
      ({ s.setQueue a q with Q := Q, wq := wq } : NrsFRR).queue b = s.queue b :=
    fun b hb => if_neg hb
  refine ⟨?_, ?_, ?_, hnodup, ?_, ?_⟩
  · intro b
    by_cases hb : b = a
    · rw [hb, hat]
      exact hwf
    · rw [hne b hb]
      exact h.wf b
  · intro b
    by_cases hb : b = a
    · rw [hb, hat]
      exact hnr
    · rw [hne b hb]
      exact h.nr b
  · intro b
    by_cases hb : b = a
    · rw [hb, hat, hinited]
      intro hfalse
      cases hfalse
    · rw [hne b hb]
      exact h.inited b
  · intro b hmem
    by_cases hb : b = a
    · rw [hb, hat]
      exact hself (hb ▸ hmem)
    · rw [hne b hb]
      exact h.mem b (hother b hmem hb)
  · intro b heq
    by_cases hb : b = a
    · rw [hb, hat]
      exact hwqSelf (hb ▸ heq)
    · rw [hne b hb]
      exact h.wq b (hwq b heq hb)

/-- After such a change everything is listed if the `io_queue` that changed is. -/
theorem Mirror.update_listed {q : IoQueue} {Q : NrsFifo Addr} {wq : Option Addr} (h : Mirror s)
    (hlisted : Listed s) (h' : Mirror { s.setQueue a q with Q := Q, wq := wq })
    (hQ : ∀ b ∈ s.Q.Q, b ≠ a → b ∈ Q.Q) (hwq : ∀ b, s.wq = some b → b ≠ a → wq = some b) :
    Listed { s.setQueue a q with Q := Q, wq := wq } ↔ (0 < q.nr → wq = some a ∨ a ∈ Q.Q) := by
  have hat : ({ s.setQueue a q with Q := Q, wq := wq } : NrsFRR).queue a = q := if_pos rfl
  rw [h'.listed_iff]
  constructor
  · intro hall hpos
    exact hall a (by rw [hat]; exact hpos)
  · intro hself b hpos
    by_cases hb : b = a
    · rw [hb]
      rw [hb, hat] at hpos
      exact hself hpos
    · have hpos' : 0 < (s.queue b).nr := by
        have hne : ({ s.setQueue a q with Q := Q, wq := wq } : NrsFRR).queue b = s.queue b :=
          if_neg hb
        rwa [hne] at hpos
      rcases h.listed_iff.mp hlisted b hpos' with hwq' | hin
      · exact Or.inl (hwq b hwq' hb)
      · exact Or.inr (hQ b hin hb)

/-- Neither does such a change make an `io_queue` stale when the one that changed is not. -/
theorem update_flagged {q : IoQueue} {Q : NrsFifo Addr} {wq : Option Addr} (h : Flagged s)
    (hQ : ∀ b ∈ s.Q.Q, b ≠ a → b ∈ Q.Q) (hself : q.queued = true → a ∈ Q.Q) :
    Flagged { s.setQueue a q with Q := Q, wq := wq } := by
  intro b hflag
  by_cases hb : b = a
  · rw [hb]
    have hat : ({ s.setQueue a q with Q := Q, wq := wq } : NrsFRR).queue a = q := if_pos rfl
    rw [hb, hat] at hflag
    exact hself hflag
  · have hne : ({ s.setQueue a q with Q := Q, wq := wq } : NrsFRR).queue b = s.queue b :=
      if_neg hb
    rw [hne] at hflag
    exact hQ b (h b hflag) hb

/-! ### Enqueue -/

/-- `IoEnqueue` adds one message. -/
theorem ioEnqueue_spec {io : Nat → Io} {q q' : IoQueue} (hwf : q.s.WF)
    (hnr : q.nr = q.s.entries.length) (hok : ioEnqueue io q msg = .ok q') :
    q'.s.WF ∧ q'.nr = q'.s.entries.length ∧ q'.nr = q.nr + 1 ∧ q'.inited = q.inited ∧
      q'.queued = q.queued := by
  unfold ioEnqueue at hok
  obtain ⟨_, -, hok⟩ := bind_eq_ok.mp hok
  obtain ⟨t, henq, hok⟩ := bind_eq_ok.mp hok
  obtain ⟨hwf', hlen⟩ := hwf.enqueue (require_eq_ok.mp henq)
  cases hok
  refine ⟨hwf', ?_, rfl, rfl, rfl⟩
  show q.nr + 1 = (t.entries.length : Int)
  omega

/-- The `io_queue` that a message joins, which may be a new one. -/
theorem Mirror.joined {io : Nat → Io} {q : IoQueue} (h : Mirror s)
    (hq : ioEnqueue io (if (s.queue a).inited then s.queue a
      else { s.queue a with s := .new, inited := true }) msg = .ok q) :
    q.s.WF ∧ q.nr = q.s.entries.length ∧ q.nr = (s.queue a).nr + 1 ∧ q.inited = true ∧
      q.queued = (s.queue a).queued := by
  cases hinited : (s.queue a).inited with
  | true =>
      rw [if_pos hinited] at hq
      obtain ⟨hwf, hnr, hsucc, hinited', hqueued⟩ := ioEnqueue_spec (h.wf a) (h.nr a) hq
      exact ⟨hwf, hnr, hsucc, hinited'.trans hinited, hqueued⟩
  | false =>
      rw [if_neg (by rw [hinited]; decide)] at hq
      obtain ⟨hwf, hnr, hsucc, hinited', hqueued⟩ :=
        ioEnqueue_spec (q := { s.queue a with s := .new, inited := true }) NrsRbtree.wf_new
          (h.inited a hinited) hq
      exact ⟨hwf, hnr, hsucc, hinited', hqueued⟩

/-- A message joins its `io_queue`. Everything stays listed unless that was stale. -/
theorem Mirror.enqueueIoQueue (h : Mirror s) (hok : s.enqueueIoQueue p msg = .ok s') :
    Mirror s' ∧ (Listed s → (Listed s' ↔ ¬ Stale s ((s.io msg).fid, (s.io msg).cmd))) ∧
      (Flagged s → Flagged s') := by
  unfold NrsFRR.enqueueIoQueue at hok
  obtain ⟨a, haddr, hok⟩ := bind_eq_ok.mp hok
  obtain ⟨q, hq, hok⟩ := bind_eq_ok.mp hok
  have ha : a = ((s.io msg).fid, (s.io msg).cmd) := by
    unfold getIoQueue at haddr
    obtain ⟨_, -, haddr⟩ := bind_eq_ok.mp haddr
    cases haddr
    rfl
  rw [← ha]
  obtain ⟨hwf, hnr, hsucc, hinited, hqueued⟩ := h.joined hq
  have hpos : 0 < q.nr := by
    have := h.nr_nonneg a
    omega
  by_cases hjoin : q.queued = false ∧ s.wq ≠ some a
  · -- the `io_queue` joins `Q`
    rw [if_pos hjoin] at hok
    cases hok
    have hnot : a ∉ s.Q.Q := by
      intro hin
      exact absurd (hjoin.1.symm.trans (hqueued.trans (h.mem a hin).1)) (by decide)
    have hmirror : Mirror { s.setQueue a { q with queued := true } with
        Q := s.Q.enqueue a, wq := s.wq } := by
      exact h.update hwf hnr hinited (h.nodup_snoc hnot) (fun b hmem hb => mem_of_mem_snoc hmem hb)
        (fun _ => ⟨rfl, hpos⟩) (fun b heq _ => heq) (fun heq => absurd heq hjoin.2)
    refine ⟨hmirror, fun hlisted => ?_, fun hf => update_flagged hf
      (fun b hin _ => List.mem_append_left [a] hin)
      (fun _ => List.mem_append_right _ List.mem_cons_self)⟩
    have hiff := h.update_listed hlisted hmirror
      (fun b hin _ => List.mem_append_left [a] hin) (fun b heq _ => heq)
    constructor
    · rintro - ⟨hstale, -⟩
      exact absurd (hjoin.1.symm.trans (hqueued.trans hstale)) (by decide)
    · exact fun _ => hiff.mpr fun _ => Or.inr (List.mem_append_right _ List.mem_cons_self)
  · -- it is flagged already, or it is the one that is served
    rw [if_neg hjoin] at hok
    cases hok
    have hmirror : Mirror { s.setQueue a q with Q := s.Q, wq := s.wq } := by
      refine h.update hwf hnr hinited h.nodup (fun b hin _ => hin) ?_ (fun b heq _ => heq) ?_
      · intro hin
        exact ⟨hqueued.trans (h.mem a hin).1, hpos⟩
      · intro heq
        exact ⟨hqueued.trans (h.wq a heq).1, hpos⟩
    refine ⟨hmirror, fun hlisted => ?_, fun hf => update_flagged hf (fun b hin _ => hin)
      (fun hflag => hf a (hqueued.symm.trans hflag))⟩
    have hiff := h.update_listed hlisted hmirror (fun b hin _ => hin) (fun b heq _ => heq)
    constructor
    · rintro hlisted' ⟨hflag, hnot⟩
      rcases hiff.mp hlisted' hpos with hwq | hin
      · exact absurd (hflag.symm.trans (h.wq a hwq).1) (by decide)
      · exact hnot hin
    · intro hstale
      refine hiff.mpr fun _ => ?_
      by_contra hnone
      rw [not_or] at hnone
      -- then it is flagged and not in `Q`
      have hflag : q.queued = true := by
        cases hflag : q.queued with
        | true => rfl
        | false => exact absurd ⟨hflag, hnone.1⟩ hjoin
      exact hstale ⟨hqueued.symm.trans hflag, hnone.2⟩

/-- Where the `io_queue`s are is the same in both states. -/
structure SameQueues (s s' : NrsFRR) : Prop where
  queue : s'.queue = s.queue
  Q : s'.Q = s.Q
  wq : s'.wq = s.wq

/-- The invariant and `Listed` are about where the `io_queue`s are. -/
theorem SameQueues.mirror (h : SameQueues s s') (hmirror : Mirror s) :
    Mirror s' ∧ (Listed s' ↔ Listed s) :=
  ⟨hmirror.congr h.queue h.Q h.wq, listed_congr h.queue h.Q h.wq⟩

/-- So is `Flagged`. -/
theorem SameQueues.flagged (h : SameQueues s s') (hf : Flagged s) : Flagged s' := by
  unfold Flagged
  rw [h.queue, h.Q]
  exact hf

/-- The deadline queues are apart from the `io_queue`s. -/
theorem ioDeadlineEnqueue_same (hok : s.ioDeadlineEnqueue p now msg = .ok s') :
    SameQueues s s' := by
  unfold ioDeadlineEnqueue at hok
  cases hmode : p.deadline with
  | dlOff =>
      rw [hmode] at hok
      cases hok
      exact ⟨rfl, rfl, rfl⟩
  | dlOnly =>
      rw [hmode] at hok
      dsimp only at hok
      split at hok
      · cases hok
        exact ⟨rfl, rfl, rfl⟩
      · obtain ⟨_, -, hok⟩ := bind_eq_ok.mp hok
        cases hok
        exact ⟨rfl, rfl, rfl⟩
  | dl2L =>
      rw [hmode] at hok
      dsimp only [setIoDeadline] at hok
      obtain ⟨_, -, hok⟩ := bind_eq_ok.mp hok
      split at hok
      · obtain ⟨_, -, hok⟩ := bind_eq_ok.mp hok
        obtain ⟨_, -, hok⟩ := bind_eq_ok.mp hok
        obtain ⟨maxDl, -, hok⟩ := bind_eq_ok.mp hok
        cases hok
        exact ⟨rfl, rfl, rfl⟩
      · obtain ⟨_, -, hok⟩ := bind_eq_ok.mp hok
        cases hok
        exact ⟨rfl, rfl, rfl⟩

/-- `Enqueue` keeps the invariant, and `Listed` unless the `io_queue` of the message was stale. -/
theorem Mirror.enqueue (h : Mirror s) (hmode : p.deadline ≠ .dlOnly)
    (hok : s.enqueue p now msg = .ok s') :
    Mirror s' ∧ (Listed s → (Listed s' ↔ ¬ Stale s ((s.io msg).fid, (s.io msg).cmd))) ∧
      (Flagged s → Flagged s') := by
  unfold NrsFRR.enqueue at hok
  rw [if_neg hmode] at hok
  obtain ⟨t, hjoin, hok⟩ := bind_eq_ok.mp hok
  obtain ⟨u, hdeadline, hok⟩ := bind_eq_ok.mp hok
  cases hok
  obtain ⟨hmirror, hiff, hflagged⟩ := h.enqueueIoQueue hjoin
  have hsame := ioDeadlineEnqueue_same hdeadline
  -- what follows `enqueueIoQueue` leaves the `io_queue`s where they are
  have hsame' : SameQueues t { u with size := u.size + 1 } :=
    ⟨hsame.queue, hsame.Q, hsame.wq⟩
  obtain ⟨hmirror', hlisted⟩ := hsame'.mirror hmirror
  exact ⟨hmirror', fun h' => hlisted.trans (hiff h'), fun h' => hsame'.flagged (hflagged h')⟩

/-! ### Dequeue -/

/-- The deadline queues are apart from the `io_queue`s. -/
theorem ioDeadlineDequeue_same {out : Option Nat}
    (hok : s.ioDeadlineDequeue p now = .ok (out, s')) : SameQueues s s' := by
  unfold ioDeadlineDequeue at hok
  cases hmode : p.deadline with
  | dlOff =>
      rw [hmode] at hok
      cases hok
      exact ⟨rfl, rfl, rfl⟩
  | dlOnly =>
      rw [hmode] at hok
      obtain ⟨r, -, hok⟩ := bind_eq_ok.mp hok
      cases hok
      exact ⟨rfl, rfl, rfl⟩
  | dl2L =>
      rw [hmode] at hok
      obtain ⟨r, -, hok⟩ := bind_eq_ok.mp hok
      cases hok
      exact ⟨rfl, rfl, rfl⟩

/-- Without deadlines none passes. -/
theorem ioDeadlineDequeue_off {out : Option Nat} (hmode : p.deadline = .dlOff)
    (hok : s.ioDeadlineDequeue p now = .ok (out, s')) : out = none := by
  unfold ioDeadlineDequeue at hok
  rw [hmode] at hok
  cases hok
  rfl

/-- `Q` after a flagged `io_queue` leaves it. One that is not flagged has not been in it. -/
theorem Mirror.withdrawn (h : Mirror s) (a : Addr) :
    (if (s.queue a).queued then s.Q.erase a else s.Q).Q.Nodup ∧
      a ∉ (if (s.queue a).queued then s.Q.erase a else s.Q).Q ∧
      ∀ b, b ≠ a → (b ∈ (if (s.queue a).queued then s.Q.erase a else s.Q).Q ↔ b ∈ s.Q.Q) := by
  cases hflag : (s.queue a).queued with
  | true =>
      refine ⟨h.nodup.filter _, ?_, ?_⟩
      · intro hin
        exact of_decide_eq_true (List.mem_filter.mp hin).2 rfl
      · intro b hb
        constructor
        · exact fun hmem => (List.mem_filter.mp hmem).1
        · exact fun hmem => List.mem_filter.mpr ⟨hmem, decide_eq_true hb⟩
  | false =>
      refine ⟨h.nodup, ?_, fun b _ => Iff.rfl⟩
      intro hin
      exact absurd (hflag.symm.trans (h.mem a hin).1) (by decide)

/-- A message whose deadline has passed leaves its `io_queue`. An `io_queue` without messages leaves
`wq` and `Q`. -/
theorem Mirror.dequeueExpired (h : Mirror s) (hok : s.dequeueExpired p msg = .ok s') :
    Mirror s' ∧ (Listed s → Listed s') := by
  unfold NrsFRR.dequeueExpired at hok
  obtain ⟨a, -, hok⟩ := bind_eq_ok.mp hok
  obtain ⟨_, hpos, hok⟩ := bind_eq_ok.mp hok
  obtain ⟨t, herase, hok⟩ := bind_eq_ok.mp hok
  have hpos := check_eq_ok.mp hpos
  obtain ⟨hwf, hlen⟩ := (h.wf a).erase (require_eq_ok.mp herase)
  have hnr : (s.queue a).nr - 1 = (t.entries.length : Int) := by
    have := h.nr a
    omega
  have hinited := h.inited_of_pos (show 0 < (s.queue a).nr by omega)
  by_cases hlast : (s.queue a).nr - 1 = 0
  · rw [if_pos hlast] at hok
    cases hok
    obtain ⟨hnodup, hout, hin⟩ := h.withdrawn a
    have hwq : ∀ b, (if s.wq = some a then none else s.wq) = some b → b ≠ a ∧ s.wq = some b := by
      intro b heq
      by_cases hwq : s.wq = some a
      · rw [if_pos hwq] at heq
        cases heq
      · rw [if_neg hwq] at heq
        refine ⟨?_, heq⟩
        rintro rfl
        exact hwq heq
    have hmirror := h.update (q := { s.queue a with s := t, nr := (s.queue a).nr - 1 }) hwf hnr
      hinited hnodup (fun b hmem hb => (hin b hb).mp hmem) (fun hmem => absurd hmem hout)
      (fun b heq _ => (hwq b heq).2) (fun heq => absurd rfl (hwq a heq).1)
    refine ⟨hmirror, fun hlisted => ?_⟩
    refine (h.update_listed hlisted hmirror (fun b hmem hb => (hin b hb).mpr hmem) ?_).mpr ?_
    · intro b heq hb
      rw [if_neg (by rw [heq]; exact fun h' => hb (Option.some.inj h'))]
      exact heq
    · intro hpos'
      change 0 < (s.queue a).nr - 1 at hpos'
      omega
  · rw [if_neg hlast] at hok
    cases hok
    have hpos' : 0 < (s.queue a).nr - 1 := by omega
    have hmirror : Mirror { s.setQueue a { s.queue a with s := t, nr := (s.queue a).nr - 1 } with
        Q := s.Q, wq := s.wq } :=
      h.update hwf hnr hinited h.nodup (fun b hmem _ => hmem)
        (fun hmem => ⟨(h.mem a hmem).1, hpos'⟩) (fun b heq _ => heq)
        (fun heq => ⟨(h.wq a heq).1, hpos'⟩)
    refine ⟨hmirror, fun hlisted => ?_⟩
    refine (h.update_listed hlisted hmirror (fun b hmem _ => hmem) (fun b heq _ => heq)).mpr ?_
    exact fun _ => h.listed_iff.mp hlisted a hpos

/-- `GetWorkQueue` finds nothing when there is no `wq` and `Q` is empty. -/
theorem getWorkQueue_none (hnone : s.getWorkQueue = (none, s')) :
    s.wq = none ∧ s.Q.Q = [] ∧ SameQueues s s' := by
  unfold getWorkQueue at hnone
  cases hwq : s.wq with
  | some a =>
      rw [hwq] at hnone
      cases hnone
  | none =>
      rw [hwq] at hnone
      unfold NrsFifo.dequeue at hnone
      cases hQ : s.Q.Q with
      | cons a rest =>
          rw [hQ] at hnone
          cases hnone
      | nil =>
          rw [hQ] at hnone
          cases hnone
          exact ⟨rfl, rfl, ⟨rfl, rfl, hwq.symm⟩⟩

/-- `GetWorkQueue` takes the first `io_queue` of `Q` when there is no `wq`. -/
theorem Mirror.getWorkQueue (h : Mirror s) (hsome : s.getWorkQueue = (some a, s')) :
    Mirror s' ∧ s'.wq = some a ∧ (Listed s → Listed s') ∧ (Flagged s → Flagged s') := by
  unfold NrsFRR.getWorkQueue at hsome
  cases hwq : s.wq with
  | some b =>
      rw [hwq] at hsome
      cases hsome
      exact ⟨h, hwq, id, id⟩
  | none =>
      rw [hwq] at hsome
      unfold NrsFifo.dequeue at hsome
      cases hQ : s.Q.Q with
      | nil =>
          rw [hQ] at hsome
          cases hsome
      | cons b rest =>
          rw [hQ] at hsome
          cases hsome
          have hnodup := h.nodup
          rw [hQ, List.nodup_cons] at hnodup
          have hmem := h.mem a (by rw [hQ]; exact List.mem_cons_self)
          have hinited := h.inited_of_pos hmem.2
          have hmirror : Mirror { s.setQueue a { s.queue a with
              queued := false, work := true, quantum := frrQuantum } with
              Q := ⟨rest, s.Q.size - 1⟩, wq := some a } := by
            refine h.update (h.wf a) (h.nr a) hinited hnodup.2 ?_ (fun hin => absurd hin hnodup.1)
              (fun b heq hb => absurd (Option.some.inj heq).symm hb) (fun _ => ⟨rfl, hmem.2⟩)
            intro b hin _
            rw [hQ]
            exact List.mem_cons_of_mem a hin
          have hrest : ∀ b ∈ s.Q.Q, b ≠ a → b ∈ rest := by
            intro b hin hb
            rw [hQ] at hin
            exact (List.mem_cons.mp hin).resolve_left hb
          refine ⟨hmirror, rfl, fun hlisted => ?_, fun hf => update_flagged hf hrest
            (fun hflag => nomatch hflag)⟩
          refine (h.update_listed hlisted hmirror hrest ?_).mpr (fun _ => Or.inl rfl)
          intro b heq _
          rw [hwq] at heq
          cases heq

/-- `wq` is served. It stays, or goes to the end of `Q`, or has no message left. -/
theorem Mirror.dequeueWork (h : Mirror s) (hwq : s.wq = some a)
    (hok : s.dequeueWork a = .ok (msg, s')) :
    Mirror s' ∧ (Listed s → Listed s') ∧ (Flagged s → Flagged s') := by
  unfold NrsFRR.dequeueWork at hok
  obtain ⟨_, hpos, hok⟩ := bind_eq_ok.mp hok
  obtain ⟨⟨out, t⟩, hdeq, hok⟩ := bind_eq_ok.mp hok
  obtain ⟨m, hm, hok⟩ := bind_eq_ok.mp hok
  have hpos := check_eq_ok.mp hpos
  have hdeq := require_eq_ok.mp hdeq
  have hm : out = some m := require_eq_ok.mp hm
  rw [hm] at hdeq
  obtain ⟨hwf, hlen⟩ := (h.wf a).dequeue hdeq
  have hnr : (s.queue a).nr - 1 = (t.entries.length : Int) := by
    have := h.nr a
    omega
  have hout : a ∉ s.Q.Q := fun hin => h.not_wq hin hwq
  have hinited := h.inited_of_pos (show 0 < (s.queue a).nr by omega)
  dsimp only at hok
  have hclear := (h.wq a hwq).1
  have hone : ∀ b, s.wq = some b → b = a := fun b heq => Option.some.inj (heq.symm.trans hwq)
  by_cases hlast : (s.queue a).nr - 1 = 0
  · -- it has no message left
    rw [if_pos hlast] at hok
    cases hok
    have hmirror : Mirror { s.setQueue a { s.queue a with
        nr := (s.queue a).nr - 1, s := t, quantum := (s.queue a).quantum - 1 } with
        Q := s.Q, wq := none } :=
      h.update hwf hnr hinited h.nodup (fun b hin _ => hin) (fun hin => absurd hin hout)
        (fun b heq _ => nomatch heq) (fun heq => nomatch heq)
    refine ⟨hmirror, fun hlisted => ?_, fun hf => update_flagged hf (fun b hin _ => hin)
      (fun hflag => absurd (hclear.symm.trans hflag) (by decide))⟩
    refine (h.update_listed hlisted hmirror (fun b hin _ => hin) ?_).mpr ?_
    · exact fun b heq hb => absurd (hone b heq) hb
    · intro hpos'
      change 0 < (s.queue a).nr - 1 at hpos'
      omega
  · rw [if_neg hlast] at hok
    have hpos' : 0 < (s.queue a).nr - 1 := by omega
    by_cases hquantum : (s.queue a).quantum - 1 = 0
    · -- its quantum has expired
      rw [if_pos hquantum] at hok
      cases hok
      have hmirror : Mirror { s.setQueue a { s.queue a with
          nr := (s.queue a).nr - 1, s := t, quantum := (s.queue a).quantum - 1
          work := false, queued := true } with Q := s.Q.enqueue a, wq := none } := by
        exact h.update hwf hnr hinited (h.nodup_snoc hout)
          (fun b hmem hb => mem_of_mem_snoc hmem hb) (fun _ => ⟨rfl, hpos'⟩)
          (fun b heq _ => nomatch heq) (fun heq => nomatch heq)
      refine ⟨hmirror, fun hlisted => ?_, fun hf => update_flagged hf
        (fun b hin _ => List.mem_append_left [a] hin)
        (fun _ => List.mem_append_right _ List.mem_cons_self)⟩
      refine (h.update_listed hlisted hmirror (fun b hin _ => List.mem_append_left [a] hin) ?_).mpr
        (fun _ => Or.inr (List.mem_append_right _ List.mem_cons_self))
      exact fun b heq hb => absurd (hone b heq) hb
    · rw [if_neg hquantum] at hok
      cases hok
      have hmirror : Mirror { s.setQueue a { s.queue a with
          nr := (s.queue a).nr - 1, s := t, quantum := (s.queue a).quantum - 1 } with
          Q := s.Q, wq := s.wq } :=
        h.update hwf hnr hinited h.nodup (fun b hin _ => hin) (fun hin => absurd hin hout)
          (fun b heq _ => heq) (fun heq => ⟨(h.wq a heq).1, hpos'⟩)
      refine ⟨hmirror, fun hlisted => ?_, fun hf => update_flagged hf (fun b hin _ => hin)
        (fun hflag => absurd (hclear.symm.trans hflag) (by decide))⟩
      exact (h.update_listed hlisted hmirror (fun b hin _ => hin) (fun b heq _ => heq)).mpr
        (fun _ => Or.inl hwq)

/-- Leaving the deadline queues does not move the `io_queue`s. -/
theorem removeFromDeadlineQueue_same (hok : s.removeFromDeadlineQueue p msg = .ok s') :
    SameQueues s s' := by
  unfold removeFromDeadlineQueue at hok
  split at hok
  · cases hok
    exact ⟨rfl, rfl, rfl⟩
  · split at hok
    · cases hok
      exact ⟨rfl, rfl, rfl⟩
    · obtain ⟨_, -, hok⟩ := bind_eq_ok.mp hok
      cases hok
      exact ⟨rfl, rfl, rfl⟩

/-- The counters are apart from the `io_queue`s, and there is a message to return. -/
theorem dequeueStat_same {out : Option Nat} (hok : s.dequeueStat p msg = .ok (out, s')) :
    SameQueues s s' ∧ out = some msg := by
  unfold dequeueStat at hok
  obtain ⟨_, -, hok⟩ := bind_eq_ok.mp hok
  cases hok
  exact ⟨⟨rfl, rfl, rfl⟩, rfl⟩

/-- `Dequeue` keeps the invariant and `Listed`. It returns no message only when there is none. -/
theorem Mirror.dequeue {out : Option Nat} (h : Mirror s) (hmode : p.deadline ≠ .dlOnly)
    (hok : s.dequeue p now = .ok (out, s')) :
    Mirror s' ∧ (Listed s → Listed s') ∧
      (Listed s → out = none → ∀ a, (s.queue a).s.entries = []) ∧
      (p.deadline = .dlOff → Flagged s → Flagged s') := by
  unfold NrsFRR.dequeue at hok
  obtain ⟨⟨expired, t⟩, hexpired, hok⟩ := bind_eq_ok.mp hok
  rw [if_neg hmode] at hok
  have hsame := ioDeadlineDequeue_same hexpired
  obtain ⟨ht, hlistedT⟩ := hsame.mirror h
  cases expired with
  | some msg =>
      -- a deadline has passed
      obtain ⟨u, hserve, hok⟩ := bind_eq_ok.mp hok
      obtain ⟨hu, hlistedU⟩ := ht.dequeueExpired hserve
      obtain ⟨hsame', hout⟩ := dequeueStat_same hok
      obtain ⟨hs', hlisted'⟩ := hsame'.mirror hu
      refine ⟨hs', fun hl => hlisted'.mpr (hlistedU (hlistedT.mpr hl)), fun _ hnone => ?_,
        fun hoff => ?_⟩
      · rw [hnone] at hout
        cases hout
      · cases ioDeadlineDequeue_off hoff hexpired
  | none =>
      dsimp only at hok
      cases hwork : t.getWorkQueue with
      | mk work u =>
          rw [hwork] at hok
          cases work with
          | none =>
              cases hok
              obtain ⟨hwq, hQ, hsame'⟩ := getWorkQueue_none hwork
              obtain ⟨hs', hlisted'⟩ := hsame'.mirror ht
              refine ⟨hs', fun hl => hlisted'.mpr (hlistedT.mpr hl), fun hl _ a => ?_,
                fun _ hf => hsame'.flagged (hsame.flagged hf)⟩
              -- an `io_queue` with a message would be `wq` or in `Q`
              have hnr := h.nr a
              have hzero : ¬ 0 < (s.queue a).nr := by
                intro hpos
                rcases h.listed_iff.mp hl a hpos with hwq' | hin
                · rw [← hsame.wq, hwq] at hwq'
                  cases hwq'
                · rw [← hsame.Q, hQ] at hin
                  cases hin
              exact List.eq_nil_of_length_eq_zero (by omega)
          | some a =>
              obtain ⟨hu, hwq, hlistedU, hflaggedU⟩ := ht.getWorkQueue hwork
              obtain ⟨⟨msg, v⟩, hserve, hok⟩ := bind_eq_ok.mp hok
              obtain ⟨w, hremove, hok⟩ := bind_eq_ok.mp hok
              obtain ⟨hv, hlistedV, hflaggedV⟩ := hu.dequeueWork hwq hserve
              have hsameW := removeFromDeadlineQueue_same hremove
              obtain ⟨hw, hlistedW⟩ := hsameW.mirror hv
              obtain ⟨hsame', hout⟩ := dequeueStat_same hok
              obtain ⟨hs', hlisted'⟩ := hsame'.mirror hw
              refine ⟨hs', fun hl => hlisted'.mpr (hlistedW.mpr (hlistedV
                (hlistedU (hlistedT.mpr hl)))), fun _ hnone => ?_, fun _ hf => hsame'.flagged
                (hsameW.flagged (hflaggedV (hflaggedU (hsame.flagged hf))))⟩
              rw [hnone] at hout
              cases hout

/-- `Finish` only counts. -/
theorem finish_same (s : NrsFRR) (msg : Nat) : SameQueues s (s.finish msg) := by
  unfold finish
  exact ⟨rfl, rfl, rfl⟩

/-! ### The counters -/

/-- The counters are the same, and the requests differ in their deadlines at most. -/
structure SameStat (s s' : NrsFRR) : Prop where
  size : s'.size = s.size
  numQueued : s'.numQueued = s.numQueued
  ioQueued : s'.ioQueued = s.ioQueued
  numServiced : s'.numServiced = s.numServiced
  ioServiced : s'.ioServiced = s.ioServiced
  io : ∀ m, ∃ d, s'.io m = { s.io m with deadline := d }

/-- Nothing changed. -/
theorem SameStat.refl (s : NrsFRR) : SameStat s s := ⟨rfl, rfl, rfl, rfl, rfl, fun _ => ⟨_, rfl⟩⟩

/-- One change after the other. -/
theorem SameStat.trans {t : NrsFRR} (h : SameStat s t) (h' : SameStat t s') : SameStat s s' := by
  refine ⟨h'.size.trans h.size, h'.numQueued.trans h.numQueued, h'.ioQueued.trans h.ioQueued,
    h'.numServiced.trans h.numServiced, h'.ioServiced.trans h.ioServiced, fun m => ?_⟩
  obtain ⟨d, hd⟩ := h.io m
  obtain ⟨d', hd'⟩ := h'.io m
  exact ⟨d', by rw [hd', hd]⟩

/-- The size of a request is the same. -/
theorem SameStat.count (h : SameStat s s') (m : Nat) : (s'.io m).count = (s.io m).count := by
  obtain ⟨d, hd⟩ := h.io m
  rw [hd]

/-- Joining an `io_queue` is not counted yet. -/
theorem enqueueIoQueue_stat (hok : s.enqueueIoQueue p msg = .ok s') : SameStat s s' := by
  unfold enqueueIoQueue at hok
  obtain ⟨a, -, hok⟩ := bind_eq_ok.mp hok
  obtain ⟨q, -, hok⟩ := bind_eq_ok.mp hok
  split at hok
  · cases hok
    exact ⟨rfl, rfl, rfl, rfl, rfl, fun _ => ⟨_, rfl⟩⟩
  · cases hok
    exact ⟨rfl, rfl, rfl, rfl, rfl, fun _ => ⟨_, rfl⟩⟩

/-- Neither is setting a deadline. -/
theorem setDeadline_stat (s : NrsFRR) (msg deadline : Nat) :
    SameStat s (s.setDeadline msg deadline) := by
  refine ⟨rfl, rfl, rfl, rfl, rfl, fun m => ?_⟩
  by_cases hm : m = msg
  · rw [hm]
    exact ⟨deadline, if_pos rfl⟩
  · exact ⟨(s.io m).deadline, if_neg hm⟩

/-- Neither is joining a deadline queue. -/
theorem ioDeadlineEnqueue_stat (hok : s.ioDeadlineEnqueue p now msg = .ok s') : SameStat s s' := by
  unfold ioDeadlineEnqueue at hok
  cases hmode : p.deadline with
  | dlOff =>
      rw [hmode] at hok
      cases hok
      exact .refl s
  | dlOnly =>
      rw [hmode] at hok
      dsimp only at hok
      split at hok
      · cases hok
        exact ⟨rfl, rfl, rfl, rfl, rfl, fun _ => ⟨_, rfl⟩⟩
      · obtain ⟨_, -, hok⟩ := bind_eq_ok.mp hok
        cases hok
        exact ⟨rfl, rfl, rfl, rfl, rfl, fun _ => ⟨_, rfl⟩⟩
  | dl2L =>
      rw [hmode] at hok
      dsimp only [setIoDeadline] at hok
      obtain ⟨_, -, hok⟩ := bind_eq_ok.mp hok
      split at hok
      · obtain ⟨_, -, hok⟩ := bind_eq_ok.mp hok
        obtain ⟨_, -, hok⟩ := bind_eq_ok.mp hok
        obtain ⟨maxDl, -, hok⟩ := bind_eq_ok.mp hok
        cases hok
        exact ⟨rfl, rfl, rfl, rfl, rfl, (setDeadline_stat s msg _).io⟩
      · obtain ⟨_, -, hok⟩ := bind_eq_ok.mp hok
        cases hok
        exact ⟨rfl, rfl, rfl, rfl, rfl, (setDeadline_stat s msg _).io⟩

/-- `Enqueue` counts the message, in every mode. -/
theorem enqueue_stat (hok : s.enqueue p now msg = .ok s') :
    s'.size = s.size + 1 ∧ s'.numQueued = add64 s.numQueued 1 ∧
      s'.ioQueued = add64 s.ioQueued (s.io msg).count ∧ s'.numServiced = s.numServiced ∧
      s'.ioServiced = s.ioServiced ∧ ∀ m, ∃ d, s'.io m = { s.io m with deadline := d } := by
  unfold enqueue at hok
  obtain ⟨t, hjoin, hok⟩ := bind_eq_ok.mp hok
  obtain ⟨u, hdeadline, hok⟩ := bind_eq_ok.mp hok
  cases hok
  have hu := ioDeadlineEnqueue_stat hdeadline
  have ht : SameStat s t := by
    split at hjoin
    · cases hjoin
      exact .refl s
    · exact enqueueIoQueue_stat hjoin
  refine ⟨?_, ?_, ?_, hu.numServiced.trans ht.numServiced, hu.ioServiced.trans ht.ioServiced,
    fun m => ?_⟩
  · show u.size + 1 = _
    rw [hu.size, ← ht.size]
  · show u.numQueued = _
    rw [hu.numQueued, ← ht.numQueued]
  · show u.ioQueued = _
    rw [hu.ioQueued, ← ht.ioQueued, ← ht.count msg]
  · obtain ⟨d, hd⟩ := hu.io m
    obtain ⟨d', hd'⟩ := ht.io m
    exact ⟨d, by
      show u.io m = _
      rw [hd]
      show { t.io m with deadline := d } = _
      rw [hd']⟩

/-- `Enqueue` counts the message, in every mode. -/
theorem enqueue_size (hok : s.enqueue p now msg = .ok s') : s'.size = s.size + 1 :=
  (enqueue_stat hok).1

/-- Leaving a deadline queue is not counted. -/
theorem ioDeadlineDequeue_stat {out : Option Nat}
    (hok : s.ioDeadlineDequeue p now = .ok (out, s')) : SameStat s s' ∧ s'.io = s.io := by
  unfold ioDeadlineDequeue at hok
  cases hmode : p.deadline with
  | dlOff =>
      rw [hmode] at hok
      cases hok
      exact ⟨.refl s, rfl⟩
  | dlOnly =>
      rw [hmode] at hok
      obtain ⟨r, -, hok⟩ := bind_eq_ok.mp hok
      cases hok
      exact ⟨⟨rfl, rfl, rfl, rfl, rfl, fun _ => ⟨_, rfl⟩⟩, rfl⟩
  | dl2L =>
      rw [hmode] at hok
      obtain ⟨r, -, hok⟩ := bind_eq_ok.mp hok
      cases hok
      exact ⟨⟨rfl, rfl, rfl, rfl, rfl, fun _ => ⟨_, rfl⟩⟩, rfl⟩

/-- Leaving an `io_queue` is not counted yet. -/
theorem dequeueExpired_stat (hok : s.dequeueExpired p msg = .ok s') :
    SameStat s s' ∧ s'.io = s.io := by
  unfold dequeueExpired at hok
  obtain ⟨a, -, hok⟩ := bind_eq_ok.mp hok
  obtain ⟨_, -, hok⟩ := bind_eq_ok.mp hok
  obtain ⟨t, -, hok⟩ := bind_eq_ok.mp hok
  dsimp only at hok
  split at hok
  · cases hok
    exact ⟨⟨rfl, rfl, rfl, rfl, rfl, fun _ => ⟨_, rfl⟩⟩, rfl⟩
  · cases hok
    exact ⟨⟨rfl, rfl, rfl, rfl, rfl, fun _ => ⟨_, rfl⟩⟩, rfl⟩

/-- Serving `wq` is not counted yet. -/
theorem dequeueWork_stat (hok : s.dequeueWork a = .ok (msg, s')) :
    SameStat s s' ∧ s'.io = s.io := by
  unfold dequeueWork at hok
  obtain ⟨_, -, hok⟩ := bind_eq_ok.mp hok
  obtain ⟨r, -, hok⟩ := bind_eq_ok.mp hok
  obtain ⟨m, -, hok⟩ := bind_eq_ok.mp hok
  dsimp only at hok
  split at hok
  · cases hok
    exact ⟨⟨rfl, rfl, rfl, rfl, rfl, fun _ => ⟨_, rfl⟩⟩, rfl⟩
  · split at hok
    · cases hok
      exact ⟨⟨rfl, rfl, rfl, rfl, rfl, fun _ => ⟨_, rfl⟩⟩, rfl⟩
    · cases hok
      exact ⟨⟨rfl, rfl, rfl, rfl, rfl, fun _ => ⟨_, rfl⟩⟩, rfl⟩

/-- Choosing the `io_queue` to serve is not counted. -/
theorem getWorkQueue_stat (s : NrsFRR) :
    SameStat s s.getWorkQueue.2 ∧ s.getWorkQueue.2.io = s.io := by
  unfold getWorkQueue NrsFifo.dequeue
  cases s.wq with
  | some a => exact ⟨.refl s, rfl⟩
  | none =>
      cases s.Q.Q with
      | nil => exact ⟨⟨rfl, rfl, rfl, rfl, rfl, fun _ => ⟨_, rfl⟩⟩, rfl⟩
      | cons a rest => exact ⟨⟨rfl, rfl, rfl, rfl, rfl, fun _ => ⟨_, rfl⟩⟩, rfl⟩

/-- Leaving the deadline queues is not counted. -/
theorem removeFromDeadlineQueue_stat (hok : s.removeFromDeadlineQueue p msg = .ok s') :
    SameStat s s' ∧ s'.io = s.io := by
  unfold removeFromDeadlineQueue at hok
  split at hok
  · cases hok
    exact ⟨.refl s, rfl⟩
  · split at hok
    · cases hok
      exact ⟨⟨rfl, rfl, rfl, rfl, rfl, fun _ => ⟨_, rfl⟩⟩, rfl⟩
    · obtain ⟨_, -, hok⟩ := bind_eq_ok.mp hok
      cases hok
      exact ⟨⟨rfl, rfl, rfl, rfl, rfl, fun _ => ⟨_, rfl⟩⟩, rfl⟩

/-- The message that `Dequeue` returns is counted. -/
structure CountedOut (s : NrsFRR) (msg : Nat) (s' : NrsFRR) : Prop where
  size : s'.size = s.size - 1
  numQueued : s'.numQueued = sub64 s.numQueued 1
  ioQueued : s'.ioQueued = sub64 s.ioQueued (s.io msg).count
  numServiced : s'.numServiced = add64 s.numServiced 1
  ioServiced : s'.ioServiced = add64 s.ioServiced (s.io msg).count
  io : s'.io = s.io

/-- The end of `Dequeue` counts the message. -/
theorem dequeueStat_counted {t : NrsFRR} {out : Option Nat} (h : SameStat s t) (hio : t.io = s.io)
    (hok : t.dequeueStat p msg = .ok (out, s')) : CountedOut s msg s' ∧ out = some msg := by
  unfold dequeueStat at hok
  obtain ⟨_, -, hok⟩ := bind_eq_ok.mp hok
  cases hok
  refine ⟨⟨?_, ?_, ?_, ?_, ?_, hio⟩, rfl⟩
  · show t.size - 1 = _
    rw [h.size]
  · show sub64 t.numQueued 1 = _
    rw [h.numQueued]
  · show sub64 t.ioQueued (t.io msg).count = _
    rw [h.ioQueued, hio]
  · show add64 t.numServiced 1 = _
    rw [h.numServiced]
  · show add64 t.ioServiced (t.io msg).count = _
    rw [h.ioServiced, hio]

/-- `Dequeue` counts the message that it returns, unless the mode is `NRS_ALGO_DL_ONLY`. -/
theorem dequeue_counted {out : Option Nat} (hmode : p.deadline ≠ .dlOnly)
    (hok : s.dequeue p now = .ok (out, s')) :
    (out = none ∧ SameStat s s' ∧ s'.io = s.io) ∨ ∃ msg, out = some msg ∧ CountedOut s msg s' := by
  unfold dequeue at hok
  obtain ⟨⟨expired, t⟩, hexpired, hok⟩ := bind_eq_ok.mp hok
  rw [if_neg hmode] at hok
  obtain ⟨ht, hioT⟩ := ioDeadlineDequeue_stat hexpired
  cases expired with
  | some msg =>
      obtain ⟨u, hserve, hok⟩ := bind_eq_ok.mp hok
      obtain ⟨hu, hioU⟩ := dequeueExpired_stat hserve
      obtain ⟨hs', rfl⟩ := dequeueStat_counted (ht.trans hu) (hioU.trans hioT) hok
      exact .inr ⟨msg, rfl, hs'⟩
  | none =>
      dsimp only at hok
      have hu := getWorkQueue_stat t
      cases hwork : t.getWorkQueue with
      | mk work u =>
          rw [hwork] at hok hu
          cases work with
          | none =>
              cases hok
              exact .inl ⟨rfl, ht.trans hu.1, hu.2.trans hioT⟩
          | some a =>
              obtain ⟨⟨msg, v⟩, hserve, hok⟩ := bind_eq_ok.mp hok
              obtain ⟨w, hremove, hok⟩ := bind_eq_ok.mp hok
              obtain ⟨hv, hioV⟩ := dequeueWork_stat hserve
              obtain ⟨hw, hioW⟩ := removeFromDeadlineQueue_stat hremove
              obtain ⟨hs', rfl⟩ := dequeueStat_counted (((ht.trans hu.1).trans hv).trans hw)
                (hioW.trans (hioV.trans (hu.2.trans hioT))) hok
              exact .inr ⟨msg, rfl, hs'⟩

/-- `Dequeue` counts the message that it returns, unless the mode is `NRS_ALGO_DL_ONLY`. -/
theorem dequeue_size {out : Option Nat} (hmode : p.deadline ≠ .dlOnly)
    (hok : s.dequeue p now = .ok (out, s')) :
    s'.size = s.size - (if out.isSome then 1 else 0) := by
  rcases dequeue_counted hmode hok with ⟨rfl, hsame, -⟩ | ⟨msg, rfl, hcounted⟩
  · rw [hsame.size]
    exact (Int.sub_zero _).symm
  · exact hcounted.size

/-- With `NRS_ALGO_DL_ONLY` `Dequeue` does not count. -/
theorem dequeue_only_stat {out : Option Nat} (hmode : p.deadline = .dlOnly)
    (hok : s.dequeue p now = .ok (out, s')) : SameStat s s' := by
  unfold dequeue at hok
  obtain ⟨⟨out', t⟩, hdeadline, hok⟩ := bind_eq_ok.mp hok
  rw [if_pos hmode] at hok
  cases hok
  exact (ioDeadlineDequeue_stat hdeadline).1

/-- With `NRS_ALGO_DL_ONLY` `Dequeue` does not count. It returns a message whenever there is one. -/
theorem dequeue_only {out : Option Nat} (hmode : p.deadline = .dlOnly)
    (hok : s.dequeue p now = .ok (out, s')) :
    s'.size = s.size ∧ (out = none ↔ s.Q1.Q = [] ∧ s.Q2.Q = []) := by
  refine ⟨(dequeue_only_stat hmode hok).size, ?_⟩
  unfold dequeue at hok
  obtain ⟨⟨out', t⟩, hdeadline, hok⟩ := bind_eq_ok.mp hok
  rw [if_pos hmode] at hok
  cases hok
  unfold ioDeadlineDequeue at hdeadline
  rw [hmode] at hdeadline
  obtain ⟨r, hr, hdeadline⟩ := bind_eq_ok.mp hdeadline
  cases hdeadline
  unfold dequeue2QDeadline NrsFifo.first at hr
  cases h1 : s.Q1.Q with
  | nil =>
      cases h2 : s.Q2.Q with
      | nil =>
          rw [h1, h2] at hr
          cases hr
          exact ⟨fun _ => ⟨rfl, rfl⟩, fun _ => rfl⟩
      | cons m2 rest =>
          rw [h1, h2] at hr
          cases hr
          constructor
          · intro h
            cases h
          · intro h
            cases h.2
  | cons m1 rest =>
      have hsome : ∃ m, r.1 = some m := by
        cases h2 : s.Q2.Q with
        | nil =>
            rw [h1, h2] at hr
            obtain ⟨x, -, hr⟩ := bind_eq_ok.mp hr
            cases hr
            exact ⟨x.1, rfl⟩
        | cons m2 rest' =>
            rw [h1, h2] at hr
            dsimp only [List.head?_cons] at hr
            split at hr
            · obtain ⟨x, -, hr⟩ := bind_eq_ok.mp hr
              cases hr
              exact ⟨x.1, rfl⟩
            · obtain ⟨x, -, hr⟩ := bind_eq_ok.mp hr
              cases hr
              exact ⟨x.1, rfl⟩
      obtain ⟨m, hm⟩ := hsome
      constructor
      · intro h
        rw [h] at hm
        cases hm
      · intro h
        cases h.1

/-! ### Runs -/

/-- A call that enqueues a message for a stale `io_queue`. -/
def Call.strands (s : NrsFRR) : Call → Prop
  | .enqueue _ _ io => Stale s (io.fid, io.cmd)
  | _ => False

/-- Every call keeps the invariant. The calls that do not keep `Listed` are the ones that enqueue a
message for a stale `io_queue`. Without deadlines no `io_queue` becomes stale. -/
theorem Step.listed_iff {c : Call} (h : Mirror s) (hmode : p.deadline ≠ .dlOnly)
    (hstep : Step p s c s') : Mirror s' ∧ (Listed s → (Listed s' ↔ ¬ c.strands s)) ∧
      (p.deadline = .dlOff → Flagged s → Flagged s') := by
  cases hstep with
  | @enqueue _ now msg io _ hok =>
      have hsame : SameQueues s (s.setReq msg io) := ⟨rfl, rfl, rfl⟩
      obtain ⟨hmirror, hlisted⟩ := hsame.mirror h
      obtain ⟨hmirror', hiff, hflagged⟩ := hmirror.enqueue hmode hok
      refine ⟨hmirror', fun hl => ?_, fun _ hf => hflagged (hsame.flagged hf)⟩
      have hreq : (s.setReq msg io).io msg = io := if_pos rfl
      rw [hreq] at hiff
      exact hiff (hlisted.mpr hl)
  | dequeue hok =>
      obtain ⟨hmirror, hlisted, -, hflagged⟩ := h.dequeue hmode hok
      exact ⟨hmirror, fun hl => ⟨fun _ hs => hs, fun _ => hlisted hl⟩, hflagged⟩
  | @finish msg =>
      obtain ⟨hmirror, hlisted⟩ := (finish_same s msg).mirror h
      exact ⟨hmirror, fun hl => ⟨fun _ hs => hs, fun _ => hlisted.mpr hl⟩,
        fun _ hf => (finish_same s msg).flagged hf⟩

/-- A new scheduler. -/
theorem new_mirror (io : Nat → Io) : Mirror (new io) ∧ Listed (new io) ∧ Flagged (new io) := by
  have hmirror : Mirror (new io) := by
    refine ⟨fun _ => NrsRbtree.wf_new, fun _ => rfl, fun _ _ => rfl, List.nodup_nil, ?_, ?_⟩
    · intro a hin
      cases hin
    · intro a heq
      cases heq
  refine ⟨hmirror, hmirror.listed_iff.mpr ?_, ?_⟩
  · intro a hpos
    exact absurd hpos (Int.lt_irrefl 0)
  · intro a hflag
    cases hflag

/-- In a run that with `NRS_ALGO_DL_2L` enqueues nothing for a stale `io_queue`, every `io_queue`
with messages is `wq` or in `Q` exactly once, no other one is in `Q`, and `Dequeue` returns no
message only when there is none. A call that enqueues for a stale `io_queue` always breaks this. -/
theorem listed_run {io : Nat → Io} {calls : List Call} (hmode : p.deadline ≠ .dlOnly)
    (hrun : Run (fun s c t => (p.deadline = .dl2L → ¬ c.strands s) ∧ Step p s c t)
      (new io) calls s) :
    Listed s ∧
    (∀ now t, s.dequeue p now = .ok (none, t) → ∀ a, (s.queue a).s.entries = []) ∧
    ∀ c t, Step p s c t → (Listed t ↔ ¬ c.strands s) := by
  have hinv : Mirror s ∧ Listed s ∧ (p.deadline = .dlOff → Flagged s) := by
    refine hrun.invariant (P := fun s => Mirror s ∧ Listed s ∧ (p.deadline = .dlOff → Flagged s)) ?_
      ⟨(new_mirror io).1, (new_mirror io).2.1, fun _ => (new_mirror io).2.2⟩
    intro s c t ⟨hmirror, hlisted, hflagged⟩ hstep
    obtain ⟨hmirror', hiff, hflagged'⟩ := hstep.2.listed_iff hmirror hmode
    refine ⟨hmirror', (hiff hlisted).mpr ?_, fun hoff => hflagged' hoff (hflagged hoff)⟩
    cases hdl : p.deadline with
    | dlOnly => exact absurd hdl hmode
    | dlOff =>
        -- no `io_queue` is stale
        intro hstrands
        cases c with
        | enqueue _ _ io => exact hstrands.2 (hflagged hdl _ hstrands.1)
        | dequeue => exact hstrands
        | finish => exact hstrands
    | dl2L => exact hstep.1 hdl
  obtain ⟨hmirror, hlisted, -⟩ := hinv
  refine ⟨hlisted, ?_, ?_⟩
  · intro now t hok
    exact (hmirror.dequeue hmode hok).2.2.1 hlisted rfl
  · intro c t hstep
    exact (hstep.listed_iff hmirror hmode).2.1 hlisted

/-- The parameters of the examples: a mandatory deadline of 5 and one file. -/
def exampleParams (deadline : Deadline) : Params :=
  { deadline := deadline, mdlv := 5, bw := 1, scale := fun n => n, totFiles := 1 }

/-- A request of the examples, with a mandatory deadline. -/
def exampleIo (off : Nat) : Io :=
  { cmd := .read, prio := 0, flgDeadline := true, flgDynamicDeadline := false
    flgMandatoryDeadline := true, flgDeadline1 := false, flgDeadline2 := false, fid := 0
    off := off, count := 4096, jobid := "", deadline := 5 }

/-- The places of the messages that the calls enqueue. -/
def Call.places : List Call → List (Addr × Nat)
  | [] => []
  | .enqueue _ _ io :: calls => ((io.fid, io.cmd), io.off) :: places calls
  | _ :: calls => places calls

/-- Two messages of a file are enqueued and served in time. -/
def exampleCalls : List Call :=
  [.enqueue 0 1 (exampleIo 0), .enqueue 0 2 (exampleIo 4096), .dequeue 2 (some 1),
    .dequeue 2 (some 2), .dequeue 3 none]

/-- Nothing is left, and the next call keeps the list. -/
theorem listed_run_two :
    ∃ s, Run (fun s c t => ((exampleParams .dl2L).deadline = .dl2L → ¬ Call.strands s c) ∧
          Step (exampleParams .dl2L) s c t) (new fun _ => exampleIo 0) exampleCalls s ∧
      (Listed s ∧
      (∀ now t, s.dequeue (exampleParams .dl2L) now = .ok (none, t) →
        ∀ a, (s.queue a).s.entries = []) ∧
      ∀ c t, Step (exampleParams .dl2L) s c t → (Listed t ↔ ¬ c.strands s)) := by
  have hrun : ∃ s, Run (fun s c t => ((exampleParams .dl2L).deadline = .dl2L →
        ¬ Call.strands s c) ∧ Step (exampleParams .dl2L) s c t)
      (new fun _ => exampleIo 0) exampleCalls s := by
    refine ⟨_, .cons ⟨fun _ h => absurd h.1 (by decide), .enqueue (fun _ h => nomatch h) rfl⟩ <|
      .cons ⟨fun _ h => h.2 (by decide), .enqueue (fun a hin => ?_) rfl⟩ <|
      .cons ⟨fun _ h => h, .dequeue rfl⟩ <| .cons ⟨fun _ h => h, .dequeue rfl⟩ <|
      .cons ⟨fun _ h => h, .dequeue rfl⟩ (.nil _)⟩
    -- the first message is in the queue of its file, and no other queue has one
    by_cases ha : a = (0, Cmd.read)
    · subst ha
      exact absurd hin (by decide)
    · change 2 ∈ (if a = (0, Cmd.read) then _ else _ : IoQueue).s.tree.toList at hin
      rw [if_neg ha] at hin
      cases hin
  obtain ⟨s, hrun⟩ := hrun
  exact ⟨s, hrun, listed_run (by decide) hrun⟩

/-- The only message of a file is served because its deadline has passed, and the file's `io_queue`
leaves `Q` with its flag set. The next message of the file is not found any more. -/
theorem listed_lost :
    ¬ ∀ (p : Params) (io : Nat → Io) (calls : List Call) (s : NrsFRR), p.deadline ≠ .dlOnly →
      (Call.places calls).Nodup → Run (Step p) (new io) calls s →
      Listed s ∧ ∀ now t, s.dequeue p now = .ok (none, t) → ∀ a, (s.queue a).s.entries = [] := by
  intro h
  have hlisted := (h (exampleParams .dl2L) (fun _ => exampleIo 0)
    [.enqueue 0 1 (exampleIo 0), .dequeue 10 (some 1), .enqueue 20 2 (exampleIo 4096)] _
    (by decide) (by decide)
    (.cons (.enqueue (fun _ h => nomatch h) rfl) (.cons (.dequeue rfl)
      (.cons (.enqueue (fun a hin => by
        by_cases ha : a = (0, Cmd.read)
        · subst ha
          cases hin
        · change 2 ∈ (if a = (0, Cmd.read) then _ else
            if a = (0, Cmd.read) then _ else _ : IoQueue).s.tree.toList at hin
          rw [if_neg ha, if_neg ha] at hin
          cases hin) rfl) (.nil _))))).1
  rcases hlisted.once (0, .read) (by decide) with ⟨hwq, -⟩ | ⟨-, hcount⟩
  · cases hwq
  · cases hcount

end LustreSimulator.NrsFRR
