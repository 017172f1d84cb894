import LustreSimulator.Proofs.NrsTally

/-!
# `LustreSimulator.Proofs.NrsFrrExpiry`: the messages whose deadlines have passed

With `NRS_ALGO_DL_2L` a message waits in its `io_queue` and in one of two deadline queues, `dQ` for
the dynamic deadlines and `mQ` for the mandatory ones. `TwoLevel` is the invariant: both queues are
in the order of their deadlines, so the message that is due first is the head of one of them.

`Judged` lists what `Dequeue2QDeadline` does with the two heads. When the head of `dQ` is due and
the head of `mQ` is not, it looks at the deadline of the second one and passes the first one over:
`Misjudges`. Every other case is right, and `expired_first` is the result over runs. In a run the
clock does not go back, and a request has one kind of deadline.
-/

set_option autoImplicit false

namespace LustreSimulator.NrsFRR

open Lib NrsMessage

variable {p : Params} {s s' : NrsFRR} {msg now t : Nat} {a : Addr}

/-! ### Queues in order -/

/-- The head of a queue is the first one in its order. -/
theorem head_le {f : Nat → Nat} {l : List Nat} {x : Nat}
    (h : l.Pairwise fun y z => f y ≤ f z) (hx : x ∈ l) : ∃ y ∈ l.head?, f y ≤ f x := by
  cases l with
  | nil => cases hx
  | cons y rest =>
      refine ⟨y, rfl, ?_⟩
      rcases List.mem_cons.mp hx with rfl | hx
      · exact Nat.le_refl _
      · exact List.rel_of_pairwise_cons h hx

/-- A queue stays in order behind its last element. -/
theorem pairwise_push {f g : Nat → Nat} {l : List Nat} {x : Nat}
    (h : l.Pairwise fun y z => f y ≤ f z) (hsame : ∀ y ∈ l, g y = f y)
    (hlast : ∀ y ∈ l, f y ≤ g x) : (l ++ [x]).Pairwise fun y z => g y ≤ g z := by
  rw [List.pairwise_append]
  refine ⟨h.imp_of_mem fun {y z} hy hz hyz => ?_, List.pairwise_singleton _ _, fun y hy z hz => ?_⟩
  · rw [hsame y hy, hsame z hz]
    exact hyz
  · rw [List.mem_singleton.mp hz, hsame y hy]
    exact hlast y hy

/-- No element of a queue is behind the last one in its order. -/
theorem le_last {f : Nat → Nat} {l : List Nat} {x y : Nat}
    (h : l.Pairwise fun y z => f y ≤ f z) (hx : x ∈ l) (hy : l.getLast? = some y) : f x ≤ f y := by
  obtain ⟨l', rfl⟩ := List.getLast?_eq_some_iff.mp hy
  rcases List.mem_append.mp hx with hx | hx
  · exact (List.pairwise_append.mp h).2.2 x hx y (List.mem_singleton_self y)
  · exact Nat.le_of_eq (congrArg f (List.mem_singleton.mp hx))

/-- Erasing an element of a queue takes one off its length. -/
theorem erase_length {q : NrsFifo Nat} (hnodup : q.Q.Nodup) (hmem : msg ∈ q.Q) :
    (q.erase msg).Q.length + 1 = q.Q.length := by
  -- no message is in the queue twice, so the filter erases one
  have herase : (q.erase msg).Q = q.Q.erase msg := by
    rw [hnodup.erase_eq_filter]
    refine List.filter_congr fun x _ => ?_
    by_cases hx : x = msg <;> simp [hx]
  have hpos := List.length_pos_of_mem hmem
  rw [herase, List.length_erase_of_mem hmem]
  omega

/-- Taking the head of a queue erases it. -/
theorem tail_eq_erase {q : NrsFifo Nat} {rest : List Nat} (hnodup : q.Q.Nodup)
    (hQ : q.Q = msg :: rest) : (⟨rest, q.size - 1⟩ : NrsFifo Nat) = q.erase msg := by
  unfold NrsFifo.erase
  rw [hQ, List.nodup_cons] at hnodup
  rw [hQ, List.filter_cons_of_neg (by simp), List.filter_eq_self.mpr]
  intro x hx
  simp only [decide_eq_true_eq]
  rintro rfl
  exact hnodup.1 hx

/-! ### The two heads -/

/-- The head of `dQ` is due, and the head of `mQ` is not. -/
def Misjudges (s : NrsFRR) (now : Nat) : Prop :=
  ∃ m₁ ∈ s.dQ.Q.head?, ∃ m₂ ∈ s.mQ.Q.head?,
    (s.io m₁).deadline ≤ now ∧ now < (s.io m₂).deadline

/-- What `Dequeue2QDeadline` does with the test of the time: the message it returns and the two
queues behind it. -/
inductive Judged (io : Nat → Io) (now : Nat) (s1 s2 : NrsFifo Nat) :
    Option Nat × NrsFifo Nat × NrsFifo Nat → Prop where
  /-- No head is due. -/
  | idle : (∀ m ∈ s1.Q.head?, now < (io m).deadline) → (∀ m ∈ s2.Q.head?, now < (io m).deadline) →
      Judged io now s1 s2 (none, s1, s2)
  /-- The head of the first queue is due, and is not served. -/
  | missed {m₁ m₂ : Nat} : m₁ ∈ s1.Q.head? → m₂ ∈ s2.Q.head? → (io m₁).deadline ≤ now →
      now < (io m₂).deadline → Judged io now s1 s2 (none, s1, s2)
  /-- The head of the first queue leaves. A head of the second one is due too, but not before. -/
  | first {m : Nat} {rest : List Nat} : s1.Q = m :: rest → (io m).deadline ≤ now →
      (∀ m' ∈ s2.Q.head?, (io m).deadline ≤ (io m').deadline ∧ (io m').deadline ≤ now) →
      Judged io now s1 s2 (some m, ⟨rest, s1.size - 1⟩, s2)
  /-- The head of the second queue leaves, and the head of the first is not due before it. -/
  | second {m : Nat} {rest : List Nat} : s2.Q = m :: rest → (io m).deadline ≤ now →
      (∀ m' ∈ s1.Q.head?, (io m).deadline ≤ (io m').deadline) →
      Judged io now s1 s2 (some m, s1, ⟨rest, s2.size - 1⟩)

/-- `Dequeue2QDeadline` with the test of the time does not abort when the head of the second queue
has a deadline. -/
theorem dequeue2QDeadline_judged {io : Nat → Io} {s1 s2 : NrsFifo Nat}
    (hflag : ∀ m ∈ s2.Q.head?, (io m).flgDeadline = true) :
    ∃ r, dequeue2QDeadline io now s1 s2 true = .ok r ∧ Judged io now s1 s2 r := by
  unfold dequeue2QDeadline NrsFifo.first
  cases h1 : s1.Q with
  -- only the second queue, or none
  | nil =>
      cases h2 : s2.Q with
      | nil =>
          refine ⟨_, rfl, .idle ?_ ?_⟩
          · simp [h1]
          · simp [h2]
      | cons m2 rest2 =>
          have hm2 : (io m2).flgDeadline = true := hflag m2 (by rw [h2]; rfl)
          by_cases hdue : (io m2).deadline ≤ now
          · refine ⟨(some m2, s1, ⟨rest2, s2.size - 1⟩), ?_, .second h2 hdue ?_⟩
            · simp [check_true hm2, hdue, dequeueA_head h2]
            · simp [h1]
          · refine ⟨(none, s1, s2), ?_, .idle ?_ ?_⟩
            · simp [check_true hm2, hdue]
            · simp [h1]
            · simpa [h2] using hdue
  | cons m1 rest1 =>
      cases h2 : s2.Q with
      | nil =>
          by_cases hdue : (io m1).deadline ≤ now
          · refine ⟨(some m1, ⟨rest1, s1.size - 1⟩, s2), ?_, .first h1 hdue ?_⟩
            · simp [hdue, dequeueA_head h1]
            · simp [h2]
          · refine ⟨(none, s1, s2), ?_, .idle ?_ ?_⟩
            · simp [hdue]
            · simpa [h1] using hdue
            · simp [h2]
      | cons m2 rest2 =>
          -- two heads: the one with the earlier deadline is a candidate
          by_cases hlate : (io m1).deadline > (io m2).deadline
          · by_cases hdue : (io m2).deadline ≤ now
            · refine ⟨(some m2, s1, ⟨rest2, s2.size - 1⟩), ?_, .second h2 hdue ?_⟩
              · simp [hlate, hdue, dequeueA_head h2]
              · simpa [h1] using Nat.le_of_lt hlate
            · refine ⟨(none, s1, s2), ?_, .idle ?_ ?_⟩
              · simp [hlate, hdue]
              · simp only [h1, List.head?_cons, Option.mem_some_iff, forall_eq']
                omega
              · simpa [h2] using hdue
          · -- the first one is, but it is the second one that is compared with the time
            have hle := Nat.le_of_not_lt hlate
            by_cases hdue : (io m2).deadline ≤ now
            · refine ⟨(some m1, ⟨rest1, s1.size - 1⟩, s2), ?_, .first h1 (Nat.le_trans hle hdue) ?_⟩
              · simp [hlate, hdue, dequeueA_head h1]
              · simpa [h2] using ⟨hle, hdue⟩
            · -- the first message may be due here
              refine ⟨(none, s1, s2), ?_, ?_⟩
              · simp [hlate, hdue]
              · by_cases hdue1 : (io m1).deadline ≤ now
                · have hhead1 : m1 ∈ s1.Q.head? := by rw [h1, List.head?_cons, Option.mem_some_iff]
                  have hhead2 : m2 ∈ s2.Q.head? := by rw [h2, List.head?_cons, Option.mem_some_iff]
                  exact .missed hhead1 hhead2 hdue1 (Nat.lt_of_not_le hdue)
                · refine .idle ?_ ?_
                  · simpa [h1] using hdue1
                  · simpa [h2] using hdue

/-! ### The invariant -/

/-- Every message of a deadline queue is of its kind, and the queues are in the order of their
deadlines. -/
structure Ordered (p : Params) (t : Nat) (s : NrsFRR) : Prop where
  dynamic : ∀ m ∈ s.dQ.Q,
    (s.io m).flgDynamicDeadline = true ∧ (s.io m).flgMandatoryDeadline = false
  mandatory : ∀ m ∈ s.mQ.Q, (s.io m).flgDeadline = true ∧
    (s.io m).flgMandatoryDeadline = true ∧ (s.io m).deadline ≤ p.mdlv + t
  sortedD : s.dQ.Q.Pairwise fun x y => (s.io x).deadline ≤ (s.io y).deadline
  sortedM : s.mQ.Q.Pairwise fun x y => (s.io x).deadline ≤ (s.io y).deadline
  sizeD : s.dQ.size = s.dQ.Q.length
  sizeM : s.mQ.size = s.mQ.Q.length

/-- The messages that wait are the ones in the deadline queues, and they are counted. -/
structure TwoLevel (p : Params) (t : Nat) (s : NrsFRR) : Prop extends Ordered p t s where
  mirror : Mirror s
  offsets : Offsets s
  fid : ∀ m, Held s m → (s.io m).fid < p.totFiles
  held : ∀ m, Held s m ↔ m ∈ s.dQ.Q ++ s.mQ.Q
  nodup : (s.dQ.Q ++ s.mQ.Q).Nodup
  size : s.size = (s.dQ.Q.length + s.mQ.Q.length : Nat)
  numQueued : s.numQueued = (s.dQ.Q.length + s.mQ.Q.length) % 2 ^ 64

/-- A message with a deadline that has passed waits. -/
def Due (s : NrsFRR) (now : Nat) : Prop := ∃ m, Held s m ∧ (s.io m).deadline ≤ now

/-- The message waits, and none is due before it. -/
def Urgent (s : NrsFRR) (m : Nat) : Prop :=
  Held s m ∧ ∀ m', Held s m' → (s.io m).deadline ≤ (s.io m').deadline

/-- The message of a deadline queue leaves it. -/
def Removed (s : NrsFRR) (msg : Nat) (s' : NrsFRR) : Prop :=
  (msg ∈ s.dQ.Q ∧ s'.dQ = s.dQ.erase msg ∧ s'.mQ = s.mQ) ∨
    (msg ∈ s.mQ.Q ∧ s'.dQ = s.dQ ∧ s'.mQ = s.mQ.erase msg)

/-- What leaves the deadline queues when `Dequeue` returns. -/
def Takes (s : NrsFRR) : Option Nat → NrsFRR → Prop
  | none, s' => s'.dQ = s.dQ ∧ s'.mQ = s.mQ
  | some msg, s' => Removed s msg s'

/-- A queue stays in order when the deadlines in it stay. -/
theorem pairwise_same {f g : Nat → Nat} {l : List Nat} (h : l.Pairwise fun y z => f y ≤ f z)
    (hsame : ∀ y ∈ l, g y = f y) : l.Pairwise fun y z => g y ≤ g z := by
  refine h.imp_of_mem fun {y z} hy hz hyz => ?_
  rw [hsame y hy, hsame z hz]
  exact hyz

/-- The deadline queues are in order as long as their requests stay. -/
theorem Ordered.congr (h : Ordered p t s) (hioD : ∀ m ∈ s.dQ.Q, s'.io m = s.io m)
    (hioM : ∀ m ∈ s.mQ.Q, s'.io m = s.io m) (hdQ : s'.dQ = s.dQ) (hmQ : s'.mQ = s.mQ) :
    Ordered p t s' := by
  refine ⟨fun m hm => ?_, fun m hm => ?_, ?_, ?_, ?_, ?_⟩
  · rw [hdQ] at hm
    rw [hioD m hm]
    exact h.dynamic m hm
  · rw [hmQ] at hm
    rw [hioM m hm]
    exact h.mandatory m hm
  · rw [hdQ]
    exact pairwise_same h.sortedD fun y hy => congrArg Io.deadline (hioD y hy)
  · rw [hmQ]
    exact pairwise_same h.sortedM fun y hy => congrArg Io.deadline (hioM y hy)
  · rw [hdQ]
    exact h.sizeD
  · rw [hmQ]
    exact h.sizeM

/-- The clock goes on. -/
theorem Ordered.later (h : Ordered p t s) (hle : t ≤ now) : Ordered p now s := by
  refine ⟨h.dynamic, fun m hm => ?_, h.sortedD, h.sortedM, h.sizeD, h.sizeM⟩
  obtain ⟨hflag, hmand, hdl⟩ := h.mandatory m hm
  exact ⟨hflag, hmand, by omega⟩

/-- A message that is not due before the two heads is not due before any message. -/
theorem TwoLevel.urgent (h : TwoLevel p t s) (hheld : Held s msg)
    (hd : ∀ m ∈ s.dQ.Q.head?, (s.io msg).deadline ≤ (s.io m).deadline)
    (hm : ∀ m ∈ s.mQ.Q.head?, (s.io msg).deadline ≤ (s.io m).deadline) : Urgent s msg := by
  refine ⟨hheld, fun x hx => ?_⟩
  -- a message that waits is behind the head of its queue
  rcases List.mem_append.mp ((h.held x).mp hx) with hx | hx
  · obtain ⟨y, hy, hle⟩ := head_le (f := fun m => (s.io m).deadline) h.sortedD hx
    exact Nat.le_trans (hd y hy) hle
  · obtain ⟨y, hy, hle⟩ := head_le (f := fun m => (s.io m).deadline) h.sortedM hx
    exact Nat.le_trans (hm y hy) hle

/-- When no head is due, nothing is. -/
theorem TwoLevel.not_due (h : TwoLevel p t s) (hd : ∀ m ∈ s.dQ.Q.head?, now < (s.io m).deadline)
    (hm : ∀ m ∈ s.mQ.Q.head?, now < (s.io m).deadline) : ¬ Due s now := by
  rintro ⟨x, hx, hdue⟩
  rcases List.mem_append.mp ((h.held x).mp hx) with hx | hx
  · obtain ⟨y, hy, hle⟩ := head_le (f := fun m => (s.io m).deadline) h.sortedD hx
    have := hd y hy
    omega
  · obtain ⟨y, hy, hle⟩ := head_le (f := fun m => (s.io m).deadline) h.sortedM hx
    have := hm y hy
    omega

/-! ### Leaving the queues -/

/-- One message less is in the deadline queues. -/
theorem Removed.lengths (hr : Removed s msg s') (h : TwoLevel p t s) :
    s'.dQ.size = s'.dQ.Q.length ∧ s'.mQ.size = s'.mQ.Q.length ∧
      s'.dQ.Q.length + s'.mQ.Q.length + 1 = s.dQ.Q.length + s.mQ.Q.length := by
  obtain ⟨hnodupD, hnodupM, -⟩ := List.nodup_append.mp h.nodup
  have hsizeD := h.sizeD
  have hsizeM := h.sizeM
  rcases hr with ⟨hmem, hdQ, hmQ⟩ | ⟨hmem, hdQ, hmQ⟩
  · -- it leaves `dQ`
    have hlen := erase_length hnodupD hmem
    rw [hdQ, hmQ]
    refine ⟨?_, hsizeM, by omega⟩
    show s.dQ.size - 1 = _
    omega
  · -- it leaves `mQ`
    have hlen := erase_length hnodupM hmem
    rw [hdQ, hmQ]
    refine ⟨hsizeD, ?_, by omega⟩
    show s.mQ.size - 1 = _
    omega

/-- What is left in the deadline queues is in the order it had. -/
theorem Removed.sublist (hr : Removed s msg s') :
    List.Sublist s'.dQ.Q s.dQ.Q ∧ List.Sublist s'.mQ.Q s.mQ.Q := by
  rcases hr with ⟨-, hdQ, hmQ⟩ | ⟨-, hdQ, hmQ⟩
  · rw [hdQ, hmQ]
    exact ⟨List.filter_sublist, List.Sublist.refl _⟩
  · rw [hdQ, hmQ]
    exact ⟨List.Sublist.refl _, List.filter_sublist⟩

/-- Only the message itself has left. -/
theorem Removed.mem_iff (hr : Removed s msg s') (h : TwoLevel p t s) (x : Nat) :
    x ∈ s'.dQ.Q ++ s'.mQ.Q ↔ x ≠ msg ∧ x ∈ s.dQ.Q ++ s.mQ.Q := by
  -- no message is in both queues
  have hapart := (List.nodup_append.mp h.nodup).2.2
  have herase : ∀ q : NrsFifo Nat, x ∈ (q.erase msg).Q ↔ x ∈ q.Q ∧ x ≠ msg := by
    intro q
    unfold NrsFifo.erase
    rw [List.mem_filter, decide_eq_true_eq]
  rw [List.mem_append, List.mem_append]
  rcases hr with ⟨hmem, hdQ, hmQ⟩ | ⟨hmem, hdQ, hmQ⟩
  · rw [hdQ, hmQ, herase]
    constructor
    · rintro (⟨hx, hne⟩ | hx)
      · exact ⟨hne, .inl hx⟩
      · exact ⟨fun heq => hapart msg hmem x hx heq.symm, .inr hx⟩
    · rintro ⟨hne, hx | hx⟩
      · exact .inl ⟨hx, hne⟩
      · exact .inr hx
  · rw [hdQ, hmQ, herase]
    constructor
    · rintro (hx | ⟨hx, hne⟩)
      · exact ⟨hapart x hx msg hmem, .inl hx⟩
      · exact ⟨hne, .inr hx⟩
    · rintro ⟨hne, hx | hx⟩
      · exact .inl hx
      · exact .inr ⟨hx, hne⟩

/-- What is left in the deadline queues is in order. -/
theorem Removed.ordered (hr : Removed s msg s') (h : TwoLevel p t s) (hio : s'.io = s.io) :
    Ordered p t s' := by
  obtain ⟨hsizeD, hsizeM, -⟩ := hr.lengths h
  obtain ⟨hsubD, hsubM⟩ := hr.sublist
  refine ⟨fun m hm => ?_, fun m hm => ?_, ?_, ?_, hsizeD, hsizeM⟩
  · rw [hio]
    exact h.dynamic m (hsubD.subset hm)
  · rw [hio]
    exact h.mandatory m (hsubM.subset hm)
  · rw [hio]
    exact h.sortedD.sublist hsubD
  · rw [hio]
    exact h.sortedM.sublist hsubM

/-- The invariant after a message has left. -/
theorem TwoLevel.leave (h : TwoLevel p t s) (hmirror : Mirror s') (hl : Leaves s msg a s')
    (hr : Removed s msg s') (hc : CountedOut s msg s') : TwoLevel p t s' := by
  obtain ⟨-, -, hlen⟩ := hr.lengths h
  obtain ⟨hsubD, hsubM⟩ := hr.sublist
  refine ⟨hr.ordered h hl.io, hmirror, hl.offsets h.offsets, fun m hm => ?_, fun m => ?_,
    h.nodup.sublist (hsubD.append hsubM), ?_, ?_⟩
  · rw [hl.io]
    exact h.fid m ((hl.held h.offsets m).mp hm).2
  · -- it leaves its `io_queue` and its deadline queue together
    rw [hl.held h.offsets m, hr.mem_iff h m, h.held m]
  · have := h.size
    rw [hc.size]
    omega
  · rw [hc.numQueued, h.numQueued]
    unfold sub64
    omega

/-! ### Dequeue -/

/-- A message that waits can leave its `io_queue`. -/
theorem dequeueExpired_ok (h : Mirror s) (hfid : (s.io msg).fid < p.totFiles)
    (hmem : msg ∈ (s.queue ((s.io msg).fid, (s.io msg).cmd)).s.entries) :
    ∃ s', s.dequeueExpired p msg = .ok s' ∧ s'.dQ = s.dQ ∧ s'.mQ = s.mQ := by
  -- the tree of the `io_queue` has the message, so it can be erased
  obtain ⟨t, l, m, herase, -⟩ := NrsRbtree.erase_spec (h.wf _) hmem
  have hpos := List.length_pos_of_mem hmem
  have hnr := h.nr ((s.io msg).fid, (s.io msg).cmd)
  unfold dequeueExpired getIoQueue
  rw [check_true hfid, ok_bind, ok_bind]
  dsimp only
  rw [check_true (by omega), ok_bind, herase]
  by_cases hlast : (s.queue ((s.io msg).fid, (s.io msg).cmd)).nr - 1 = 0
  · exact ⟨_, if_pos hlast, rfl, rfl⟩
  · exact ⟨_, if_neg hlast, rfl, rfl⟩

/-- Choosing the `io_queue` to serve leaves the deadline queues as they are. -/
theorem getWorkQueue_apart (s : NrsFRR) :
    s.getWorkQueue.2.dQ = s.dQ ∧ s.getWorkQueue.2.mQ = s.mQ := by
  unfold getWorkQueue NrsFifo.dequeue
  cases s.wq with
  | some a => exact ⟨rfl, rfl⟩
  | none => cases s.Q.Q <;> exact ⟨rfl, rfl⟩

/-- So does serving it. -/
theorem dequeueWork_apart (hok : s.dequeueWork a = .ok (msg, s')) :
    s'.dQ = s.dQ ∧ s'.mQ = s.mQ := by
  unfold dequeueWork at hok
  obtain ⟨_, -, hok⟩ := bind_eq_ok.mp hok
  obtain ⟨r, -, hok⟩ := bind_eq_ok.mp hok
  obtain ⟨m, -, hok⟩ := bind_eq_ok.mp hok
  dsimp only at hok
  split at hok
  · cases hok
    exact ⟨rfl, rfl⟩
  · split at hok
    · cases hok
      exact ⟨rfl, rfl⟩
    · cases hok
      exact ⟨rfl, rfl⟩

/-- A message that the round robin serves leaves the deadline queue of its kind. -/
theorem TwoLevel.remove (h : TwoLevel p t s) (hmode : p.deadline = .dl2L) (hheld : Held s msg)
    {v : NrsFRR} (hsame : SameStat s v) (hio : v.io = s.io) (hdQ : v.dQ = s.dQ)
    (hmQ : v.mQ = s.mQ) :
    ∃ w, v.removeFromDeadlineQueue p msg = .ok w ∧ Removed s msg w ∧ SameStat s w := by
  unfold removeFromDeadlineQueue
  rw [if_neg (fun hne => hne hmode), hio]
  rcases List.mem_append.mp ((h.held msg).mp hheld) with hmem | hmem
  · -- a dynamic deadline
    obtain ⟨hdyn, hmand⟩ := h.dynamic msg hmem
    refine ⟨{ v with dQ := v.dQ.erase msg }, ?_, .inl ⟨hmem, ?_, hmQ⟩, ?_⟩
    · simp [hdyn, hmand, check_true, hio]
    · rw [← hdQ]
    · exact ⟨hsame.size, hsame.numQueued, hsame.ioQueued, hsame.numServiced, hsame.ioServiced,
        hsame.io⟩
  · -- a mandatory one
    obtain ⟨-, hmand, -⟩ := h.mandatory msg hmem
    refine ⟨{ v with mQ := v.mQ.erase msg }, ?_, .inr ⟨hmem, hdQ, ?_⟩, ?_⟩
    · simp [hmand, hio]
    · rw [← hmQ]
    · exact ⟨hsame.size, hsame.numQueued, hsame.ioQueued, hsame.numServiced, hsame.ioServiced,
        hsame.io⟩

/-- The assertions at the end of `Dequeue` hold when the message has left. -/
theorem TwoLevel.stat (h : TwoLevel p t s) (hr : Removed s msg s') (hsame : SameStat s s') :
    ∃ w, s'.dequeueStat p msg = .ok (some msg, w) ∧ Removed s msg w := by
  obtain ⟨hsizeD, hsizeM, hlen⟩ := hr.lengths h
  have hsize := h.size
  have hnum := h.numQueued
  unfold dequeueStat
  dsimp only
  rw [check_true, ok_bind]
  · exact ⟨_, rfl, hr⟩
  · rintro ⟨hzero, -⟩
    rw [hsame.size] at hzero
    unfold NrsFifo.empty
    rw [hsame.numQueued, hnum, decide_eq_true_eq, decide_eq_true_eq]
    -- with no message left the counters of the queues are 0 too
    unfold sub64
    omega

/-- The message that the round robin serves next: the first one of the `io_queue` whose turn it
is. -/
def nextInTurn (s : NrsFRR) : Option Nat :=
  (s.wq.or s.Q.Q.head?).bind fun a => (s.queue a).s.entries.head?

/-- The first message of the `io_queue` whose turn it is. -/
theorem Turn.next {rest : List Addr} {left : Int} {l : List Nat} (hturn : Turn s a rest left)
    (hlist : (s.queue a).s.entries = msg :: l) : nextInTurn s = some msg := by
  unfold nextInTurn
  cases hturn with
  | work hwq _ _ => simp [hwq, hlist]
  | head hwq hQ _ => simp [hwq, hQ, hlist]

/-- The round robin alone returns that message. -/
theorem dequeue_off (h : Mirror s) (now : Nat) :
    ∃ u, s.dequeue { p with deadline := .dlOff } now = .ok (nextInTurn s, u) := by
  rcases dequeue_served h (p := { p with deadline := .dlOff }) rfl now with
    ⟨hwq, hQ, u, hok, -⟩ | ⟨m, b, u, hok, hserved⟩
  · have hnext : nextInTurn s = none := by simp [nextInTurn, hwq, hQ]
    exact ⟨u, by rw [hnext]; exact hok⟩
  · obtain ⟨rest, left, hturn, -⟩ := hserved.turn
    exact ⟨u, by rw [hturn.next hserved.entries]; exact hok⟩

/-- When no message is taken out of the deadline queues, `Dequeue` serves the round robin. -/
theorem TwoLevel.dequeue_turn (h : TwoLevel p t s) (hmode : p.deadline = .dl2L)
    (hidle : s.ioDeadlineDequeue p now = .ok (none, s)) :
    ∃ w, s.dequeue p now = .ok (nextInTurn s, w) ∧ Takes s (nextInTurn s) w := by
  have hne : p.deadline ≠ .dlOnly := by rw [hmode]; decide
  unfold dequeue
  rw [hidle, ok_bind, if_neg hne]
  dsimp only
  have hapart := getWorkQueue_apart s
  have hstatU := getWorkQueue_stat s
  cases hwork : s.getWorkQueue with
  | mk work u =>
      rw [hwork] at hapart hstatU
      cases work with
      | none =>
          obtain ⟨hwq, hQ, -⟩ := getWorkQueue_none hwork
          have hnext : nextInTurn s = none := by simp [nextInTurn, hwq, hQ]
          rw [hnext]
          exact ⟨u, rfl, hapart⟩
      | some a =>
          obtain ⟨hu, hwq, -, -⟩ := h.mirror.getWorkQueue hwork
          obtain ⟨-, -, hsU, hturn⟩ := getWorkQueue_turn hwork
          obtain ⟨msg, v, hserve, hio, -, hentries, -⟩ := dequeueWork_served hu hwq
          rw [hsU] at hentries
          have hheld : Held s msg := ⟨a, by rw [hentries]; exact List.mem_cons_self⟩
          obtain ⟨hdV, hmV⟩ := dequeueWork_apart hserve
          -- `RemoveFromDeadlineQueue` finds the message in the queue of its kind
          obtain ⟨w, hremove, hr, hsame⟩ := h.remove hmode hheld
            (hstatU.1.trans (dequeueWork_stat hserve).1) (hio.trans hstatU.2)
            (hdV.trans hapart.1) (hmV.trans hapart.2)
          obtain ⟨x, hstat, hr'⟩ := h.stat hr hsame
          rw [hturn.next hentries]
          refine ⟨x, ?_, hr'⟩
          dsimp only
          rw [hserve, ok_bind, hremove, ok_bind, hstat]

/-- When a message is taken out of its deadline queue, `Dequeue` returns it. -/
theorem TwoLevel.dequeue_expired (h : TwoLevel p t s) (hmode : p.deadline = .dl2L) {u : NrsFRR}
    (hexpired : s.ioDeadlineDequeue p now = .ok (some msg, u)) (hr : Removed s msg u)
    (hheld : Held s msg) :
    ∃ w, s.dequeue p now = .ok (some msg, w) ∧ Removed s msg w := by
  have hne : p.deadline ≠ .dlOnly := by rw [hmode]; decide
  have hsame := ioDeadlineDequeue_same hexpired
  obtain ⟨hstatU, hioU⟩ := ioDeadlineDequeue_stat hexpired
  obtain ⟨b, hb⟩ := hheld
  -- the message waits in the `io_queue` of its request
  have hhome := h.offsets.home b msg hb
  obtain ⟨v, hserve, hdV, hmV⟩ := @dequeueExpired_ok p u msg (hsame.mirror h.mirror).1
    (by rw [hioU]; exact h.fid msg ⟨b, hb⟩) (by rw [hioU, hsame.queue, hhome]; exact hb)
  have hr' : Removed s msg v := by
    unfold Removed
    rw [hdV, hmV]
    exact hr
  obtain ⟨w, hstat, hw⟩ := h.stat hr' (hstatU.trans (dequeueExpired_stat hserve).1)
  refine ⟨w, ?_, hw⟩
  unfold dequeue
  rw [hexpired, ok_bind, if_neg hne]
  dsimp only
  rw [hserve, ok_bind, hstat]

/-- `Dequeue` returns the message that is due first, or serves the round robin because nothing is
due or the head of `dQ` is passed over. -/
theorem TwoLevel.dequeue_ok (h : TwoLevel p t s) (hmode : p.deadline = .dl2L) (now : Nat) :
    (∃ m w, s.dequeue p now = .ok (some m, w) ∧ Urgent s m ∧ (s.io m).deadline ≤ now ∧
      ¬ Misjudges s now ∧ Removed s m w) ∨
    (Due s now ↔ Misjudges s now) ∧
      ∃ w, s.dequeue p now = .ok (nextInTurn s, w) ∧ Takes s (nextInTurn s) w := by
  obtain ⟨hnodupD, hnodupM, -⟩ := List.nodup_append.mp h.nodup
  obtain ⟨r, hjudge, hr⟩ := @dequeue2QDeadline_judged now s.io s.dQ s.mQ fun m hm =>
    (h.mandatory m (List.mem_of_mem_head? hm)).1
  -- the call of `Dequeue2QDeadline`, with the queues that it leaves
  have hrun : s.ioDeadlineDequeue p now = .ok (r.1, { s with dQ := r.2.1, mQ := r.2.2 }) := by
    unfold ioDeadlineDequeue
    rw [hmode]
    dsimp only
    rw [hjudge, ok_bind]
  cases hr with
  | idle hd hm =>
      have hdue := h.not_due hd hm
      refine .inr ⟨iff_of_false hdue ?_, h.dequeue_turn hmode hrun⟩
      rintro ⟨m₁, hm₁, m₂, -, hle, -⟩
      have := hd m₁ hm₁
      omega
  | @missed m₁ m₂ hm₁ hm₂ hle hlt =>
      refine .inr ⟨iff_of_true ⟨m₁, ?_, hle⟩ ⟨m₁, hm₁, m₂, hm₂, hle, hlt⟩,
        h.dequeue_turn hmode hrun⟩
      exact (h.held m₁).mpr (List.mem_append_left _ (List.mem_of_mem_head? hm₁))
  | @first m rest hQ hle hsecond =>
      have hmem : m ∈ s.dQ.Q := by rw [hQ]; exact List.mem_cons_self
      have hheld := (h.held m).mpr (List.mem_append_left _ hmem)
      rw [tail_eq_erase hnodupD hQ] at hrun
      obtain ⟨w, hok, hw⟩ := h.dequeue_expired hmode hrun (.inl ⟨hmem, rfl, rfl⟩) hheld
      refine .inl ⟨m, w, hok, h.urgent hheld ?_ fun x hx => (hsecond x hx).1, hle, ?_, hw⟩
      · simp [hQ]
      · rintro ⟨-, -, m₂, hm₂, -, hlt⟩
        have := (hsecond m₂ hm₂).2
        omega
  | @second m rest hQ hle hfirst =>
      have hmem : m ∈ s.mQ.Q := by rw [hQ]; exact List.mem_cons_self
      have hheld := (h.held m).mpr (List.mem_append_right _ hmem)
      rw [tail_eq_erase hnodupM hQ] at hrun
      obtain ⟨w, hok, hw⟩ := h.dequeue_expired hmode hrun (.inr ⟨hmem, rfl, rfl⟩) hheld
      refine .inl ⟨m, w, hok, h.urgent hheld hfirst ?_, hle, ?_, hw⟩
      · simp [hQ]
      · rintro ⟨-, -, m₂, hm₂, -, hlt⟩
        rw [hQ, List.head?_cons, Option.mem_some_iff] at hm₂
        rw [hm₂] at hle
        omega

/-- The invariant does not depend on the rest of the state. -/
theorem TwoLevel.congr (h : TwoLevel p t s) (hmirror : Mirror s')
    (hqueue : ∀ a, (s'.queue a).s = (s.queue a).s) (hio : s'.io = s.io) (hdQ : s'.dQ = s.dQ)
    (hmQ : s'.mQ = s.mQ) (hsize : s'.size = s.size) (hnum : s'.numQueued = s.numQueued) :
    TwoLevel p t s' := by
  have hheld : ∀ m, Held s' m ↔ Held s m := by
    intro m
    unfold Held
    simp only [hqueue]
  have hordered : Ordered p t s' :=
    h.toOrdered.congr (fun m _ => congrFun hio m) (fun m _ => congrFun hio m) hdQ hmQ
  refine ⟨hordered, hmirror, h.offsets.congr hqueue fun m => ⟨(s.io m).deadline, congrFun hio m⟩,
    ?_, ?_, ?_, ?_, ?_⟩
  · simpa only [hheld, hio] using h.fid
  · simpa only [hheld, hdQ, hmQ] using h.held
  · rw [hdQ, hmQ]
    exact h.nodup
  · rw [hsize, hdQ, hmQ]
    exact h.size
  · rw [hnum, hdQ, hmQ]
    exact h.numQueued

/-- `Dequeue` keeps the invariant. -/
theorem TwoLevel.dequeue (h : TwoLevel p t s) (hmode : p.deadline = .dl2L) {out : Option Nat}
    (hok : s.dequeue p now = .ok (out, s')) : TwoLevel p t s' := by
  have hne : p.deadline ≠ .dlOnly := by rw [hmode]; decide
  have hmirror := (h.mirror.dequeue hne hok).1
  have htakes : Takes s out s' := by
    rcases h.dequeue_ok hmode now with ⟨m, w, hok', -, -, -, hr⟩ | ⟨-, w, hok', htakes⟩
    · cases hok.symm.trans hok'
      exact hr
    · cases hok.symm.trans hok'
      exact htakes
  rcases dequeue_leaves h.mirror hne hok with ⟨rfl, hqueue⟩ | ⟨m, a, rfl, hleaves⟩
  · -- nothing moves
    obtain ⟨-, hstat, hio⟩ | ⟨m, hm, -⟩ := dequeue_counted hne hok
    · obtain ⟨hdQ, hmQ⟩ := htakes
      exact h.congr hmirror hqueue hio hdQ hmQ hstat.size hstat.numQueued
    · cases hm
  · -- a message leaves
    obtain ⟨hm, -⟩ | ⟨m', hm, hcounted⟩ := dequeue_counted hne hok
    · cases hm
    · cases hm
      exact h.leave hmirror hleaves htakes hcounted

/-! ### Enqueue -/

/-- Joining an `io_queue` leaves the deadline queues as they are. -/
theorem enqueueIoQueue_apart (hok : s.enqueueIoQueue p msg = .ok s') :
    (s.io msg).fid < p.totFiles ∧ s'.io = s.io ∧ s'.dQ = s.dQ ∧ s'.mQ = s.mQ := by
  unfold enqueueIoQueue getIoQueue at hok
  obtain ⟨a, haddr, hok⟩ := bind_eq_ok.mp hok
  obtain ⟨_, hfid, -⟩ := bind_eq_ok.mp haddr
  obtain ⟨q, -, hok⟩ := bind_eq_ok.mp hok
  refine ⟨check_eq_ok.mp hfid, ?_⟩
  split at hok
  · cases hok
    exact ⟨rfl, rfl, rfl⟩
  · cases hok
    exact ⟨rfl, rfl, rfl⟩

/-- The deadline queue that a message joins, with its deadline. -/
inductive Joins (p : Params) (now : Nat) (s : NrsFRR) (msg : Nat) (s' : NrsFRR) : Prop where
  /-- A dynamic deadline is not before the last one in the queue. -/
  | dynamic (d : Nat) : (s.io msg).flgDynamicDeadline = true →
      s'.io = (s.setDeadline msg d).io → s'.dQ = s.dQ.enqueue msg → s'.mQ = s.mQ →
      (s.dQ.size ≠ 0 → ∀ m ∈ s.dQ.Q.getLast?, (s.io m).deadline ≤ d) → Joins p now s msg s'
  /-- A mandatory deadline is the time and `MDLV`. -/
  | mandatory : (s.io msg).flgDynamicDeadline = false →
      s'.io = (s.setDeadline msg (add64 p.mdlv now)).io → s'.dQ = s.dQ →
      s'.mQ = s.mQ.enqueue msg → Joins p now s msg s'

/-- `SetIoDeadline` puts the message into the queue of its kind. -/
theorem setIoDeadline_joins (hok : s.setIoDeadline p now msg = .ok s') :
    (s.io msg).flgDeadline = true ∧ Joins p now s msg s' := by
  unfold setIoDeadline at hok
  obtain ⟨_, hflags, hok⟩ := bind_eq_ok.mp hok
  refine ⟨(check_eq_ok.mp hflags).2, ?_⟩
  by_cases hdyn : (s.io msg).flgDynamicDeadline = true
  · rw [if_pos hdyn] at hok
    obtain ⟨_, -, hok⟩ := bind_eq_ok.mp hok
    obtain ⟨_, -, hok⟩ := bind_eq_ok.mp hok
    obtain ⟨maxDl, hmax, hok⟩ := bind_eq_ok.mp hok
    cases hok
    refine .dynamic _ hdyn rfl rfl rfl fun hne m hm => ?_
    -- `GetDynamicMaxDeadline` is the deadline of the last message
    unfold getDynamicMaxDeadline NrsFifo.empty NrsFifo.last at hmax
    rw [if_neg (by simp [hne]), Option.mem_def.mp hm] at hmax
    cases hmax
    split
    · exact Nat.le_refl _
    · next hle => exact Nat.le_of_not_lt hle
  · -- it has no dynamic deadline, so it goes to `mQ`
    rw [if_neg hdyn] at hok
    obtain ⟨_, hdl, hok⟩ := bind_eq_ok.mp hok
    cases hok
    rw [(check_eq_ok.mp hdl).2]
    exact .mandatory (Bool.eq_false_iff.mpr hdyn) rfl rfl rfl

/-- `Enqueue` puts the message into the queue of its kind. -/
theorem enqueue_twoLevel (hmode : p.deadline = .dl2L) (hok : s.enqueue p now msg = .ok s') :
    (s.io msg).fid < p.totFiles ∧ (s.io msg).flgDeadline = true ∧ Joins p now s msg s' := by
  have hne : p.deadline ≠ .dlOnly := by rw [hmode]; decide
  unfold enqueue ioDeadlineEnqueue at hok
  rw [if_neg hne, hmode] at hok
  obtain ⟨v, hjoin, hok⟩ := bind_eq_ok.mp hok
  obtain ⟨u, hdeadline, hok⟩ := bind_eq_ok.mp hok
  cases hok
  -- `SetIoDeadline` sees the state behind `EnqueueIoQueue`, which has the same requests
  obtain ⟨hfid, hio, hdQ, hmQ⟩ := enqueueIoQueue_apart hjoin
  obtain ⟨hflag, hjoins⟩ := setIoDeadline_joins hdeadline
  dsimp only at hflag
  rw [hio] at hflag
  refine ⟨hfid, hflag, ?_⟩
  cases hjoins with
  | dynamic d hdyn hio' hdQ' hmQ' hlast =>
      dsimp only at hdyn hdQ' hmQ' hlast
      rw [hio] at hdyn hlast
      rw [hdQ] at hdQ' hlast
      refine .dynamic d hdyn ?_ hdQ' (hmQ'.trans hmQ) hlast
      show u.io = _
      rw [hio']
      unfold setDeadline
      dsimp only
      rw [hio]
  | mandatory hdyn hio' hdQ' hmQ' =>
      dsimp only at hdyn hdQ' hmQ'
      rw [hio] at hdyn
      rw [hmQ] at hmQ'
      refine .mandatory hdyn ?_ (hdQ'.trans hdQ) hmQ'
      show u.io = _
      rw [hio']
      unfold setDeadline
      dsimp only
      rw [hio]

/-- The request of a new message is not in the queues yet. -/
theorem TwoLevel.setReq (h : TwoLevel p t s) {io : Io} (hnew : ¬ Held s msg) :
    TwoLevel p t (s.setReq msg io) := by
  have hsame : ∀ m, Held s m → (s.setReq msg io).io m = s.io m := by
    intro m hm
    -- a message that waits is another one
    refine if_neg fun heq => hnew ?_
    rw [← heq]
    exact hm
  have hqueues : SameQueues s (s.setReq msg io) := ⟨rfl, rfl, rfl⟩
  have hordered : Ordered p t (s.setReq msg io) := h.toOrdered.congr
    (fun m hm => hsame m ((h.held m).mpr (List.mem_append_left _ hm)))
    (fun m hm => hsame m ((h.held m).mpr (List.mem_append_right _ hm))) rfl rfl
  refine ⟨hordered, (hqueues.mirror h.mirror).1, h.offsets.setReq fun a hm => hnew ⟨a, hm⟩,
    fun m hm => ?_, h.held, h.nodup, h.size, h.numQueued⟩
  rw [hsame m hm]
  exact h.fid m hm

/-- The requests of other messages stay. -/
theorem Joins.other (hj : Joins p now s msg s') {x : Nat} (hx : x ≠ msg) : s'.io x = s.io x := by
  cases hj with
  | dynamic d _ hio => exact (congrFun hio x).trans (if_neg hx)
  | mandatory _ hio => exact (congrFun hio x).trans (if_neg hx)

/-- The message is in one of the queues. -/
theorem Joins.perm (hj : Joins p now s msg s') :
    (s'.dQ.Q ++ s'.mQ.Q).Perm (msg :: (s.dQ.Q ++ s.mQ.Q)) := by
  cases hj with
  | dynamic d _ _ hdQ hmQ =>
      rw [hdQ, hmQ]
      show (s.dQ.Q ++ [msg] ++ s.mQ.Q).Perm _
      rw [List.append_assoc]
      exact List.perm_middle
  | mandatory _ _ hdQ hmQ =>
      rw [hdQ, hmQ]
      show (s.dQ.Q ++ (s.mQ.Q ++ [msg])).Perm _
      rw [← List.append_assoc]
      exact List.perm_append_singleton _ _

/-- The queue that the message joins stays in order, when the message has one kind of deadline. -/
theorem Joins.ordered (hj : Joins p now s msg s') (h : Ordered p now s)
    (hnew : msg ∉ s.dQ.Q ++ s.mQ.Q) (hflag : (s.io msg).flgDeadline = true)
    (hkind : (s.io msg).flgDynamicDeadline = !(s.io msg).flgMandatoryDeadline)
    (hfits : (s.io msg).flgMandatoryDeadline = true → p.mdlv + now < 2 ^ 64) :
    Ordered p now s' := by
  have hsizeD := h.sizeD
  have hsizeM := h.sizeM
  rw [List.mem_append, not_or] at hnew
  have hioD : ∀ x ∈ s.dQ.Q, s'.io x = s.io x :=
    fun x hx => hj.other (ne_of_mem_of_not_mem hx hnew.1)
  have hioM : ∀ x ∈ s.mQ.Q, s'.io x = s.io x :=
    fun x hx => hj.other (ne_of_mem_of_not_mem hx hnew.2)
  cases hj with
  | dynamic d hdyn hio hdQ hmQ hlast =>
      have hself : s'.io msg = { s.io msg with deadline := d } := by
        rw [hio]
        exact if_pos rfl
      -- the queue of the mandatory deadlines is as before
      have hrest : Ordered p now { s' with dQ := s.dQ } := h.congr hioD hioM rfl hmQ
      refine ⟨fun m hm => ?_, hrest.mandatory, ?_, hrest.sortedM, ?_, hrest.sizeM⟩
      · rw [hdQ] at hm
        rcases List.mem_append.mp hm with hm | hm
        · rw [hioD m hm]
          exact h.dynamic m hm
        · rw [List.mem_singleton.mp hm, hself]
          exact ⟨hdyn, by simpa [hdyn] using hkind⟩
      · rw [hdQ]
        refine pairwise_push (f := fun m => (s.io m).deadline) h.sortedD
          (fun y hy => congrArg Io.deadline (hioD y hy)) fun y hy => ?_
        rw [hself]
        -- the last message of the queue bounds the others
        have hpos := List.length_pos_of_mem hy
        have hsome : s.dQ.Q.getLast? = some (s.dQ.Q.getLast (List.ne_nil_of_mem hy)) :=
          List.getLast?_eq_some_getLast _
        exact Nat.le_trans (le_last (f := fun m => (s.io m).deadline) h.sortedD hy hsome)
          (hlast (by omega) _ hsome)
      · rw [hdQ]
        show s.dQ.size + 1 = ((s.dQ.Q ++ [msg]).length : Int)
        rw [List.length_append, List.length_singleton]
        omega
  | mandatory hdyn hio hdQ hmQ =>
      have hmand : (s.io msg).flgMandatoryDeadline = true := by simpa [hdyn] using hkind
      have hself : s'.io msg = { s.io msg with deadline := p.mdlv + now } := by
        rw [hio, add64_eq (hfits hmand)]
        exact if_pos rfl
      -- the queue of the dynamic deadlines is as before
      have hrest : Ordered p now { s' with mQ := s.mQ } := h.congr hioD hioM hdQ rfl
      refine ⟨hrest.dynamic, fun m hm => ?_, hrest.sortedD, ?_, hrest.sizeD, ?_⟩
      · rw [hmQ] at hm
        rcases List.mem_append.mp hm with hm | hm
        · rw [hioM m hm]
          exact h.mandatory m hm
        · rw [List.mem_singleton.mp hm, hself]
          exact ⟨hflag, hmand, Nat.le_refl _⟩
      · rw [hmQ]
        refine pairwise_push (f := fun m => (s.io m).deadline) h.sortedM
          (fun y hy => congrArg Io.deadline (hioM y hy)) fun y hy => ?_
        rw [hself]
        -- no deadline of `mQ` is behind the time and `MDLV`
        exact (h.mandatory y hy).2.2
      · rw [hmQ]
        show s.mQ.size + 1 = ((s.mQ.Q ++ [msg]).length : Int)
        rw [List.length_append, List.length_singleton]
        omega

/-- `Enqueue` of a new message with one kind of deadline keeps the invariant. -/
theorem TwoLevel.enqueue (h : TwoLevel p now s) (hmode : p.deadline = .dl2L)
    (hnew : ¬ Held s msg)
    (hkind : (s.io msg).flgDynamicDeadline = !(s.io msg).flgMandatoryDeadline)
    (hfits : (s.io msg).flgMandatoryDeadline = true → p.mdlv + now < 2 ^ 64)
    (hok : s.enqueue p now msg = .ok s') : TwoLevel p now s' := by
  have hne : p.deadline ≠ .dlOnly := by rw [hmode]; decide
  obtain ⟨hfid, hflag, hjoins⟩ := enqueue_twoLevel hmode hok
  obtain ⟨hsize, hnum, -, -, -, hio⟩ := enqueue_stat hok
  obtain ⟨hoffsets, hheld⟩ := enqueue_held h.mirror h.offsets hne hok
  have hperm := hjoins.perm
  have hlen : s'.dQ.Q.length + s'.mQ.Q.length = s.dQ.Q.length + s.mQ.Q.length + 1 := by
    have := hperm.length_eq
    simpa only [List.length_append, List.length_cons] using this
  have hnot : msg ∉ s.dQ.Q ++ s.mQ.Q := fun hin => hnew ((h.held msg).mpr hin)
  refine ⟨hjoins.ordered h.toOrdered hnot hflag hkind hfits, (h.mirror.enqueue hne hok).1,
    hoffsets, fun m hm => ?_, fun m => ?_,
    hperm.nodup_iff.mpr (List.nodup_cons.mpr ⟨hnot, h.nodup⟩), ?_, ?_⟩
  · obtain ⟨d, hd⟩ := hio m
    rw [hd]
    rcases (hheld m).mp hm with rfl | hm
    · exact hfid
    · exact h.fid m hm
  · rw [hheld m, hperm.mem_iff, List.mem_cons, h.held m]
  · have := h.size
    omega
  · -- both sides are counted modulo `2 ^ 64`
    rw [hnum, h.numQueued, hlen]
    unfold add64
    omega

/-! ### Runs -/

/-- A call with the clock beside the scheduler. The clock does not go back, and a request has one
kind of deadline. A mandatory one is a 64-bit number. -/
inductive DueStep (p : Params) : NrsFRR × Nat → Call → NrsFRR × Nat → Prop where
  | enqueue {s s' : NrsFRR} {t now msg : Nat} {io : Io} : t ≤ now →
      io.flgDynamicDeadline = !io.flgMandatoryDeadline →
      (io.flgMandatoryDeadline = true → p.mdlv + now < 2 ^ 64) →
      Step p s (.enqueue now msg io) s' → DueStep p (s, t) (.enqueue now msg io) (s', now)
  | dequeue {s s' : NrsFRR} {t now : Nat} {msg : Option Nat} : t ≤ now →
      Step p s (.dequeue now msg) s' → DueStep p (s, t) (.dequeue now msg) (s', now)
  | finish {s s' : NrsFRR} {t msg : Nat} :
      Step p s (.finish msg) s' → DueStep p (s, t) (.finish msg) (s', t)

/-- The clock goes on. -/
theorem TwoLevel.later (h : TwoLevel p t s) (hle : t ≤ now) : TwoLevel p now s :=
  { h with toOrdered := h.toOrdered.later hle }

/-- `Finish` counts messages in service only. -/
theorem finish_apart (s : NrsFRR) (msg : Nat) :
    (s.finish msg).io = s.io ∧ (s.finish msg).dQ = s.dQ ∧ (s.finish msg).mQ = s.mQ ∧
      (s.finish msg).size = s.size ∧ (s.finish msg).numQueued = s.numQueued := by
  unfold finish
  exact ⟨rfl, rfl, rfl, rfl, rfl⟩

/-- Every call keeps the invariant. -/
theorem TwoLevel.step {x y : NrsFRR × Nat} {c : Call} (h : TwoLevel p x.2 x.1)
    (hmode : p.deadline = .dl2L) (hstep : DueStep p x c y) : TwoLevel p y.2 y.1 := by
  cases hstep with
  | @enqueue s s' t now msg io hle hkind hfits hcall =>
      cases hcall with
      | enqueue hnew hok =>
          -- the request is set before the call
          have hheld : ¬ Held s msg := fun ⟨a, ha⟩ => hnew a ha
          have hreq : (s.setReq msg io).io msg = io := if_pos rfl
          rw [← hreq] at hkind hfits
          exact ((h.later hle).setReq hheld).enqueue hmode hheld hkind hfits hok
  | dequeue hle hcall =>
      cases hcall with
      | dequeue hok => exact (h.later hle).dequeue hmode hok
  | @finish s s' t msg hcall =>
      cases hcall with
      | finish =>
          -- `Finish` does not touch what waits
          have hsame := finish_same s msg
          obtain ⟨hio, hdQ, hmQ, hsize, hnum⟩ := finish_apart s msg
          exact h.congr (hsame.mirror h.mirror).1 (fun a => by rw [hsame.queue]) hio hdQ hmQ hsize
            hnum

/-- A new scheduler has no messages. -/
theorem new_twoLevel (io : Nat → Io) : TwoLevel p t (new io) := by
  have hordered : Ordered p t (new io) :=
    ⟨(fun _ hm => nomatch hm), (fun _ hm => nomatch hm), .nil, .nil, rfl, rfl⟩
  have hheld : ∀ m, ¬ Held (new io) m := fun m ⟨a, ha⟩ => nomatch ha
  exact ⟨hordered, (new_mirror io).1, (new_inTurn io).offsets,
    fun m hm => absurd hm (hheld m), fun m => iff_of_false (hheld m) List.not_mem_nil, .nil, rfl,
    rfl⟩

/-- `Dequeue` does not abort. When a message with a deadline that has passed waits it returns a
message that is due first, and otherwise the one that the round robin alone would return. -/
def ServesDue (p : Params) (s : NrsFRR) (now : Nat) : Prop :=
  ∃ out w, s.dequeue p now = .ok (out, w) ∧ (Due s now → ∃ m, out = some m ∧ Urgent s m) ∧
    (¬ Due s now → ∃ u, s.dequeue { p with deadline := .dlOff } now = .ok (out, u))

/-- In every run `Dequeue` serves the deadlines before the round robin, unless the head of `dQ` is
due, the head of `mQ` is not, and the next message of the round robin is not one that is due first.
-/
theorem expired_first {io : Nat → Io} {t₀ : Nat} {calls : List Call}
    (hmode : p.deadline = .dl2L) (hrun : Run (DueStep p) (new io, t₀) calls (s, t)) (now : Nat) :
    ServesDue p s now ↔ (Misjudges s now → ∃ m, nextInTurn s = some m ∧ Urgent s m) := by
  have h : TwoLevel p t s :=
    hrun.invariant (P := fun x => TwoLevel p x.2 x.1) (fun _ _ _ h hstep => h.step hmode hstep)
      (new_twoLevel io)
  unfold ServesDue
  rcases h.dequeue_ok hmode now with ⟨m, w, hok, hurgent, hdue, hright, -⟩ | ⟨hdue, w, hok, -⟩
  · -- the message that is due first
    refine iff_of_true ⟨some m, w, hok, fun _ => ⟨m, rfl, hurgent⟩, fun hnot => ?_⟩
      fun hmis => absurd hmis hright
    exact absurd ⟨m, hurgent.1, hdue⟩ hnot
  · -- the next message of the round robin
    constructor
    · rintro ⟨out, w', hok', hserves, -⟩ hmis
      -- `Dequeue` returns one result
      cases hok.symm.trans hok'
      exact hserves (hdue.mpr hmis)
    · intro hnext
      exact ⟨nextInTurn s, w, hok, fun hwaits => hnext (hdue.mp hwaits),
        fun _ => dequeue_off h.mirror now⟩

/-- A request to write with a dynamic deadline. -/
def dynamicIo : Io :=
  { exampleIo 0 with
    cmd := .write, flgDynamicDeadline := true, flgMandatoryDeadline := false, count := 1
    deadline := 0 }

/-- A request to read with a mandatory deadline. -/
def mandatoryIo : Io := { exampleIo 0 with count := 1 }

/-- A reader with a deadline of 5, and a writer with a deadline of 2. -/
def mixedCalls : List Call := [.enqueue 0 1 mandatoryIo, .enqueue 0 2 dynamicIo]

/-- The calls succeed, and the round robin serves the reader first. -/
theorem mixedCalls_run :
    ∃ s, Run (DueStep (exampleParams .dl2L)) (new fun _ => exampleIo 0, 0) mixedCalls (s, 0) ∧
      s.dQ.Q = [2] ∧ s.mQ.Q = [1] ∧ (s.io 2).deadline = 2 ∧ (s.io 1).deadline = 5 ∧
      nextInTurn s = some 1 ∧ (s.queue (0, .write)).s.entries = [2] :=
  ⟨_, .cons (.enqueue (Nat.le_refl 0) rfl (by decide) (.enqueue (fun _ h => nomatch h) rfl))
    (.cons (.enqueue (Nat.le_refl 0) rfl (by decide) (.enqueue (fun a hin => by
      by_cases ha : a = (0, Cmd.read)
      · subst ha
        revert hin
        decide
      · change 2 ∈ (if a = (0, Cmd.read) then _ else _ : IoQueue).s.tree.toList at hin
        rw [if_neg ha] at hin
        cases hin) rfl)) (.nil _)), rfl, rfl, rfl, rfl, rfl, rfl⟩

/-- At the time 5 both are due, and the writer is served first. -/
theorem expired_first_two :
    ∃ s, Run (DueStep (exampleParams .dl2L)) (new fun _ => exampleIo 0, 0) mixedCalls (s, 0) ∧
      ServesDue (exampleParams .dl2L) s 5 := by
  obtain ⟨s, hrun, hdQ, hmQ, -, hdl, -⟩ := mixedCalls_run
  refine ⟨s, hrun, (expired_first rfl hrun 5).mpr ?_⟩
  rintro ⟨-, -, m₂, hm₂, -, hlt⟩
  rw [hmQ, List.head?_cons, Option.mem_some_iff] at hm₂
  rw [← hm₂, hdl] at hlt
  exact absurd hlt (by decide)

/-- At the time 3 only the writer is due, and the reader is served. -/
theorem expired_passed_over :
    ¬ ∀ (p : Params) (io : Nat → Io) (t₀ : Nat) (calls : List Call) (s : NrsFRR) (t now : Nat),
      p.deadline = .dl2L → Run (DueStep p) (new io, t₀) calls (s, t) → t ≤ now →
      ServesDue p s now := by
  intro hall
  obtain ⟨s, hrun, hdQ, hmQ, hdl2, hdl1, hnext, hentries⟩ := mixedCalls_run
  have hserves := hall (exampleParams .dl2L) _ 0 _ s 0 3 rfl hrun (by decide)
  have h : TwoLevel (exampleParams .dl2L) 0 s :=
    hrun.invariant (P := fun x => TwoLevel (exampleParams .dl2L) x.2 x.1)
      (fun _ _ _ h hstep => h.step rfl hstep) (new_twoLevel _)
  have hheld : Held s 2 := ⟨(0, .write), by rw [hentries]; exact List.mem_cons_self⟩
  have hmis : Misjudges s 3 :=
    ⟨2, by rw [hdQ]; rfl, 1, by rw [hmQ]; rfl, by rw [hdl2]; decide, by rw [hdl1]; decide⟩
  rcases h.dequeue_ok rfl 3 with ⟨-, -, -, -, -, hright, -⟩ | ⟨hdue, w, hok, -⟩
  · exact hright hmis
  · obtain ⟨out, w', hok', hfirst, -⟩ := hserves
    cases hok.symm.trans hok'
    -- the reader would be due first, but the writer is due before it
    obtain ⟨m, hm, hurgent⟩ := hfirst (hdue.mpr hmis)
    cases hnext.symm.trans hm
    have hle := hurgent.2 2 hheld
    rw [hdl1, hdl2] at hle
    exact absurd hle (by decide)

end LustreSimulator.NrsFRR
