import LustreSimulator.Lib.Rank
import LustreSimulator.Proofs.NrsFRR

/-!
# `LustreSimulator.Proofs.NrsFrrService`: how long an `io_queue` waits

Without deadlines `wq` is served until its quantum is used up or it is empty, and then the next
`io_queue` of `Q` follows. `InTurn` is the invariant: every `io_queue` with messages is `wq` or in
`Q`, the quantum of `wq` is between 1 and `FRR_QUANTUM`, and the messages of an `io_queue` are in
the order of their offsets. `Served` says what a `Dequeue` does.

The `rank` of an `io_queue` is the number of messages that can be served before it: the quantum of
`wq` and one `FRR_QUANTUM` for every `io_queue` before it in `Q`. `Served.rank` says that a
`Dequeue` lowers it, and `frr_bounded_service` is the bound.
-/

set_option autoImplicit false

namespace LustreSimulator.NrsFRR

open Lib NrsMessage

variable {p : Params} {s s' : NrsFRR} {msg now : Nat} {a : Addr}

/-! ### The order of the offsets -/

/-- The messages of every `io_queue` are its own, in the order of their offsets. -/
structure Offsets (s : NrsFRR) : Prop where
  home : ∀ a, ∀ m ∈ (s.queue a).s.entries, ((s.io m).fid, (s.io m).cmd) = a
  sorted : ∀ a, (s.queue a).s.entries.Pairwise fun m m' => (s.io m).off < (s.io m').off

/-- `CompareByOffset` is negative when the offset is not greater. -/
theorem compareByOffset_neg (io : Nat → Io) (x y : Nat) :
    compareByOffset io x y < 0 ↔ (io x).off ≤ (io y).off := by
  unfold compareByOffset
  split
  · exact iff_of_false (by decide) (by omega)
  · exact iff_of_true (by decide) (by omega)

/-- `IoEnqueue` puts the message at its place in the order. A message with an offset that is queued
already would stop it. -/
theorem ioEnqueue_sorted {io : Nat → Io} {q q' : IoQueue} (hwf : q.s.WF)
    (hsorted : q.s.entries.Pairwise fun m m' => (io m).off < (io m').off)
    (hok : ioEnqueue io q msg = .ok q') :
    (q'.s.entries.Pairwise fun m m' => (io m).off < (io m').off) ∧
      q'.s.entries.Perm (msg :: q.s.entries) ∧ q'.quantum = q.quantum := by
  unfold ioEnqueue at hok
  obtain ⟨_, hcheck, hok⟩ := bind_eq_ok.mp hok
  obtain ⟨t, henq, hok⟩ := bind_eq_ok.mp hok
  have hcheck := check_eq_ok.mp hcheck
  obtain ⟨t', l, m, henq', -, hlist, hlist', hhead, hsplit⟩ :=
    @NrsRbtree.enqueue_spec Nat (compareByOffset io) q.s msg hwf
  cases henq'.symm.trans (require_eq_ok.mp henq)
  cases hok
  obtain ⟨hl, hm⟩ := hsplit (hsorted.imp fun {x y} hxy hx => by
    rw [compareByOffset_neg] at hx ⊢
    omega)
  show (t.entries.Pairwise _) ∧ t.entries.Perm _ ∧ _
  rw [hlist', hlist]
  refine ⟨?_, List.perm_middle, rfl⟩
  rw [hlist, List.pairwise_append] at hsorted
  obtain ⟨hsortedL, hsortedM, hcross⟩ := hsorted
  have hbehind : ∀ x ∈ m, (io msg).off < (io x).off := by
    cases m with
    | nil => exact fun x hx => nomatch hx
    | cons y rest =>
        -- the first message behind the place was compared, so its offset is another one
        have hle := (compareByOffset_neg io msg y).mp (hm y List.mem_cons_self)
        have hne := (hcheck y (hhead y rfl)).2
        rw [List.pairwise_cons] at hsortedM
        intro x hx
        rcases List.mem_cons.mp hx with rfl | hx
        · omega
        · have := hsortedM.1 x hx
          omega
  rw [List.pairwise_append, List.pairwise_cons]
  refine ⟨hsortedL, ⟨hbehind, hsortedM⟩, fun x hx y hy => ?_⟩
  rcases List.mem_cons.mp hy with rfl | hy
  · have := hl x hx
    rw [compareByOffset_neg] at this
    omega
  · exact hcross x hx y hy

/-! ### Enqueue -/

/-- What joining an `io_queue` does: the message is in it, and it may have joined the end of `Q`. -/
structure Joined (s : NrsFRR) (msg : Nat) (a : Addr) (s' : NrsFRR) : Prop where
  io : s'.io = s.io
  wq : s'.wq = s.wq
  other : ∀ b, b ≠ a → s'.queue b = s.queue b
  perm : (s'.queue a).s.entries.Perm (msg :: (s.queue a).s.entries)
  sorted : (s'.queue a).s.entries.Pairwise fun m m' => (s.io m).off < (s.io m').off
  quantum : (s'.queue a).quantum = (s.queue a).quantum
  Q : s'.Q.Q = s.Q.Q ∨ s'.Q.Q = s.Q.Q ++ [a]

/-- A message joins the `io_queue` of its file and direction. -/
theorem enqueueIoQueue_joined (h : Mirror s) (ho : Offsets s)
    (hok : s.enqueueIoQueue p msg = .ok s') :
    Joined s msg ((s.io msg).fid, (s.io msg).cmd) s' := by
  unfold NrsFRR.enqueueIoQueue at hok
  obtain ⟨a, haddr, hok⟩ := bind_eq_ok.mp hok
  obtain ⟨q, hq, hok⟩ := bind_eq_ok.mp hok
  have ha : a = ((s.io msg).fid, (s.io msg).cmd) := by
    unfold getIoQueue at haddr
    obtain ⟨_, -, haddr⟩ := bind_eq_ok.mp haddr
    cases haddr
    rfl
  rw [← ha]
  have hspec : (q.s.entries.Pairwise fun m m' => (s.io m).off < (s.io m').off) ∧
      q.s.entries.Perm (msg :: (s.queue a).s.entries) ∧ q.quantum = (s.queue a).quantum := by
    cases hinited : (s.queue a).inited with
    | true =>
        rw [if_pos hinited] at hq
        exact ioEnqueue_sorted (h.wf a) (ho.sorted a) hq
    | false =>
        -- a new `io_queue` has no messages
        have hnil : (s.queue a).s.entries = [] := by
          have := h.nr a
          rw [h.inited a hinited] at this
          exact List.eq_nil_of_length_eq_zero (by omega)
        rw [if_neg (by rw [hinited]; decide)] at hq
        rw [hnil]
        exact ioEnqueue_sorted (q := { s.queue a with s := .new, inited := true })
          NrsRbtree.wf_new .nil hq
  obtain ⟨hsorted, hperm, hquantum⟩ := hspec
  split at hok
  · cases hok
    have hat : ({ s.setQueue a { q with queued := true } with
        Q := s.Q.enqueue a } : NrsFRR).queue a = { q with queued := true } := if_pos rfl
    refine ⟨rfl, rfl, fun b hb => if_neg hb, ?_, ?_, ?_, .inr rfl⟩
    · rw [hat]
      exact hperm
    · rw [hat]
      exact hsorted
    · rw [hat]
      exact hquantum
  · cases hok
    have hat : (s.setQueue a q).queue a = q := if_pos rfl
    refine ⟨rfl, rfl, fun b hb => if_neg hb, ?_, ?_, ?_, .inl rfl⟩
    · rw [hat]
      exact hperm
    · rw [hat]
      exact hsorted
    · rw [hat]
      exact hquantum

/-- The offsets stay in order when a message joins. -/
theorem Joined.offsets (h : Joined s msg ((s.io msg).fid, (s.io msg).cmd) s') (ho : Offsets s) :
    Offsets s' := by
  refine ⟨fun b m hm => ?_, fun b => ?_⟩
  · rw [h.io]
    by_cases hb : b = ((s.io msg).fid, (s.io msg).cmd)
    · rw [hb] at hm ⊢
      rcases List.mem_cons.mp (h.perm.mem_iff.mp hm) with rfl | hm
      · rfl
      · exact ho.home _ m hm
    · rw [h.other b hb] at hm
      exact ho.home b m hm
  · rw [h.io]
    by_cases hb : b = ((s.io msg).fid, (s.io msg).cmd)
    · rw [hb]
      exact h.sorted
    · rw [h.other b hb]
      exact ho.sorted b

/-! ### Dequeue -/

/-- The `io_queue` that is served next, with the rest of `Q` and the messages that are left of its
quantum. -/
inductive Turn (s : NrsFRR) (a : Addr) (rest : List Addr) (left : Int) : Prop where
  /-- It is `wq`. -/
  | work : s.wq = some a → rest = s.Q.Q → left = (s.queue a).quantum → Turn s a rest left
  /-- There is no `wq`, and it is the head of `Q`. -/
  | head : s.wq = none → s.Q.Q = a :: rest → left = frrQuantum → Turn s a rest left

/-- What a `Dequeue` without deadlines does: the `io_queue` whose turn it is loses its first
message. It stays `wq` unless it is empty or its quantum is used up, and in the second case it joins
the end of `Q`. -/
structure Served (s : NrsFRR) (msg : Nat) (a : Addr) (s' : NrsFRR) : Prop where
  io : s'.io = s.io
  other : ∀ b, b ≠ a → s'.queue b = s.queue b
  entries : (s.queue a).s.entries = msg :: (s'.queue a).s.entries
  turn : ∃ rest left, Turn s a rest left ∧
    ((s'.wq = none ∧ s'.Q.Q = rest) ∨ (s'.wq = none ∧ s'.Q.Q = rest ++ [a]) ∨
      (s'.wq = some a ∧ s'.Q.Q = rest ∧ left ≠ 1 ∧ (s'.queue a).quantum = left - 1))

/-- `wq` has a first message, and serving it succeeds. -/
theorem dequeueWork_served (h : Mirror s) (hwq : s.wq = some a) :
    ∃ msg s', s.dequeueWork a = .ok (msg, s') ∧ s'.io = s.io ∧
      (∀ b, b ≠ a → s'.queue b = s.queue b) ∧
      (s.queue a).s.entries = msg :: (s'.queue a).s.entries ∧
      ((s'.wq = none ∧ s'.Q = s.Q) ∨ (s'.wq = none ∧ s'.Q.Q = s.Q.Q ++ [a]) ∨
        (s'.wq = some a ∧ s'.Q = s.Q ∧ (s.queue a).quantum ≠ 1 ∧
          (s'.queue a).quantum = (s.queue a).quantum - 1)) := by
  have hnr := h.nr a
  have hpos := (h.wq a hwq).2
  rcases NrsRbtree.dequeue_spec (h.wf a) with ⟨hnil, -⟩ | ⟨msg, rest, t, hlist, hdeq, -, hrest⟩
  · rw [hnil] at hnr
    have : ((List.length ([] : List Nat) : Nat) : Int) = 0 := rfl
    omega
  · have hrun : s.dequeueWork a =
        (let q := { s.queue a with
          nr := (s.queue a).nr - 1, s := t, quantum := (s.queue a).quantum - 1 }
        if q.nr = 0 then .ok (msg, { s.setQueue a q with wq := none })
        else if q.quantum = 0 then
          .ok (msg, { s.setQueue a { q with work := false, queued := true } with
            Q := s.Q.enqueue a, wq := none })
        else .ok (msg, s.setQueue a q)) := by
      unfold dequeueWork
      dsimp only
      rw [check_true (by omega : (s.queue a).nr - 1 ≥ 0), ok_bind, hdeq]
      rfl
    rw [hrun, hlist, ← hrest]
    dsimp only
    split
    · have hat : ({ s.setQueue a { s.queue a with
          nr := (s.queue a).nr - 1, s := t, quantum := (s.queue a).quantum - 1 } with
          wq := none } : NrsFRR).queue a = { s.queue a with
            nr := (s.queue a).nr - 1, s := t, quantum := (s.queue a).quantum - 1 } := if_pos rfl
      refine ⟨msg, _, rfl, rfl, fun b hb => if_neg hb, ?_, .inl ⟨rfl, rfl⟩⟩
      rw [hat]
    · split
      · have hat : ({ s.setQueue a { s.queue a with
            nr := (s.queue a).nr - 1, s := t, quantum := (s.queue a).quantum - 1
            work := false, queued := true } with
            Q := s.Q.enqueue a, wq := none } : NrsFRR).queue a = { s.queue a with
              nr := (s.queue a).nr - 1, s := t, quantum := (s.queue a).quantum - 1
              work := false, queued := true } := if_pos rfl
        refine ⟨msg, _, rfl, rfl, fun b hb => if_neg hb, ?_, .inr (.inl ⟨rfl, rfl⟩)⟩
        rw [hat]
      · have hat : (s.setQueue a { s.queue a with
            nr := (s.queue a).nr - 1, s := t, quantum := (s.queue a).quantum - 1 }).queue a =
              { s.queue a with
                nr := (s.queue a).nr - 1, s := t, quantum := (s.queue a).quantum - 1 } := if_pos rfl
        refine ⟨msg, _, rfl, rfl, fun b hb => if_neg hb, ?_, .inr (.inr ⟨hwq, rfl, ?_, ?_⟩)⟩
        · rw [hat]
        · omega
        · rw [hat]

/-- `GetWorkQueue` finds whose turn it is. -/
theorem getWorkQueue_turn (hwork : s.getWorkQueue = (some a, s')) :
    s'.io = s.io ∧ (∀ b, b ≠ a → s'.queue b = s.queue b) ∧ (s'.queue a).s = (s.queue a).s ∧
      Turn s a s'.Q.Q (s'.queue a).quantum := by
  unfold NrsFRR.getWorkQueue at hwork
  cases hwq : s.wq with
  | some b =>
      rw [hwq] at hwork
      cases hwork
      exact ⟨rfl, fun _ _ => rfl, rfl, .work hwq rfl rfl⟩
  | none =>
      rw [hwq] at hwork
      unfold NrsFifo.dequeue at hwork
      cases hQ : s.Q.Q with
      | nil =>
          rw [hQ] at hwork
          cases hwork
      | cons b rest =>
          rw [hQ] at hwork
          cases hwork
          have hat : ({ s.setQueue a { s.queue a with
              queued := false, work := true, quantum := frrQuantum } with
              Q := ⟨rest, s.Q.size - 1⟩, wq := some a } : NrsFRR).queue a = { s.queue a with
                queued := false, work := true, quantum := frrQuantum } := if_pos rfl
          refine ⟨rfl, fun b hb => if_neg hb, ?_, .head hwq hQ ?_⟩
          · rw [hat]
          · rw [hat]

/-- `GetWorkQueue` changes no request. -/
theorem getWorkQueue_io (s : NrsFRR) : s.getWorkQueue.2.io = s.io := by
  unfold getWorkQueue NrsFifo.dequeue
  cases s.wq with
  | some a => rfl
  | none => cases s.Q.Q <;> rfl

/-- The end of `Dequeue` moves no `io_queue`. -/
theorem dequeueStat_off (hmode : p.deadline ≠ .dl2L) (s : NrsFRR) (msg : Nat) :
    ∃ s', s.dequeueStat p msg = .ok (some msg, s') ∧ SameQueues s s' ∧ s'.io = s.io := by
  unfold dequeueStat
  dsimp only
  rw [check_true (fun hempty => absurd hempty.2 hmode), ok_bind]
  exact ⟨_, rfl, ⟨rfl, rfl, rfl⟩, rfl⟩

/-- `Dequeue` without deadlines does not abort. Without `wq` and with `Q` empty it returns no
message, and otherwise it serves the `io_queue` whose turn it is. -/
theorem dequeue_served (h : Mirror s) (hmode : p.deadline = .dlOff) (now : Nat) :
    (s.wq = none ∧ s.Q.Q = [] ∧ ∃ s', s.dequeue p now = .ok (none, s') ∧ s'.io = s.io ∧
      SameQueues s s') ∨
    ∃ msg a s', s.dequeue p now = .ok (some msg, s') ∧ Served s msg a s' := by
  have hexpired : s.ioDeadlineDequeue p now = .ok (none, s) := by
    unfold ioDeadlineDequeue
    rw [hmode]
  have hne : p.deadline ≠ .dlOnly := by rw [hmode]; decide
  have hne' : p.deadline ≠ .dl2L := by rw [hmode]; decide
  unfold dequeue
  rw [hexpired, ok_bind, if_neg hne]
  dsimp only
  cases hwork : s.getWorkQueue with
  | mk work u =>
      cases work with
      | none =>
          obtain ⟨hwq, hQ, hsame⟩ := getWorkQueue_none hwork
          refine .inl ⟨hwq, hQ, u, rfl, ?_, hsame⟩
          have hio := getWorkQueue_io s
          rwa [hwork] at hio
      | some a =>
          obtain ⟨hu, hwq, -, -⟩ := h.getWorkQueue hwork
          obtain ⟨hioU, hotherU, hsU, hturn⟩ := getWorkQueue_turn hwork
          obtain ⟨msg, v, hserve, hio, hother, hentries, hnext⟩ := dequeueWork_served hu hwq
          obtain ⟨w, hstat, hsame, hioW⟩ := dequeueStat_off hne' v msg
          refine .inr ⟨msg, a, w, ?_, hioW.trans (hio.trans hioU), fun b hb => ?_, ?_,
            u.Q.Q, (u.queue a).quantum, hturn, ?_⟩
          · dsimp only
            rw [hserve, ok_bind]
            unfold removeFromDeadlineQueue
            rw [if_pos hne', ok_bind, hstat]
          · rw [hsame.queue, hother b hb, hotherU b hb]
          · rw [← hsU, hsame.queue]
            exact hentries
          · rw [hsame.queue, hsame.Q, hsame.wq]
            rcases hnext with ⟨hnone, hQ⟩ | ⟨hnone, hQ⟩ | ⟨hsome, hQ, hleft, hquantum⟩
            · exact .inl ⟨hnone, congrArg NrsFifo.Q hQ⟩
            · exact .inr (.inl ⟨hnone, hQ⟩)
            · exact .inr (.inr ⟨hsome, congrArg NrsFifo.Q hQ, hleft, hquantum⟩)

/-- The offsets stay in order when a message is served. -/
theorem Served.offsets (h : Served s msg a s') (ho : Offsets s) : Offsets s' := by
  refine ⟨fun b m hm => ?_, fun b => ?_⟩
  · rw [h.io]
    by_cases hb : b = a
    · rw [hb] at hm ⊢
      exact ho.home a m (by rw [h.entries]; exact List.mem_cons_of_mem _ hm)
    · rw [h.other b hb] at hm
      exact ho.home b m hm
  · rw [h.io]
    by_cases hb : b = a
    · rw [hb]
      have := ho.sorted a
      rw [h.entries, List.pairwise_cons] at this
      exact this.2
    · rw [h.other b hb]
      exact ho.sorted b

/-! ### The invariant -/

/-- The `io_queue`s wait in turn. -/
structure InTurn (s : NrsFRR) : Prop where
  mirror : Mirror s
  listed : Listed s
  flagged : Flagged s
  offsets : Offsets s
  quantum : ∀ a, s.wq = some a → 0 < (s.queue a).quantum ∧ (s.queue a).quantum ≤ frrQuantum

/-- The quantum that is left for the `io_queue` whose turn it is. -/
theorem InTurn.left {rest : List Addr} {left : Int} (h : InTurn s) (hturn : Turn s a rest left) :
    0 < left ∧ left ≤ frrQuantum := by
  cases hturn with
  | work hwq _ hleft => rw [hleft]; exact h.quantum a hwq
  | head _ _ hleft => rw [hleft]; exact ⟨by decide, Int.le_refl _⟩

/-- An `io_queue` with messages is `wq` or is in `Q`. -/
theorem InTurn.waits (h : InTurn s) (hne : (s.queue a).s.entries ≠ []) :
    s.wq = some a ∨ a ∈ s.Q.Q := by
  refine h.mirror.listed_iff.mp h.listed a ?_
  rw [h.mirror.nr a]
  have := List.length_pos_iff.mpr hne
  omega

/-- The request of a new message is in no order yet. -/
theorem Offsets.setReq {io : Io} (h : Offsets s) (hnew : ∀ a, msg ∉ (s.queue a).s.entries) :
    Offsets (s.setReq msg io) := by
  have hne : ∀ a, ∀ m ∈ (s.queue a).s.entries, (s.setReq msg io).io m = s.io m :=
    fun a m hm => if_neg fun heq => hnew a (by rw [← heq]; exact hm)
  refine ⟨fun a m hm => ?_, fun a => (h.sorted a).imp_of_mem fun {x y} hx hy hxy => ?_⟩
  · rw [hne a m hm]
    exact h.home a m hm
  · rw [hne a x hx, hne a y hy]
    exact hxy

/-- `Enqueue` without deadlines joins the `io_queue`. -/
theorem enqueue_joined (h : Mirror s) (ho : Offsets s) (hmode : p.deadline = .dlOff)
    (hok : s.enqueue p now msg = .ok s') : Joined s msg ((s.io msg).fid, (s.io msg).cmd) s' := by
  have hne : p.deadline ≠ .dlOnly := by rw [hmode]; decide
  unfold NrsFRR.enqueue ioDeadlineEnqueue at hok
  rw [if_neg hne, hmode] at hok
  obtain ⟨t, hjoin, hok⟩ := bind_eq_ok.mp hok
  cases hok
  have hjoined := enqueueIoQueue_joined h ho hjoin
  exact ⟨hjoined.io, hjoined.wq, hjoined.other, hjoined.perm, hjoined.sorted, hjoined.quantum,
    hjoined.Q⟩

/-- Every call keeps the invariant. -/
theorem InTurn.step {c : Call} (h : InTurn s) (hmode : p.deadline = .dlOff)
    (hstep : Step p s c s') : InTurn s' := by
  have hne : p.deadline ≠ .dlOnly := by rw [hmode]; decide
  obtain ⟨hmirror, hlisted, hflagged⟩ := hstep.listed_iff h.mirror hne
  have hlisted' : Listed s' := by
    refine (hlisted h.listed).mpr ?_
    cases c with
    | enqueue _ _ io => exact fun hstale => hstale.2 (h.flagged _ hstale.1)
    | dequeue => exact id
    | finish => exact id
  have hflagged' := hflagged hmode h.flagged
  cases hstep with
  | @enqueue _ now msg io hnew hok =>
      have hsame : SameQueues s (s.setReq msg io) := ⟨rfl, rfl, rfl⟩
      have ho := @Offsets.setReq s msg io h.offsets hnew
      have hjoined := enqueue_joined (hsame.mirror h.mirror).1 ho hmode hok
      refine ⟨hmirror, hlisted', hflagged', hjoined.offsets ho, fun b hb => ?_⟩
      rw [hjoined.wq] at hb
      have hquantum : (s'.queue b).quantum = (s.queue b).quantum := by
        by_cases heq : b = (((s.setReq msg io).io msg).fid, ((s.setReq msg io).io msg).cmd)
        · rw [heq]
          exact hjoined.quantum
        · rw [hjoined.other b heq]
          rfl
      rw [hquantum]
      exact h.quantum b hb
  | @dequeue _ now out hok =>
      rcases dequeue_served h.mirror hmode now with
        ⟨hwq, -, t, hok', hio, hsame⟩ | ⟨msg, a, t, hok', hserved⟩
      · cases hok.symm.trans hok'
        refine ⟨hmirror, hlisted', hflagged', ?_, fun b hb => ?_⟩
        · refine ⟨?_, ?_⟩
          · rw [hsame.queue, hio]
            exact h.offsets.home
          · rw [hsame.queue, hio]
            exact h.offsets.sorted
        · rw [hsame.wq, hwq] at hb
          cases hb
      · cases hok.symm.trans hok'
        refine ⟨hmirror, hlisted', hflagged', hserved.offsets h.offsets, fun b hb => ?_⟩
        obtain ⟨rest, left, hturn, ⟨hnone, -⟩ | ⟨hnone, -⟩ | ⟨hsome, -, hone, hquantum⟩⟩ :=
          hserved.turn
        · rw [hnone] at hb
          cases hb
        · rw [hnone] at hb
          cases hb
        · cases hsome.symm.trans hb
          have := h.left hturn
          rw [hquantum]
          omega
  | @finish msg =>
      have hsame := finish_same s msg
      have hio : (s.finish msg).io = s.io := by
        unfold finish
        rfl
      refine ⟨hmirror, hlisted', hflagged', ⟨?_, ?_⟩, ?_⟩
      · rw [hsame.queue, hio]
        exact h.offsets.home
      · rw [hsame.queue, hio]
        exact h.offsets.sorted
      · rw [hsame.queue, hsame.wq]
        exact h.quantum

/-- A new scheduler has no messages. -/
theorem new_inTurn (io : Nat → Io) : InTurn (new io) := by
  obtain ⟨hmirror, hlisted, hflagged⟩ := new_mirror io
  exact ⟨hmirror, hlisted, hflagged, ⟨(fun a m hm => nomatch hm), fun a => .nil⟩,
    fun a ha => nomatch ha⟩

/-! ### The rank -/

/-- The number of messages that are served before the ones of an `io_queue`. -/
def rank (s : NrsFRR) (a : Addr) : Nat :=
  if s.wq = some a then 0
  else 8 * s.Q.Q.idxOf a + (s.wq.elim 0 fun b => (s.queue b).quantum.toNat)

/-- `wq` and `Q`: the `io_queue`s in the order in which their turns come. -/
def line (s : NrsFRR) : List Addr := s.wq.toList ++ s.Q.Q

/-- The number of `io_queue`s with messages ahead of an `io_queue`. -/
def ahead (s : NrsFRR) (a : Addr) : Nat :=
  ((line s).take ((line s).idxOf a)).countP fun b => !(s.queue b).s.entries.isEmpty

/-- An `io_queue` in the line has messages. -/
theorem Mirror.line_ne_nil (h : Mirror s) {b : Addr} (hb : b ∈ line s) :
    (s.queue b).s.entries ≠ [] := by
  have hpos : 0 < (s.queue b).nr := by
    rcases List.mem_append.mp hb with hwq | hQ
    · exact (h.wq b (Option.mem_toList.mp hwq)).2
    · exact (h.mem b hQ).2
  intro hnil
  rw [h.nr b, hnil] at hpos
  exact absurd hpos (by decide)

/-- At most one quantum is served for every `io_queue` ahead. -/
theorem InTurn.rank_le (h : InTurn s) (a : Addr) : rank s a ≤ 8 * ahead s a := by
  have hahead : ahead s a = (line s).idxOf a := by
    unfold ahead
    rw [List.countP_eq_length.mpr, List.length_take, Nat.min_eq_left List.idxOf_le_length]
    intro b hb
    have hne := h.mirror.line_ne_nil (List.mem_of_mem_take hb)
    simpa using hne
  rw [hahead]
  unfold rank line
  cases hwq : s.wq with
  | none => simp
  | some b =>
      by_cases hb : b = a
      · rw [hb, if_pos rfl]
        exact Nat.zero_le _
      · have hquantum := (h.quantum b hwq).2
        unfold frrQuantum at hquantum
        rw [if_neg (fun heq => hb (Option.some.inj heq))]
        show 8 * s.Q.Q.idxOf a + (s.queue b).quantum.toNat ≤ 8 * (b :: s.Q.Q).idxOf a
        rw [List.idxOf_cons_ne _ hb]
        omega

/-- Serving another `io_queue` lowers the rank. -/
theorem Served.rank {b : Addr} (hs : Served s msg b s') (h : InTurn s) (hb : b ≠ a)
    (hne : (s.queue a).s.entries ≠ []) : NrsFRR.rank s' a + 1 ≤ NrsFRR.rank s a := by
  obtain ⟨rest, left, hturn, hnext⟩ := hs.turn
  obtain ⟨hpos, -⟩ := h.left hturn
  have hbefore : a ∈ rest ∧ NrsFRR.rank s a = 8 * rest.idxOf a + left.toNat := by
    unfold NrsFRR.rank
    cases hturn with
    | work hwq hrest hleft =>
        have hnot : s.wq ≠ some a := by
          rw [hwq]
          exact fun heq => hb (Option.some.inj heq)
        rw [if_neg hnot, hwq, hrest, hleft]
        exact ⟨(h.waits hne).resolve_left hnot, rfl⟩
    | head hwq hQ hleft =>
        have hnot : s.wq ≠ some a := by
          rw [hwq]
          exact fun heq => nomatch heq
        have hin := (h.waits hne).resolve_left hnot
        rw [hQ] at hin
        rw [if_neg hnot, hwq, hQ, hleft, List.idxOf_cons_ne _ hb]
        refine ⟨(List.mem_cons.mp hin).resolve_left fun heq => hb heq.symm, ?_⟩
        show 8 * (rest.idxOf a + 1) + 0 = _ + 8
        omega
  obtain ⟨hin, hrank⟩ := hbefore
  rw [hrank]
  unfold NrsFRR.rank
  rcases hnext with ⟨hwq, hQ⟩ | ⟨hwq, hQ⟩ | ⟨hwq, hQ, -, hquantum⟩
  · rw [hwq, hQ, if_neg (fun heq => nomatch heq)]
    show 8 * rest.idxOf a + 0 + 1 ≤ _
    omega
  · rw [hwq, hQ, if_neg (fun heq => nomatch heq), List.idxOf_append_of_mem hin]
    show 8 * rest.idxOf a + 0 + 1 ≤ _
    omega
  · rw [hwq, hQ, if_neg (fun heq => hb (Option.some.inj heq))]
    show 8 * rest.idxOf a + (s'.queue b).quantum.toNat + 1 ≤ _
    rw [hquantum]
    omega

/-- A message that joins an `io_queue` does not come before one that waits. -/
theorem Joined.rank {b : Addr} (hj : Joined s msg b s') (h : InTurn s)
    (hne : (s.queue a).s.entries ≠ []) : NrsFRR.rank s' a = NrsFRR.rank s a := by
  have hquantum : ∀ c, (s'.queue c).quantum = (s.queue c).quantum := by
    intro c
    by_cases hc : c = b
    · rw [hc]
      exact hj.quantum
    · rw [hj.other c hc]
  unfold NrsFRR.rank
  rw [hj.wq]
  split
  · rfl
  · next hnot =>
      have hidx : s'.Q.Q.idxOf a = s.Q.Q.idxOf a := by
        rcases hj.Q with hQ | hQ
        · rw [hQ]
        · rw [hQ, List.idxOf_append_of_mem ((h.waits hne).resolve_left hnot)]
      rw [hidx]
      congr 1
      cases s.wq with
      | none => rfl
      | some c => exact congrArg Int.toNat (hquantum c)

/-! ### Runs -/

/-- The call is a `Dequeue`. -/
def Call.isDequeue : Call → Bool
  | .dequeue _ _ => true
  | _ => false

/-- The call is a `Dequeue` that returns the first message of the `io_queue`. -/
def Hits (a : Addr) (s : NrsFRR) (c : Call) : Prop :=
  ∃ now msg, c = .dequeue now (some msg) ∧ (s.queue a).s.entries.head? = some msg

/-- The message is in the `io_queue` of its file and direction, and has the lowest offset there. -/
def Lowest (s : NrsFRR) (msg : Nat) : Prop :=
  msg ∈ (s.queue ((s.io msg).fid, (s.io msg).cmd)).s.entries ∧
    ∀ m ∈ (s.queue ((s.io msg).fid, (s.io msg).cmd)).s.entries, m ≠ msg →
      (s.io msg).off < (s.io m).off

/-- The message that is served has the lowest offset. -/
theorem Served.lowest (hs : Served s msg a s') (h : Offsets s) : Lowest s msg := by
  have hhome := h.home a msg (by rw [hs.entries]; exact List.mem_cons_self)
  unfold Lowest
  rw [hhome]
  refine ⟨by rw [hs.entries]; exact List.mem_cons_self, fun m hm hne => ?_⟩
  have hsorted := h.sorted a
  rw [hs.entries, List.pairwise_cons] at hsorted
  rw [hs.entries] at hm
  exact hsorted.1 m ((List.mem_cons.mp hm).resolve_left hne)

/-- A call that does not return the first message of an `io_queue` keeps its messages. It does not
raise the rank, and a `Dequeue` lowers it. -/
theorem InTurn.rank_step {c : Call} (h : InTurn s) (hmode : p.deadline = .dlOff)
    (hne : (s.queue a).s.entries ≠ []) (hstep : Step p s c s') (hmiss : ¬ Hits a s c) :
    (∀ m ∈ (s.queue a).s.entries, m ∈ (s'.queue a).s.entries) ∧
      rank s' a + (if c.isDequeue then 1 else 0) ≤ rank s a := by
  cases hstep with
  | @enqueue _ now msg io hnew hok =>
      have hsame : SameQueues s (s.setReq msg io) := ⟨rfl, rfl, rfl⟩
      have ho := @Offsets.setReq s msg io h.offsets hnew
      obtain ⟨hmirror, hlisted⟩ := hsame.mirror h.mirror
      have hin : InTurn (s.setReq msg io) :=
        ⟨hmirror, hlisted.mpr h.listed, hsame.flagged h.flagged, ho, h.quantum⟩
      have hjoined := enqueue_joined hmirror ho hmode hok
      refine ⟨fun m hm => ?_, Nat.le_of_eq (hjoined.rank hin hne)⟩
      by_cases heq : a = (((s.setReq msg io).io msg).fid, ((s.setReq msg io).io msg).cmd)
      · rw [heq] at hm ⊢
        exact hjoined.perm.mem_iff.mpr (List.mem_cons_of_mem _ hm)
      · rw [hjoined.other a heq]
        exact hm
  | @dequeue _ now out hok =>
      rcases dequeue_served h.mirror hmode now with
        ⟨hwq, hQ, -⟩ | ⟨msg, b, t, hok', hserved⟩
      · rcases h.waits hne with hwait | hwait
        · rw [hwq] at hwait
          cases hwait
        · rw [hQ] at hwait
          cases hwait
      · cases hok.symm.trans hok'
        have hb : b ≠ a := by
          rintro rfl
          exact hmiss ⟨now, msg, rfl, by rw [hserved.entries, List.head?_cons]⟩
        refine ⟨fun m hm => ?_, hserved.rank h hb hne⟩
        rw [hserved.other a hb.symm]
        exact hm
  | @finish msg =>
      have hsame := finish_same s msg
      refine ⟨?_, ?_⟩
      · rw [hsame.queue]
        exact fun m hm => hm
      · unfold rank
        rw [hsame.queue, hsame.Q, hsame.wq]
        exact Nat.le_refl _

/-- `Enqueue` of a message of a valid file with a new offset does not abort. -/
theorem InTurn.enqueue_ok (h : InTurn s) (hmode : p.deadline = .dlOff) {io : Io}
    (hfid : io.fid < p.totFiles) (hnew : ∀ a, msg ∉ (s.queue a).s.entries)
    (hoff : ∀ m ∈ (s.queue (io.fid, io.cmd)).s.entries, (s.io m).off ≠ io.off) :
    ∃ t, (s.setReq msg io).enqueue p now msg = .ok t := by
  have hne : p.deadline ≠ .dlOnly := by rw [hmode]; decide
  have hreq : (s.setReq msg io).io msg = io := if_pos rfl
  have haddr : getIoQueue p ((s.setReq msg io).io msg) = .ok (io.fid, io.cmd) := by
    unfold getIoQueue
    rw [hreq, check_true hfid, ok_bind]
  -- joining the `io_queue` of the message does not abort
  have hjoin : ∀ q : IoQueue, q.s.WF →
      (∀ m ∈ q.s.entries, m ∈ (s.queue (io.fid, io.cmd)).s.entries) →
      ∃ q', ioEnqueue (s.setReq msg io).io q msg = .ok q' := by
    intro q hwf hsub
    obtain ⟨t, -, -, henq, -⟩ :=
      @NrsRbtree.enqueue_spec Nat (compareByOffset (s.setReq msg io).io) q.s msg hwf
    unfold ioEnqueue
    rw [check_true, ok_bind, henq]
    · exact ⟨_, rfl⟩
    · intro y hy
      have hin := hsub y (NrsRbtree.compared_mem hy)
      have hother : (s.setReq msg io).io y = s.io y :=
        if_neg fun heq => hnew (io.fid, io.cmd) (by rw [← heq]; exact hin)
      rw [hreq, hother]
      exact ⟨(congrArg Prod.fst (h.offsets.home _ y hin)).symm, (hoff y hin).symm⟩
  obtain ⟨q, hq⟩ : ∃ q, ioEnqueue (s.setReq msg io).io
      (if (s.queue (io.fid, io.cmd)).inited then s.queue (io.fid, io.cmd)
        else { s.queue (io.fid, io.cmd) with s := .new, inited := true }) msg = .ok q := by
    split
    · exact hjoin _ (h.mirror.wf _) fun m hm => hm
    · exact hjoin _ NrsRbtree.wf_new fun m hm => nomatch hm
  unfold NrsFRR.enqueue enqueueIoQueue ioDeadlineEnqueue
  rw [if_neg hne, haddr, ok_bind, hmode]
  dsimp only
  have hqueue : (s.setReq msg io).queue = s.queue := rfl
  rw [hqueue, hq, ok_bind]
  split
  · exact ⟨_, rfl⟩
  · exact ⟨_, rfl⟩

/-- Without deadlines, an `io_queue` with messages that has `m` others with messages ahead is served
within `8 * m + 1` calls of `Dequeue`, whatever is enqueued meanwhile. The message that is returned
is the first one, all messages that waited are still there, and the call before did not return one
of them. `Dequeue` never aborts, it returns no message only when there is none, and every message it
returns has the lowest offset of its file and direction. `Enqueue` of a new offset does not abort.
-/
theorem frr_bounded_service {io : Nat → Io} {calls : List Call} (hmode : p.deadline = .dlOff)
    (hreach : Run (Step p) (new io) calls s) :
    (∀ a calls' t, (s.queue a).s.entries ≠ [] → Run (Step p) s calls' t →
      8 * ahead s a + 1 ≤ calls'.countP Call.isDequeue →
      ∃ pre now msg post u v, calls' = pre ++ .dequeue now (some msg) :: post ∧
        Run (Step p) s pre u ∧ Step p u (.dequeue now (some msg)) v ∧ Run (Step p) v post t ∧
        pre.countP Call.isDequeue ≤ 8 * ahead s a ∧
        (u.queue a).s.entries.head? = some msg ∧
        ∀ m ∈ (s.queue a).s.entries, m ∈ (u.queue a).s.entries) ∧
    (∀ now, ∃ out t, s.dequeue p now = .ok (out, t) ∧
      (out = none ↔ ∀ a, (s.queue a).s.entries = []) ∧
      ∀ msg, out = some msg → Lowest s msg ∧
        (s.queue ((s.io msg).fid, (s.io msg).cmd)).s.entries =
          msg :: (t.queue ((s.io msg).fid, (s.io msg).cmd)).s.entries) ∧
    ∀ now msg io, io.fid < p.totFiles → (∀ a, msg ∉ (s.queue a).s.entries) →
      (∀ m ∈ (s.queue (io.fid, io.cmd)).s.entries, (s.io m).off ≠ io.off) →
      ∃ t, (s.setReq msg io).enqueue p now msg = .ok t := by
  have hin : InTurn s := hreach.invariant (fun _ _ _ h hstep => h.step hmode hstep) (new_inTurn io)
  refine ⟨fun a calls' t hne hrun hcount => ?_, fun now => ?_,
    fun now msg io hfid hnew hoff => hin.enqueue_ok hmode hfid hnew hoff⟩
  · have hkeep : ∀ u c v, (InTurn u ∧ ∀ m ∈ (s.queue a).s.entries, m ∈ (u.queue a).s.entries) →
        Step p u c v → ¬ Hits a u c →
        (InTurn v ∧ ∀ m ∈ (s.queue a).s.entries, m ∈ (v.queue a).s.entries) ∧
          rank v a + (if c.isDequeue then 1 else 0) ≤ rank u a := by
      intro u c v ⟨hu, hkept⟩ hstep hmiss
      have hneU : (u.queue a).s.entries ≠ [] := by
        obtain ⟨m, hm⟩ := List.exists_mem_of_ne_nil _ hne
        exact List.ne_nil_of_mem (hkept m hm)
      obtain ⟨hkeeps, hrank⟩ := hu.rank_step hmode hneU hstep hmiss
      exact ⟨⟨hu.step hmode hstep, fun m hm => hkeeps m (hkept m hm)⟩, hrank⟩
    have hrank := hin.rank_le a
    obtain ⟨pre, c, post, u, v, hcalls, hpre, hstep, hpost, hu, ⟨now, msg, rfl, hhead⟩, hle⟩ :=
      Run.exists_hit _ (Hits a) (fun u => rank u a) Call.isDequeue hkeep hrun
        ⟨hin, fun m hm => hm⟩ (by omega)
    exact ⟨pre, now, msg, post, u, v, hcalls, hpre, hstep, hpost, by omega, hhead, hu.2⟩
  · rcases dequeue_served hin.mirror hmode now with
      ⟨hwq, hQ, t, hok, -⟩ | ⟨msg, a, t, hok, hserved⟩
    · refine ⟨none, t, hok, iff_of_true rfl fun a => ?_, fun msg hmsg => nomatch hmsg⟩
      by_contra hne
      rcases hin.waits hne with hwait | hwait
      · rw [hwq] at hwait
        cases hwait
      · rw [hQ] at hwait
        cases hwait
    · have hhome := hin.offsets.home a msg (by rw [hserved.entries]; exact List.mem_cons_self)
      refine ⟨some msg, t, hok, iff_of_false (fun h => nomatch h) fun hall => ?_, ?_⟩
      · have := hserved.entries
        rw [hall a] at this
        cases this
      · rintro m ⟨⟩
        refine ⟨hserved.lowest hin.offsets, ?_⟩
        rw [hhome]
        exact hserved.entries

/-- A reader and a writer of the file 0. -/
def sampleCalls : List Call :=
  [.enqueue 0 1 (exampleIo 0), .enqueue 1 2 { exampleIo 4096 with cmd := .write }]

/-- The calls succeed, and the writer is behind the reader. -/
theorem sampleCalls_run :
    ∃ s, Run (Step (exampleParams .dlOff)) (new fun _ => exampleIo 0) sampleCalls s ∧
      ahead s (0, .write) = 1 ∧ (s.queue (0, .write)).s.entries = [2] :=
  ⟨_, .cons (.enqueue (fun _ h => nomatch h) rfl)
    (.cons (.enqueue (fun a hin => by
      by_cases ha : a = (0, Cmd.read)
      · subst ha
        revert hin
        decide
      · change 2 ∈ (if a = (0, Cmd.read) then _ else _ : IoQueue).s.tree.toList at hin
        rw [if_neg ha] at hin
        cases hin) rfl) (.nil _)), rfl, rfl⟩

/-- The writer waits behind the reader: it is served within nine calls of `Dequeue`. -/
theorem frr_bounded_service_two :
    ∃ s, Run (Step (exampleParams .dlOff)) (new fun _ => exampleIo 0) sampleCalls s ∧
      ahead s (0, .write) = 1 ∧
      ∀ calls' t, Run (Step (exampleParams .dlOff)) s calls' t →
        9 ≤ calls'.countP Call.isDequeue →
        ∃ pre now msg post u v, calls' = pre ++ .dequeue now (some msg) :: post ∧
          Run (Step (exampleParams .dlOff)) s pre u ∧
          Step (exampleParams .dlOff) u (.dequeue now (some msg)) v ∧
          Run (Step (exampleParams .dlOff)) v post t ∧ pre.countP Call.isDequeue ≤ 8 ∧
          (u.queue (0, .write)).s.entries.head? = some msg ∧
          ∀ m ∈ (s.queue (0, .write)).s.entries, m ∈ (u.queue (0, .write)).s.entries := by
  obtain ⟨s, hrun, hahead, hentries⟩ := sampleCalls_run
  refine ⟨s, hrun, hahead, fun calls' t hcont hcount => ?_⟩
  have hne : (s.queue (0, .write)).s.entries ≠ [] := by rw [hentries]; exact List.cons_ne_nil _ _
  have hserved := (frr_bounded_service rfl hrun).1 (0, .write) calls' t hne hcont
    (by rw [hahead]; exact hcount)
  rwa [hahead] at hserved

end LustreSimulator.NrsFRR
