import LustreSimulator.Proofs.NrsFrrDeadline
import LustreSimulator.Proofs.NrsFrrService
import LustreSimulator.Proofs.NrsPrioFlavor

/-!
# `LustreSimulator.Proofs.NrsTally`: the counters of the backlog

`NrsFRR` and `NrsPrio` count the messages that are queued and the ones in service, and their sizes.
The counters are kept in step with a ledger: `Counter.Updates` says of one call that it counts its
message and moves it.

Two kinds of `Dequeue` do not. With `NRS_ALGO_DL_ONLY` it returns the message before it counts. With
the deadlines of `NrsPrio` it counts a message that is not due yet and stays in its queue.
`tallies_exact` is the result over the runs without them.
-/

set_option autoImplicit false

namespace LustreSimulator.NrsFRR

open Lib NrsMessage

variable {p : Params} {s s' : NrsFRR} {msg now : Nat} {a : Addr}

/-- The message waits in an `io_queue`. -/
def Held (s : NrsFRR) (m : Nat) : Prop := ∃ a, m ∈ (s.queue a).s.entries

/-- The counters, and the messages that wait. -/
def counter (p : Params) : Counter NrsFRR Nat where
  tally s := ⟨s.numQueued, s.ioQueued, s.numServiced, s.ioServiced⟩
  size s m := (s.io m).count
  Queued s m := if p.deadline = .dlOnly then m ∈ waiting s else Held s m

/-- A `Dequeue` with deadlines only that finds a message. -/
def Call.uncounted (p : Params) (s : NrsFRR) : Call → Prop
  | .dequeue _ _ => p.deadline = .dlOnly ∧ waiting s ≠ []
  | _ => False

/-! ### Where the messages are -/

/-- A message that leaves its `io_queue`. -/
structure Leaves (s : NrsFRR) (msg : Nat) (a : Addr) (s' : NrsFRR) : Prop where
  io : s'.io = s.io
  other : ∀ b, b ≠ a → (s'.queue b).s = (s.queue b).s
  split : ∃ l m, (s.queue a).s.entries = l ++ msg :: m ∧ (s'.queue a).s.entries = l ++ m

/-- The places of the messages do not depend on their deadlines. -/
theorem Offsets.congr (h : Offsets s) (hqueue : ∀ a, (s'.queue a).s = (s.queue a).s)
    (hio : ∀ m, ∃ d, s'.io m = { s.io m with deadline := d }) : Offsets s' := by
  -- file, direction and offset are what the places depend on
  have hoff : ∀ m, (s'.io m).off = (s.io m).off ∧ (s'.io m).fid = (s.io m).fid ∧
      (s'.io m).cmd = (s.io m).cmd := by
    intro m
    obtain ⟨d, hd⟩ := hio m
    rw [hd]
    exact ⟨rfl, rfl, rfl⟩
  refine ⟨fun a m hm => ?_, fun a => ?_⟩
  · rw [hqueue a] at hm
    rw [(hoff m).2.1, (hoff m).2.2]
    exact h.home a m hm
  · rw [hqueue a]
    refine (h.sorted a).imp fun {x y} hxy => ?_
    rw [(hoff x).1, (hoff y).1]
    exact hxy

/-- What is left stays in order. -/
theorem Leaves.offsets (hl : Leaves s msg a s') (h : Offsets s) : Offsets s' := by
  obtain ⟨l, m, hlist, hlist'⟩ := hl.split
  have hsub : List.Sublist (s'.queue a).s.entries (s.queue a).s.entries := by
    rw [hlist, hlist']
    exact (List.sublist_cons_self msg m).append_left l
  refine ⟨fun b x hx => ?_, fun b => ?_⟩
  · rw [hl.io]
    by_cases hb : b = a
    · rw [hb] at hx ⊢
      exact h.home a x (hsub.subset hx)
    · rw [hl.other b hb] at hx
      exact h.home b x hx
  · rw [hl.io]
    by_cases hb : b = a
    · rw [hb]
      exact (h.sorted a).sublist hsub
    · rw [hl.other b hb]
      exact h.sorted b

/-- The message that leaves was in one place only, so it waits no more. -/
theorem Leaves.held (hl : Leaves s msg a s') (h : Offsets s) (x : Nat) :
    Held s' x ↔ x ≠ msg ∧ Held s x := by
  obtain ⟨l, m, hlist, hlist'⟩ := hl.split
  -- equal offsets would stop `Enqueue`, so no message is in an `io_queue` twice
  have hnodup : (l ++ msg :: m).Nodup := by
    have hsorted := h.sorted a
    rw [hlist] at hsorted
    exact hsorted.imp fun {x y} hxy heq => by rw [heq] at hxy; exact absurd hxy (Nat.lt_irrefl _)
  have hmsg : msg ∈ (s.queue a).s.entries := by
    rw [hlist]
    exact List.mem_append_right l List.mem_cons_self
  have hself : x ∈ (s'.queue a).s.entries ↔ x ≠ msg ∧ x ∈ (s.queue a).s.entries := by
    rw [hlist, hlist']
    rw [List.perm_middle.nodup_iff, List.nodup_cons] at hnodup
    rw [List.perm_middle.mem_iff, List.mem_cons]
    constructor
    · intro hx
      refine ⟨fun heq => hnodup.1 (heq ▸ hx), .inr hx⟩
    · rintro ⟨hne, rfl | hx⟩
      · exact absurd rfl hne
      · exact hx
  constructor
  · rintro ⟨b, hb⟩
    by_cases hba : b = a
    · rw [hba] at hb
      exact ⟨(hself.mp hb).1, a, (hself.mp hb).2⟩
    · rw [hl.other b hba] at hb
      refine ⟨?_, b, hb⟩
      rintro rfl
      -- it cannot wait in the `io_queue` of another file or direction
      exact hba ((h.home b x hb).symm.trans (h.home a x hmsg))
  · rintro ⟨hne, b, hb⟩
    by_cases hba : b = a
    · rw [hba] at hb
      exact ⟨a, hself.mpr ⟨hne, hb⟩⟩
    · exact ⟨b, by rw [hl.other b hba]; exact hb⟩

/-! ### The calls -/

/-- A message whose deadline has passed leaves its `io_queue`. -/
theorem dequeueExpired_leaves (h : Mirror s) (hok : s.dequeueExpired p msg = .ok s') :
    ∃ a, Leaves s msg a s' := by
  have hio := (dequeueExpired_stat hok).2
  unfold NrsFRR.dequeueExpired at hok
  obtain ⟨a, -, hok⟩ := bind_eq_ok.mp hok
  obtain ⟨_, -, hok⟩ := bind_eq_ok.mp hok
  obtain ⟨t, herase, hok⟩ := bind_eq_ok.mp hok
  obtain ⟨-, l, m, hlist, hlist'⟩ := NrsRbtree.WF.erase_split (h.wf a) (require_eq_ok.mp herase)
  -- the branches differ in `Q` and `wq` only
  have hat : ∀ q, (s.setQueue a q).queue a = q := fun q => if_pos rfl
  have hother : ∀ q b, b ≠ a → (s.setQueue a q).queue b = s.queue b := fun q b hb => if_neg hb
  refine ⟨a, hio, ?_, l, m, hlist, ?_⟩
  · split at hok
    · cases hok
      exact fun b hb => congrArg IoQueue.s (hother _ b hb)
    · cases hok
      exact fun b hb => congrArg IoQueue.s (hother _ b hb)
  · split at hok
    · cases hok
      show ((s.setQueue a
        { s.queue a with s := t, nr := (s.queue a).nr - 1 }).queue a).s.entries = _
      rw [hat]
      exact hlist'
    · cases hok
      rw [hat]
      exact hlist'

/-- With `io_queue`s a message that `Dequeue` returns leaves its `io_queue`. -/
theorem dequeue_leaves {out : Option Nat} (h : Mirror s) (hmode : p.deadline ≠ .dlOnly)
    (hok : s.dequeue p now = .ok (out, s')) :
    (out = none ∧ ∀ a, (s'.queue a).s = (s.queue a).s) ∨
      ∃ msg a, out = some msg ∧ Leaves s msg a s' := by
  have hcounted := dequeue_counted hmode hok
  unfold NrsFRR.dequeue at hok
  obtain ⟨⟨expired, t⟩, hexpired, hok⟩ := bind_eq_ok.mp hok
  rw [if_neg hmode] at hok
  have hsame := ioDeadlineDequeue_same hexpired
  have hioT := (ioDeadlineDequeue_stat hexpired).2
  have ht := (hsame.mirror h).1
  cases expired with
  | some msg =>
      -- a deadline has passed
      obtain ⟨u, hserve, hok⟩ := bind_eq_ok.mp hok
      obtain ⟨a, hleaves⟩ := dequeueExpired_leaves ht hserve
      obtain ⟨hsame', rfl⟩ := dequeueStat_same hok
      obtain ⟨hnone, -⟩ | ⟨_, -, hcounted⟩ := hcounted
      · cases hnone
      · refine .inr ⟨msg, a, rfl, hcounted.io, fun b hb => ?_, ?_⟩
        · rw [hsame'.queue, hleaves.other b hb, hsame.queue]
        · have hsplit := hleaves.split
          rwa [hsame.queue, ← hsame'.queue] at hsplit
  | none =>
      dsimp only at hok
      -- the round robin
      cases hwork : t.getWorkQueue with
      | mk work u =>
          rw [hwork] at hok
          cases work with
          | none =>
              cases hok
              obtain ⟨-, -, hsame'⟩ := getWorkQueue_none hwork
              exact .inl ⟨rfl, fun a => by rw [hsame'.queue, hsame.queue]⟩
          | some a =>
              obtain ⟨hu, hwq, -, -⟩ := ht.getWorkQueue hwork
              obtain ⟨-, hotherU, hsU, -⟩ := getWorkQueue_turn hwork
              obtain ⟨⟨msg, v⟩, hserve, hok⟩ := bind_eq_ok.mp hok
              obtain ⟨w, hremove, hok⟩ := bind_eq_ok.mp hok
              obtain ⟨msg', v', hserve', -, hotherV, hentries, -⟩ := dequeueWork_served hu hwq
              -- `Dequeue` of the `io_queue` takes its first message
              cases hserve.symm.trans hserve'
              have hsameW := removeFromDeadlineQueue_same hremove
              obtain ⟨hsame', rfl⟩ := dequeueStat_same hok
              obtain ⟨hnone, -⟩ | ⟨_, -, hcounted⟩ := hcounted
              · cases hnone
              · refine .inr ⟨msg, a, rfl, hcounted.io, fun b hb => ?_, [], ?_⟩
                · rw [hsame'.queue, hsameW.queue, hotherV b hb, hotherU b hb, hsame.queue]
                · refine ⟨(v.queue a).s.entries, ?_, ?_⟩
                  · rw [← hsame.queue, ← hsU]
                    exact hentries
                  · rw [hsame'.queue, hsameW.queue]
                    rfl

/-- With `io_queue`s a new message joins the one of its file and direction. -/
theorem enqueue_held (h : Mirror s) (ho : Offsets s) (hmode : p.deadline ≠ .dlOnly)
    (hok : s.enqueue p now msg = .ok s') :
    Offsets s' ∧ ∀ x, Held s' x ↔ x = msg ∨ Held s x := by
  obtain ⟨-, -, -, -, -, hio⟩ := enqueue_stat hok
  unfold NrsFRR.enqueue at hok
  rw [if_neg hmode] at hok
  obtain ⟨t, hjoin, hok⟩ := bind_eq_ok.mp hok
  obtain ⟨u, hdeadline, hok⟩ := bind_eq_ok.mp hok
  cases hok
  have hjoined := enqueueIoQueue_joined h ho hjoin
  have hsame := ioDeadlineEnqueue_same hdeadline
  -- the deadline queues do not hold the places
  have hqueue : ∀ b, (u.queue b).s = (t.queue b).s := fun b => by rw [hsame.queue]
  refine ⟨(hjoined.offsets ho).congr hqueue fun m => ?_, fun x => ?_⟩
  · rw [hjoined.io]
    exact hio m
  · show (∃ b, x ∈ (u.queue b).s.entries) ↔ _
    simp only [hqueue]
    constructor
    · rintro ⟨b, hb⟩
      by_cases hba : b = ((s.io msg).fid, (s.io msg).cmd)
      · rw [hba] at hb
        rcases List.mem_cons.mp (hjoined.perm.mem_iff.mp hb) with rfl | hb
        · exact .inl rfl
        · exact .inr ⟨_, hb⟩
      · rw [hjoined.other b hba] at hb
        exact .inr ⟨b, hb⟩
    · rintro (rfl | ⟨b, hb⟩)
      · exact ⟨_, hjoined.perm.mem_iff.mpr List.mem_cons_self⟩
      · by_cases hba : b = ((s.io msg).fid, (s.io msg).cmd)
        · rw [hba] at hb
          exact ⟨_, hjoined.perm.mem_iff.mpr (List.mem_cons_of_mem _ hb)⟩
        · exact ⟨b, by rw [hjoined.other b hba]; exact hb⟩

/-! ### The counters -/

/-- With `io_queue`s the places of the messages are known. -/
def Placed (p : Params) (s : NrsFRR) : Prop := p.deadline ≠ .dlOnly → Mirror s ∧ Offsets s

/-- The request of a new message. -/
theorem setReq_size (s : NrsFRR) (msg : Nat) (io : Io) (m : Nat) :
    ((s.setReq msg io).io m).count = if m = msg then io.count else (s.io m).count :=
  apply_ite Io.count _ _ _

/-- With deadlines only the messages that wait are the ones in `Q1` and `Q2`. -/
theorem queued_only (hmode : p.deadline = .dlOnly) {m : Nat} :
    (counter p).Queued s m ↔ m ∈ waiting s := by
  show (if p.deadline = .dlOnly then m ∈ waiting s else Held s m) ↔ _
  rw [if_pos hmode]

/-- With `io_queue`s they are the ones in an `io_queue`. -/
theorem queued_held (hmode : p.deadline ≠ .dlOnly) {m : Nat} :
    (counter p).Queued s m ↔ Held s m := by
  show (if p.deadline = .dlOnly then m ∈ waiting s else Held s m) ↔ _
  rw [if_neg hmode]

/-- Counters that are the same make the same tally. -/
theorem SameStat.tally (h : SameStat s s') : (counter p).tally s' = (counter p).tally s := by
  show (⟨s'.numQueued, s'.ioQueued, s'.numServiced, s'.ioServiced⟩ : Tally) = _
  rw [h.numQueued, h.ioQueued, h.numServiced, h.ioServiced]
  rfl

/-- The message that `Dequeue` returns is served. -/
theorem CountedOut.tally (h : CountedOut s msg s') :
    (counter p).tally s' = ((counter p).tally s).book ((counter p).size s) (.serve msg) := by
  show (⟨s'.numQueued, s'.ioQueued, s'.numServiced, s'.ioServiced⟩ : Tally) = _
  rw [h.numQueued, h.ioQueued, h.numServiced, h.ioServiced]
  rfl

/-- A call that counts nothing and moves nothing. -/
theorem SameStat.updates (h : SameStat s s')
    (hqueued : ∀ m, (counter p).Queued s' m ↔ (counter p).Queued s m) :
    (counter p).Updates s s' .idle :=
  ⟨h.tally, h.count, hqueued, fun _ hm => nomatch hm⟩

/-- `Enqueue` counts the new message, in every mode. -/
theorem enqueue_counts {io : Io} (hok : (s.setReq msg io).enqueue p now msg = .ok s') :
    (counter p).tally s' =
        ((counter p).tally s).book ((counter p).size s) (.arrive msg io.count) ∧
      ∀ m, (s'.io m).count = if m = msg then io.count else (s.io m).count := by
  obtain ⟨-, hnum, hbytes, hserviced, hserved, hio⟩ := enqueue_stat hok
  have hreq : (s.setReq msg io).io msg = io := if_pos rfl
  constructor
  · show (⟨s'.numQueued, s'.ioQueued, s'.numServiced, s'.ioServiced⟩ : Tally) = _
    rw [hnum, hbytes, hserviced, hserved, hreq]
    rfl
  · intro m
    obtain ⟨d, hd⟩ := hio m
    rw [hd]
    exact setReq_size s msg io m

/-- With deadlines only a call that is counted updates the counters. -/
theorem Step.updates_only {c : Call} (hmode : p.deadline = .dlOnly) (hcounted : ¬ c.uncounted p s)
    (hstep : Step p s c s') : (counter p).Updates s s' c.booking := by
  cases hstep with
  | @enqueue _ now msg io hnew hok =>
      obtain ⟨htally, hcount⟩ := enqueue_counts hok
      -- `Enqueue` puts the message into `Q1` or `Q2`
      have hperm : (waiting s').Perm (msg :: waiting s) :=
        Step.moves hmode (c := .enqueue now msg io) id (.enqueue hnew hok)
      refine ⟨htally, hcount, fun m => ?_, fun m hm => nomatch hm⟩
      show (counter p).Queued s' m ↔ m = msg ∨ (counter p).Queued s m
      rw [queued_only hmode, queued_only hmode, hperm.mem_iff, List.mem_cons]
  | @dequeue _ now out hok =>
      -- no message waits, so nothing happens
      have hnil : waiting s = [] := by
        by_contra hne
        exact hcounted ⟨hmode, hne⟩
      obtain ⟨out', t, hok', hchoice⟩ := dequeue_choice hmode s now
      cases hok.symm.trans hok'
      cases hchoice.order.1.mpr hnil
      have hmoves : (waiting s').Perm (waiting s) :=
        Step.moves hmode (c := .dequeue now none)
          (fun hpeek => hpeek.2 (List.append_eq_nil_iff.mp hnil).2) (.dequeue hok)
      refine (dequeue_only_stat hmode hok).updates fun m => ?_
      rw [queued_only hmode, queued_only hmode, hmoves.mem_iff]
  | @finish msg =>
      unfold NrsFRR.finish
      refine ⟨rfl, fun _ => rfl, fun m => ?_, fun m hm => nomatch hm⟩
      show (counter p).Queued _ m ↔ (counter p).Queued s m
      rw [queued_only hmode, queued_only hmode]
      unfold waiting
      exact Iff.rfl

/-- With `io_queue`s every call updates the counters, and the places stay known. -/
theorem Step.updates_held {c : Call} (hmode : p.deadline ≠ .dlOnly) (hmirror : Mirror s)
    (ho : Offsets s) (hstep : Step p s c s') :
    (Mirror s' ∧ Offsets s') ∧ (counter p).Updates s s' c.booking := by
  cases hstep with
  | @enqueue _ now msg io hnew hok =>
      obtain ⟨htally, hcount⟩ := enqueue_counts hok
      have hsame : SameQueues s (s.setReq msg io) := ⟨rfl, rfl, rfl⟩
      have hmirrorR := (hsame.mirror hmirror).1
      obtain ⟨ho', hheld⟩ := enqueue_held hmirrorR (ho.setReq hnew) hmode hok
      refine ⟨⟨(hmirrorR.enqueue hmode hok).1, ho'⟩, htally, hcount, fun m => ?_,
        fun m hm => nomatch hm⟩
      show (counter p).Queued s' m ↔ m = msg ∨ (counter p).Queued s m
      rw [queued_held hmode, queued_held hmode]
      exact hheld m
  | @dequeue _ now out hok =>
      have hmirror' := (hmirror.dequeue hmode hok).1
      obtain ⟨rfl, hstat, -⟩ | ⟨msg, rfl, hout⟩ := dequeue_counted hmode hok
      · -- no message is returned
        obtain ⟨-, hqueue⟩ | ⟨msg, a, hmsg, -⟩ := dequeue_leaves hmirror hmode hok
        · refine ⟨⟨hmirror', ho.congr hqueue hstat.io⟩, hstat.updates fun m => ?_⟩
          rw [queued_held hmode, queued_held hmode]
          unfold Held
          simp only [hqueue]
        · cases hmsg
      · obtain ⟨hnone, -⟩ | ⟨msg', a, hmsg, hleaves⟩ := dequeue_leaves hmirror hmode hok
        · cases hnone
        · cases hmsg
          refine ⟨⟨hmirror', hleaves.offsets ho⟩, hout.tally, fun m => ?_, fun m => ?_, ?_⟩
          · -- a message that leaves keeps its size
            show (s'.io m).count = (s.io m).count
            rw [hout.io]
          · show (counter p).Queued s' m ↔ m ≠ msg ∧ (counter p).Queued s m
            rw [queued_held hmode, queued_held hmode]
            exact hleaves.held ho m
          · rintro m ⟨⟩
            obtain ⟨l, r, hlist, -⟩ := hleaves.split
            rw [queued_held hmode]
            exact ⟨a, by rw [hlist]; exact List.mem_append_right l List.mem_cons_self⟩
  | @finish msg =>
      unfold NrsFRR.finish
      refine ⟨⟨hmirror.congr rfl rfl rfl,
          ho.congr (fun a => rfl) fun m => ⟨(s.io m).deadline, rfl⟩⟩,
        rfl, fun _ => rfl, fun m => ?_, fun m hm => nomatch hm⟩
      show (counter p).Queued _ m ↔ (counter p).Queued s m
      rw [queued_held hmode, queued_held hmode]
      unfold Held
      exact Iff.rfl

/-- A call that is counted updates the counters. -/
theorem Step.updates {c : Call} (h : Placed p s) (hcounted : ¬ c.uncounted p s)
    (hstep : Step p s c s') : Placed p s' ∧ (counter p).Updates s s' c.booking := by
  by_cases hmode : p.deadline = .dlOnly
  · exact ⟨fun hne => absurd hmode hne, hstep.updates_only hmode hcounted⟩
  · obtain ⟨hmirror, ho⟩ := h hmode
    obtain ⟨hplaced, hupdates⟩ := hstep.updates_held hmode hmirror ho
    exact ⟨fun _ => hplaced, hupdates⟩

/-- A `Dequeue` with deadlines only that finds a message leaves the counters as they are, and then
they are too high. -/
theorem Step.miscounts {c : Call} {l : Ledger Nat} (hkeeps : Keeps (counter p) s l)
    (hbad : c.uncounted p s) (hstep : Step p s c s') :
    ¬ (counter p).Exact s' (l.book c.booking) := by
  cases hstep with
  | enqueue => exact absurd hbad id
  | finish => exact absurd hbad id
  | @dequeue _ now out hok =>
      obtain ⟨hmode, hne⟩ := hbad
      obtain ⟨out', t, hok', hchoice⟩ := dequeue_choice hmode s now
      cases hok.symm.trans hok'
      have hstat := dequeue_only_stat hmode hok
      cases out with
      | none => exact absurd (hchoice.order.1.mp rfl) hne
      | some msg =>
          intro hexact
          -- the message waited, so the ledger has one less now
          have hwaits : msg ∈ l.waiting := by
            refine (hkeeps.mem msg).mpr ((queued_only hmode).mpr ?_)
            exact (hchoice.order.2 msg rfl).mem
          have hbefore : s.numQueued = l.waiting.length := congrArg Tally.waiting hkeeps.tally
          have hafter : s'.numQueued = (l.waiting.erase msg).length :=
            congrArg Tally.waiting hexact.1
          have hpos := List.length_pos_of_mem hwaits
          rw [hstat.numQueued, List.length_erase_of_mem hwaits] at hafter
          omega

end LustreSimulator.NrsFRR

namespace LustreSimulator.NrsPrioFlavor

open Lib NrsMessage NrsPrio

variable {f : Flavor} {bw fuel now msg : Nat} {s t : NrsPrioFlavor}

/-- The counters, and the messages in the queues. -/
def counter : Counter NrsPrioFlavor Nat where
  tally s := ⟨s.numQueued, s.ioQueued, s.numServiced, s.ioServiced⟩
  size s m := (s.io m).count
  Queued s m := m ∈ queued s

/-- No message is in the queues twice. -/
structure Once (s : NrsPrioFlavor) : Prop where
  wf : WF s
  nodup : (queued s).Nodup

/-- A message is in the queues when it is in one of them. -/
theorem mem_queued_iff {m : Nat} : m ∈ queued s ↔ m ∈ (s.Q 0).pq.Q ∨ m ∈ (s.Q 1).pq.Q :=
  List.mem_append

/-- A call that is served updates the counters. -/
theorem Step.updates {c : Call} (h : Once s) (hserved : c.Served f s) (hstep : Step f bw s c t) :
    Once t ∧ counter.Updates s t c.booking := by
  cases hstep with
  | @enqueue _ now msg io hnew hok =>
      obtain ⟨hwf, hperm, hsize, hnum, hbytes, hserviced, hbytes'⟩ :=
        enqueue_joins (h.wf.setReq msg io) hok
      have hperm : (queued t).Perm (msg :: queued s) := hperm
      have hnot : msg ∉ queued s := fun hin => (mem_queued_iff.mp hin).elim (hnew 0) (hnew 1)
      have hreq : (s.setReq msg io).io msg = io := if_pos rfl
      refine ⟨⟨hwf, hperm.nodup_iff.mpr (List.nodup_cons.mpr ⟨hnot, h.nodup⟩)⟩, ?_, fun m => ?_,
        fun m => hperm.mem_iff.trans List.mem_cons, fun m hm => nomatch hm⟩
      · show (⟨t.numQueued, t.ioQueued, t.numServiced, t.ioServiced⟩ : Tally) = _
        rw [hnum, hbytes, hserviced, hbytes', hreq]
        rfl
      · exact (hsize m).trans (apply_ite Io.count _ _ _)
  | @dequeue _ fuel now out hok =>
      by_cases hempty : s.size = 0
      · cases (dequeue_empty hempty).symm.trans hok
        exact ⟨h, rfl, fun m => rfl, fun m => Iff.rfl, fun m hm => nomatch hm⟩
      · obtain ⟨msg, i, rfl, hleaves, hwf, hio, hnum, hbytes, hserviced, hbytes'⟩ :=
          dequeue_taken h.wf hempty (hserved hempty) hok
        have hperm := hleaves.perm
        have hnodup := hperm.nodup_iff.mp h.nodup
        rw [List.nodup_cons] at hnodup
        refine ⟨⟨hwf, hnodup.2⟩, ?_, fun m => ?_, fun m => ?_, ?_⟩
        · show (⟨t.numQueued, t.ioQueued, t.numServiced, t.ioServiced⟩ : Tally) = _
          rw [hnum, hbytes, hserviced, hbytes']
          rfl
        · show (t.io m).count = (s.io m).count
          rw [hio]
        · show m ∈ queued t ↔ m ≠ msg ∧ m ∈ queued s
          rw [hperm.mem_iff, List.mem_cons]
          constructor
          · intro hm
            refine ⟨?_, .inr hm⟩
            rintro rfl
            exact hnodup.1 hm
          · rintro ⟨hne, rfl | hm⟩
            · exact absurd rfl hne
            · exact hm
        · rintro m ⟨⟩
          exact hperm.mem_iff.mpr List.mem_cons_self
  | @finish msg =>
      obtain ⟨hwf, hqueued⟩ := finish_same h.wf msg
      obtain ⟨-, -, hio, hnum, hbytes⟩ := finish_fields s.toNrsPrio msg
      refine ⟨⟨hwf, by rw [hqueued]; exact h.nodup⟩, ?_, fun m => ?_, fun m => ?_,
        fun m hm => nomatch hm⟩
      · rw [finish_eq]
        show (⟨(s.toNrsPrio.finish msg).numQueued, (s.toNrsPrio.finish msg).ioQueued, _, _⟩ :
          Tally) = _
        rw [hnum, hbytes]
        unfold NrsPrio.finish
        rfl
      · rw [finish_eq]
        show ((s.toNrsPrio.finish msg).io m).count = (s.io m).count
        rw [hio]
      · show m ∈ queued (s.finish msg) ↔ m ∈ queued s
        rw [hqueued]

/-- A `Dequeue` that the flavor does not serve counts a message out that stays in its queue. -/
theorem Step.miscounts {c : Call} {l : Ledger Nat} (h : Once s) (hkeeps : Keeps counter s l)
    (hbad : ¬ c.Served f s) (hstep : Step f bw s c t) : ¬ counter.Exact t (l.book c.booking) := by
  cases hstep with
  | enqueue => exact absurd trivial hbad
  | finish => exact absurd trivial hbad
  | @dequeue _ fuel now out hok =>
      obtain ⟨hne, hserves⟩ := Classical.not_imp.mp hbad
      unfold NrsPrioFlavor.dequeue at hok
      rw [if_neg hne] at hok
      obtain ⟨⟨out', u⟩, hrun, hok⟩ := bind_eq_ok.mp hok
      obtain ⟨m, hm, hok⟩ := bind_eq_ok.mp hok
      obtain ⟨rfl, msg, hmsg, hout⟩ := flavorDequeue_peeks h.wf hserves hrun
      have hm : out' = some m := require_eq_ok.mp hm
      cases hout.symm.trans hm
      cases hok
      intro hexact
      have hnodup : l.waiting.Nodup := hkeeps.nodup.sublist (List.sublist_append_left _ _)
      -- the message left the ledger, but not its queue
      have hin : m ∈ l.waiting.erase m := (hexact.2.2 m).mpr hmsg
      exact (hnodup.mem_erase_iff.mp hin).1 rfl

end LustreSimulator.NrsPrioFlavor

namespace LustreSimulator.NrsTally

open Lib NrsMessage

/-- In a run of `NrsFRR` in which no `Dequeue` with deadlines only finds a message, and in a run of
`NrsPrio` in which every `Dequeue` of a scheduler with messages is one that the flavor serves, the
counters are the numbers of the messages that are queued and of the ones that are dequeued and not
finished, and the sums of their sizes. No such call makes a counter wrap, and a call keeps the
counters exact if and only if it is one of these. -/
theorem tallies_exact (io : Nat → Io) :
    (∀ (p : NrsFRR.Params) (calls : List NrsFRR.Call) (s : NrsFRR) (l : Ledger Nat),
      Run (fun s c t => ¬ c.uncounted p s ∧ NrsFRR.Step p s c t) (.new io) calls s →
      (Ledger.empty fun m => (io m).count).Accepts (calls.map NrsFRR.Call.booking) →
      l = (Ledger.empty fun m => (io m).count).books (calls.map NrsFRR.Call.booking) →
      (NrsFRR.counter p).Exact s l ∧
      ∀ c t, NrsFRR.Step p s c t → l.Accepts [c.booking] →
        (¬ c.uncounted p s → ((NrsFRR.counter p).tally s).Covers (fun m => (s.io m).count)
          c.booking) ∧
        ((NrsFRR.counter p).Exact t (l.book c.booking) ↔ ¬ c.uncounted p s)) ∧
    (∀ (f : NrsPrio.Flavor) (bw : Nat) (calls : List NrsPrioFlavor.Call) (s : NrsPrioFlavor)
        (l : Ledger Nat),
      Run (fun s c t => c.Served f s ∧ NrsPrioFlavor.Step f bw s c t) (.new io) calls s →
      (Ledger.empty fun m => (io m).count).Accepts (calls.map NrsPrioFlavor.Call.booking) →
      l = (Ledger.empty fun m => (io m).count).books (calls.map NrsPrioFlavor.Call.booking) →
      NrsPrioFlavor.counter.Exact s l ∧
      ∀ c t, NrsPrioFlavor.Step f bw s c t → l.Accepts [c.booking] →
        (c.Served f s → (NrsPrioFlavor.counter.tally s).Covers (fun m => (s.io m).count)
          c.booking) ∧
        (NrsPrioFlavor.counter.Exact t (l.book c.booking) ↔ c.Served f s)) := by
  constructor
  · intro p calls s l hrun haccepts hl
    have hstart : Keeps (NrsFRR.counter p) (.new io) (.empty fun m => (io m).count) := by
      refine .start rfl fun m => ?_
      show ¬ if p.deadline = .dlOnly then m ∈ NrsFRR.waiting (.new io) else
        NrsFRR.Held (.new io) m
      split
      · exact fun hm => nomatch hm
      · exact fun hm => nomatch hm.choose_spec
    have hplaced : NrsFRR.Placed p (.new io) := fun _ =>
      ⟨(NrsFRR.new_mirror io).1, (NrsFRR.new_inTurn io).offsets⟩
    -- the run keeps the counters and the ledger together
    obtain ⟨hs, hkeeps⟩ := Keeps.run
      (fun s c t h hstep => NrsFRR.Step.updates h hstep.1 hstep.2) hrun hplaced hstart haccepts
    rw [← hl] at hkeeps
    refine ⟨hkeeps.exact, fun c t hstep hnext => ?_⟩
    -- one more call: it is counted, and then nothing wraps
    have hgood := fun hc => hkeeps.book (NrsFRR.Step.updates hs hc hstep).2 hnext.1 hnext.2.1
    exact ⟨fun hc => (hgood hc).2,
      fun hexact hc => NrsFRR.Step.miscounts hkeeps hc hstep hexact, fun hc => (hgood hc).1.exact⟩
  · intro f bw calls s l hrun haccepts hl
    have hstart : Keeps NrsPrioFlavor.counter (.new io) (.empty fun m => (io m).count) :=
      .start rfl fun m hm => nomatch hm
    have honce : NrsPrioFlavor.Once (.new io) := ⟨NrsPrioFlavor.wf_new io, List.nodup_nil⟩
    obtain ⟨hs, hkeeps⟩ := Keeps.run
      (fun s c t h hstep => NrsPrioFlavor.Step.updates h hstep.1 hstep.2) hrun honce hstart haccepts
    rw [← hl] at hkeeps
    refine ⟨hkeeps.exact, fun c t hstep hnext => ?_⟩
    have hgood := fun hc => hkeeps.book (NrsPrioFlavor.Step.updates hs hc hstep).2 hnext.1 hnext.2.1
    refine ⟨fun hc => (hgood hc).2, fun hexact => ?_, fun hc => (hgood hc).1.exact⟩
    by_contra hc
    exact NrsPrioFlavor.Step.miscounts hs hkeeps hc hstep hexact

/-- The numbers of one message fit. -/
theorem one_fits {l : Ledger Nat} (hl : l.tally = ⟨1, 4096, 0, 0⟩ ∨ l.tally = ⟨0, 0, 1, 4096⟩ ∨
    l.tally = ⟨0, 0, 0, 0⟩) : l.Fits := by
  -- all three are far below `2 ^ 64`
  unfold Ledger.Fits
  rcases hl with hl | hl | hl <;> rw [hl] <;> decide

/-- A message that is enqueued, served and finished. -/
theorem one_accepts :
    (Ledger.empty fun _ : Nat => 4096).Accepts [.arrive 1 4096, .serve 1, .leave 1] :=
  ⟨⟨List.not_mem_nil, List.not_mem_nil⟩, one_fits (.inl rfl), trivial, one_fits (.inr (.inl rfl)),
    List.mem_cons_self, one_fits (.inr (.inr rfl)), trivial⟩

/-- A message is enqueued, served and finished, by `NrsFRR` with `io_queue`s and by `NrsPrio` with
strict priorities. -/
theorem tallies_exact_one :
    (∃ s, Run (fun s c t => ¬ NrsFRR.Call.uncounted (NrsFRR.exampleParams .dl2L) s c ∧
          NrsFRR.Step (NrsFRR.exampleParams .dl2L) s c t) (.new fun _ => NrsFRR.exampleIo 0)
        [.enqueue 0 1 (NrsFRR.exampleIo 0), .dequeue 2 (some 1), .finish 1] s ∧
      (NrsFRR.counter (NrsFRR.exampleParams .dl2L)).Exact s ((Ledger.empty fun _ => 4096).books
        [.arrive 1 4096, .serve 1, .leave 1])) ∧
    ∃ s, Run (fun s c t => NrsPrioFlavor.Call.Served .strict s c ∧
          NrsPrioFlavor.Step .strict 1 s c t) (.new fun _ => NrsPrioFlavor.prioIo 0)
        [.enqueue 0 1 (NrsPrioFlavor.prioIo 0), .dequeue 2 (some 1), .finish 1] s ∧
      NrsPrioFlavor.counter.Exact s ((Ledger.empty fun _ => 4096).books
        [.arrive 1 4096, .serve 1, .leave 1]) := by
  constructor
  · have hrun : ∃ s, Run (fun s c t =>
          ¬ NrsFRR.Call.uncounted (NrsFRR.exampleParams .dl2L) s c ∧
          NrsFRR.Step (NrsFRR.exampleParams .dl2L) s c t) (.new fun _ => NrsFRR.exampleIo 0)
        [.enqueue 0 1 (NrsFRR.exampleIo 0), .dequeue 2 (some 1), .finish 1] s :=
      ⟨_, .cons ⟨id, .enqueue (fun _ h => nomatch h) rfl⟩
        (.cons ⟨(fun h => nomatch h.1), .dequeue rfl⟩ (.cons ⟨id, .finish⟩ (.nil _)))⟩
    obtain ⟨s, hrun⟩ := hrun
    exact ⟨s, hrun, ((tallies_exact fun _ => NrsFRR.exampleIo 0).1
      (NrsFRR.exampleParams .dl2L) _ s _ hrun one_accepts rfl).1⟩
  · have hrun : ∃ s, Run (fun s c t => NrsPrioFlavor.Call.Served .strict s c ∧
          NrsPrioFlavor.Step .strict 1 s c t) (.new fun _ => NrsPrioFlavor.prioIo 0)
        [.enqueue 0 1 (NrsPrioFlavor.prioIo 0), .dequeue 2 (some 1), .finish 1] s :=
      ⟨_, .cons ⟨trivial, .enqueue (fun i h => by
            change 1 ∈ (if i = 0 then _ else _ : NrsPrio.PrioQueue).pq.Q at h
            split at h <;> cases h) rfl⟩
        (.cons ⟨fun _ => trivial, @NrsPrioFlavor.Step.dequeue _ _ _ _ 1 _ _ rfl⟩
        (.cons ⟨trivial, .finish⟩ (.nil _)))⟩
    obtain ⟨s, hrun⟩ := hrun
    exact ⟨s, hrun, ((tallies_exact fun _ => NrsPrioFlavor.prioIo 0).2 .strict 1 _ s _ hrun
      one_accepts rfl).1⟩

/-- With deadlines only, a message is enqueued and served. `num_queued` stays 1, and `Finish` makes
`num_serviced` wrap. -/
theorem tallies_wrap :
    ¬ ∀ (p : NrsFRR.Params) (io : Nat → Io) (calls : List NrsFRR.Call) (s : NrsFRR)
      (l : Ledger Nat), Run (NrsFRR.Step p) (.new io) calls s →
      (Ledger.empty fun m => (io m).count).Accepts (calls.map NrsFRR.Call.booking) →
      l = (Ledger.empty fun m => (io m).count).books (calls.map NrsFRR.Call.booking) →
      (NrsFRR.counter p).Exact s l ∧
      ∀ c t, NrsFRR.Step p s c t → l.Accepts [c.booking] →
        ((NrsFRR.counter p).tally s).Covers (fun m => (s.io m).count) c.booking := by
  intro h
  have hrun : ∃ s, Run (NrsFRR.Step (NrsFRR.exampleParams .dlOnly))
      (.new fun _ => NrsFRR.exampleIo 0) [.enqueue 0 1 NrsFRR.firstIo, .dequeue 3 (some 1)] s ∧
      s.numServiced = 0 :=
    ⟨_, .cons (.enqueue (fun _ h => nomatch h) rfl) (.cons (.dequeue rfl) (.nil _)), rfl⟩
  obtain ⟨s, hrun, hzero⟩ := hrun
  have haccepts := one_accepts
  obtain ⟨hnew, hfits₁, hwaits, hfits₂, hserved, hfits₃, -⟩ := haccepts
  have hcovers := (h (NrsFRR.exampleParams .dlOnly) (fun _ => NrsFRR.exampleIo 0) _ s _ hrun
    ⟨hnew, hfits₁, hwaits, hfits₂, trivial⟩ rfl).2 (.finish 1) _ .finish
    ⟨hserved, hfits₃, trivial⟩
  -- the message is not counted as served, so `Finish` has nothing to take away
  have hpos : 1 ≤ s.numServiced := hcovers.1
  omega

end LustreSimulator.NrsTally
