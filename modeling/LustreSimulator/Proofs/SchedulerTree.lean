import LustreSimulator.Proofs.NrsFrrService
import LustreSimulator.Proofs.NrsRbtree
import LustreSimulator.Proofs.Scheduler

/-!
# `LustreSimulator.Proofs.SchedulerTree`: the trees by deadline and by offset

`SetScheduler` makes an `NrsRbtree` for `NRS_ALGO_BYDEADLINE` and for `NRS_ALGO_BYOBJID`. A
`ReplyStep` is a call on it, or an early reply that extends the deadline of a queued message.

`CompareByDeadline` returns 1 for the smaller deadline, so the tree has the largest deadline first.
`Latest` is that order, and it stays as long as no deadline overtakes another one. `urgent_iff` says
when the message that leaves is the most urgent one.

`CompareByObjid` stops the program at two messages with the same offset of a file. The descent of
`Enqueue` always meets the queued one, since it goes to the place of the new one, which is there.
So `Enqueue` stops exactly when there is one (`ByOffset.enqueue_iff`). The round robin by file has
the same comparison for the messages of an `io_queue`, and `offset_iff` is the result for both.
-/

set_option autoImplicit false

namespace LustreSimulator.Scheduler

open Lib Server

variable {p : Params} {s s' s₀ : Scheduler} {msgs : Nat → NrsMessage} {q : NrsRbtree Nat}
  {now msg : Nat} {m : NrsMessage}

/-! ### Calls and early replies -/

/-- The messages of a tree. -/
def waiting : Scheduler → List Nat
  | .rbtree _ _ q => q.entries
  | _ => []

/-- The messages after a message was written. -/
def write (msgs : Nat → NrsMessage) (msg : Nat) (m : NrsMessage) : Nat → NrsMessage :=
  fun i => if i = msg then m else msgs i

/-- A call, or an early reply that sets the deadline of a message. -/
inductive ReplyCall where
  | call (c : Call)
  | earlyReply (msg deadline : Nat)
  deriving DecidableEq, Repr

/-- A call that does not abort, or an early reply. A queued message is not enqueued again, and an
early reply extends the deadline. -/
inductive ReplyStep (p : Params) : Scheduler → ReplyCall → Scheduler → Prop where
  | call {s s' : Scheduler} {c : Call} :
      (∀ now msg m, c = .enqueue now msg m → msg ∉ s.waiting) → Step p s c s' →
      ReplyStep p s (.call c) s'
  | earlyReply {c : Compare} {msgs : Nat → NrsMessage} {q : NrsRbtree Nat} {msg d : Nat} :
      msg ∈ q.entries → (msgs msg).deadline ≤ d →
      ReplyStep p (.rbtree c msgs q) (.earlyReply msg d)
        (.rbtree c (write msgs msg { msgs msg with deadline := d }) q)

/-- The message that is written. -/
theorem write_self (msgs : Nat → NrsMessage) (msg : Nat) (m : NrsMessage) :
    write msgs msg m msg = m := if_pos rfl

/-- The other messages stay. -/
theorem write_ne {i : Nat} (msgs : Nat → NrsMessage) (m : NrsMessage) (h : i ≠ msg) :
    write msgs msg m i = msgs i := if_neg h

/-- `Enqueue` of a tree. -/
theorem enqueue_tree (c : Compare) (hdistinct : ∀ y ∈ q.compared (c.fn (write msgs msg m)) msg,
      c.Distinct (write msgs msg m) msg y) :
    (Scheduler.rbtree c msgs q).enqueue p now msg m =
      (q.enqueue (c.fn (write msgs msg m)) msg).map fun q => .rbtree c (write msgs msg m) q :=
  if_pos hdistinct

/-- `Dequeue` of a tree. -/
theorem dequeue_tree {c : Compare} {root : Option Jobid} :
    (Scheduler.rbtree c msgs q).dequeue p now root =
      q.dequeue.map fun r => (r.1, .rbtree c msgs r.2) := rfl

/-! ### By deadline -/

/-- The tree has the larger deadlines first. -/
def Latest (msgs : Nat → NrsMessage) (q : NrsRbtree Nat) : Prop :=
  q.entries.Pairwise fun x y => (msgs y).deadline ≤ (msgs x).deadline

/-- An early reply takes a deadline past the one of another message that was not before it. -/
def ReplyCall.overtakes (s : Scheduler) : ReplyCall → Prop
  | .call _ => False
  | .earlyReply msg d =>
      match s with
      | .rbtree _ msgs q => ∃ y ∈ q.entries, y ≠ msg ∧
          (msgs msg).deadline ≤ (msgs y).deadline ∧ (msgs y).deadline < d
      | _ => False

/-- `CompareByDeadline` is negative when the deadline is not smaller. -/
theorem compareByDeadline_neg (msgs : Nat → NrsMessage) (x y : Nat) :
    compareByDeadline msgs x y < 0 ↔ (msgs y).deadline ≤ (msgs x).deadline := by
  unfold compareByDeadline
  split
  · exact iff_of_false (by decide) (by omega)
  · exact iff_of_true (by decide) (by omega)

/-- `Enqueue` of a message succeeds, and it keeps the larger deadlines first. -/
theorem enqueue_deadline (hwf : q.WF) (hnew : msg ∉ q.entries) :
    ∃ q', (Scheduler.rbtree .compareByDeadline msgs q).enqueue p now msg m =
        some (.rbtree .compareByDeadline (write msgs msg m) q') ∧ q'.WF ∧
      (Latest msgs q → Latest (write msgs msg m) q') := by
  have hneg := compareByDeadline_neg (write msgs msg m) msg
  obtain ⟨q', -, -, henq, hwf', -⟩ :=
    @NrsRbtree.enqueue_spec Nat (compareByDeadline (write msgs msg m)) q msg hwf
  refine ⟨q', ?_, hwf', fun hlatest => ?_⟩
  · rw [enqueue_tree]
    · show (q.enqueue (compareByDeadline (write msgs msg m)) msg).map _ = _
      rw [henq]
      rfl
    · exact fun y _ => trivial
  · -- only the new message is written, so the others keep their deadlines
    have hne : ∀ x ∈ q.entries, x ≠ msg := by
      rintro x hx rfl
      exact hnew hx
    have hsorted : q.entries.Pairwise fun x y =>
        (write msgs msg m y).deadline ≤ (write msgs msg m x).deadline := by
      refine hlatest.imp_of_mem fun hx hy hle => ?_
      rw [write_ne msgs m (hne _ hx), write_ne msgs m (hne _ hy)]
      exact hle
    obtain ⟨q'', henq', -, hsorted', -⟩ := NrsRbtree.enqueue_sorted hwf hsorted
      (fun x _ hlt => (hneg x).mp hlt)
      (fun x _ hlt => Nat.le_of_lt (Nat.lt_of_not_le (mt (hneg x).mpr hlt)))
      (fun x _ y _ hxy hlt => (hneg y).mpr (Nat.le_trans hxy ((hneg x).mp hlt)))
    -- both lemmas are about the same call
    cases henq.symm.trans henq'
    exact hsorted'

/-- An early reply that overtakes no deadline keeps the larger deadlines first. -/
theorem Latest.extend {d : Nat} (h : Latest msgs q) (hle : (msgs msg).deadline ≤ d)
    (hkeep : ∀ y ∈ q.entries, y ≠ msg → (msgs msg).deadline ≤ (msgs y).deadline →
      d ≤ (msgs y).deadline) :
    Latest (write msgs msg { msgs msg with deadline := d }) q := by
  refine List.Pairwise.imp_of_mem (fun {x y} hx hy hxy => ?_) h
  by_cases hymsg : y = msg
  · by_cases hxmsg : x = msg
    · exact Nat.le_of_eq (by rw [hxmsg, hymsg])
    · rw [hymsg] at hxy ⊢
      rw [write_self, write_ne _ _ hxmsg]
      -- the other one is in front: the reply must not take the deadline past it
      exact hkeep x hx hxmsg hxy
  · rw [write_ne _ _ hymsg]
    by_cases hxmsg : x = msg
    · rw [hxmsg] at hxy ⊢
      rw [write_self]
      -- the other one is behind, and a larger deadline stays in front of it
      exact Nat.le_trans hxy hle
    · rw [write_ne _ _ hxmsg]
      exact hxy

/-- The tree by deadline, in a run. -/
structure ByDeadline (s : Scheduler) (msgs : Nat → NrsMessage) (q : NrsRbtree Nat) : Prop where
  eq : s = .rbtree .compareByDeadline msgs q
  wf : q.WF

/-- A step keeps the tree, and its order when no deadline is overtaken. -/
theorem ByDeadline.step {c : ReplyCall} (h : ByDeadline s msgs q) (hstep : ReplyStep p s c s') :
    ∃ msgs' q', ByDeadline s' msgs' q' ∧
      (Latest msgs q → ¬ c.overtakes s → Latest msgs' q') := by
  obtain ⟨rfl, hwf⟩ := h
  cases hstep with
  | call hfresh hcall =>
      cases hcall with
      | @enqueue _ now msg m hok =>
          obtain ⟨q', henq, hwf', hlatest⟩ := enqueue_deadline hwf (hfresh now msg m rfl)
          cases henq.symm.trans hok
          exact ⟨_, q', ⟨rfl, hwf'⟩, fun h _ => hlatest h⟩
      | dequeue _ hok =>
          obtain ⟨⟨out, q'⟩, hdeq, heq⟩ := Option.map_eq_some_iff.mp hok
          cases heq
          -- what is left has the order that it had
          rcases NrsRbtree.dequeue_spec hwf with
            ⟨-, hdeq'⟩ | ⟨x, rest, q'', hlist, hdeq', hwf', hrest⟩
          · cases hdeq'.symm.trans hdeq
            exact ⟨_, _, ⟨rfl, hwf⟩, fun h _ => h⟩
          · cases hdeq'.symm.trans hdeq
            refine ⟨_, _, ⟨rfl, hwf'⟩, fun h _ => ?_⟩
            unfold Latest at h ⊢
            rw [hlist] at h
            rw [hrest]
            exact (List.pairwise_cons.mp h).2
      | finish hok =>
          cases hok
          exact ⟨_, _, ⟨rfl, hwf⟩, fun h _ => h⟩
      | timer hok => cases hok
  | @earlyReply _ _ _ msg d hmem hle =>
      refine ⟨_, _, ⟨rfl, hwf⟩, fun h hkeep => h.extend hle fun y hy hne hbefore => ?_⟩
      by_contra hlt
      exact hkeep ⟨y, hy, hne, hbefore, Nat.lt_of_not_le hlt⟩

/-- The deadline of a message is the least one of the queued messages. -/
def MostUrgent (msgs : Nat → NrsMessage) (q : NrsRbtree Nat) (x : Nat) : Prop :=
  ∀ y ∈ q.entries, (msgs x).deadline ≤ (msgs y).deadline

/-- The queued messages have one deadline. -/
def Level (msgs : Nat → NrsMessage) (q : NrsRbtree Nat) : Prop :=
  ∀ x ∈ q.entries, ∀ y ∈ q.entries, (msgs x).deadline = (msgs y).deadline

/-- A call or an early reply, and no deadline overtakes another one. -/
def InOrder (p : Params) (s : Scheduler) (c : ReplyCall) (s' : Scheduler) : Prop :=
  ¬ c.overtakes s ∧ ReplyStep p s c s'

/-- `Dequeue` of the tree by deadline returns the queued message `x`. -/
structure Serves (p : Params) (s : Scheduler) (msgs : Nat → NrsMessage) (q : NrsRbtree Nat)
    (x : Nat) : Prop where
  eq : s = .rbtree .compareByDeadline msgs q
  mem : x ∈ q.entries
  dequeue : ∀ now root, ∃ s', s.dequeue p now root = some (some x, s')

/-- **By deadline.** In every run on the scheduler for `NRS_ALGO_BYDEADLINE`, `Dequeue` returns a
queued message with the least deadline if all queued messages have one deadline. When no early reply
took a deadline past another one, it returns one with the largest deadline, so it has the least one
only if all have. -/
theorem urgent_iff {calls : List ReplyCall}
    (hset : setScheduler p now msgs (some .bydeadline) = some s₀)
    (hrun : Run (ReplyStep p) s₀ calls s) (hne : s.waiting ≠ []) :
    ∃ msgs' q x, Serves p s msgs' q x ∧ (Level msgs' q → MostUrgent msgs' q x) ∧
      (Run (InOrder p) s₀ calls s → (∀ y ∈ q.entries, (msgs' y).deadline ≤ (msgs' x).deadline) ∧
        (MostUrgent msgs' q x ↔ Level msgs' q)) := by
  cases hset
  -- in every run the tree is well formed
  obtain ⟨msgs', q, rfl, hwf⟩ : ∃ msgs' q, ByDeadline s msgs' q :=
    hrun.invariant (P := fun s => ∃ msgs q, ByDeadline s msgs q)
      (fun _ _ _ h hstep => by
        obtain ⟨msgs, q, h⟩ := h
        obtain ⟨msgs', q', h', -⟩ := h.step hstep
        exact ⟨msgs', q', h'⟩) ⟨_, _, rfl, NrsRbtree.wf_new⟩
  -- in an ordered run the larger deadlines are first as well
  have hlatest : Run (InOrder p) (.rbtree .compareByDeadline msgs .new) calls
      (.rbtree .compareByDeadline msgs' q) → Latest msgs' q := by
    intro hrun
    obtain ⟨msgs₁, q₁, ⟨heq, -⟩, hlatest⟩ :=
      hrun.invariant (P := fun s => ∃ msgs q, ByDeadline s msgs q ∧ Latest msgs q)
        (fun _ _ _ h hstep => by
          obtain ⟨msgs, q, h, hlatest⟩ := h
          obtain ⟨msgs', q', h', hkeep⟩ := h.step hstep.2
          exact ⟨msgs', q', h', hkeep hlatest hstep.1⟩)
        ⟨_, _, ⟨rfl, NrsRbtree.wf_new⟩, List.Pairwise.nil⟩
    cases heq
    exact hlatest
  rcases NrsRbtree.dequeue_spec hwf with ⟨hempty, -⟩ | ⟨x, rest, q', hlist, hdeq, -⟩
  · exact absurd hempty hne
  have hmem : x ∈ q.entries := by
    rw [hlist]
    exact List.mem_cons_self
  have hurgent : Level msgs' q → MostUrgent msgs' q x :=
    fun hlevel y hy => Nat.le_of_eq (hlevel x hmem y hy)
  have hserves : Serves p (.rbtree .compareByDeadline msgs' q) msgs' q x := by
    refine ⟨rfl, hmem, fun now root => ⟨.rbtree .compareByDeadline msgs' q', ?_⟩⟩
    rw [dequeue_tree, hdeq]
    rfl
  refine ⟨msgs', q, x, hserves, hurgent, fun hordered => ?_⟩
  have hsorted := hlatest hordered
  -- `Dequeue` takes the first message, so no deadline is larger
  have hlast : ∀ y ∈ q.entries, (msgs' y).deadline ≤ (msgs' x).deadline := by
    unfold Latest at hsorted
    rw [hlist, List.pairwise_cons] at hsorted
    rw [hlist]
    intro y hy
    rcases List.mem_cons.mp hy with rfl | hy
    · exact Nat.le_refl _
    · exact hsorted.1 y hy
  refine ⟨hlast, fun hleast y hy z hz => ?_, hurgent⟩
  -- both deadlines are the one of `x`
  have hy' := Nat.le_antisymm (hlast y hy) (hleast y hy)
  have hz' := Nat.le_antisymm (hlast z hz) (hleast z hz)
  rw [hy', hz']

/-- A message whose RPC has a deadline. -/
def deadlineMessage (deadline : Nat) : NrsMessage := { exampleMessage with deadline := deadline }

/-- Two messages, and an early reply that gives the first one the deadline of the second. -/
theorem urgent_iff_two :
    ∃ s₀ s, setScheduler exampleParams 0 (fun _ => exampleMessage) (some .bydeadline) = some s₀ ∧
      Run (ReplyStep exampleParams) s₀ [.call (.enqueue 0 1 (deadlineMessage 5)),
        .call (.enqueue 0 2 (deadlineMessage 9)), .earlyReply 1 9] s ∧ s.waiting = [2, 1] ∧
      ∃ msgs' q x, Serves exampleParams s msgs' q x ∧
        (Level msgs' q → MostUrgent msgs' q x) ∧
        (Run (InOrder exampleParams) s₀ [.call (.enqueue 0 1 (deadlineMessage 5)),
            .call (.enqueue 0 2 (deadlineMessage 9)), .earlyReply 1 9] s →
          (∀ y ∈ q.entries, (msgs' y).deadline ≤ (msgs' x).deadline) ∧
          (MostUrgent msgs' q x ↔ Level msgs' q)) := by
  have hset : setScheduler exampleParams 0 (fun _ => exampleMessage) (some .bydeadline) =
      some (.rbtree .compareByDeadline (fun _ => exampleMessage) .new) := rfl
  have hexists : ∃ s, Run (ReplyStep exampleParams)
      (.rbtree .compareByDeadline (fun _ => exampleMessage) .new)
      [.call (.enqueue 0 1 (deadlineMessage 5)), .call (.enqueue 0 2 (deadlineMessage 9)),
        .earlyReply 1 9] s ∧ s.waiting = [2, 1] := by
    refine ⟨_, .cons (.call ?_ (.enqueue rfl)) <| .cons (.call ?_ (.enqueue rfl)) <|
      .cons (.earlyReply (by decide) (by decide)) (.nil _), rfl⟩
    · rintro _ _ _ ⟨⟩ h
      cases h
    · rintro _ _ _ ⟨⟩
      decide
  obtain ⟨s, hrun, hwaiting⟩ := hexists
  refine ⟨_, s, hset, hrun, hwaiting, urgent_iff hset hrun ?_⟩
  rw [hwaiting]
  decide

/-- Two messages with the deadlines 5 and 9: the second one is served. -/
theorem urgent_last :
    ¬ ∀ (p : Params) (now : Nat) (msgs : Nat → NrsMessage) (s₀ : Scheduler)
      (calls : List ReplyCall) (msgs' : Nat → NrsMessage) (q : NrsRbtree Nat),
      setScheduler p now msgs (some .bydeadline) = some s₀ →
      Run (ReplyStep p) s₀ calls (.rbtree .compareByDeadline msgs' q) →
      ∀ x q', q.dequeue = some (some x, q') → MostUrgent msgs' q x := by
  intro hall
  have hexists : ∃ msgs' q, Run (ReplyStep exampleParams)
      (.rbtree .compareByDeadline (fun _ => exampleMessage) .new)
      [.call (.enqueue 0 1 (deadlineMessage 5)), .call (.enqueue 0 2 (deadlineMessage 9))]
      (.rbtree .compareByDeadline msgs' q) ∧ (∃ q', q.dequeue = some (some 2, q')) ∧
      1 ∈ q.entries ∧ (msgs' 1).deadline = 5 ∧ (msgs' 2).deadline = 9 := by
    refine ⟨_, _, .cons (.call ?_ (.enqueue rfl)) <| .cons (.call ?_ (.enqueue rfl)) (.nil _),
      ⟨_, rfl⟩, by decide, rfl, rfl⟩
    · rintro _ _ _ ⟨⟩ h
      cases h
    · rintro _ _ _ ⟨⟩
      decide
  obtain ⟨msgs', q, hrun, ⟨q', hdeq⟩, hmem, h1, h2⟩ := hexists
  -- the second message has the larger deadline
  have hle := hall _ 0 _ _ _ msgs' q rfl hrun 2 q' hdeq 1 hmem
  rw [h1, h2] at hle
  exact absurd hle (by decide)

/-! ### By offset -/

/-- The order of the files and the offsets. -/
def Before (msgs : Nat → NrsMessage) (x y : Nat) : Prop :=
  (msgs x).req.fid < (msgs y).req.fid ∨
    (msgs x).req.fid = (msgs y).req.fid ∧ (msgs x).req.off < (msgs y).req.off

/-- Two messages have the same offset of a file. -/
def SameOffset (a b : NrsMessage) : Prop := a.req.fid = b.req.fid ∧ a.req.off = b.req.off

/-- `CompareByObjid` is negative when the first message is before the second, or at its place. -/
theorem compareByObjid_neg (msgs : Nat → NrsMessage) (x y : Nat) :
    compareByObjid msgs x y < 0 ↔ Before msgs x y ∨ SameOffset (msgs x) (msgs y) := by
  -- by file first, then by offset; equal places count as before
  unfold compareByObjid Before SameOffset
  split
  · exact iff_of_false (by decide) (by omega)
  · split
    · exact iff_of_true (by decide) (by omega)
    · split
      · exact iff_of_false (by decide) (by omega)
      · exact iff_of_true (by decide) (by omega)

/-- The order of messages that are not written. -/
theorem before_write {x y : Nat} (hx : x ≠ msg) (hy : y ≠ msg) :
    Before (write msgs msg m) x y ↔ Before msgs x y := by
  unfold Before
  rw [write_ne msgs m hx, write_ne msgs m hy]

/-- The tree by offset, in a run. -/
structure ByOffset (s : Scheduler) (msgs : Nat → NrsMessage) (q : NrsRbtree Nat) : Prop where
  eq : s = .rbtree .compareByObjid msgs q
  wf : q.WF
  sorted : q.entries.Pairwise (Before msgs)

/-- `Enqueue` of a new offset succeeds, and the messages stay in order. -/
theorem ByOffset.enqueue (h : ByOffset s msgs q) (hnew : msg ∉ q.entries)
    (hoff : ∀ y ∈ q.entries, ¬ SameOffset m (msgs y)) :
    ∃ q', s.enqueue p now msg m = some (.rbtree .compareByObjid (write msgs msg m) q') ∧
      ByOffset (.rbtree .compareByObjid (write msgs msg m) q') (write msgs msg m) q' := by
  obtain ⟨rfl, hwf, hsorted⟩ := h
  have hne : ∀ x ∈ q.entries, x ≠ msg := by
    rintro x hx rfl
    exact hnew hx
  have hneg := compareByObjid_neg (write msgs msg m) msg
  have hother : ∀ x ∈ q.entries, ¬ SameOffset (write msgs msg m msg) (write msgs msg m x) := by
    intro x hx
    rw [write_self, write_ne msgs m (hne x hx)]
    exact hoff x hx
  -- the comparison is a strict order on these messages, so the tree stays sorted
  obtain ⟨q', henq, hwf', hsorted', -⟩ := NrsRbtree.enqueue_sorted hwf
    (hsorted.imp_of_mem fun hx hy => (before_write (m := m) (hne _ hx) (hne _ hy)).mpr)
    (fun x hx hlt => ((hneg x).mp hlt).resolve_right (hother x hx))
    (fun x hx hlt => by
      have hafter := mt (hneg x).mpr hlt
      unfold Before SameOffset at hafter
      unfold Before
      omega)
    (fun x hx y hy hxy hlt => by
      have hbefore := ((hneg x).mp hlt).resolve_right (hother x hx)
      refine (hneg y).mpr (Or.inl ?_)
      unfold Before at hxy hbefore ⊢
      omega)
  refine ⟨q', ?_, rfl, hwf', hsorted'⟩
  rw [enqueue_tree]
  · show (q.enqueue (compareByObjid (write msgs msg m)) msg).map _ = _
    rw [henq]
    rfl
  · -- the assertion is about the messages that are compared, which are queued
    intro y hy hfid hoffEq
    exact hother y (NrsRbtree.compared_mem hy) ⟨hfid, hoffEq⟩

/-- `Enqueue` meets the queued message with the same offset of the file. -/
theorem ByOffset.enqueue_stops {y : Nat} (h : ByOffset s msgs q) (hnew : msg ∉ q.entries)
    (hy : y ∈ q.entries) (hsame : SameOffset m (msgs y)) : s.enqueue p now msg m = none := by
  obtain ⟨rfl, hwf, hsorted⟩ := h
  have hne : ∀ x ∈ q.entries, x ≠ msg := by
    rintro x hx rfl
    exact hnew hx
  have hneg := compareByObjid_neg (write msgs msg m) msg
  have hsorted' : q.entries.Pairwise (Before (write msgs msg m)) :=
    hsorted.imp_of_mem fun hx hy => (before_write (hne _ hx) (hne _ hy)).mpr
  obtain ⟨q', l, rest, -, -, hlist, -, hhead, hsplit⟩ :=
    @NrsRbtree.enqueue_spec Nat (compareByObjid (write msgs msg m)) q msg hwf
  obtain ⟨hl, hrest⟩ := hsplit (hsorted'.imp fun {x z} hxz hlt => by
    refine (hneg z).mpr ?_
    have hbefore := (hneg x).mp hlt
    unfold Before SameOffset at *
    omega)
  have hsame' : SameOffset (write msgs msg m msg) (write msgs msg m y) := by
    rw [write_self, write_ne msgs m (hne y hy)]
    exact hsame
  -- the place of the new message is in front of the queued one
  have hmem : y ∈ rest := by
    rw [hlist] at hy
    rcases List.mem_append.mp hy with hy | hy
    · exact absurd ((hneg y).mpr (Or.inr hsame')) (hl y hy)
    · exact hy
  -- so the first message behind that place, which is compared, has the same offset
  obtain ⟨z, rest', rfl⟩ := List.exists_cons_of_ne_nil (List.ne_nil_of_mem hmem)
  have hz : SameOffset (write msgs msg m msg) (write msgs msg m z) := by
    have hle := (hneg z).mp (hrest z List.mem_cons_self)
    rw [hlist, List.pairwise_append, List.pairwise_cons] at hsorted'
    rcases List.mem_cons.mp hmem with rfl | hmem
    · exact hsame'
    · have hbefore := hsorted'.2.1.1 y hmem
      unfold Before SameOffset at *
      omega
  -- the assertion on that message fails
  refine if_neg fun hdistinct => ?_
  exact hdistinct z (hhead z rfl) hz.1 hz.2

/-- `Enqueue` does not abort exactly when no queued message has the same offset of the file. -/
theorem ByOffset.enqueue_iff (h : ByOffset s msgs q) (hnew : msg ∉ q.entries) :
    (∃ s', s.enqueue p now msg m = some s') ↔ ∀ y ∈ q.entries, ¬ SameOffset m (msgs y) := by
  constructor
  · rintro ⟨s', hok⟩ y hy hsame
    cases (h.enqueue_stops hnew hy hsame).symm.trans hok
  · intro hoff
    obtain ⟨q', henq, -⟩ := h.enqueue hnew hoff
    exact ⟨_, henq⟩

/-- A step keeps the tree and its order. -/
theorem ByOffset.step {c : ReplyCall} (h : ByOffset s msgs q) (hstep : ReplyStep p s c s') :
    ∃ msgs' q', ByOffset s' msgs' q' := by
  cases hstep with
  | call hfresh hcall =>
      cases hcall with
      | @enqueue _ now msg m hok =>
          have hnew : msg ∉ q.entries := by
            have := hfresh now msg m rfl
            rwa [h.eq] at this
          -- the call did not abort, so the offset is new
          have hoff := (h.enqueue_iff hnew).mp ⟨s', hok⟩
          obtain ⟨q', henq, h'⟩ := h.enqueue hnew hoff
          cases henq.symm.trans hok
          exact ⟨_, q', h'⟩
      | dequeue _ hok =>
          obtain ⟨rfl, hwf, hsorted⟩ := h
          obtain ⟨⟨out, q'⟩, hdeq, heq⟩ := Option.map_eq_some_iff.mp hok
          cases heq
          rcases NrsRbtree.dequeue_spec hwf with
            ⟨-, hdeq'⟩ | ⟨x, rest, q'', hlist, hdeq', hwf', hrest⟩
          · cases hdeq'.symm.trans hdeq
            exact ⟨_, _, rfl, hwf, hsorted⟩
          · cases hdeq'.symm.trans hdeq
            refine ⟨_, _, rfl, hwf', ?_⟩
            rw [hlist] at hsorted
            rw [hrest]
            exact (List.pairwise_cons.mp hsorted).2
      | finish hok =>
          obtain ⟨rfl, hwf, hsorted⟩ := h
          cases hok
          exact ⟨_, _, rfl, hwf, hsorted⟩
      | timer hok =>
          obtain ⟨rfl, -, -⟩ := h
          cases hok
  | @earlyReply c msgs₁ q₁ msg d hmem hle =>
      -- an early reply does not change the request of a message
      obtain ⟨heq, hwf, hsorted⟩ := h
      cases heq
      refine ⟨_, _, rfl, hwf, hsorted.imp fun {x y} hxy => ?_⟩
      have hreq : ∀ i, (write msgs msg { msgs msg with deadline := d } i).req = (msgs i).req := by
        intro i
        by_cases hi : i = msg
        · rw [hi, write_self]
        · rw [write_ne _ _ hi]
      unfold Before
      rw [hreq x, hreq y]
      exact hxy

/-- Without deadlines, `Enqueue` of the round robin does not abort exactly when the file exists and
no queued message has the same offset of the file in the same direction. -/
theorem frr_enqueue_iff {fp : NrsFRR.Params} {t : NrsFRR} {io : NrsMessage.Io}
    (h : NrsFRR.InTurn t) (hmode : fp.deadline = .dlOff)
    (hnew : ∀ a, msg ∉ (t.queue a).s.entries) :
    (∃ t', (t.setReq msg io).enqueue fp now msg = .ok t') ↔
      io.fid < fp.totFiles ∧ ∀ y ∈ (t.queue (io.fid, io.cmd)).s.entries, (t.io y).off ≠ io.off := by
  have hreq : (t.setReq msg io).io msg = io := if_pos rfl
  constructor
  · rintro ⟨t', hok⟩
    -- `GetIoQueue` asserts that the file exists
    have hfid : io.fid < fp.totFiles := by
      have hfirst := hok
      unfold NrsFRR.enqueue NrsFRR.enqueueIoQueue NrsFRR.getIoQueue at hfirst
      rw [if_neg (by rw [hmode]; decide), hreq] at hfirst
      obtain ⟨_, hjoin, -⟩ := bind_eq_ok.mp hfirst
      obtain ⟨_, haddr, -⟩ := bind_eq_ok.mp hjoin
      obtain ⟨_, hcheck, -⟩ := bind_eq_ok.mp haddr
      exact check_eq_ok.mp hcheck
    refine ⟨hfid, fun y hy => ?_⟩
    have hsame : NrsFRR.SameQueues t (t.setReq msg io) := ⟨rfl, rfl, rfl⟩
    have hjoined := NrsFRR.enqueue_joined (hsame.mirror h.mirror).1
      (NrsFRR.Offsets.setReq h.offsets hnew) hmode hok
    rw [hreq] at hjoined
    -- the offsets of the `io_queue` are in order afterwards, so they differ
    have hne : (t'.queue (io.fid, io.cmd)).s.entries.Pairwise fun x z =>
        ((t.setReq msg io).io x).off ≠ ((t.setReq msg io).io z).off :=
      hjoined.sorted.imp fun hlt => Nat.ne_of_lt hlt
    rw [hjoined.perm.pairwise_iff fun h => h.symm, List.pairwise_cons] at hne
    -- the new message is another one than the queued one
    have hoff := hne.1 y hy
    have hother : (t.setReq msg io).io y = t.io y :=
      if_neg fun heq => hnew (io.fid, io.cmd) (by rw [← heq]; exact hy)
    rw [hreq, hother] at hoff
    exact hoff.symm
  · rintro ⟨hfid, hoff⟩
    exact h.enqueue_ok hmode hfid hnew hoff

/-- A tree by offset accepts every message whose offset of its file is not queued, and `Dequeue`
does not abort. -/
structure AcceptsObjid (p : Params) (s : Scheduler) (msgs : Nat → NrsMessage)
    (q : NrsRbtree Nat) : Prop where
  eq : s = .rbtree .compareByObjid msgs q
  enqueue : ∀ now msg m, msg ∉ q.entries →
    ((∃ s', s.enqueue p now msg m = some s') ↔ ∀ y ∈ q.entries, ¬ SameOffset m (msgs y))
  dequeue : ∀ now root, ∃ r, s.dequeue p now root = some r

/-- A round robin without deadlines accepts every message of a file that exists whose offset is not
queued for its file and direction, and `Dequeue` does not abort. -/
structure AcceptsOffset (fp : NrsFRR.Params) (t : NrsFRR) : Prop where
  enqueue : ∀ now msg (io : NrsMessage.Io), (∀ a, msg ∉ (t.queue a).s.entries) →
    ((∃ t', (t.setReq msg io).enqueue fp now msg = .ok t') ↔ io.fid < fp.totFiles ∧
      ∀ y ∈ (t.queue (io.fid, io.cmd)).s.entries, (t.io y).off ≠ io.off)
  dequeue : ∀ now, ∃ r, t.dequeue fp now = .ok r

/-- **By offset.** In every run on the scheduler for `NRS_ALGO_BYOBJID`, and in every run of
`NrsFRR` without deadlines, a message is accepted exactly when its offset is not queued, and no
call of `Dequeue` aborts. -/
theorem offset_iff {calls : List ReplyCall} {fp : NrsFRR.Params} {io : Nat → NrsMessage.Io}
    {fcalls : List NrsFRR.Call} {t : NrsFRR}
    (hset : setScheduler p now msgs (some .byobjid) = some s₀)
    (hrun : Run (ReplyStep p) s₀ calls s) (hmode : fp.deadline = .dlOff)
    (hfrr : Run (NrsFRR.Step fp) (.new io) fcalls t) :
    (∃ msgs' q, AcceptsObjid p s msgs' q) ∧ AcceptsOffset fp t := by
  cases hset
  obtain ⟨msgs', q, h⟩ : ∃ msgs' q, ByOffset s msgs' q :=
    hrun.invariant (P := fun s => ∃ msgs q, ByOffset s msgs q)
      (fun _ _ _ h hstep => by
        obtain ⟨msgs, q, h⟩ := h
        exact h.step hstep) ⟨_, _, rfl, NrsRbtree.wf_new, List.Pairwise.nil⟩
  -- the round robin has its messages in the order of their offsets
  have hturn : NrsFRR.InTurn t :=
    hfrr.invariant (fun _ _ _ h hstep => h.step hmode hstep) (NrsFRR.new_inTurn io)
  refine ⟨⟨msgs', q, h.eq, fun now msg m hnew => h.enqueue_iff hnew, fun now root => ?_⟩,
    fun now msg io hnew => frr_enqueue_iff hturn hmode hnew, fun now => ?_⟩
  · rw [h.eq, dequeue_tree]
    rcases NrsRbtree.dequeue_spec h.wf with ⟨-, hdeq⟩ | ⟨x, rest, q', -, hdeq, -⟩
    · rw [hdeq]
      exact ⟨_, rfl⟩
    · rw [hdeq]
      exact ⟨_, rfl⟩
  · rcases NrsFRR.dequeue_served hturn.mirror hmode now with
      ⟨-, -, t', hok, -⟩ | ⟨x, a, t', hok, -⟩
    · exact ⟨_, hok⟩
    · exact ⟨_, hok⟩

/-- A message whose request is at an offset. -/
def offsetMessage (off : Nat) : NrsMessage :=
  { exampleMessage with req := { exampleMessage.req with off := off } }

/-- Two messages of a file in the tree, and two in the round robin. -/
theorem offset_iff_two :
    ∃ s₀ s t, setScheduler exampleParams 0 (fun _ => exampleMessage) (some .byobjid) = some s₀ ∧
      Run (ReplyStep exampleParams) s₀ [.call (.enqueue 0 1 (offsetMessage 0)),
        .call (.enqueue 0 2 (offsetMessage 4096))] s ∧ s.waiting = [1, 2] ∧
      Run (NrsFRR.Step (NrsFRR.exampleParams .dlOff)) (.new fun _ => NrsFRR.exampleIo 0)
        NrsFRR.sampleCalls t ∧
      (∃ msgs' q, AcceptsObjid exampleParams s msgs' q) ∧
      AcceptsOffset (NrsFRR.exampleParams .dlOff) t := by
  have hset : setScheduler exampleParams 0 (fun _ => exampleMessage) (some .byobjid) =
      some (.rbtree .compareByObjid (fun _ => exampleMessage) .new) := rfl
  have hexists : ∃ s, Run (ReplyStep exampleParams)
      (.rbtree .compareByObjid (fun _ => exampleMessage) .new)
      [.call (.enqueue 0 1 (offsetMessage 0)), .call (.enqueue 0 2 (offsetMessage 4096))] s ∧
      s.waiting = [1, 2] := by
    refine ⟨_, .cons (.call ?_ (.enqueue rfl)) <| .cons (.call ?_ (.enqueue rfl)) (.nil _), rfl⟩
    · rintro _ _ _ ⟨⟩ h
      cases h
    · rintro _ _ _ ⟨⟩
      decide
  obtain ⟨s, hrun, hwaiting⟩ := hexists
  obtain ⟨t, hfrr, -⟩ := NrsFRR.sampleCalls_run
  exact ⟨_, s, t, hset, hrun, hwaiting, hfrr, offset_iff hset hrun rfl hfrr⟩

/-- Two messages with the same offset of a file: the second `Enqueue` aborts. -/
theorem offset_twice :
    ¬ ∀ (p : Params) (now : Nat) (msgs : Nat → NrsMessage) (s₀ s : Scheduler)
      (calls : List ReplyCall), setScheduler p now msgs (some .byobjid) = some s₀ →
      Run (ReplyStep p) s₀ calls s → ∀ now msg m, msg ∉ s.waiting →
        ∃ s', s.enqueue p now msg m = some s' := by
  intro hall
  have hexists : ∃ s, Run (ReplyStep exampleParams)
      (.rbtree .compareByObjid (fun _ => exampleMessage) .new)
      [.call (.enqueue 0 1 (offsetMessage 0))] s ∧ 2 ∉ s.waiting ∧
      s.enqueue exampleParams 0 2 (offsetMessage 0) = none := by
    refine ⟨_, .cons (.call ?_ (.enqueue rfl)) (.nil _), by decide, rfl⟩
    rintro _ _ _ ⟨⟩ h
    cases h
  obtain ⟨s, hrun, hnew, habort⟩ := hexists
  obtain ⟨s', hok⟩ := hall _ 0 _ _ s _ rfl hrun 0 2 (offsetMessage 0) hnew
  rw [habort] at hok
  cases hok

end LustreSimulator.Scheduler
