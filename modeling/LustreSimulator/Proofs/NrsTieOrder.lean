import LustreSimulator.Event
import LustreSimulator.Lib.Run
import LustreSimulator.Proofs.NrsRbtree
import LustreSimulator.Scheduler

/-!
# `LustreSimulator.Proofs.NrsTieOrder`: in which order a tree serves equal keys

`RunTimeCompare` and `TaskCompare` never return 0: an element is put in front of the ones with its
key, as if its key were less. So the elements of a key leave in the opposite order of their coming,
while `InsertInorder` of an `OrderList` puts an element behind the ones with its key.

`Keyed` is a tree with the memory that its elements point to. `came` numbers the arrivals, and
`NewestFirst` is the order of the tree. `ties_iff` says when `Dequeue` serves the element that came
first.
-/

set_option autoImplicit false

namespace LustreSimulator

open Lib

namespace NrsRbtree

/-- An `NrsRbtree` of pointers, what they point to, and the numbers of the arrivals. The program
does not have the numbers. -/
structure Keyed (μ : Type*) where
  q : NrsRbtree Nat
  mem : Nat → μ
  came : Nat → Nat
  arrivals : Nat

namespace Keyed

variable {μ : Type*} {compare : (Nat → μ) → Nat → Nat → Int} {key : μ → Nat} {s s' : Keyed μ}

/-- The calls. The memory of an element is written before it is enqueued, and a `dequeue` carries
what it returned. -/
inductive Call (μ : Type*) where
  | enqueue (e : Nat) (m : μ)
  | dequeue (e : Option Nat)
  | erase (e : Nat)

/-- The memory of an element is written. -/
def write (s : Keyed μ) (e : Nat) (m : μ) : Nat → μ := fun i => if i = e then m else s.mem i

/-- A call that does not abort. An element that is in the tree is not enqueued or written. -/
inductive Step (compare : (Nat → μ) → Nat → Nat → Int) : Keyed μ → Call μ → Keyed μ → Prop where
  | enqueue {s : Keyed μ} {e : Nat} {m : μ} {q : NrsRbtree Nat} : e ∉ s.q.entries →
      s.q.enqueue (compare (s.write e m)) e = some q →
      Step compare s (.enqueue e m) ⟨q, s.write e m,
        fun i => if i = e then s.arrivals else s.came i, s.arrivals + 1⟩
  | dequeue {s : Keyed μ} {e : Option Nat} {q : NrsRbtree Nat} : s.q.dequeue = some (e, q) →
      Step compare s (.dequeue e) { s with q := q }
  | erase {s : Keyed μ} {e : Nat} {q : NrsRbtree Nat} : s.q.erase e = some q →
      Step compare s (.erase e) { s with q := q }

/-- An empty tree. -/
def start (mem : Nat → μ) : Keyed μ := ⟨.new, mem, fun _ => 0, 0⟩

/-- The order of the tree: by the key, and the newest one first among equal keys. -/
def NewestFirst (key : μ → Nat) (mem : Nat → μ) (came : Nat → Nat) (x y : Nat) : Prop :=
  key (mem x) < key (mem y) ∨ key (mem x) = key (mem y) ∧ came y < came x

/-- The elements of the tree are in order. -/
structure Ordered (key : μ → Nat) (s : Keyed μ) : Prop where
  wf : WF s.q
  sorted : s.q.entries.Pairwise (NewestFirst key s.mem s.came)
  came : ∀ x ∈ s.q.entries, s.came x < s.arrivals

/-- The comparison is the one of the keys, with the result -1 for equal ones. -/
def Compares (compare : (Nat → μ) → Nat → Nat → Int) (key : μ → Nat) : Prop :=
  ∀ mem a b, compare mem a b = if key (mem a) > key (mem b) then 1 else -1

/-- The comparison is negative when the key is not greater. -/
theorem Compares.neg_iff (h : Compares compare key) (mem : Nat → μ) (a b : Nat) :
    compare mem a b < 0 ↔ key (mem a) ≤ key (mem b) := by
  rw [h mem a b]
  split
  · exact iff_of_false (by decide) (by omega)
  · exact iff_of_true (by decide) (by omega)

/-- The order of elements that are not written. -/
theorem newestFirst_write {e x y : Nat} {m : μ} (hx : x ≠ e) (hy : y ≠ e) :
    NewestFirst key (s.write e m) (fun i => if i = e then s.arrivals else s.came i) x y ↔
      NewestFirst key s.mem s.came x y := by
  unfold NewestFirst write
  rw [if_neg hx, if_neg hy]
  dsimp only
  rw [if_neg hx, if_neg hy]

/-- `Enqueue` succeeds and puts the element in front of the ones with its key. -/
theorem Ordered.enqueue {e : Nat} {m : μ} (h : Ordered key s) (hcompare : Compares compare key)
    (hnew : e ∉ s.q.entries) :
    ∃ q, s.q.enqueue (compare (s.write e m)) e = some q ∧
      Ordered key ⟨q, s.write e m, fun i => if i = e then s.arrivals else s.came i,
        s.arrivals + 1⟩ := by
  have hne : ∀ x ∈ s.q.entries, x ≠ e := by
    rintro x hx rfl
    exact hnew hx
  have hneg := hcompare.neg_iff (s.write e m) e
  have hsorted : s.q.entries.Pairwise (NewestFirst key (s.write e m)
      fun i => if i = e then s.arrivals else s.came i) :=
    h.sorted.imp_of_mem fun hx hy => (newestFirst_write (hne _ hx) (hne _ hy)).mpr
  -- an element with the same key came before
  have hfront : ∀ x ∈ s.q.entries, compare (s.write e m) e x < 0 → NewestFirst key (s.write e m)
      (fun i => if i = e then s.arrivals else s.came i) e x := by
    intro x hx hlt
    have hle := (hneg x).mp hlt
    have hcame := h.came x hx
    unfold NewestFirst
    dsimp only
    rw [if_pos rfl, if_neg (hne x hx)]
    omega
  -- an element with a smaller key stays in front
  have hbehind : ∀ x ∈ s.q.entries, ¬ compare (s.write e m) e x < 0 →
      NewestFirst key (s.write e m) (fun i => if i = e then s.arrivals else s.came i) x e :=
    fun x _ hlt => Or.inl (Nat.lt_of_not_le (mt (hneg x).mpr hlt))
  obtain ⟨q, henq, hwf, hsorted, hperm⟩ := enqueue_sorted h.wf hsorted hfront hbehind
    fun x _ y _ hxy hlt => by
      have hle := (hneg x).mp hlt
      refine (hneg y).mpr ?_
      rcases hxy with hxy | ⟨hxy, -⟩
      · omega
      · omega
  refine ⟨q, henq, hwf, hsorted, fun x hx => ?_⟩
  dsimp only
  split
  · exact Nat.lt_succ_self _
  · rename_i hxe
    -- the numbers of the others are older
    rcases List.mem_cons.mp (hperm.mem_iff.mp hx) with rfl | hx
    · exact absurd rfl hxe
    · exact Nat.lt_succ_of_lt (h.came x hx)

/-- A tree with some of its elements is in order. -/
theorem Ordered.sublist {q : NrsRbtree Nat} (h : Ordered key s) (hwf : WF q)
    (hsub : q.entries.Sublist s.q.entries) : Ordered key { s with q := q } :=
  ⟨hwf, h.sorted.sublist hsub, fun x hx => h.came x (hsub.subset hx)⟩

/-- Every call keeps the elements in order. -/
theorem Ordered.step {c : Call μ} (h : Ordered key s) (hcompare : Compares compare key)
    (hstep : Step compare s c s') : Ordered key s' := by
  cases hstep with
  | enqueue hnew hok =>
      obtain ⟨q, henq, hordered⟩ := h.enqueue hcompare hnew
      cases henq.symm.trans hok
      exact hordered
  | dequeue hok =>
      rcases dequeue_spec h.wf with ⟨-, heq⟩ | ⟨x, rest, q, hlist, heq, hwf, hrest⟩
      · cases heq.symm.trans hok
        exact h
      · cases heq.symm.trans hok
        refine h.sublist hwf ?_
        -- `Dequeue` takes the first element, and the rest keeps its order
        rw [hrest, hlist]
        exact List.sublist_cons_self x rest
  | erase hok =>
      obtain ⟨hwf, l, m, hlist, hlist'⟩ := h.wf.erase_split hok
      refine h.sublist hwf ?_
      rw [hlist', hlist]
      exact (List.sublist_cons_self _ m).append_left l

/-- An empty tree is in order. -/
theorem ordered_start (mem : Nat → μ) : Ordered key (start mem) :=
  ⟨wf_new, List.Pairwise.nil, fun _ hx => nomatch hx⟩

/-! ### Which element leaves -/

/-- The element came first of the ones with its key. -/
def FirstCome (key : μ → Nat) (s : Keyed μ) (x : Nat) : Prop :=
  ∀ y ∈ s.q.entries, key (s.mem y) = key (s.mem x) → s.came x ≤ s.came y

/-- Only one element has the least key. -/
def Lone (key : μ → Nat) (s : Keyed μ) : Prop :=
  ∀ x ∈ s.q.entries, (∀ z ∈ s.q.entries, key (s.mem x) ≤ key (s.mem z)) →
    ∀ y ∈ s.q.entries, key (s.mem y) = key (s.mem x) → y = x

/-- `Dequeue` of a tree with elements returns one with the least key. It is the one that came first
exactly when no other one has that key. -/
def Ties (key : μ → Nat) (s : Keyed μ) : Prop :=
  s.q.entries ≠ [] → ∃ x q, s.q.dequeue = some (some x, q) ∧ x ∈ s.q.entries ∧
    (∀ y ∈ s.q.entries, key (s.mem x) ≤ key (s.mem y)) ∧ (FirstCome key s x ↔ Lone key s)

/-- The first element of the tree is the newest one of the least key. -/
theorem Ordered.ties (h : Ordered key s) : Ties key s := by
  intro hne
  rcases dequeue_spec h.wf with ⟨hempty, -⟩ | ⟨x, rest, q, hlist, heq, -⟩
  · exact absurd hempty hne
  have hsorted := h.sorted
  rw [hlist, List.pairwise_cons] at hsorted
  obtain ⟨hfirst, -⟩ := hsorted
  have hmem : x ∈ s.q.entries := by
    rw [hlist]
    exact List.mem_cons_self
  -- the first element is in front of every other one
  have hless : ∀ y ∈ s.q.entries, y = x ∨ NewestFirst key s.mem s.came x y := by
    rw [hlist]
    exact fun y hy => (List.mem_cons.mp hy).imp_right (hfirst y)
  -- so no key is smaller
  have hleast : ∀ y ∈ s.q.entries, key (s.mem x) ≤ key (s.mem y) := by
    intro y hy
    rcases hless y hy with rfl | hlt | ⟨heq, -⟩
    · exact Nat.le_refl _
    · exact Nat.le_of_lt hlt
    · exact Nat.le_of_eq heq
  refine ⟨x, q, heq, hmem, hleast, fun hcame z hz hmin y hy hyz => ?_, fun hlone y hy hyx => ?_⟩
  · -- every element of the least key is `x`, since the others came before it
    have honly : ∀ w ∈ s.q.entries, key (s.mem w) = key (s.mem x) → w = x := by
      intro w hw hwx
      rcases hless w hw with hw' | hlt | ⟨-, hlt⟩
      · exact hw'
      · omega
      · have := hcame w hw hwx
        omega
    have hzx : key (s.mem z) = key (s.mem x) := Nat.le_antisymm (hmin x hmem) (hleast z hz)
    rw [honly z hz hzx, honly y hy (hyz.trans hzx)]
  · -- alone with its key, it is the first and the last
    rw [hlone x hmem hleast y hy hyx]

/-- The elements of a tree are in order in every run. -/
theorem ordered_run {mem : Nat → μ} {calls : List (Call μ)} (hcompare : Compares compare key)
    (hrun : Run (Step compare) (start mem) calls s) : Ordered key s :=
  hrun.invariant (fun _ _ _ h hstep => h.step hcompare hstep) (ordered_start mem)

/-- `RunTimeCompare` compares the times. -/
theorem compares_runTime : Compares EventLoop.runTimeCompare fun time => time :=
  fun _ _ _ => rfl

/-- `TaskCompare` compares the keys of the messages. -/
theorem compares_task : Compares Server.taskCompare NrsMessage.key := fun _ _ _ => rfl

/-- **Ties.** In every run of a tree with `RunTimeCompare` and in every run of one with
`TaskCompare`, `Dequeue` serves equal keys first come first served exactly when there are none. -/
theorem ties_iff {times : Nat → Nat} {msgs : Nat → NrsMessage} {ecalls : List (Call Nat)}
    {tcalls : List (Call NrsMessage)} {e : Keyed Nat} {t : Keyed NrsMessage}
    (hevents : Run (Step EventLoop.runTimeCompare) (start times) ecalls e)
    (htasks : Run (Step Server.taskCompare) (start msgs) tcalls t) :
    Ties (fun time => time) e ∧ Ties NrsMessage.key t :=
  ⟨(ordered_run compares_runTime hevents).ties, (ordered_run compares_task htasks).ties⟩

/-- A message with a key. -/
def keyMsg (key : Nat) : NrsMessage :=
  { req :=
      { cmd := .read, prio := 0, flgDeadline := false, flgDynamicDeadline := false
        flgMandatoryDeadline := false, flgDeadline1 := false, flgDeadline2 := false, fid := 0
        off := 0, count := 4096, jobid := "", deadline := 0 }
    cid := 0, key := key, deadline := 0 }

/-- Two events at different times, and two messages with one key. The first event came first. -/
theorem ties_iff_two :
    ∃ e t, Run (Step EventLoop.runTimeCompare) (start fun _ => 0) [.enqueue 1 7, .enqueue 2 5] e ∧
      Run (Step Server.taskCompare) (start fun _ => keyMsg 0)
        [.enqueue 1 (keyMsg 4), .enqueue 2 (keyMsg 4)] t ∧
      e.q.entries = [2, 1] ∧ t.q.entries = [2, 1] ∧
      Ties (fun time => time) e ∧ Ties NrsMessage.key t := by
  have hexists : ∃ e t,
      Run (Step EventLoop.runTimeCompare) (start fun _ => 0) [.enqueue 1 7, .enqueue 2 5] e ∧
      Run (Step Server.taskCompare) (start fun _ => keyMsg 0)
        [.enqueue 1 (keyMsg 4), .enqueue 2 (keyMsg 4)] t ∧
      e.q.entries = [2, 1] ∧ t.q.entries = [2, 1] :=
    ⟨_, _, .cons (.enqueue (fun h => nomatch h) rfl) <| .cons (.enqueue (by decide) rfl) (.nil _),
      .cons (.enqueue (fun h => nomatch h) rfl) <| .cons (.enqueue (by decide) rfl) (.nil _),
      rfl, rfl⟩
  obtain ⟨e, t, hevents, htasks, he, ht⟩ := hexists
  exact ⟨e, t, hevents, htasks, he, ht, ties_iff hevents htasks⟩

/-- Two events at one time, and two messages with one key: the second one leaves first. -/
theorem ties_newest :
    (¬ ∀ (times : Nat → Nat) (calls : List (Call Nat)) (e : Keyed Nat),
      Run (Step EventLoop.runTimeCompare) (start times) calls e →
        ∀ x q, e.q.dequeue = some (some x, q) → FirstCome (fun time => time) e x) ∧
    ¬ ∀ (msgs : Nat → NrsMessage) (calls : List (Call NrsMessage)) (t : Keyed NrsMessage),
      Run (Step Server.taskCompare) (start msgs) calls t →
        ∀ x q, t.q.dequeue = some (some x, q) → FirstCome NrsMessage.key t x := by
  have hevents : ∃ e : Keyed Nat,
      Run (Step EventLoop.runTimeCompare) (start fun _ => 0) [.enqueue 1 5, .enqueue 2 5] e ∧
      (∃ q, e.q.dequeue = some (some 2, q)) ∧ 1 ∈ e.q.entries ∧ e.mem 1 = e.mem 2 ∧
      e.came 1 < e.came 2 :=
    ⟨_, .cons (.enqueue (fun h => nomatch h) rfl) <| .cons (.enqueue (by decide) rfl) (.nil _),
      ⟨_, rfl⟩, by decide, rfl, by decide⟩
  have htasks : ∃ t : Keyed NrsMessage,
      Run (Step Server.taskCompare) (start fun _ => keyMsg 0)
        [.enqueue 1 (keyMsg 4), .enqueue 2 (keyMsg 4)] t ∧
      (∃ q, t.q.dequeue = some (some 2, q)) ∧ 1 ∈ t.q.entries ∧ t.mem 1 = t.mem 2 ∧
      t.came 1 < t.came 2 :=
    ⟨_, .cons (.enqueue (fun h => nomatch h) rfl) <| .cons (.enqueue (by decide) rfl) (.nil _),
      ⟨_, rfl⟩, by decide, rfl, by decide⟩
  constructor
  · intro hall
    obtain ⟨e, hrun, ⟨q, hdeq⟩, hmem, hkey, hcame⟩ := hevents
    exact Nat.not_le_of_lt hcame (hall _ _ e hrun 2 q hdeq 1 hmem hkey)
  · intro hall
    obtain ⟨t, hrun, ⟨q, hdeq⟩, hmem, hkey, hcame⟩ := htasks
    refine Nat.not_le_of_lt hcame (hall _ _ t hrun 2 q hdeq 1 hmem ?_)
    rw [hkey]

end Keyed

end NrsRbtree

end LustreSimulator
