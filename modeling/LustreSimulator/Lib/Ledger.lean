import LustreSimulator.Lib.Run
import LustreSimulator.Lib.Word
import Mathlib.Algebra.BigOperators.Group.List.Basic
import Mathlib.Algebra.GroupWithZero.Nat

/-!
# `LustreSimulator.Lib.Ledger`: a queue, its service and its counters

Items arrive at a queue with a size, are served, and leave. `Moves` says what an event does to the
list of the items that wait, and `Run.conserved` is the account over a run: what has arrived was
served or waits.

A `Ledger` books the events: the items that wait, the items in service and their sizes. A `Tally` is
four 64-bit counters, two of items and two of sizes, that the same events update.
`Ledger.tally_book` says that the counters follow the ledger without wrapping, as long as its
numbers fit 64 bits.

A `Counter` is what a program shows: its counters, and the items that wait in it. `Updates` is what
one step of the program has to do, and `Keeps.run` then compares the program with the ledger over a
run.
-/

set_option autoImplicit false

namespace LustreSimulator.Lib

variable {α : Type*}

/-- What happens to an item. -/
inductive Booking (α : Type*) where
  | arrive (a : α) (size : Nat)
  | serve (a : α)
  | leave (a : α)
  | idle
  deriving DecidableEq, Repr

/-- The item that arrives. -/
def Booking.arrived : Booking α → Option α
  | .arrive a _ => some a
  | _ => none

/-- The item that is served. -/
def Booking.served : Booking α → Option α
  | .serve a => some a
  | _ => none

/-- The items that arrive. -/
def arrivals (es : List (Booking α)) : List α := es.filterMap Booking.arrived

/-- The items that are served. -/
def services (es : List (Booking α)) : List α := es.filterMap Booking.served

/-! ### The account of a run -/

/-- What an event does to the items that wait. -/
def Moves (w w' : List α) : Booking α → Prop
  | .arrive a _ => w'.Perm (a :: w)
  | .serve a => w.Perm (a :: w')
  | .leave _ => w'.Perm w
  | .idle => w'.Perm w

/-- One event keeps the account. -/
theorem Moves.conserved {w w' : List α} {e : Booking α} (h : Moves w w' e) :
    (w ++ arrivals [e]).Perm (services [e] ++ w') := by
  cases e with
  | arrive a n => exact (List.perm_append_singleton a w).trans h.symm
  | serve a =>
      show (w ++ []).Perm (a :: w')
      rw [List.append_nil]
      exact h
  | leave a =>
      show (w ++ []).Perm w'
      rw [List.append_nil]
      exact h.symm
  | idle =>
      show (w ++ []).Perm w'
      rw [List.append_nil]
      exact h.symm

/-- What waited at the beginning of a run and what arrived was served or waits at the end. -/
theorem Run.conserved {σ β : Type*} {Step : σ → β → σ → Prop} (P : σ → Prop) (wait : σ → List α)
    (event : β → Booking α)
    (hstep : ∀ s b t, P s → Step s b t → P t ∧ Moves (wait s) (wait t) (event b))
    {s t : σ} {bs : List β} (hrun : Run Step s bs t) (hs : P s) :
    (wait s ++ arrivals (bs.map event)).Perm (services (bs.map event) ++ wait t) := by
  induction hrun with
  | nil s =>
      show (wait s ++ []).Perm ([] ++ wait s)
      rw [List.append_nil, List.nil_append]
  | @cons s u t b bs hfirst _ ih =>
      obtain ⟨hu, hmoves⟩ := hstep s b u hs hfirst
      have hsplit : ∀ f : Booking α → Option α, (event b :: bs.map event).filterMap f =
          [event b].filterMap f ++ (bs.map event).filterMap f :=
        fun f => List.filterMap_append (l := [event b])
      have harrivals : arrivals ((b :: bs).map event) =
          arrivals [event b] ++ arrivals (bs.map event) := hsplit _
      have hservices : services ((b :: bs).map event) =
          services [event b] ++ services (bs.map event) := hsplit _
      have hfirst' := hmoves.conserved.append_right (arrivals (bs.map event))
      rw [List.append_assoc, List.append_assoc] at hfirst'
      rw [harrivals, hservices, List.append_assoc]
      exact hfirst'.trans ((ih hu).append_left _)

/-! ### The ledger -/

/-- The items that wait, the items in service, and the sizes. -/
structure Ledger (α : Type*) where
  waiting : List α
  held : List α
  size : α → Nat

namespace Ledger

variable [DecidableEq α]

/-- Nothing has happened. -/
def empty (size : α → Nat) : Ledger α := ⟨[], [], size⟩

/-- Book an event. -/
def book (l : Ledger α) : Booking α → Ledger α
  | .arrive a n => { l with
      waiting := a :: l.waiting
      size := fun b => if b = a then n else l.size b }
  | .serve a => { l with waiting := l.waiting.erase a, held := a :: l.held }
  | .leave a => { l with held := l.held.erase a }
  | .idle => l

/-- The event can happen: an item that arrives is new, one that is served waits, and one that leaves
is in service. -/
def Admits (l : Ledger α) : Booking α → Prop
  | .arrive a _ => a ∉ l.waiting ∧ a ∉ l.held
  | .serve a => a ∈ l.waiting
  | .leave a => a ∈ l.held
  | .idle => True

/-- What the callers promise: an item that arrives is new, and one that leaves is in service. -/
def Asks (l : Ledger α) : Booking α → Prop
  | .arrive a _ => a ∉ l.waiting ∧ a ∉ l.held
  | .leave a => a ∈ l.held
  | _ => True

/-- Book one event after the other. -/
def books (l : Ledger α) : List (Booking α) → Ledger α
  | [] => l
  | e :: es => (l.book e).books es

/-- The sum of the sizes. -/
def total (l : Ledger α) (items : List α) : Nat := (items.map l.size).sum

end Ledger

/-- Four counters: the items that wait and their sizes, and the same for the items in service. -/
structure Tally where
  waiting : Nat
  waitingSize : Nat
  held : Nat
  heldSize : Nat
  deriving DecidableEq, Repr

/-- Update the counters in 64-bit arithmetic. -/
def Tally.book (t : Tally) (size : α → Nat) : Booking α → Tally
  | .arrive _ n => { t with waiting := add64 t.waiting 1, waitingSize := add64 t.waitingSize n }
  | .serve a =>
      { waiting := sub64 t.waiting 1, waitingSize := sub64 t.waitingSize (size a)
        held := add64 t.held 1, heldSize := add64 t.heldSize (size a) }
  | .leave a => { t with held := sub64 t.held 1, heldSize := sub64 t.heldSize (size a) }
  | .idle => t

/-- No counter is smaller than what the event takes from it. -/
def Tally.Covers (t : Tally) (size : α → Nat) : Booking α → Prop
  | .serve a => 1 ≤ t.waiting ∧ size a ≤ t.waitingSize
  | .leave a => 1 ≤ t.held ∧ size a ≤ t.heldSize
  | _ => True

namespace Ledger

variable [DecidableEq α] {l : Ledger α} {e : Booking α}

/-- The counters of a ledger. -/
def tally (l : Ledger α) : Tally :=
  ⟨l.waiting.length, l.total l.waiting, l.held.length, l.total l.held⟩

/-- The numbers of the ledger fit 64 bits. -/
def Fits (l : Ledger α) : Prop :=
  l.tally.waiting < 2 ^ 64 ∧ l.tally.waitingSize < 2 ^ 64 ∧
    l.tally.held < 2 ^ 64 ∧ l.tally.heldSize < 2 ^ 64

/-- The callers keep their promise, and the numbers fit 64 bits after every event. -/
def Accepts (l : Ledger α) : List (Booking α) → Prop
  | [] => True
  | e :: es => l.Asks e ∧ (l.book e).Fits ∧ (l.book e).Accepts es

/-- Taking an item out of a list takes its size out of the sum. -/
theorem total_erase {a : α} {items : List α} (h : a ∈ items) :
    l.total items = l.size a + l.total (items.erase a) := by
  unfold total
  rw [((List.perm_cons_erase h).map l.size).sum_eq, List.map_cons, List.sum_cons]

/-- The size of a new item does not change a sum of others. -/
theorem total_book {a : α} {n : Nat} {items : List α} (h : a ∉ items) :
    (l.book (.arrive a n)).total items = l.total items := by
  unfold total
  refine congrArg List.sum (List.map_congr_left fun b hb => ?_)
  exact if_neg fun heq => h (by rwa [← heq])

/-- The counters follow the ledger, and none of them wraps. -/
theorem tally_book (h : l.Admits e) (hfits : l.Fits) (hfits' : (l.book e).Fits) :
    l.tally.book l.size e = (l.book e).tally ∧ l.tally.Covers l.size e := by
  obtain ⟨hw, hws, hh, hhs⟩ := hfits
  change l.waiting.length < 2 ^ 64 at hw
  change l.total l.waiting < 2 ^ 64 at hws
  change l.held.length < 2 ^ 64 at hh
  change l.total l.held < 2 ^ 64 at hhs
  obtain ⟨hw', hws', hh', hhs'⟩ := hfits'
  cases e with
  | arrive a n =>
      have hnew : (l.book (.arrive a n)).total (a :: l.waiting) = n + l.total l.waiting := by
        rw [← total_book (n := n) h.1]
        unfold total
        rw [List.map_cons, List.sum_cons]
        exact congrArg (· + _) (if_pos rfl)
      change (l.book (.arrive a n)).total (a :: l.waiting) < 2 ^ 64 at hws'
      change (a :: l.waiting).length < 2 ^ 64 at hw'
      rw [List.length_cons] at hw'
      refine ⟨?_, trivial⟩
      show (⟨add64 l.waiting.length 1, add64 (l.total l.waiting) n, _, _⟩ : Tally) =
        ⟨(a :: l.waiting).length, (l.book (.arrive a n)).total (a :: l.waiting), _,
          (l.book (.arrive a n)).total l.held⟩
      rw [hnew, total_book h.2, add64_eq hw', add64_eq (by omega), Nat.add_comm n]
      rfl
  | serve a =>
      have hlen := List.length_erase_of_mem h
      have hpos := List.length_pos_of_mem h
      have hsum := total_erase (l := l) h
      have hheld : l.total (a :: l.held) = l.size a + l.total l.held := rfl
      change (a :: l.held).length < 2 ^ 64 at hh'
      change l.total (a :: l.held) < 2 ^ 64 at hhs'
      rw [List.length_cons] at hh'
      refine ⟨?_, hpos, by show l.size a ≤ l.total l.waiting; omega⟩
      show (⟨sub64 l.waiting.length 1, sub64 (l.total l.waiting) (l.size a),
          add64 l.held.length 1, add64 (l.total l.held) (l.size a)⟩ : Tally) =
        ⟨(l.waiting.erase a).length, l.total (l.waiting.erase a), (a :: l.held).length,
          l.total (a :: l.held)⟩
      rw [sub64_eq hw hpos, sub64_eq hws (by omega), add64_eq hh', add64_eq (by omega), hlen, hheld,
        hsum, Nat.add_sub_cancel_left, Nat.add_comm (l.size a)]
      rfl
  | leave a =>
      have hlen := List.length_erase_of_mem h
      have hpos := List.length_pos_of_mem h
      have hsum := total_erase (l := l) h
      refine ⟨?_, hpos, by show l.size a ≤ l.total l.held; omega⟩
      show (⟨_, _, sub64 l.held.length 1, sub64 (l.total l.held) (l.size a)⟩ : Tally) =
        ⟨_, _, (l.held.erase a).length, l.total (l.held.erase a)⟩
      rw [sub64_eq hh hpos, sub64_eq hhs (by omega), hlen, hsum, Nat.add_sub_cancel_left]
      rfl
  | idle => exact ⟨rfl, trivial⟩

/-- No item is booked twice. -/
theorem book_nodup (h : l.Admits e) (hn : (l.waiting ++ l.held).Nodup) :
    ((l.book e).waiting ++ (l.book e).held).Nodup := by
  cases e with
  | arrive a n =>
      refine List.nodup_cons.mpr ⟨fun hmem => ?_, hn⟩
      exact (List.mem_append.mp hmem).elim h.1 h.2
  | serve a =>
      have hperm : (l.waiting.erase a ++ a :: l.held).Perm (l.waiting ++ l.held) :=
        List.perm_middle.trans ((List.perm_cons_erase h).symm.append_right l.held)
      exact hperm.nodup_iff.mpr hn
  | leave a => exact hn.sublist ((List.erase_sublist).append_left l.waiting)
  | idle => exact hn

end Ledger

/-! ### Programs with counters -/

/-- What a program shows of a state: its counters, the sizes of the items, and which items wait. -/
structure Counter (σ α : Type*) where
  tally : σ → Tally
  size : σ → α → Nat
  Queued : σ → α → Prop

variable {σ β : Type*} [DecidableEq α]

/-- The sizes after an event. -/
def Booking.sizes (size : α → Nat) : Booking α → α → Nat
  | .arrive a n => fun b => if b = a then n else size b
  | _ => size

/-- The items that wait after an event. -/
def Booking.queues (Q : α → Prop) : Booking α → α → Prop
  | .arrive a _ => fun b => b = a ∨ Q b
  | .serve a => fun b => b ≠ a ∧ Q b
  | _ => Q

/-- One step of a program counts its event and moves its item, and what it serves waited. -/
structure Counter.Updates (c : Counter σ α) (s t : σ) (e : Booking α) : Prop where
  tally : c.tally t = (c.tally s).book (c.size s) e
  size : ∀ a, c.size t a = e.sizes (c.size s) a
  queued : ∀ a, c.Queued t a ↔ e.queues (c.Queued s) a
  serves : ∀ a, e.served = some a → c.Queued s a

/-- The counters are the numbers of the items that wait and of the ones in service, and the sums of
their sizes. -/
def Tally.Counts (t : Tally) (size : α → Nat) (waiting held : List α) : Prop :=
  t = ⟨waiting.length, (waiting.map size).sum, held.length, (held.map size).sum⟩

/-- The counters of the program are exact: the items that wait in the ledger are the ones that wait
in the program. -/
def Counter.Exact (c : Counter σ α) (s : σ) (l : Ledger α) : Prop :=
  (c.tally s).Counts (c.size s) l.waiting l.held ∧ (l.waiting ++ l.held).Nodup ∧
    ∀ a, a ∈ l.waiting ↔ c.Queued s a

/-- The program agrees with the ledger. -/
structure Keeps (c : Counter σ α) (s : σ) (l : Ledger α) : Prop where
  tally : c.tally s = l.tally
  size : l.size = c.size s
  mem : ∀ a, a ∈ l.waiting ↔ c.Queued s a
  nodup : (l.waiting ++ l.held).Nodup
  fits : l.Fits

namespace Keeps

variable {c : Counter σ α} {s t : σ} {l : Ledger α} {e : Booking α}

/-- What the program serves waits in the ledger. -/
theorem admits (h : Keeps c s l) (hu : c.Updates s t e) (hasks : l.Asks e) : l.Admits e := by
  cases e with
  | arrive a n => exact hasks
  | serve a => exact (h.mem a).mpr (hu.serves a rfl)
  | leave a => exact hasks
  | idle => trivial

/-- A step that updates the counters keeps them, and none of them wraps. -/
theorem book (h : Keeps c s l) (hu : c.Updates s t e) (hasks : l.Asks e)
    (hfits : (l.book e).Fits) :
    Keeps c t (l.book e) ∧ (c.tally s).Covers (c.size s) e := by
  have hadmits := h.admits hu hasks
  obtain ⟨hbook, hcovers⟩ := Ledger.tally_book hadmits h.fits hfits
  rw [h.tally, ← h.size]
  refine ⟨⟨?_, funext fun a => ?_, fun a => ?_, Ledger.book_nodup hadmits h.nodup, hfits⟩, hcovers⟩
  · rw [hu.tally, h.tally, ← h.size, hbook]
  · rw [hu.size a, ← h.size]
    cases e <;> rfl
  · rw [hu.queued a]
    have hwaiting : l.waiting.Nodup := h.nodup.sublist (List.sublist_append_left _ _)
    cases e with
    | arrive b n => exact List.mem_cons.trans (or_congr Iff.rfl (h.mem a))
    | serve b => exact hwaiting.mem_erase_iff.trans (and_congr Iff.rfl (h.mem a))
    | leave b => exact h.mem a
    | idle => exact h.mem a

omit [DecidableEq α] in
/-- A program that agrees with the ledger has exact counters. -/
theorem exact (h : Keeps c s l) : c.Exact s l := by
  refine ⟨?_, h.nodup, h.mem⟩
  show c.tally s = _
  rw [h.tally, ← h.size]
  rfl

omit [DecidableEq α] in
/-- Before the first step nothing waits. -/
theorem start (htally : c.tally s = ⟨0, 0, 0, 0⟩) (hqueued : ∀ a, ¬ c.Queued s a) :
    Keeps c s (.empty (c.size s)) := by
  have hzero : 0 < 2 ^ 64 := by decide
  exact ⟨htally, rfl, fun a => iff_of_false List.not_mem_nil (hqueued a), List.nodup_nil,
    hzero, hzero, hzero, hzero⟩

/-- In a run whose steps update the counters, the program agrees with the ledger in every state. -/
theorem run {Step : σ → β → σ → Prop} {event : β → Booking α} {P : σ → Prop}
    (hstep : ∀ s b t, P s → Step s b t → P t ∧ c.Updates s t (event b))
    {bs : List β} (hrun : Run Step s bs t) (hP : P s) (h : Keeps c s l)
    (haccepts : l.Accepts (bs.map event)) : P t ∧ Keeps c t (l.books (bs.map event)) := by
  induction hrun generalizing l with
  | nil s => exact ⟨hP, h⟩
  | @cons s u t b bs hfirst _ ih =>
      obtain ⟨hasks, hfits, hrest⟩ := haccepts
      obtain ⟨hu, hupdates⟩ := hstep s b u hP hfirst
      exact ih hu (h.book hupdates hasks hfits).1 hrest

end Keeps

end LustreSimulator.Lib
