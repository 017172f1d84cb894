import LustreSimulator.NrsEpoch
import Mathlib.Algebra.BigOperators.Group.Finset.Basic
import Mathlib.Algebra.BigOperators.Group.Finset.Piecewise
import Mathlib.Algebra.Order.BigOperators.Group.Finset

/-!
# `LustreSimulator.Proofs.NrsEpoch`: the counter of the epoch scheduler

`total` is the number of messages in the queues, and `Counted` says that `size` is this number. When
the current queue is empty `Dequeue` looks at the other ones, one after the other. `search_none`
says that it looks at all of them, so `Dequeue` returns a message whenever `size` is not 0
(`Counted.dequeue`).
-/

set_option autoImplicit false

namespace LustreSimulator.NrsEpoch

open Lib

variable {p : Params} {s s' : NrsEpoch} {now msg cid : Nat}

/-- The number of messages in the queues. -/
def total (s : NrsEpoch) : Nat := ∑ i ∈ Finset.range s.num, (s.qvec i).q.Q.length

/-- `size` counts the messages, and `nrs` points to the current queue. -/
structure Counted (s : NrsEpoch) : Prop where
  size : s.size = s.total
  cur : s.num ≠ 0 → s.cur < s.num
  nrs : s.nrs = s.cur

/-- A queue that changes changes the total by as much. -/
theorem total_setQueue {c : Nat} {q : NrsFifo Nat} (hc : c < s.num) :
    (s.setQueue c q).total + (s.qvec c).q.Q.length = s.total + q.Q.length := by
  have hmem : c ∈ Finset.range s.num := Finset.mem_range.mpr hc
  have hself : ((s.setQueue c q).qvec c).q.Q.length = q.Q.length := by
    show (if c = c then _ else _ : QueueClass).q.Q.length = _
    rw [if_pos rfl]
  have hother : ∀ i ∈ (Finset.range s.num).erase c,
      ((s.setQueue c q).qvec i).q.Q.length = (s.qvec i).q.Q.length := by
    intro i hi
    show (if i = c then _ else _ : QueueClass).q.Q.length = _
    rw [if_neg (Finset.ne_of_mem_erase hi)]
  have hnew : (s.setQueue c q).total =
      q.Q.length + ∑ i ∈ (Finset.range s.num).erase c, (s.qvec i).q.Q.length := by
    show ∑ i ∈ Finset.range s.num, ((s.setQueue c q).qvec i).q.Q.length = _
    rw [← Finset.add_sum_erase _ _ hmem, hself, Finset.sum_congr rfl hother]
  have hold : s.total =
      (s.qvec c).q.Q.length + ∑ i ∈ (Finset.range s.num).erase c, (s.qvec i).q.Q.length :=
    (Finset.add_sum_erase _ _ hmem).symm
  omega

/-! ### Dequeue -/

/-- A search that finds a message takes it from a queue. -/
theorem search_some {k idx e : Nat} (hidx : idx < s.num)
    (hsome : s.search k idx = (some e, s')) :
    ∃ c rest, c < s.num ∧ (s.qvec c).q.Q = e :: rest ∧
      s' = s.setQueue c ⟨rest, (s.qvec c).q.size - 1⟩ := by
  induction k generalizing idx with
  | zero => cases hsome
  | succ k ih =>
      unfold search at hsome
      split at hsome
      · cases hsome
      · unfold NrsFifo.dequeue at hsome
        cases hQ : (s.qvec idx).q.Q with
        | nil =>
            rw [hQ] at hsome
            exact ih (Nat.mod_lt _ (by omega)) hsome
        | cons x rest =>
            rw [hQ] at hsome
            cases hsome
            exact ⟨idx, rest, hidx, hQ, rfl⟩

/-- A search that finds nothing looked at the queues from its start to the current one. -/
theorem search_none {k d : Nat} (hcur : s.cur < s.num) (hd : 0 < d)
    (hnone : s.search k ((s.cur + d) % s.num) = (none, s')) :
    s' = s ∧ ∀ j, d ≤ j → j < s.num → j < d + k → (s.qvec ((s.cur + j) % s.num)).q.Q = [] := by
  induction k generalizing d with
  | zero =>
      cases hnone
      exact ⟨rfl, fun j hle _ hlt => absurd hlt (by omega)⟩
  | succ k ih =>
      unfold search at hnone
      by_cases hidx : (s.cur + d) % s.num = s.cur
      · -- all queues have been looked at
        rw [if_pos hidx] at hnone
        cases hnone
        refine ⟨rfl, fun j hle hlt _ => ?_⟩
        exfalso
        have hlt' : d < s.num := by omega
        rcases Nat.lt_or_ge (s.cur + d) s.num with hwrap | hwrap
        · rw [Nat.mod_eq_of_lt hwrap] at hidx
          omega
        · rw [Nat.mod_eq_sub_mod hwrap, Nat.mod_eq_of_lt (by omega)] at hidx
          omega
      · rw [if_neg hidx] at hnone
        unfold NrsFifo.dequeue at hnone
        cases hQ : (s.qvec ((s.cur + d) % s.num)).q.Q with
        | cons x rest =>
            rw [hQ] at hnone
            cases hnone
        | nil =>
            rw [hQ] at hnone
            have hnext : ((s.cur + d) % s.num + 1) % s.num = (s.cur + (d + 1)) % s.num := by
              rw [Nat.mod_add_mod, Nat.add_assoc]
            dsimp only at hnone
            rw [hnext] at hnone
            obtain ⟨heq, hrest⟩ := ih (Nat.succ_pos d) hnone
            refine ⟨heq, fun j hle hlt hbound => ?_⟩
            by_cases hj : j = d
            · rw [hj]
              exact hQ
            · exact hrest j (by omega) hlt (by omega)

/-- A message that is taken from a queue is counted. -/
theorem Counted.taken {c e : Nat} {rest : List Nat} (h : Counted s) (hc : c < s.num)
    (hQ : (s.qvec c).q.Q = e :: rest) :
    Counted { s.setQueue c ⟨rest, (s.qvec c).q.size - 1⟩ with size := s.size - 1 } := by
  have hsum := total_setQueue (q := ⟨rest, (s.qvec c).q.size - 1⟩) hc
  rw [hQ, List.length_cons] at hsum
  refine ⟨?_, h.cur, h.nrs⟩
  show s.size - 1 = ((s.setQueue c ⟨rest, (s.qvec c).q.size - 1⟩).total : Int)
  have := h.size
  dsimp only at hsum
  omega

/-- The search that starts behind the current queue visits all the others. -/
theorem visited_all {i : Nat} (hcur : s.cur < s.num)
    (hempty : ∀ j, 1 ≤ j → j < s.num → j < 1 + s.num → (s.qvec ((s.cur + j) % s.num)).q.Q = [])
    (hi : i < s.num) (hne : i ≠ s.cur) : (s.qvec i).q.Q = [] := by
  rcases Nat.lt_or_gt_of_ne hne with hlt | hgt
  · have := hempty (i + s.num - s.cur) (by omega) (by omega) (by omega)
    have hidx : (s.cur + (i + s.num - s.cur)) % s.num = i := by
      rw [show s.cur + (i + s.num - s.cur) = i + s.num by omega, Nat.add_mod_right,
        Nat.mod_eq_of_lt hi]
    rwa [hidx] at this
  · have := hempty (i - s.cur) (by omega) (by omega) (by omega)
    have hidx : (s.cur + (i - s.cur)) % s.num = i := by
      rw [show s.cur + (i - s.cur) = i by omega, Nat.mod_eq_of_lt hi]
    rwa [hidx] at this

/-- `Dequeue` returns a message unless `size` is 0, and counts it. -/
theorem Counted.dequeue (h : Counted s) :
    (s.size = 0 ∧ s.dequeue = (none, s)) ∨
    ∃ e s', s.dequeue = (some e, s') ∧ Counted s' ∧ s'.size = s.size - 1 := by
  unfold NrsEpoch.dequeue
  by_cases hzero : s.size = 0
  · exact Or.inl ⟨hzero, if_pos hzero⟩
  right
  rw [if_neg hzero]
  have htotal : s.total ≠ 0 := by
    have := h.size
    omega
  have hnum : s.num ≠ 0 := by
    intro hnum
    refine htotal ?_
    show ∑ i ∈ Finset.range s.num, (s.qvec i).q.Q.length = 0
    rw [hnum, Finset.range_zero, Finset.sum_empty]
  have hcur := h.cur hnum
  cases hfirst : (s.qvec s.nrs).q.Q with
  | cons e rest =>
      have hdeq : (s.qvec s.nrs).q.dequeue = (some e, ⟨rest, (s.qvec s.nrs).q.size - 1⟩) := by
        unfold NrsFifo.dequeue
        rw [hfirst]
      rw [hdeq]
      exact ⟨e, _, rfl, h.taken (h.nrs ▸ hcur) hfirst, rfl⟩
  | nil =>
      have hdeq : (s.qvec s.nrs).q.dequeue = (none, (s.qvec s.nrs).q) := by
        unfold NrsFifo.dequeue
        rw [hfirst]
      rw [hdeq]
      dsimp only
      cases hsearch : s.search s.num ((s.cur + 1) % s.num) with
      | mk out t =>
          cases out with
          | some e =>
              obtain ⟨c, rest, hc, hQ, rfl⟩ := search_some (Nat.mod_lt _ (by omega)) hsearch
              exact ⟨e, _, rfl, h.taken hc hQ, rfl⟩
          | none =>
              -- then all queues are empty
              exfalso
              obtain ⟨-, hempty⟩ := search_none hcur Nat.one_pos hsearch
              refine htotal (Finset.sum_eq_zero fun i hi => ?_)
              have hi := Finset.mem_range.mp hi
              have hnil : (s.qvec i).q.Q = [] := by
                by_cases hi' : i = s.cur
                · rw [hi', ← h.nrs]
                  exact hfirst
                · exact visited_all hcur hempty hi hi'
              rw [hnil, List.length_nil]

/-! ### Enqueue and the timer -/

/-- The timers do not touch the queues. -/
theorem Counted.modTimer {expire : Nat} (h : Counted s)
    (hok : s.modTimer now expire = .ok s') : Counted s' ∧ s'.size = s.size := by
  unfold NrsEpoch.modTimer at hok
  obtain ⟨timer, -, hok⟩ := bind_eq_ok.mp hok
  cases hok
  exact ⟨⟨h.size, h.cur, h.nrs⟩, rfl⟩

/-- `SwitchQueue` changes the current queue. -/
theorem Counted.switchQueue (h : Counted s) (hok : s.switchQueue now = .ok s') :
    Counted s' ∧ s'.size = s.size := by
  unfold NrsEpoch.switchQueue at hok
  obtain ⟨_, hnum, hok⟩ := bind_eq_ok.mp hok
  have hnum := check_eq_ok.mp hnum
  have hcounted : Counted { s with
      timer := Timer.delTimer s.timer
      cur := (s.cur + 1) % s.num
      nrs := (s.cur + 1) % s.num
      qvec := fun i => if i = (s.cur + 1) % s.num then
        { s.qvec ((s.cur + 1) % s.num) with start := now } else s.qvec i } := by
    refine ⟨?_, fun _ => Nat.mod_lt _ (Nat.pos_of_ne_zero hnum), rfl⟩
    refine h.size.trans (congrArg Int.ofNat (Finset.sum_congr rfl fun i _ => ?_))
    -- the start of a slice is not a message
    dsimp only
    split
    · rename_i heq
      rw [heq]
    · rfl
  dsimp only at hok
  split at hok
  · obtain ⟨t, htimer, hok⟩ := bind_eq_ok.mp hok
    cases hok
    obtain ⟨ht, hsize⟩ := hcounted.modTimer htimer
    exact ⟨⟨ht.size, ht.cur, ht.nrs⟩, hsize⟩
  · cases hok
    exact ⟨hcounted, rfl⟩

/-- `StartTimer` may change the current queue. -/
theorem Counted.startTimer (h : Counted s) (hok : s.startTimer now = .ok s') :
    Counted s' ∧ s'.size = s.size := by
  unfold NrsEpoch.startTimer at hok
  split at hok
  · obtain ⟨_, -, hok⟩ := bind_eq_ok.mp hok
    dsimp only at hok
    split at hok
    · exact h.switchQueue hok
    · exact h.modTimer hok
  · cases hok
    exact ⟨h, rfl⟩

/-- `TimeSliceExpire` changes the current queue. -/
theorem Counted.timeSliceExpire (h : Counted s) (hok : s.timeSliceExpire now = .ok s') :
    Counted s' ∧ s'.size = s.size := by
  have hcounted : Counted { s with timer := none } := ⟨h.size, h.cur, h.nrs⟩
  exact hcounted.switchQueue hok

/-- `Enqueue` counts the message. -/
theorem Counted.enqueue (h : Counted s) (hok : s.enqueue p now msg cid = .ok s') :
    Counted s' ∧ s'.size = s.size + 1 := by
  unfold NrsEpoch.enqueue at hok
  obtain ⟨c, -, hok⟩ := bind_eq_ok.mp hok
  obtain ⟨_, hc, hok⟩ := bind_eq_ok.mp hok
  have hc := check_eq_ok.mp hc
  have hcounted : Counted
      { s.setQueue c ((s.qvec c).q.enqueue msg) with size := s.size + 1 } := by
    have hsum := total_setQueue (q := (s.qvec c).q.enqueue msg) hc
    have hlen : ((s.qvec c).q.enqueue msg).Q.length = (s.qvec c).q.Q.length + 1 := by
      show ((s.qvec c).q.Q ++ [msg]).length = _
      rw [List.length_append, List.length_singleton]
    refine ⟨?_, h.cur, h.nrs⟩
    show s.size + 1 = ((s.setQueue c ((s.qvec c).q.enqueue msg)).total : Int)
    have := h.size
    omega
  dsimp only at hok
  split at hok
  · obtain ⟨ht, hsize⟩ := hcounted.startTimer hok
    exact ⟨ht, hsize⟩
  · cases hok
    exact ⟨hcounted, rfl⟩

/-- A new scheduler is empty. -/
theorem new_counted (p : Params) (now : Nat) : Counted (new p now) :=
  ⟨congrArg Int.ofNat (Finset.sum_eq_zero fun _ _ => rfl).symm,
    fun hnum => Nat.pos_of_ne_zero hnum, rfl⟩

end LustreSimulator.NrsEpoch
