import Mathlib.Algebra.BigOperators.Group.Finset.Piecewise
import Mathlib.Algebra.Order.BigOperators.Group.Finset
import Mathlib.Logic.Function.Basic
import LustreSimulator.Lib.Run

/-!
# `LustreSimulator.Lib.Dispense`: handing out the parts of some regions

A region `i` has `size i` parts, and the parts of a region are handed out in order. Which region is
next is left open: `Step size s i t` says that a part of the region `i` is handed out.

`Sound` is kept by every step: the parts handed out of a region are the first ones, and none is
handed out twice. Their number is the sum over the regions (`length_of_run`). So there are never
more than all parts (`length_le`), and when no region has parts left there are all of them
(`length_of_done`).
-/

set_option autoImplicit false

namespace LustreSimulator.Lib.Dispense

variable {ι : Type*} [DecidableEq ι]

/-- How many parts of each region were handed out, and which. -/
structure State (ι : Type*) where
  taken : ι → Nat
  handed : List (ι × Nat)

/-- Nothing was handed out. -/
def start : State ι := ⟨fun _ => 0, []⟩

/-- The next part of the region `i` is handed out. -/
def State.take (s : State ι) (i : ι) : State ι :=
  ⟨Function.update s.taken i (s.taken i + 1), s.handed ++ [(i, s.taken i)]⟩

section

variable (s : State ι) {i k : ι}

@[simp]
theorem take_taken_self : (s.take i).taken i = s.taken i + 1 := Function.update_self ..

theorem take_taken_of_ne (h : k ≠ i) : (s.take i).taken k = s.taken k := Function.update_of_ne h ..

@[simp]
theorem length_take : (s.take i).handed.length = s.handed.length + 1 :=
  List.length_append ..

end

/-- A region with parts left hands out the next one. -/
inductive Step (size : ι → Nat) : State ι → ι → State ι → Prop where
  | take {s : State ι} {i : ι} : s.taken i < size i → Step size s i (s.take i)

/-- The first parts of each region were handed out, once. -/
structure Sound (size : ι → Nat) (s : State ι) : Prop where
  le_size : ∀ i, s.taken i ≤ size i
  mem_iff : ∀ i j, (i, j) ∈ s.handed ↔ j < s.taken i
  nodup : s.handed.Nodup

variable {size : ι → Nat} {s t : State ι} {i : ι} {is : List ι}

omit [DecidableEq ι] in
/-- At first nothing was handed out. -/
theorem sound_start : Sound size (start : State ι) :=
  ⟨fun _ => Nat.zero_le _, fun _ _ => iff_of_false List.not_mem_nil (Nat.not_lt_zero _), .nil⟩

/-- One more part is handed out. -/
theorem Sound.step (h : Sound size s) (hstep : Step size s i t) : Sound size t := by
  cases hstep with
  | take hlt =>
      refine ⟨fun k => ?_, fun k j => ?_, ?_⟩
      · by_cases hk : k = i
        · rw [hk, take_taken_self]
          exact hlt
        · rw [take_taken_of_ne s hk]
          exact h.le_size k
      · show (k, j) ∈ s.handed ++ [(i, s.taken i)] ↔ j < (s.take i).taken k
        rw [List.mem_append, List.mem_singleton, h.mem_iff, Prod.mk.injEq]
        by_cases hk : k = i
        · rw [hk, take_taken_self, Nat.lt_succ_iff_lt_or_eq]
          exact or_congr_right (and_iff_right rfl)
        · rw [take_taken_of_ne s hk]
          exact or_iff_left fun heq => hk heq.1
      · refine List.nodup_append.mpr ⟨h.nodup, List.nodup_singleton _, fun x hx y hy heq => ?_⟩
        rw [heq, List.mem_singleton.mp hy, h.mem_iff] at hx
        exact Nat.lt_irrefl _ hx

/-- What every run leaves. -/
theorem sound_of_run (hrun : Run (Step size) start is s) : Sound size s :=
  hrun.invariant (fun _ _ _ h hstep => h.step hstep) sound_start

/-- The number of parts handed out is the sum over the regions `r` that have any. -/
theorem length_of_run {r : Finset ι} (hr : ∀ i, i ∉ r → size i = 0)
    (hrun : Run (Step size) start is s) : s.handed.length = ∑ k ∈ r, s.taken k := by
  refine hrun.invariant (P := fun s => s.handed.length = ∑ k ∈ r, s.taken k)
    (fun s i t h hstep => ?_) ?_
  · cases hstep with
    | take hlt =>
        have hin : i ∈ r := by
          by_contra hnot
          rw [hr i hnot] at hlt
          exact Nat.not_lt_zero _ hlt
        show (s.handed ++ [(i, s.taken i)]).length =
          ∑ k ∈ r, Function.update s.taken i (s.taken i + 1) k
        rw [List.length_append, h, Finset.sum_update_of_mem hin, List.length_singleton,
          ← Finset.sum_erase_add r s.taken hin, Finset.sdiff_singleton_eq_erase]
        omega
  · exact (Finset.sum_const_zero).symm

/-- There are at most as many steps as there are parts. -/
theorem length_le {r : Finset ι} (hr : ∀ i, i ∉ r → size i = 0)
    (hrun : Run (Step size) start is s) : s.handed.length ≤ ∑ k ∈ r, size k := by
  rw [length_of_run hr hrun]
  exact Finset.sum_le_sum fun k _ => (sound_of_run hrun).le_size k

/-- When no region has parts left, every part was handed out. -/
theorem length_of_done {r : Finset ι} (hr : ∀ i, i ∉ r → size i = 0)
    (hrun : Run (Step size) start is s) (hdone : ∀ i ∈ r, size i ≤ s.taken i) :
    s.handed.length = ∑ k ∈ r, size k := by
  rw [length_of_run hr hrun]
  exact Finset.sum_congr rfl fun k hk =>
    Nat.le_antisymm ((sound_of_run hrun).le_size k) (hdone k hk)

end LustreSimulator.Lib.Dispense
