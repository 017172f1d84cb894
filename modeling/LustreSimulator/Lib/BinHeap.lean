import Mathlib.Data.Finset.Image
import Mathlib.Data.Finset.Range
import Mathlib.Logic.Function.Basic
import Mathlib.Logic.Equiv.Basic
import Mathlib.Tactic.Common

/-!
# `LustreSimulator.Lib.BinHeap`: binary heaps in an array

The first `n` cells of an array `f` are a binary heap: the cell `i` has the children `2 * i + 1`
and `2 * i + 2`. `IsHeap` says that no cell is greater than its children, and `IsHeap.root_le`
that the first cell is least then.

A heap that is broken at one cell is repaired by swaps. `UpHole` is the invariant of the way up,
`DownHole` that of the way down. Each has a rule for a swap and one for the end. `Loose` is the
invariant when the way is not known yet. `content` is what the cells hold, and `content_swap` says
that a swap keeps it.
-/

set_option autoImplicit false

namespace LustreSimulator.Lib

variable {α : Type*}

/-- The parent of a cell. -/
def parentOf (i : Nat) : Nat := (i - 1) / 2

/-- The children of a cell. -/
theorem parentOf_eq_iff {i c : Nat} (hi : 0 < i) :
    parentOf i = c ↔ i = 2 * c + 1 ∨ i = 2 * c + 2 := by
  unfold parentOf
  omega

/-- The parent stands in front. -/
theorem parentOf_lt {i : Nat} (hi : 0 < i) : parentOf i < i := by
  unfold parentOf
  omega

/-- No cell is greater than its children. -/
def IsHeap (le : α → α → Prop) (f : Nat → α) (n : Nat) : Prop :=
  ∀ i, 0 < i → i < n → le (f (parentOf i)) (f i)

/-- The heap is right but for the cell `c`, which may be less than its parent. -/
structure UpHole (le : α → α → Prop) (f : Nat → α) (n c : Nat) : Prop where
  rest : ∀ i, 0 < i → i < n → i ≠ c → le (f (parentOf i)) (f i)
  across : 0 < c → ∀ i, 0 < i → i < n → parentOf i = c → le (f (parentOf c)) (f i)

/-- The heap is right but for the cell `c`, which may be greater than its children. -/
structure DownHole (le : α → α → Prop) (f : Nat → α) (n c : Nat) : Prop where
  rest : ∀ i, 0 < i → i < n → parentOf i ≠ c → le (f (parentOf i)) (f i)
  across : 0 < c → ∀ i, 0 < i → i < n → parentOf i = c → le (f (parentOf c)) (f i)

/-- The heap is right but for the cell `c`, which may be off on both sides. -/
structure Loose (le : α → α → Prop) (f : Nat → α) (n c : Nat) : Prop where
  rest : ∀ i, 0 < i → i < n → i ≠ c → parentOf i ≠ c → le (f (parentOf i)) (f i)
  across : 0 < c → ∀ i, 0 < i → i < n → parentOf i = c → le (f (parentOf c)) (f i)

/-- The array with two cells swapped. -/
def swapCells (f : Nat → α) (i j : Nat) : Nat → α := fun k => f (Equiv.swap i j k)

/-- What the first `n` cells hold. -/
def content (f : Nat → α) (n : Nat) : Multiset α := (Multiset.range n).map f

variable {le : α → α → Prop} {f : Nat → α} {n c i j : Nat}

@[simp]
theorem swapCells_left (f : Nat → α) (i j : Nat) : swapCells f i j i = f j :=
  congrArg f (Equiv.swap_apply_left i j)

@[simp]
theorem swapCells_right (f : Nat → α) (i j : Nat) : swapCells f i j j = f i :=
  congrArg f (Equiv.swap_apply_right i j)

theorem swapCells_of_ne {k : Nat} (f : Nat → α) (hi : k ≠ i) (hj : k ≠ j) :
    swapCells f i j k = f k :=
  congrArg f (Equiv.swap_apply_of_ne_of_ne hi hj)

/-- A swap of two cells keeps what the cells hold. -/
theorem content_swap (f : Nat → α) (hi : i < n) (hj : j < n) :
    content (swapCells f i j) n = content f n := by
  have hmoved : { k | Equiv.swap i j k ≠ k } ⊆ (Finset.range n : Set Nat) := by
    intro k hk
    rw [Finset.coe_range, Set.mem_Iio]
    by_contra hn
    have hki : k ≠ i := by omega
    have hkj : k ≠ j := by omega
    exact hk (Equiv.swap_apply_of_ne_of_ne hki hkj)
  have hrange : (Multiset.range n).map (Equiv.swap i j) = Multiset.range n :=
    congrArg Finset.val (Finset.map_perm hmoved)
  unfold content
  conv_rhs => rw [← hrange, Multiset.map_map]
  exact Multiset.map_congr rfl fun k _ => rfl

/-- One more cell. -/
theorem content_succ (f : Nat → α) (n : Nat) : content f (n + 1) = f n ::ₘ content f n := by
  unfold content
  rw [Multiset.range_succ, Multiset.map_cons]

/-- The content depends on the first cells only. -/
theorem content_congr {g : Nat → α} (h : ∀ k, k < n → g k = f k) : content g n = content f n :=
  Multiset.map_congr rfl fun k hk => h k (Multiset.mem_range.mp hk)

/-- The cells hold the content. -/
theorem mem_content {x : α} : x ∈ content f n ↔ ∃ i, i < n ∧ f i = x := by
  unfold content
  rw [Multiset.mem_map]
  constructor
  · rintro ⟨i, hi, hx⟩
    exact ⟨i, Multiset.mem_range.mp hi, hx⟩
  · rintro ⟨i, hi, hx⟩
    exact ⟨i, Multiset.mem_range.mpr hi, hx⟩

/-- The first cell of a heap is least. -/
theorem IsHeap.root_le (h : IsHeap le f n) (hrefl : ∀ x, le x x)
    (htrans : ∀ x y z, le x y → le y z → le x z) : ∀ i, i < n → le (f 0) (f i) := by
  intro i
  induction i using Nat.strong_induction_on with
  | _ i ih =>
      intro hi
      by_cases hpos : 0 < i
      · have hlt := parentOf_lt hpos
        exact htrans _ _ _ (ih (parentOf i) hlt (by omega)) (h i hpos hi)
      · have hzero : i = 0 := by omega
        rw [hzero]
        exact hrefl _

/-- The way up ends at the root or below a cell that is not greater. -/
theorem UpHole.done (h : UpHole le f n c) (hend : c = 0 ∨ le (f (parentOf c)) (f c)) :
    IsHeap le f n := by
  intro i hpos hi
  by_cases hic : i = c
  · subst hic
    exact hend.resolve_left (by omega)
  · exact h.rest i hpos hi hic

/-- One swap on the way up. -/
theorem UpHole.step (h : UpHole le f n c) (htrans : ∀ x y z, le x y → le y z → le x z)
    (hpos : 0 < c) (hc : c < n) (hlt : le (f c) (f (parentOf c))) :
    UpHole le (swapCells f c (parentOf c)) n (parentOf c) := by
  have hp := parentOf_lt hpos
  constructor
  · intro i hi hin hip
    by_cases hic : i = c
    · subst hic
      rw [swapCells_right, swapCells_left]
      exact hlt
    · rw [swapCells_of_ne f hic hip]
      by_cases hchild : parentOf i = c
      · rw [hchild, swapCells_left]
        exact h.across hpos i hi hin hchild
      · by_cases hsibling : parentOf i = parentOf c
        · rw [hsibling, swapCells_right]
          exact htrans _ _ _ hlt (hsibling ▸ h.rest i hi hin hic)
        · rw [swapCells_of_ne f hchild hsibling]
          exact h.rest i hi hin hic
  · intro hppos i hi hin hparent
    have hpp := parentOf_lt hppos
    have hup := h.rest (parentOf c) hppos (by omega) (by omega)
    rw [swapCells_of_ne f (show parentOf (parentOf c) ≠ c by omega) (by omega)]
    by_cases hic : i = c
    · subst hic
      rw [swapCells_left]
      exact hup
    · have hip : i ≠ parentOf c := by
        have := parentOf_lt hi
        omega
      rw [swapCells_of_ne f hic hip]
      exact htrans _ _ _ hup (hparent ▸ h.rest i hi hin hic)

/-- The way down ends above cells that are not less. -/
theorem DownHole.done (h : DownHole le f n c)
    (hend : ∀ i, 0 < i → i < n → parentOf i = c → le (f c) (f i)) : IsHeap le f n := by
  intro i hpos hi
  by_cases hic : parentOf i = c
  · rw [hic]
    exact hend i hpos hi hic
  · exact h.rest i hpos hi hic

/-- The way down ends at a cell without children. -/
theorem DownHole.last (h : DownHole le f n c) (hn : n ≤ 2 * c + 1) : IsHeap le f n := by
  refine h.done fun i hpos hi hparent => ?_
  have := (parentOf_eq_iff hpos).mp hparent
  omega

/-- One swap on the way down, with the least child. -/
theorem DownHole.step {k : Nat} (h : DownHole le f n c) (hk : 0 < k) (hkn : k < n)
    (hchild : parentOf k = c) (hle : le (f k) (f c))
    (hleast : ∀ i, 0 < i → i < n → parentOf i = c → le (f k) (f i)) :
    DownHole le (swapCells f c k) n k := by
  have hck : c < k := hchild ▸ parentOf_lt hk
  constructor
  · intro i hi hin hparent
    by_cases hic : parentOf i = c
    · rw [hic, swapCells_left]
      by_cases hik : i = k
      · rw [hik, swapCells_right]
        exact hle
      · have hne : i ≠ c := by
          have := parentOf_lt hi
          omega
        rw [swapCells_of_ne f hne hik]
        exact hleast i hi hin hic
    · rw [swapCells_of_ne f hic hparent]
      by_cases hi' : i = c
      · subst hi'
        rw [swapCells_left]
        exact h.across hi k hk hkn hchild
      · have hik : i ≠ k := by
          rintro rfl
          exact hic hchild
        rw [swapCells_of_ne f hi' hik]
        exact h.rest i hi hin hic
  · intro _ i hi hin hparent
    have hki := hparent ▸ parentOf_lt hi
    rw [hchild, swapCells_left, swapCells_of_ne f (show i ≠ c by omega) (by omega)]
    rw [← hparent]
    exact h.rest i hi hin (by omega)

/-- A new last cell may be less than its parent. -/
theorem IsHeap.upHole (h : IsHeap le f n) : UpHole le f (n + 1) n := by
  constructor
  · intro i hpos hi hne
    exact h i hpos (by omega)
  · intro _ i hpos hi hparent
    have := (parentOf_eq_iff hpos).mp hparent
    omega

/-- A cell whose element has a new place in the order. -/
theorem IsHeap.loose {le' : α → α → Prop} (h : IsHeap le f n)
    (htrans : ∀ x y z, le x y → le y z → le x z) (hc : c < n)
    (hsame : ∀ i j, i < n → j < n → i ≠ c → j ≠ c → le (f i) (f j) → le' (f i) (f j)) :
    Loose le' f n c := by
  constructor
  · intro i hpos hi hic hpc
    have := parentOf_lt hpos
    exact hsame _ _ (by omega) hi hpc hic (h i hpos hi)
  · intro hcpos i hpos hi hparent
    have hlt := parentOf_lt hpos
    have hlt' := parentOf_lt hcpos
    have hle := htrans _ _ _ (h c hcpos hc) (hparent ▸ h i hpos hi)
    exact hsame _ _ (by omega) hi (by omega) (by omega) hle

/-- The cell itself may hold anything, and last cells may go. -/
theorem Loose.congr {g : Nat → α} {m : Nat} (h : Loose le f n c) (hm : m ≤ n)
    (hsame : ∀ i, i < m → i ≠ c → g i = f i) : Loose le g m c := by
  constructor
  · intro i hpos hi hic hpc
    have := parentOf_lt hpos
    rw [hsame i hi hic, hsame _ (by omega) hpc]
    exact h.rest i hpos (by omega) hic hpc
  · intro hcpos i hpos hi hparent
    have hlt := parentOf_lt hpos
    have hlt' := parentOf_lt hcpos
    rw [hsame i hi (by omega), hsame _ (by omega) (by omega)]
    exact h.across hcpos i hpos (by omega) hparent

/-- A cell that is less than its parent is brought up. -/
theorem Loose.upHole (h : Loose le f n c) (htrans : ∀ x y z, le x y → le y z → le x z)
    (hpos : 0 < c) (hlt : le (f c) (f (parentOf c))) : UpHole le f n c := by
  refine ⟨fun i hi hin hic => ?_, h.across⟩
  by_cases hparent : parentOf i = c
  · rw [hparent]
    exact htrans _ _ _ hlt (h.across hpos i hi hin hparent)
  · exact h.rest i hi hin hic hparent

/-- A cell that is not less than its parent is brought down. -/
theorem Loose.downHole (h : Loose le f n c) (hle : 0 < c → le (f (parentOf c)) (f c)) :
    DownHole le f n c := by
  refine ⟨fun i hi hin hparent => ?_, h.across⟩
  by_cases hic : i = c
  · subst hic
    exact hle hi
  · exact h.rest i hi hin hic hparent

/-- The heap is right without its last cell. -/
theorem Loose.pop (h : Loose le f (n + 1) n) : IsHeap le f n := by
  intro i hpos hi
  have hlt := parentOf_lt hpos
  exact h.rest i hpos (by omega) (by omega) (by omega)

/-- Different cells with different elements. -/
theorem nodup_content (hinj : ∀ i j, i < n → j < n → f i = f j → i = j) : (content f n).Nodup :=
  Multiset.Nodup.map_on
    (fun i hi j hj heq => hinj i j (Multiset.mem_range.mp hi) (Multiset.mem_range.mp hj) heq)
    (Multiset.nodup_range n)

/-- The last cell takes the place of the cell `c`. -/
theorem content_update_last (hc : c < n) :
    f c ::ₘ content (Function.update f c (f n)) n = content f (n + 1) := by
  rw [← content_swap f (show c < n + 1 by omega) (Nat.lt_succ_self n), content_succ,
    swapCells_right]
  congr 1
  refine content_congr fun k hk => ?_
  by_cases hkc : k = c
  · rw [hkc, Function.update_self, swapCells_left]
  · rw [Function.update_of_ne hkc, swapCells_of_ne f hkc (by omega)]

end LustreSimulator.Lib
