import Mathlib.Order.BoundedOrder.Lattice
import Mathlib.Order.Lattice
import Mathlib.Tactic.Common

/-!
# `LustreSimulator.Lib.Sliding`: the supremum over a sliding window

Values come in with the number of the sub-window they belong to, and the last `n` sub-windows are
kept in a list, newest first: one supremum for each. `Slides` says that the list is right.

`Slides.shift` moves on to a later sub-window, and `Slides.record` notes a value of the current one.
`Slides.supAll_eq` is the result: the supremum of the list is the one of the values in the last `n`
sub-windows.
-/

set_option autoImplicit false

namespace LustreSimulator.Lib

variable {β : Type*} [SemilatticeSup β] [OrderBot β]

/-- The supremum of a list. -/
def supAll (l : List β) : β := l.foldr (· ⊔ ·) ⊥

/-- The supremum of the values whose sub-window satisfies a condition. -/
def supWhere (P : Nat → Prop) [DecidablePred P] (past : List (Nat × β)) : β :=
  supAll ((past.filter fun e => decide (P e.1)).map Prod.snd)

/-- `hist` keeps the last `n` sub-windows up to the sub-window `k`. -/
structure Slides (n : Nat) (hist : List β) (k : Nat) (past : List (Nat × β)) : Prop where
  length : hist.length = n
  bound : ∀ e ∈ past, e.1 ≤ k
  cell : ∀ i (hi : i < hist.length), hist[i] = supWhere (fun w => w + i = k) past

variable {n k : Nat} {hist : List β} {past : List (Nat × β)}

@[simp]
theorem supAll_nil : supAll ([] : List β) = ⊥ := rfl

@[simp]
theorem supAll_cons (x : β) (l : List β) : supAll (x :: l) = x ⊔ supAll l := rfl

/-- A bound of the supremum bounds all values. -/
theorem supAll_le_iff {l : List β} {b : β} : supAll l ≤ b ↔ ∀ x ∈ l, x ≤ b := by
  induction l with
  | nil => simp
  | cons x l ih => simp [ih]

/-- A value of the list is not above the supremum. -/
theorem le_supAll {l : List β} {x : β} (hx : x ∈ l) : x ≤ supAll l :=
  supAll_le_iff.mp le_rfl x hx

/-- The supremum of two lists. -/
theorem supAll_append (l l' : List β) : supAll (l ++ l') = supAll l ⊔ supAll l' := by
  induction l with
  | nil => exact (bot_sup_eq _).symm
  | cons x l ih => rw [List.cons_append, supAll_cons, ih, supAll_cons, sup_assoc]

/-- Empty cells do not count. -/
theorem supAll_replicate_bot (m : Nat) : supAll (List.replicate m (⊥ : β)) = ⊥ :=
  le_bot_iff.mp (supAll_le_iff.mpr fun _ hx => le_of_eq (List.eq_of_mem_replicate hx))

/-- The supremum after a value is noted in the first cell. -/
theorem supAll_record {l : List β} {x : β} (hx : l.head? = some x) (v : β) :
    supAll (l.set 0 (x ⊔ v)) = supAll l ⊔ v := by
  cases l with
  | nil => cases hx
  | cons y l =>
      cases hx
      rw [List.set_cons_zero, supAll_cons, supAll_cons, sup_right_comm]

/-- A bound of the values of some sub-windows. -/
theorem supWhere_le_iff {P : Nat → Prop} [DecidablePred P] {b : β} :
    supWhere P past ≤ b ↔ ∀ e ∈ past, P e.1 → e.2 ≤ b := by
  unfold supWhere
  rw [supAll_le_iff]
  constructor
  · intro h e he hP
    exact h e.2 (List.mem_map_of_mem (List.mem_filter.mpr ⟨he, decide_eq_true hP⟩))
  · intro h x hx
    obtain ⟨e, he, rfl⟩ := List.mem_map.mp hx
    obtain ⟨he, hP⟩ := List.mem_filter.mp he
    exact h e he (of_decide_eq_true hP)

/-- No value is in the sub-windows. -/
theorem supWhere_eq_bot {P : Nat → Prop} [DecidablePred P] (h : ∀ e ∈ past, ¬ P e.1) :
    supWhere P past = (⊥ : β) :=
  le_bot_iff.mp (supWhere_le_iff.mpr fun e he hP => absurd hP (h e he))

/-- One more value. -/
theorem supWhere_snoc (P : Nat → Prop) [DecidablePred P] (past : List (Nat × β)) (w : Nat) (v : β) :
    supWhere P (past ++ [(w, v)]) = if P w then supWhere P past ⊔ v else supWhere P past := by
  refine le_antisymm (supWhere_le_iff.mpr fun e he hP => ?_) ?_
  · rcases List.mem_append.mp he with he | he
    · have hle := supWhere_le_iff.mp (le_refl (supWhere P past)) e he hP
      split
      · exact le_sup_of_le_left hle
      · exact hle
    · obtain rfl := List.mem_singleton.mp he
      rw [if_pos hP]
      exact le_sup_right
  · have hall := supWhere_le_iff.mp (le_refl (supWhere P (past ++ [(w, v)])))
    have hold : supWhere P past ≤ supWhere P (past ++ [(w, v)]) :=
      supWhere_le_iff.mpr fun e he hP => hall e (List.mem_append_left _ he) hP
    split
    · rename_i hP
      exact sup_le hold (hall (w, v) (List.mem_append_right _ (List.mem_singleton_self _)) hP)
    · exact hold

/-- The supremum of the list is the one of the values in the last `n` sub-windows. -/
theorem Slides.supAll_eq (h : Slides n hist k past) :
    supAll hist = supWhere (fun w => k < w + n) past := by
  refine le_antisymm (supAll_le_iff.mpr fun x hx => ?_) (supWhere_le_iff.mpr fun e he hw => ?_)
  · obtain ⟨i, hi, rfl⟩ := List.getElem_of_mem hx
    rw [h.cell i hi]
    refine supWhere_le_iff.mpr fun e he hcell => ?_
    have hlen := h.length
    exact supWhere_le_iff.mp (le_refl (supWhere (fun w => k < w + n) past)) e he (by omega)
  · -- the value is in the cell of its sub-window
    have hle := h.bound e he
    have hi : k - e.1 < hist.length := by
      rw [h.length]
      omega
    refine le_trans ?_ (le_supAll (List.getElem_mem hi))
    rw [h.cell _ hi]
    exact supWhere_le_iff.mp (le_refl (supWhere (fun w => w + (k - e.1) = k) past)) e he (by omega)

/-- Later sub-windows have no values yet. -/
theorem Slides.shift (h : Slides n hist k past) (d : Nat) :
    Slides n (List.replicate (min d n) ⊥ ++ hist.take (n - d)) (k + d) past := by
  have hlen := h.length
  refine ⟨?_, fun e he => Nat.le_add_right_of_le (h.bound e he), fun i hi => ?_⟩
  · rw [List.length_append, List.length_replicate, List.length_take]
    omega
  · rw [List.length_append, List.length_replicate, List.length_take] at hi
    by_cases hnew : i < min d n
    · rw [List.getElem_append_left (by rwa [List.length_replicate]), List.getElem_replicate]
      refine (supWhere_eq_bot fun e he hcell => ?_).symm
      have hle := h.bound e he
      omega
    · rw [List.getElem_append_right (by rw [List.length_replicate]; omega), List.getElem_take,
        h.cell _ (by rw [List.length_replicate]; omega)]
      unfold supWhere
      congr 3
      funext e
      rw [decide_eq_decide, List.length_replicate]
      omega

/-- A value of the current sub-window is noted in the first cell. -/
theorem Slides.record (h : Slides n hist k past) {x : β} (hx : hist.head? = some x) (v : β) :
    Slides n (hist.set 0 (x ⊔ v)) k (past ++ [(k, v)]) := by
  refine ⟨?_, fun e he => ?_, fun i hi => ?_⟩
  · rw [List.length_set, h.length]
  · rcases List.mem_append.mp he with he | he
    · exact h.bound e he
    · rw [List.mem_singleton.mp he]
  · rw [List.length_set] at hi
    rw [supWhere_snoc]
    cases i with
    | zero =>
        rw [List.head?_eq_getElem?, List.getElem?_eq_getElem hi] at hx
        rw [List.getElem_set_self, if_pos (Nat.add_zero k), ← h.cell 0 hi, Option.some.inj hx]
    | succ i =>
        rw [List.getElem_set_ne (by omega), if_neg (by omega)]
        exact h.cell (i + 1) hi

/-- Before any value all cells are empty. -/
theorem slides_nil (n k : Nat) : Slides n (List.replicate n (⊥ : β)) k [] := by
  refine ⟨List.length_replicate, (fun _ he => absurd he List.not_mem_nil), fun i hi => ?_⟩
  rw [List.getElem_replicate]
  rfl

end LustreSimulator.Lib
