import Mathlib.Algebra.BigOperators.Group.List.Basic
import Mathlib.Algebra.GroupWithZero.Nat
import Mathlib.Data.List.MinMax
import Mathlib.Order.Lattice.Nat

/-!
# `LustreSimulator.Lib.Roster`: processes that take turns

A system of processes is a list of their states. A turn replaces the state of one process, so it is
`l.set i b` where `l[i]? = some a`. What is counted or summed over all processes then moves by what
it moves for this one: `countP_set_add` and `sum_map_set_add`. Where the states are a function of the
numbers of the processes, `countP_range_add` and `sum_range_add` say the same.

A process may have timers. When any timer is armed, `exists_least` finds the one that fires first.
-/

set_option autoImplicit false

namespace LustreSimulator.Lib.Roster

variable {σ : Type*} {l : List σ} {i : Nat} {a : σ}

/-- A process that is there splits the list. -/
theorem set_eq_append (h : l[i]? = some a) (b : σ) :
    ∃ l₁ l₂, l = l₁ ++ a :: l₂ ∧ l.set i b = l₁ ++ b :: l₂ := by
  obtain ⟨hi, rfl⟩ := List.getElem?_eq_some_iff.mp h
  refine ⟨l.take i, l.drop (i + 1), ?_, List.set_eq_take_append_cons_drop ..|>.trans (if_pos hi)⟩
  rw [List.getElem_cons_drop, List.take_append_drop]

/-- A turn moves the number of processes in some states by what it does for its own process. -/
theorem countP_set_add (h : l[i]? = some a) (q : σ → Bool) (b : σ) :
    (l.set i b).countP q + (q a).toNat = l.countP q + (q b).toNat := by
  obtain ⟨l₁, l₂, hl, hset⟩ := set_eq_append h b
  rw [hset, hl, List.countP_append, List.countP_append, List.countP_cons, List.countP_cons]
  cases q a <;> cases q b <;> simp <;> omega

/-- The same for processes that have numbers. -/
theorem countP_range_add {n i : Nat} {q q' : Nat → Bool} (hi : i < n)
    (hne : ∀ j, j ≠ i → q' j = q j) :
    (List.range n).countP q' + (q i).toNat = (List.range n).countP q + (q' i).toNat := by
  induction n with
  | zero => exact absurd hi (Nat.not_lt_zero i)
  | succ n ih =>
      rw [List.range_succ, List.countP_append, List.countP_append, List.countP_singleton,
        List.countP_singleton]
      by_cases hin : i = n
      · have hsame : (List.range n).countP q' = (List.range n).countP q :=
          List.countP_congr fun j hj => by rw [hne j (hin ▸ Nat.ne_of_lt (List.mem_range.mp hj))]
        rw [hsame, hin]
        cases q n <;> cases q' n <;> simp
      · have hrest := ih (by omega)
        rw [hne n (Ne.symm hin)]
        omega

@[inherit_doc countP_range_add]
theorem sum_range_add {n i : Nat} {f g : Nat → Nat} (hi : i < n)
    (hne : ∀ j, j ≠ i → g j = f j) :
    ((List.range n).map g).sum + f i = ((List.range n).map f).sum + g i := by
  induction n with
  | zero => exact absurd hi (Nat.not_lt_zero i)
  | succ n ih =>
      simp only [List.range_succ, List.map_append, List.map_singleton, List.sum_append,
        List.sum_singleton]
      by_cases hin : i = n
      · have hsame : (List.range n).map g = (List.range n).map f :=
          List.map_congr_left fun j hj => hne j (hin ▸ Nat.ne_of_lt (List.mem_range.mp hj))
        rw [hsame, hin]
        omega
      · have hrest := ih (by omega)
        rw [hne n (Ne.symm hin)]
        omega

/-- What holds of all processes still does after a turn when it does of the one that took it. -/
theorem forall_set {P : σ → Prop} (hall : ∀ x ∈ l, P x) {b : σ} (hb : P b) :
    ∀ x ∈ l.set i b, P x := by
  intro x hx
  rcases List.mem_or_eq_of_mem_set hx with hx | rfl
  · exact hall x hx
  · exact hb

/-- Of the timers of all processes there is one that fires first. -/
theorem exists_least (timers : σ → List Nat) {t : Nat} (ha : a ∈ l) (ht : t ∈ timers a) :
    ∃ b ∈ l, ∃ t ∈ timers b, ∀ c ∈ l, ∀ u ∈ timers c, t ≤ u := by
  classical
  have hex : ∃ t, ∃ b ∈ l, t ∈ timers b := ⟨t, a, ha, ht⟩
  obtain ⟨b, hb, hleast⟩ := Nat.find_spec hex
  exact ⟨b, hb, _, hleast, fun c hc u hu => Nat.find_min' hex ⟨c, hc, hu⟩⟩

end LustreSimulator.Lib.Roster
