import LustreSimulator.Lib.Word

/-!
# `LustreSimulator.Lib.Align`: rounding to a power of two with masks

`((x - 1) | mask) + 1` rounds `x` up, and `((x + 1) & ~mask) - 1` rounds the last number of a
range down so that the range ends at a multiple. `alignUp_eq` and `alignDown_eq` are the values on
64-bit words, which wrap at the ends of the word. `alignUp_iff` and `alignDown_iff` say when they
only shrink a range around another one: exactly if a multiple lies between the ends on either side.
-/

set_option autoImplicit false

namespace LustreSimulator.Lib

/-- Setting the low bits of a number. -/
theorem or_two_pow_sub_one (x k : Nat) : x ||| (2 ^ k - 1) = x / 2 ^ k * 2 ^ k + (2 ^ k - 1) := by
  have hpos := Nat.two_pow_pos k
  have hlow : x % 2 ^ k ||| (2 ^ k - 1) = 2 ^ k - 1 := by
    have hlt : x % 2 ^ k ||| (2 ^ k - 1) < 2 ^ k :=
      Nat.or_lt_two_pow (Nat.mod_lt _ hpos) (by omega)
    have hle := @Nat.right_le_or (x % 2 ^ k) (2 ^ k - 1)
    omega
  have hdiv : (2 ^ k - 1) / 2 ^ k = 0 := Nat.div_eq_of_lt (by omega)
  have hmod : (2 ^ k - 1) % 2 ^ k = 2 ^ k - 1 := Nat.mod_eq_of_lt (by omega)
  rw [← Nat.div_add_mod (x ||| (2 ^ k - 1)) (2 ^ k), Nat.or_div_two_pow, Nat.or_mod_two_pow, hdiv,
    hmod, hlow, Nat.or_zero, Nat.mul_comm]

/-- Clearing the low bits of a number of `w` bits. -/
theorem and_two_pow_sub_two_pow {x k w : Nat} (hx : x < 2 ^ w) (hk : k ≤ w) :
    x &&& (2 ^ w - 2 ^ k) = x / 2 ^ k * 2 ^ k := by
  have hpow : 2 ^ w = 2 ^ (w - k) * 2 ^ k := by
    rw [← Nat.pow_add, Nat.sub_add_cancel hk]
  have hmul : 2 ^ w - 2 ^ k = (2 ^ (w - k) - 1) * 2 ^ k := by
    rw [hpow, Nat.sub_mul, Nat.one_mul]
  have hdiv : (2 ^ w - 2 ^ k) / 2 ^ k = 2 ^ (w - k) - 1 := by
    rw [hmul, Nat.mul_div_cancel _ (Nat.two_pow_pos k)]
  have hmod : (2 ^ w - 2 ^ k) % 2 ^ k = 0 := by
    rw [hmul, Nat.mul_mod_left]
  have hlt : x / 2 ^ k < 2 ^ (w - k) := Nat.div_lt_of_lt_mul (by rwa [Nat.mul_comm, ← hpow])
  rw [← Nat.div_add_mod (x &&& (2 ^ w - 2 ^ k)) (2 ^ k), Nat.and_div_two_pow,
    Nat.and_mod_two_pow, hdiv, hmod, Nat.and_zero, Nat.add_zero, Nat.and_two_pow_sub_one_eq_mod,
    Nat.mod_eq_of_lt hlt, Nat.mul_comm]

/-- A multiple lies between two numbers exactly if the next multiple of the lower one is not above
the higher one. -/
theorem exists_mul_between {x r d : Nat} (hd : 0 < d) :
    (∃ m, x ≤ m * d ∧ m * d ≤ r) ↔ (x + (d - 1)) / d * d ≤ r := by
  have hx := Nat.div_add_mod (x + (d - 1)) d
  have hmod := Nat.mod_lt (x + (d - 1)) hd
  rw [Nat.mul_comm] at hx
  constructor
  · rintro ⟨m, hxm, hmr⟩
    have hlt : (x + (d - 1)) / d < m + 1 := by
      refine Nat.div_lt_of_lt_mul ?_
      rw [Nat.mul_comm, Nat.add_mul]
      omega
    exact Nat.le_trans (Nat.mul_le_mul_right d (Nat.le_of_lt_succ hlt)) hmr
  · exact fun h => ⟨(x + (d - 1)) / d, by omega, h⟩

/-- Rounding up gives the next multiple, or 0 where this is `2 ^ 64`. -/
theorem alignUp_eq {x k : Nat} (hx : x < 2 ^ 64) (hk : k ≤ 64) :
    add64 (sub64 x 1 ||| (2 ^ k - 1)) 1 = (x + (2 ^ k - 1)) / 2 ^ k * 2 ^ k % 2 ^ 64 := by
  have hpos := Nat.two_pow_pos k
  rcases Nat.eq_zero_or_pos x with rfl | hx0
  · -- the word below 0 has all its bits set
    have hpow : 2 ^ k ≤ 2 ^ 64 := Nat.pow_le_pow_right (by decide) hk
    have hlt : sub64 0 1 ||| (2 ^ k - 1) < 2 ^ 64 := Nat.or_lt_two_pow (by decide) (by omega)
    have hle : sub64 0 1 ≤ sub64 0 1 ||| (2 ^ k - 1) := Nat.left_le_or
    have hall : sub64 0 1 = 2 ^ 64 - 1 := by decide
    rw [Nat.zero_add, Nat.div_eq_of_lt (by omega), Nat.zero_mul]
    unfold add64
    omega
  · have hnext : (x + (2 ^ k - 1)) / 2 ^ k = (x - 1) / 2 ^ k + 1 := by
      rw [← Nat.add_div_right (x - 1) hpos]
      congr 1
      omega
    have hsub : sub64 x 1 = x - 1 := sub64_eq (by omega) hx0
    rw [hsub, or_two_pow_sub_one, hnext, Nat.add_mul, Nat.one_mul, add64, Nat.add_assoc,
      Nat.sub_add_cancel hpos]

/-- The end of the words is a multiple. -/
theorem div_mul_two_pow_last {x k : Nat} (hx : x = 2 ^ 64 - 1) (hk : k ≤ 64) :
    (x + 1) / 2 ^ k * 2 ^ k = 2 ^ 64 := by
  rw [hx]
  exact Nat.div_mul_cancel (Nat.pow_dvd_pow 2 hk)

/-- Rounding the end of a range down gives the end of the last multiple, or the last word where
this is 0. -/
theorem alignDown_eq {x k : Nat} (hx : x < 2 ^ 64) (hk : k ≤ 64) :
    sub64 (add64 x 1 &&& (2 ^ 64 - 1 - (2 ^ k - 1))) 1 = sub64 ((x + 1) / 2 ^ k * 2 ^ k) 1 := by
  have hpos := Nat.two_pow_pos k
  have hmask : 2 ^ 64 - 1 - (2 ^ k - 1) = 2 ^ 64 - 2 ^ k := by omega
  rw [hmask, and_two_pow_sub_two_pow (add64_lt x 1) hk]
  rcases Nat.lt_or_eq_of_le (Nat.le_of_lt_succ hx) with hlt | heq
  · rw [add64_eq (by omega)]
  · -- as a word the end of the words is 0
    have hzero : add64 x 1 = 0 := by
      unfold add64
      omega
    have hend := div_mul_two_pow_last heq hk
    rw [hzero, hend, Nat.zero_div, Nat.zero_mul]
    decide

/-- Rounding the end of a range down does not move it up, where the range goes up to a multiple. -/
theorem alignDown_le_self {x k : Nat} (hx : x < 2 ^ 64) (hk : k ≤ 64) (hmul : 2 ^ k ≤ x + 1) :
    sub64 (add64 x 1 &&& (2 ^ 64 - 1 - (2 ^ k - 1))) 1 ≤ x := by
  have hle : (x + 1) / 2 ^ k * 2 ^ k ≤ x + 1 := Nat.div_mul_le_self _ _
  have hpos : 0 < (x + 1) / 2 ^ k * 2 ^ k :=
    Nat.mul_pos (Nat.div_pos hmul (Nat.two_pow_pos k)) (Nat.two_pow_pos k)
  rw [alignDown_eq hx hk]
  unfold sub64
  omega

/-- Rounding up stays below `r` exactly if a multiple lies between. -/
theorem alignUp_iff {x r k : Nat} (hx : x ≤ r) (hr : r < 2 ^ 64) (hk : k ≤ 64) :
    (x ≤ add64 (sub64 x 1 ||| (2 ^ k - 1)) 1 ∧ add64 (sub64 x 1 ||| (2 ^ k - 1)) 1 ≤ r) ↔
      ∃ m, x ≤ m * 2 ^ k ∧ m * 2 ^ k ≤ r := by
  have hpos := Nat.two_pow_pos k
  have hpow : 2 ^ k ≤ 2 ^ 64 := Nat.pow_le_pow_right (by decide) hk
  rw [alignUp_eq (by omega) hk, exists_mul_between hpos]
  have hdiv := Nat.div_add_mod (x + (2 ^ k - 1)) (2 ^ k)
  have hmod := Nat.mod_lt (x + (2 ^ k - 1)) hpos
  rw [Nat.mul_comm] at hdiv
  omega

/-- Rounding the end of a range down stays behind `r` exactly if a range that ends behind `r` ends
at a multiple. -/
theorem alignDown_iff {x r k : Nat} (hx : r ≤ x) (hx64 : x < 2 ^ 64) (hk : k ≤ 64) :
    (r ≤ sub64 (add64 x 1 &&& (2 ^ 64 - 1 - (2 ^ k - 1))) 1 ∧
      sub64 (add64 x 1 &&& (2 ^ 64 - 1 - (2 ^ k - 1))) 1 ≤ x) ↔
      ∃ m, r + 1 ≤ m * 2 ^ k ∧ m * 2 ^ k ≤ x + 1 := by
  have hle : (x + 1) / 2 ^ k * 2 ^ k ≤ x + 1 := Nat.div_mul_le_self _ _
  rw [alignDown_eq hx64 hk]
  constructor
  · intro h
    have hlast : x = 2 ^ 64 - 1 → (x + 1) / 2 ^ k * 2 ^ k = 2 ^ 64 :=
      fun hx => div_mul_two_pow_last hx hk
    refine ⟨(x + 1) / 2 ^ k, ?_, hle⟩
    unfold sub64 at h
    omega
  · rintro ⟨m, hrm, hmx⟩
    have hm : m ≤ (x + 1) / 2 ^ k := (Nat.le_div_iff_mul_le (Nat.two_pow_pos k)).mpr hmx
    have hmul : m * 2 ^ k ≤ (x + 1) / 2 ^ k * 2 ^ k := Nat.mul_le_mul_right _ hm
    unfold sub64
    omega

/-- Rounding up does not go beyond a multiple. -/
theorem alignUp_le {x r k : Nat} (hx : x ≤ r) (hr : r < 2 ^ 64) (hk : k ≤ 64)
    (hmul : r % 2 ^ k = 0) :
    x ≤ add64 (sub64 x 1 ||| (2 ^ k - 1)) 1 ∧ add64 (sub64 x 1 ||| (2 ^ k - 1)) 1 ≤ r := by
  have hr' : r / 2 ^ k * 2 ^ k = r := Nat.div_mul_cancel (Nat.dvd_of_mod_eq_zero hmul)
  exact (alignUp_iff hx hr hk).mpr ⟨r / 2 ^ k, by omega, by omega⟩

/-- Rounding the end of a range down does not go below a range that ends at a multiple. -/
theorem alignDown_le {x r k : Nat} (hx : r ≤ x) (hx64 : x < 2 ^ 64) (hk : k ≤ 64)
    (hmul : (r + 1) % 2 ^ k = 0) :
    r ≤ sub64 (add64 x 1 &&& (2 ^ 64 - 1 - (2 ^ k - 1))) 1 ∧
      sub64 (add64 x 1 &&& (2 ^ 64 - 1 - (2 ^ k - 1))) 1 ≤ x := by
  have hr' : (r + 1) / 2 ^ k * 2 ^ k = r + 1 :=
    Nat.div_mul_cancel (Nat.dvd_of_mod_eq_zero hmul)
  exact (alignDown_iff hx hx64 hk).mpr ⟨(r + 1) / 2 ^ k, by omega, by omega⟩

end LustreSimulator.Lib
