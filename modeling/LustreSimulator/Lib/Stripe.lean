import Mathlib.Tactic.Ring
import Mathlib.Tactic.Linarith

/-!
# `LustreSimulator.Lib.Stripe`: an address in rounds, members and places

Striping deals an address space out to `width` members, `chunk` addresses at a time. An address
then has three coordinates: the round, the member and the place inside the member's chunk
(`exists_coords`). `coords_div_mod`, `coords_div_chunk` and `coords_mod_chunk` read the divisions
and remainders of an address in coordinates.

`below s x` is the number of addresses on the member `s` in front of `x`, so it is also where an
address of `s` falls on that member. `below_image` is the result for a range: its addresses on a
member fall on a range of the member, each place is taken once, and the two ends of the range on the
member are `below` of the two ends.
-/

set_option autoImplicit false

namespace LustreSimulator.Lib.Stripe

variable {width chunk : Nat}

/-- Every address has a round, a member and a place inside the member's chunk. -/
theorem exists_coords (hwidth : 0 < width) (hchunk : 0 < chunk) (x : Nat) :
    ∃ round stripe place, stripe < width ∧ place < chunk ∧
      x = round * (width * chunk) + (stripe * chunk + place) := by
  refine ⟨x / (width * chunk), x % (width * chunk) / chunk,
    x % (width * chunk) % chunk, ?_, Nat.mod_lt _ hchunk, ?_⟩
  · rw [Nat.div_lt_iff_lt_mul hchunk]
    exact Nat.mod_lt _ (Nat.mul_pos hwidth hchunk)
  · have h₁ := Nat.div_add_mod' (x % (width * chunk)) chunk
    have h₂ := Nat.div_add_mod' x (width * chunk)
    omega

/-- The place of a member's chunk in a round is inside the round. -/
theorem coords_lt {stripe place : Nat} (hs : stripe < width) (hp : place < chunk) :
    stripe * chunk + place < width * chunk := by
  calc stripe * chunk + place < stripe * chunk + chunk := by omega
    _ = (stripe + 1) * chunk := by rw [Nat.add_mul, Nat.one_mul]
    _ ≤ width * chunk := Nat.mul_le_mul_right _ hs

/-- Division and remainder by the width of a round. -/
theorem coords_div_mod (round : Nat) {stripe place : Nat} (hs : stripe < width)
    (hp : place < chunk) :
    (round * (width * chunk) + (stripe * chunk + place)) / (width * chunk) = round ∧
    (round * (width * chunk) + (stripe * chunk + place)) % (width * chunk) =
      stripe * chunk + place := by
  have hlt := coords_lt hs hp
  have hpos : 0 < width * chunk := by omega
  constructor
  · rw [Nat.mul_comm round, Nat.mul_add_div hpos, Nat.div_eq_of_lt hlt, Nat.add_zero]
  · rw [Nat.mul_comm round, Nat.mul_add_mod, Nat.mod_eq_of_lt hlt]

/-- The number of the chunk of an address. -/
theorem coords_div_chunk {round stripe place : Nat} (hp : place < chunk) :
    (round * (width * chunk) + (stripe * chunk + place)) / chunk = round * width + stripe := by
  have : round * (width * chunk) + (stripe * chunk + place) =
      chunk * (round * width + stripe) + place := by ring
  rw [this, Nat.mul_add_div (by omega), Nat.div_eq_of_lt hp, Nat.add_zero]

/-- The place of an address inside its chunk. -/
theorem coords_mod_chunk {round stripe place : Nat} (hp : place < chunk) :
    (round * (width * chunk) + (stripe * chunk + place)) % chunk = place := by
  have : round * (width * chunk) + (stripe * chunk + place) =
      chunk * (round * width + stripe) + place := by ring
  rw [this, Nat.mul_add_mod, Nat.mod_eq_of_lt hp]

/-- The member of an address. -/
theorem coords_member {round stripe place : Nat} (hs : stripe < width) (hp : place < chunk) :
    (round * (width * chunk) + (stripe * chunk + place)) / chunk % width = stripe := by
  rw [coords_div_chunk hp, Nat.mul_comm, Nat.mul_add_mod, Nat.mod_eq_of_lt hs]

/-! ### Counting the addresses of a member -/

/-- The member of an address. -/
def member (width chunk x : Nat) : Nat := x % (width * chunk) / chunk

/-- The number of addresses on the member `s` in front of `x`. -/
def below (width chunk s x : Nat) : Nat :=
  x / (width * chunk) * chunk + min chunk (x % (width * chunk) - s * chunk)

/-- The member in coordinates. -/
theorem member_coords {round stripe place : Nat} (hs : stripe < width) (hp : place < chunk) :
    member width chunk (round * (width * chunk) + (stripe * chunk + place)) = stripe := by
  unfold member
  rw [(coords_div_mod round hs hp).2, Nat.mul_comm stripe, Nat.mul_add_div (by omega),
    Nat.div_eq_of_lt hp, Nat.add_zero]

/-- The count in coordinates: the full rounds, and the part of this one. -/
theorem below_coords {round stripe place : Nat} (hs : stripe < width) (hp : place < chunk)
    (s : Nat) : below width chunk s (round * (width * chunk) + (stripe * chunk + place)) =
      round * chunk + if stripe < s then 0 else if s < stripe then chunk else place := by
  obtain ⟨hdiv, hmod⟩ := coords_div_mod round hs hp
  unfold below
  rw [hdiv, hmod]
  rcases Nat.lt_trichotomy stripe s with h | rfl | h
  · have hle : (stripe + 1) * chunk ≤ s * chunk := Nat.mul_le_mul_right _ h
    rw [Nat.add_mul, Nat.one_mul] at hle
    rw [if_pos h]
    omega
  · rw [if_neg (Nat.lt_irrefl _), if_neg (Nat.lt_irrefl _)]
    omega
  · have hle : (s + 1) * chunk ≤ stripe * chunk := Nat.mul_le_mul_right _ h
    rw [Nat.add_mul, Nat.one_mul] at hle
    rw [if_neg (by omega), if_pos h]
    omega

/-- One address more is counted when it lies on the member. -/
theorem below_succ (hwidth : 0 < width) (hchunk : 0 < chunk) {s : Nat} (hs : s < width) (x : Nat) :
    below width chunk s (x + 1) =
      below width chunk s x + if member width chunk x = s then 1 else 0 := by
  obtain ⟨round, stripe, place, hstripe, hplace, rfl⟩ := exists_coords hwidth hchunk x
  rw [member_coords hstripe hplace, below_coords hstripe hplace]
  by_cases hin : place + 1 < chunk
  · -- the next address is in the same chunk
    rw [Nat.add_assoc, Nat.add_assoc, below_coords hstripe hin]
    split_ifs <;> omega
  · by_cases hlast : stripe + 1 < width
    · -- it is the first one of the next member
      have hnext : round * (width * chunk) + (stripe * chunk + place) + 1 =
          round * (width * chunk) + ((stripe + 1) * chunk + 0) := by
        rw [Nat.add_mul, Nat.one_mul]
        omega
      rw [hnext, below_coords hlast hchunk]
      split_ifs <;> omega
    · -- it is the first one of the next round
      have hwidth' : width = stripe + 1 := by omega
      have hnext : round * (width * chunk) + (stripe * chunk + place) + 1 =
          (round + 1) * (width * chunk) + (0 * chunk + 0) := by
        rw [hwidth', Nat.add_mul stripe, Nat.one_mul, Nat.add_mul round]
        omega
      rw [hnext, below_coords hwidth hchunk, Nat.add_mul, Nat.one_mul]
      split_ifs <;> omega

/-- An address of a member falls on the place that is its number there. -/
theorem below_member (hwidth : 0 < width) (hchunk : 0 < chunk) (x : Nat) :
    below width chunk (member width chunk x) x = x / (width * chunk) * chunk + x % chunk := by
  obtain ⟨round, stripe, place, hstripe, hplace, rfl⟩ := exists_coords hwidth hchunk x
  rw [member_coords hstripe hplace, below_coords hstripe hplace, coords_mod_chunk hplace,
    (coords_div_mod round hstripe hplace).1, if_neg (Nat.lt_irrefl _), if_neg (Nat.lt_irrefl _)]

/-- The count does not fall. -/
theorem below_mono (hwidth : 0 < width) (hchunk : 0 < chunk) {s : Nat} (hs : s < width)
    (x k : Nat) : below width chunk s x ≤ below width chunk s (x + k) := by
  induction k with
  | zero => exact Nat.le_refl _
  | succ k ih =>
      rw [← Nat.add_assoc, below_succ hwidth hchunk hs]
      omega

/-- The addresses of a range that lie on a member fall on a range of the member. -/
theorem below_image (hwidth : 0 < width) (hchunk : 0 < chunk) {s : Nat} (hs : s < width)
    (x k y : Nat) : below width chunk s x ≤ y ∧ y < below width chunk s (x + k) ↔
      ∃ b, x ≤ b ∧ b < x + k ∧ member width chunk b = s ∧ below width chunk s b = y := by
  induction k with
  | zero =>
      refine iff_of_false (fun h => ?_) ?_
      · rw [Nat.add_zero] at h
        omega
      · rintro ⟨b, hlo, hhi, -⟩
        omega
  | succ k ih =>
      have hmono := below_mono hwidth hchunk hs x k
      rw [← Nat.add_assoc, below_succ hwidth hchunk hs]
      constructor
      · rintro ⟨hlo, hhi⟩
        by_cases hlt : y < below width chunk s (x + k)
        · obtain ⟨b, hb, hbk, hrest⟩ := ih.mp ⟨hlo, hlt⟩
          exact ⟨b, hb, Nat.lt_succ_of_lt hbk, hrest⟩
        · -- `y` is the place of the last address
          split at hhi
          · rename_i hmem
            exact ⟨x + k, Nat.le_add_right x k, Nat.lt_succ_self _, hmem, by omega⟩
          · omega
      · rintro ⟨b, hlo, hhi, hmem, hy⟩
        by_cases hlast : b = x + k
        · subst hlast
          rw [if_pos hmem]
          omega
        · have hin := ih.mpr ⟨b, hlo, by omega, hmem, hy⟩
          omega

/-- Two addresses of one member fall on different places. -/
theorem below_injective (hwidth : 0 < width) (hchunk : 0 < chunk) {a b : Nat}
    (hmem : member width chunk a = member width chunk b)
    (heq : below width chunk (member width chunk a) a =
      below width chunk (member width chunk b) b) : a = b := by
  have hlt : ∀ x, member width chunk x < width := by
    intro x
    obtain ⟨round, stripe, place, hstripe, hplace, rfl⟩ := exists_coords hwidth hchunk x
    rw [member_coords hstripe hplace]
    exact hstripe
  -- the count grows behind an address of the member
  have hgrow : ∀ x y, x < y → below width chunk (member width chunk x) x <
      below width chunk (member width chunk x) y := by
    intro x y hxy
    have hsucc := below_succ hwidth hchunk (hlt x) x
    have hmono := below_mono hwidth hchunk (hlt x) (x + 1) (y - (x + 1))
    rw [Nat.add_sub_cancel' hxy] at hmono
    rw [if_pos rfl] at hsucc
    omega
  rcases Nat.lt_trichotomy a b with h | h | h
  · have hab := hgrow a b h
    rw [← hmem] at heq
    omega
  · exact h
  · have hba := hgrow b a h
    rw [hmem] at heq
    omega

end LustreSimulator.Lib.Stripe
