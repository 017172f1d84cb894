import LustreSimulator.Lov
import LustreSimulator.Proofs.Raid0Device

/-!
# `LustreSimulator.Proofs.StripeMap`: the striping map of the two layers

A byte of a striped device lies on the member `StripeNumber` at a place that is the number of
earlier bytes on that member. `StripeOffset` of a `Raid0Device` is that count, for every offset and
every member (`stripeOffset_below`).

`StripeIntersect` takes the two ends of a range to a member. The places it returns are right, but it
takes the end of the range, which is not a part of it, for a byte on the member. So it returns 1 for
a range that ends where a chunk of the member begins, even when the range has no byte there.
`stripeIntersect_exact_iff` says that this is the only error.

`LOV::StripeOffset` is meant to be the same map for the objects of a file. It adds the remainder in
the whole stripe, and `lovOffset_iff` says for which offsets the two agree.
-/

set_option autoImplicit false

namespace LustreSimulator

open Lib

namespace Raid0Device

variable {d : Raid0Device} {s start count : Nat}

/-- `StripeOffset` counts the bytes on the member in front of the offset, and returns 0 when the
offset is on the member. -/
theorem stripeOffset_below (hdev : 0 < d.devcnt) (hchunk : 0 < d.chunk) (s x : Nat) :
    (d.stripeOffset s x).2 = Stripe.below d.devcnt d.chunk s x ∧
      ((d.stripeOffset s x).1 = 0 ↔ d.stripeNumber x = s) := by
  obtain ⟨round, stripe, place, hstripe, hplace, rfl⟩ := Stripe.exists_coords hdev hchunk x
  rw [stripeOffset_eq s hstripe hplace, stripeNumber_eq hstripe hplace,
    Stripe.below_coords hstripe hplace]
  rcases Nat.lt_trichotomy stripe s with h | rfl | h
  · rw [if_pos h, if_pos h]
    exact ⟨rfl, iff_of_false (fun hrc => nomatch hrc) (Nat.ne_of_lt h)⟩
  · rw [if_neg (Nat.lt_irrefl _), if_neg (Nat.lt_irrefl _), if_neg (Nat.lt_irrefl _),
      if_neg (Nat.lt_irrefl _)]
    exact ⟨rfl, iff_of_true rfl rfl⟩
  · rw [if_neg (by omega), if_pos h, if_neg (by omega), if_pos h]
    exact ⟨rfl, iff_of_false (fun hrc => nomatch hrc) (Nat.ne_of_gt h)⟩

/-- Where a byte falls on its member. -/
def image (d : Raid0Device) (b : Nat) : Nat := b / (d.devcnt * d.chunk) * d.chunk + b % d.chunk

/-- The byte is in the range and on the member `s`. -/
def OnStripe (d : Raid0Device) (s start count b : Nat) : Prop :=
  start ≤ b ∧ b < start + count ∧ d.stripeNumber b = s

/-- `StripeIntersect` is exact for the member `s`: it returns 1 when the range has a byte on the
member, and then the places it returns are those of the bytes of the range on the member. -/
def Exact (d : Raid0Device) (s start count : Nat) : Prop :=
  ∃ rc dstart dcount, d.stripeIntersect s start count = .ok (rc, dstart, dcount) ∧
    (rc = 1 ↔ ∃ b, d.OnStripe s start count b) ∧
    (rc = 1 → ∀ y, dstart ≤ y ∧ y < dstart + dcount ↔
      ∃ b, d.OnStripe s start count b ∧ d.image b = y)

/-- `StripeIntersect` finds the place `y` of the member `s` in the range. -/
def Covers (d : Raid0Device) (start count s y : Nat) : Prop :=
  ∃ dstart dcount, d.stripeIntersect s start count = .ok (1, dstart, dcount) ∧
    dstart ≤ y ∧ y < dstart + dcount

/-- The results for the members partition the range: every byte of the range is found on its member,
and every place that is found is the place of one byte of the range. -/
def Partition (d : Raid0Device) (start count : Nat) : Prop :=
  (∀ b, start ≤ b → b < start + count → d.Covers start count (d.stripeNumber b) (d.image b)) ∧
    ∀ s < d.devcnt, ∀ y, d.Covers start count s y →
      ∃! b, d.OnStripe s start count b ∧ d.image b = y

/-- The range ends where a chunk of the member begins, and is too short to reach the chunk of the
member before it. -/
def EndsBefore (d : Raid0Device) (s start count : Nat) : Prop :=
  (start + count) % d.chunk = 0 ∧ d.stripeNumber (start + count) = s ∧
    count ≤ (d.devcnt - 1) * d.chunk

/-- The places of the bytes of a range on a member. -/
theorem image_iff (hdev : 0 < d.devcnt) (hchunk : 0 < d.chunk) (hs : s < d.devcnt) (y : Nat) :
    Stripe.below d.devcnt d.chunk s start ≤ y ∧
      y < Stripe.below d.devcnt d.chunk s (start + count) ↔
        ∃ b, d.OnStripe s start count b ∧ d.image b = y := by
  rw [Stripe.below_image hdev hchunk hs]
  constructor
  · rintro ⟨b, hlo, hhi, rfl, rfl⟩
    exact ⟨b, ⟨hlo, hhi, rfl⟩, (Stripe.below_member hdev hchunk b).symm⟩
  · rintro ⟨b, ⟨hlo, hhi, rfl⟩, rfl⟩
    exact ⟨b, hlo, hhi, rfl, Stripe.below_member hdev hchunk b⟩

/-- A range has a byte on a member when the member has a byte between its two ends. -/
theorem onStripe_iff (hdev : 0 < d.devcnt) (hchunk : 0 < d.chunk) (hs : s < d.devcnt) :
    (∃ b, d.OnStripe s start count b) ↔
      Stripe.below d.devcnt d.chunk s start < Stripe.below d.devcnt d.chunk s (start + count) := by
  constructor
  · rintro ⟨b, hb⟩
    obtain ⟨hlo, hhi⟩ := (image_iff hdev hchunk hs (d.image b)).mpr ⟨b, hb, rfl⟩
    omega
  · intro hlt
    obtain ⟨b, hb, -⟩ := (@image_iff d s start count hdev hchunk hs _).mp ⟨Nat.le_refl _, hlt⟩
    exact ⟨b, hb⟩

/-- A range without bytes on a member that has the byte behind the range ends where a chunk of the
member begins. -/
theorem endsBefore_iff (hdev : 0 < d.devcnt) (hchunk : 0 < d.chunk) (hcount : 0 < count) :
    d.EndsBefore s start count ↔
      (¬ ∃ b, d.OnStripe s start count b) ∧ d.stripeNumber (start + count) = s := by
  obtain ⟨w, hw⟩ : ∃ w, d.devcnt = w + 1 := ⟨d.devcnt - 1, by omega⟩
  obtain ⟨round, stripe, place, hstripe, hplace, hend⟩ :=
    Stripe.exists_coords hdev hchunk (start + count)
  unfold EndsBefore
  rw [hend, Stripe.coords_mod_chunk hplace, stripeNumber_eq hstripe hplace, hw, Nat.add_sub_cancel]
  rw [hw] at hend hstripe
  have hround : ∀ k, (k + 1) * ((w + 1) * d.chunk) =
      k * ((w + 1) * d.chunk) + (w * d.chunk + d.chunk) := fun k => by ring
  constructor
  · rintro ⟨rfl, rfl, hshort⟩
    refine ⟨?_, rfl⟩
    rintro ⟨b, hlo, hhi, hmem⟩
    obtain ⟨r, t, q, ht, hq, hb⟩ := Stripe.exists_coords hdev hchunk b
    rw [hb, stripeNumber_eq ht hq] at hmem
    subst hmem
    rw [hw] at hb
    -- the byte is in an earlier round, so a whole round less one chunk lies between it and the end
    have hlt : r < round := by
      by_contra hle
      have hmul : round * ((w + 1) * d.chunk) ≤ r * ((w + 1) * d.chunk) :=
        Nat.mul_le_mul_right _ (Nat.le_of_not_lt hle)
      omega
    have hmul : (r + 1) * ((w + 1) * d.chunk) ≤ round * ((w + 1) * d.chunk) :=
      Nat.mul_le_mul_right _ hlt
    rw [hround] at hmul
    omega
  · rintro ⟨hnone, rfl⟩
    have hzero : place = 0 := by
      by_contra hne
      -- otherwise the last byte of the range is in the same chunk
      refine hnone ⟨start + count - 1, by omega, by omega, ?_⟩
      have hlast : start + count - 1 =
          round * (d.devcnt * d.chunk) + (stripe * d.chunk + (place - 1)) := by
        rw [hw]
        omega
      rw [hlast, stripeNumber_eq (by rw [hw]; exact hstripe) (by omega)]
    refine ⟨hzero, rfl, ?_⟩
    by_contra hlong
    rcases round with _ | round
    · have hle : stripe * d.chunk ≤ w * d.chunk := Nat.mul_le_mul_right _ (by omega)
      omega
    · -- otherwise the last byte of the member's previous chunk is in the range
      rw [hround] at hend
      refine hnone ⟨start + count - w * d.chunk - 1, by omega, by omega, ?_⟩
      have hprev : start + count - w * d.chunk - 1 =
          round * (d.devcnt * d.chunk) + (stripe * d.chunk + (d.chunk - 1)) := by
        rw [hw]
        omega
      rw [hprev, stripeNumber_eq (by rw [hw]; exact hstripe) (by omega)]

/-- What `StripeIntersect` returns. -/
theorem stripeIntersect_eq (hdev : 0 < d.devcnt) (hchunk : 0 < d.chunk)
    (hstart : start ≠ obdObjectEof) (heof : count ≠ obdObjectEof) (s : Nat) :
    d.stripeIntersect s start count = .ok (
      if d.stripeNumber start ≠ s ∧ d.stripeNumber (start + count) ≠ s ∧
        Stripe.below d.devcnt d.chunk s start = Stripe.below d.devcnt d.chunk s (start + count)
      then (0, Stripe.below d.devcnt d.chunk s start,
        Stripe.below d.devcnt d.chunk s (start + count))
      else (1, Stripe.below d.devcnt d.chunk s start,
        Stripe.below d.devcnt d.chunk s (start + count) -
          Stripe.below d.devcnt d.chunk s start)) := by
  obtain ⟨hfst, hzero⟩ := stripeOffset_below hdev hchunk s start
  obtain ⟨hsnd, hzero'⟩ := stripeOffset_below hdev hchunk s (start + count)
  unfold stripeIntersect
  rw [check_true ⟨hstart, heof⟩, ok_bind]
  dsimp only
  rw [hfst, hsnd]
  simp only [ne_eq, hzero, hzero']
  split
  · rfl
  · rfl

/-- A range without a byte on a member does not begin on it. -/
theorem ne_of_not_onStripe (hcount : 0 < count) (h : ¬ ∃ b, d.OnStripe s start count b) :
    d.stripeNumber start ≠ s := by
  rintro rfl
  exact h ⟨start, Nat.le_refl _, by omega, rfl⟩

/-- The results of `StripeIntersect` for one member. -/
theorem exact_iff (hdev : 0 < d.devcnt) (hchunk : 0 < d.chunk) (hcount : 0 < count)
    (hend : start + count ≤ obdObjectEof) (hs : s < d.devcnt) :
    d.Exact s start count ↔ count ≠ obdObjectEof ∧ ¬ d.EndsBefore s start count := by
  by_cases heof : count = obdObjectEof
  · refine iff_of_false ?_ fun h => h.1 heof
    rintro ⟨rc, dstart, dcount, h, -⟩
    unfold stripeIntersect check at h
    rw [if_neg (fun hne => hne.2 heof)] at h
    cases h
  · have heq := @stripeIntersect_eq d start count hdev hchunk (by omega) heof s
    have hmono := Stripe.below_mono hdev hchunk hs start count
    rw [endsBefore_iff hdev hchunk hcount, and_iff_right heof]
    by_cases hbyte : ∃ b, d.OnStripe s start count b
    · -- the range has a byte on the member
      have hlt := (onStripe_iff hdev hchunk hs).mp hbyte
      rw [if_neg fun h => Nat.ne_of_lt hlt h.2.2] at heq
      refine iff_of_true ⟨1, _, _, heq, iff_of_true rfl hbyte, fun _ y => ?_⟩ fun h => h.1 hbyte
      rw [Nat.add_sub_cancel' hmono]
      exact image_iff hdev hchunk hs y
    · have hsame : Stripe.below d.devcnt d.chunk s start =
          Stripe.below d.devcnt d.chunk s (start + count) :=
        Nat.le_antisymm hmono
          (Nat.le_of_not_lt fun hlt => hbyte ((onStripe_iff hdev hchunk hs).mpr hlt))
      have hstart := ne_of_not_onStripe hcount hbyte
      by_cases hlast : d.stripeNumber (start + count) = s
      · rw [if_neg fun h => h.2.1 hlast] at heq
        refine iff_of_false ?_ fun h => h ⟨hbyte, hlast⟩
        rintro ⟨rc, dstart, dcount, h, hrc, -⟩
        rw [heq] at h
        cases h
        exact hbyte (hrc.mp rfl)
      · rw [if_pos ⟨hstart, hlast, hsame⟩] at heq
        refine iff_of_true ⟨0, _, _, heq, iff_of_false (fun h => nomatch h) hbyte,
          fun h => nomatch h⟩ fun h => hlast h.2

/-- The places that are found are those of the bytes of the range on the member. -/
theorem covers_iff (hdev : 0 < d.devcnt) (hchunk : 0 < d.chunk) (hstart : start ≠ obdObjectEof)
    (heof : count ≠ obdObjectEof) (hs : s < d.devcnt) (y : Nat) :
    d.Covers start count s y ↔ ∃ b, d.OnStripe s start count b ∧ d.image b = y := by
  have heq := stripeIntersect_eq hdev hchunk hstart heof s
  have hmono := Stripe.below_mono hdev hchunk hs start count
  rw [← image_iff hdev hchunk hs]
  split at heq
  · rename_i hout
    refine iff_of_false ?_ ?_
    · rintro ⟨dstart, dcount, h, -⟩
      rw [heq] at h
      cases h
    · rw [hout.2.2]
      omega
  · constructor
    · rintro ⟨dstart, dcount, h, hy⟩
      rw [heq] at h
      cases h
      omega
    · intro hy
      exact ⟨_, _, heq, by omega⟩

/-- The results partition the range, unless the assertion on the count fires. -/
theorem partition_iff (hdev : 0 < d.devcnt) (hchunk : 0 < d.chunk) (hcount : 0 < count)
    (hend : start + count ≤ obdObjectEof) :
    d.Partition start count ↔ count ≠ obdObjectEof := by
  have hmember : ∀ b, d.stripeNumber b < d.devcnt := by
    intro b
    obtain ⟨round, stripe, place, hstripe, hplace, rfl⟩ := Stripe.exists_coords hdev hchunk b
    rw [stripeNumber_eq hstripe hplace]
    exact hstripe
  constructor
  · rintro ⟨hfound, -⟩ heof
    obtain ⟨dstart, dcount, h, -⟩ := hfound start (Nat.le_refl _) (by omega)
    unfold stripeIntersect check at h
    rw [if_neg (fun hne => hne.2 heof)] at h
    cases h
  · intro heof
    have hstart : start ≠ obdObjectEof := by omega
    refine ⟨fun b hlo hhi => ?_, fun s hs y hy => ?_⟩
    · exact (covers_iff hdev hchunk hstart heof (hmember b) _).mpr ⟨b, ⟨hlo, hhi, rfl⟩, rfl⟩
    · obtain ⟨b, hb, hy⟩ := (covers_iff hdev hchunk hstart heof hs y).mp hy
      refine ⟨b, ⟨hb, hy⟩, ?_⟩
      rintro b' ⟨hb', hy'⟩
      refine Stripe.below_injective hdev hchunk (hb'.2.2.trans hb.2.2.symm) ?_
      rw [Stripe.below_member hdev hchunk, Stripe.below_member hdev hchunk]
      exact hy'.trans hy.symm

/-- **The intersection of a range with a member.** It is exact unless the range ends where a chunk
of the member begins without having a byte of the member, or its length is `OBD_OBJECT_EOF`. The
results for all members partition the range, unless its length is `OBD_OBJECT_EOF`. -/
theorem stripeIntersect_exact_iff (d : Raid0Device) (start count : Nat) (hdev : 1 ≤ d.devcnt)
    (hchunk : 0 < d.chunk) (hcount : 0 < count) (hend : start + count ≤ obdObjectEof) :
    (∀ s < d.devcnt, d.Exact s start count ↔
      count ≠ obdObjectEof ∧ ¬ ((start + count) % d.chunk = 0 ∧
        d.stripeNumber (start + count) = s ∧ count ≤ (d.devcnt - 1) * d.chunk)) ∧
    (d.Partition start count ↔ count ≠ obdObjectEof) :=
  ⟨fun _ hs => exact_iff hdev hchunk hcount hend hs, partition_iff hdev hchunk hcount hend⟩

/-- Two members with chunks of 4 bytes, and the range of the bytes 2 to 4. -/
theorem stripeIntersect_exact_iff_small :
    (∀ s < 2, Exact ⟨2, 4⟩ s 2 3 ↔ 3 ≠ obdObjectEof ∧ ¬ ((2 + 3) % 4 = 0 ∧
      stripeNumber ⟨2, 4⟩ (2 + 3) = s ∧ 3 ≤ (2 - 1) * 4)) ∧
    (Partition ⟨2, 4⟩ 2 3 ↔ 3 ≠ obdObjectEof) :=
  stripeIntersect_exact_iff ⟨2, 4⟩ 2 3 (by decide) (by decide) (by decide) (by decide)

/-- The first chunk is a range without a byte on the second member, but `StripeIntersect` returns 1
for it. -/
theorem stripeIntersect_empty :
    stripeIntersect ⟨2, 4⟩ 1 0 4 = .ok (1, 0, 0) ∧ ¬ ∃ b, OnStripe ⟨2, 4⟩ 1 0 4 b := by
  refine ⟨rfl, ?_⟩
  rintro ⟨b, -, hhi, hmem⟩
  unfold stripeNumber at hmem
  dsimp only at hmem
  omega

end Raid0Device

namespace Lov

/-- The device whose members are the objects of a file. -/
def raid (lyt : Layout) : Raid0Device := ⟨lyt.stripeCount, lyt.stripeSize⟩

/-- The bytes of the object `j` are dense from the object offset 0. -/
def Dense (lyt : Layout) (j : Nat) : Prop :=
  ∀ o, ∃ off, (raid lyt).stripeNumber off = j ∧ stripeOffset lyt off = o

/-- `LOV::StripeOffset` adds the chunks of the objects in front of the byte's object. -/
theorem stripeOffset_coords {lyt : Layout} {round stripe place : Nat}
    (hs : stripe < lyt.stripeCount) (hp : place < lyt.stripeSize) :
    stripeOffset lyt (round * (lyt.stripeCount * lyt.stripeSize) +
      (stripe * lyt.stripeSize + place)) =
        round * lyt.stripeSize + (stripe * lyt.stripeSize + place) := by
  obtain ⟨hdiv, hmod⟩ := Stripe.coords_div_mod round hs hp
  unfold stripeOffset
  dsimp only
  rw [Nat.mul_comm lyt.stripeSize lyt.stripeCount, hdiv, hmod]

/-- The two layers agree on the offsets of the first object, and only there. -/
theorem stripeOffset_eq_iff (lyt : Layout) (off : Nat) :
    stripeOffset lyt off = ((raid lyt).stripeOffset ((raid lyt).stripeNumber off) off).2 ↔
      off % (lyt.stripeSize * lyt.stripeCount) < lyt.stripeSize := by
  obtain ⟨round, stripe, place, hstripe, hplace, rfl⟩ :=
    Stripe.exists_coords lyt.count_pos lyt.size_pos off
  have hraid := @Raid0Device.stripeOffset_eq (raid lyt) stripe round stripe place hstripe hplace
  have hnumber := @Raid0Device.stripeNumber_eq (raid lyt) round stripe place hstripe hplace
  rw [if_neg (Nat.lt_irrefl _), if_neg (Nat.lt_irrefl _)] at hraid
  have hmul : stripe ≠ 0 → lyt.stripeSize ≤ stripe * lyt.stripeSize := fun hne =>
    Nat.le_mul_of_pos_left _ (Nat.pos_of_ne_zero hne)
  have hplaces : ((raid lyt).stripeOffset ((raid lyt).stripeNumber
      (round * (lyt.stripeCount * lyt.stripeSize) + (stripe * lyt.stripeSize + place)))
      (round * (lyt.stripeCount * lyt.stripeSize) + (stripe * lyt.stripeSize + place))).2 =
        round * lyt.stripeSize + place := by
    rw [show (raid lyt).stripeNumber (round * (lyt.stripeCount * lyt.stripeSize) +
      (stripe * lyt.stripeSize + place)) = stripe from hnumber]
    exact congrArg Prod.snd hraid
  rw [hplaces, stripeOffset_coords hstripe hplace, Nat.mul_comm lyt.stripeSize,
    (Stripe.coords_div_mod round hstripe hplace).2]
  rcases Nat.eq_zero_or_pos stripe with rfl | hpos
  · omega
  · have hle := hmul (Nat.ne_of_gt hpos)
    omega

/-- Only the bytes of the first object are dense from 0. -/
theorem dense_iff (lyt : Layout) {j : Nat} (hj : j < lyt.stripeCount) : Dense lyt j ↔ j = 0 := by
  constructor
  · intro h
    obtain ⟨off, hnumber, hoff⟩ := h 0
    obtain ⟨round, stripe, place, hstripe, hplace, rfl⟩ :=
      Stripe.exists_coords lyt.count_pos lyt.size_pos off
    rw [stripeOffset_coords hstripe hplace] at hoff
    have hnumber' := @Raid0Device.stripeNumber_eq (raid lyt) round stripe place hstripe hplace
    have heq : stripe = j := hnumber'.symm.trans hnumber
    subst heq
    rcases Nat.eq_zero_or_pos stripe with hzero | hpos
    · exact hzero
    · have hle := Nat.le_mul_of_pos_left lyt.stripeSize hpos
      have hsize := lyt.size_pos
      omega
  · rintro rfl o
    refine ⟨o / lyt.stripeSize * (lyt.stripeCount * lyt.stripeSize) +
      (0 * lyt.stripeSize + o % lyt.stripeSize), ?_, ?_⟩
    · exact Raid0Device.stripeNumber_eq (d := raid lyt) hj (Nat.mod_lt _ lyt.size_pos)
    · rw [stripeOffset_coords hj (Nat.mod_lt _ lyt.size_pos), Nat.zero_mul, Nat.zero_add,
        Nat.div_add_mod']

/-- **The two striping maps.** `LOV::StripeOffset` is the offset of `Raid0Device::StripeOffset` for
the bytes of the first object only, and only the bytes of this object are dense from 0. -/
theorem lovOffset_iff (lyt : Layout) :
    (∀ off, stripeOffset lyt off =
        ((raid lyt).stripeOffset ((raid lyt).stripeNumber off) off).2 ↔
      off % (lyt.stripeSize * lyt.stripeCount) < lyt.stripeSize) ∧
    ∀ j < lyt.stripeCount, Dense lyt j ↔ j = 0 :=
  ⟨stripeOffset_eq_iff lyt, fun _ hj => dense_iff lyt hj⟩

/-- Two objects with stripes of 4 bytes: the byte 4 is the first one of the second object, but its
offset there is 4. -/
theorem lovOffset_second : stripeOffset ⟨4, 2, by decide, by decide⟩ 4 = 4 ∧
    (raid ⟨4, 2, by decide, by decide⟩).stripeNumber 4 = 1 ∧
    ((raid ⟨4, 2, by decide, by decide⟩).stripeOffset 1 4).2 = 0 :=
  ⟨rfl, rfl, rfl⟩

end Lov

end LustreSimulator
