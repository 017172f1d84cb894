import LustreSimulator.Lib.Stripe
import LustreSimulator.Lov

/-!
# `LustreSimulator.Proofs.Lov`: which bytes a striped IO sends apart

`place` is where a byte belongs: the object of its stripe and `StripeOffset`. `place_injective`
says that no two bytes belong to one place. A sub-IO starts where its first byte belongs and runs
on over the end of the stripe, on the same object. So a byte that its sub-IO reaches behind the
end of a stripe lands where the byte `(stripe_count - 1) * stripe_size` further on belongs
(`sentTo_eq`, with `home`). These are the bytes whose position in the stripe is before the position
of the IO's offset.

`readWrite_striping` is the result: the sub-IOs sum to the IO, and two IOs keep their bytes apart
exactly when no byte that one of them moves on meets a byte that the other leaves in place.
-/

set_option autoImplicit false

namespace LustreSimulator.Lov

open Lib

/-- The byte `b` is one of the bytes of the IO. -/
def Holds (io : IoDesc) (b : Nat) : Prop := io.off ≤ b ∧ b < io.off + io.count

/-- `ReadWrite` accepts the IO: its check of the layout succeeds. -/
def Accepts (lyt : Layout) (io : IoDesc) : Prop := check lyt io.count = .ok true

/-- Where a byte of the file belongs: the object of its stripe and its `StripeOffset`. -/
def place (lyt : Layout) (b : Nat) : Nat × Nat :=
  (b / lyt.stripeSize % lyt.stripeCount, stripeOffset lyt b)

/-- The byte that belongs where the byte `b` of an IO from `off` on is sent. -/
def home (lyt : Layout) (off b : Nat) : Nat :=
  if b % lyt.stripeSize < off % lyt.stripeSize then b + (lyt.stripeCount - 1) * lyt.stripeSize
  else b

/-- `StripeOffset` in coordinates. -/
theorem stripeOffset_eq {lyt : Layout} {round stripe p : Nat} (hs : stripe < lyt.stripeCount)
    (hp : p < lyt.stripeSize) :
    stripeOffset lyt (round * (lyt.stripeCount * lyt.stripeSize) + (stripe * lyt.stripeSize + p)) =
      round * lyt.stripeSize + (stripe * lyt.stripeSize + p) := by
  obtain ⟨hdiv, hmod⟩ := Stripe.coords_div_mod round hs hp
  unfold stripeOffset
  rw [Nat.mul_comm lyt.stripeSize lyt.stripeCount]
  dsimp only
  rw [hdiv, hmod]

/-- The place of a byte in coordinates. -/
theorem place_eq {lyt : Layout} {round stripe p : Nat} (hs : stripe < lyt.stripeCount)
    (hp : p < lyt.stripeSize) :
    place lyt (round * (lyt.stripeCount * lyt.stripeSize) + (stripe * lyt.stripeSize + p)) =
      (stripe, round * lyt.stripeSize + (stripe * lyt.stripeSize + p)) := by
  unfold place
  rw [Stripe.coords_member hs hp, stripeOffset_eq hs hp]

/-- No two bytes belong to one place. -/
theorem place_injective (lyt : Layout) {a b : Nat} (h : place lyt a = place lyt b) : a = b := by
  obtain ⟨r, s, p, hs, hp, rfl⟩ := Stripe.exists_coords lyt.count_pos lyt.size_pos a
  obtain ⟨r', s', p', hs', hp', rfl⟩ := Stripe.exists_coords lyt.count_pos lyt.size_pos b
  rw [place_eq hs hp, place_eq hs' hp'] at h
  obtain ⟨rfl, hoff⟩ := Prod.mk.inj h
  -- on one object the offset has the round and the position as its coordinates
  have hrounds : r * lyt.stripeSize + p = r' * lyt.stripeSize + p' := by omega
  have hr : r = r' := by
    have h₁ : (r * lyt.stripeSize + p) / lyt.stripeSize = r := by
      rw [Nat.mul_comm, Nat.mul_add_div lyt.size_pos, Nat.div_eq_of_lt hp, Nat.add_zero]
    have h₂ : (r' * lyt.stripeSize + p') / lyt.stripeSize = r' := by
      rw [Nat.mul_comm, Nat.mul_add_div lyt.size_pos, Nat.div_eq_of_lt hp', Nat.add_zero]
    rw [← h₁, hrounds, h₂]
  subst hr
  omega

/-- A sub-IO from `off` on sends its byte `j` where the byte `home` belongs, also behind the end
of the stripe. -/
theorem place_home {lyt : Layout} (off : Nat) {j : Nat} (hj : j < lyt.stripeSize) :
    place lyt (home lyt off (off + j)) =
      (off / lyt.stripeSize % lyt.stripeCount, stripeOffset lyt off + j) := by
  obtain ⟨r, s, p, hs, hp, rfl⟩ := Stripe.exists_coords lyt.count_pos lyt.size_pos off
  rw [Stripe.coords_member hs hp, stripeOffset_eq hs hp]
  unfold home
  rw [Stripe.coords_mod_chunk hp]
  rcases Nat.lt_or_ge (p + j) lyt.stripeSize with hin | hout
  · rw [show r * (lyt.stripeCount * lyt.stripeSize) + (s * lyt.stripeSize + p) + j =
      r * (lyt.stripeCount * lyt.stripeSize) + (s * lyt.stripeSize + (p + j)) by omega,
      Stripe.coords_mod_chunk hin, if_neg (by omega), place_eq hs hin]
    congr 1
    omega
  · -- the byte is in the next stripe, and its home is one round after the sub-IO's stripe
    have hp' : p + j - lyt.stripeSize < lyt.stripeSize := by omega
    have hmod : (r * (lyt.stripeCount * lyt.stripeSize) + (s * lyt.stripeSize + p) + j) %
        lyt.stripeSize = p + j - lyt.stripeSize := by
      rw [show r * (lyt.stripeCount * lyt.stripeSize) + (s * lyt.stripeSize + p) + j =
        lyt.stripeSize * (r * lyt.stripeCount + s + 1) + (p + j - lyt.stripeSize) by
          have : lyt.stripeSize * (r * lyt.stripeCount + s + 1) =
            r * (lyt.stripeCount * lyt.stripeSize) + s * lyt.stripeSize + lyt.stripeSize := by ring
          omega,
        Nat.mul_add_mod, Nat.mod_eq_of_lt hp']
    have hhome : r * (lyt.stripeCount * lyt.stripeSize) + (s * lyt.stripeSize + p) + j +
        (lyt.stripeCount - 1) * lyt.stripeSize =
        (r + 1) * (lyt.stripeCount * lyt.stripeSize) +
          (s * lyt.stripeSize + (p + j - lyt.stripeSize)) := by
      have hle : lyt.stripeSize ≤ lyt.stripeCount * lyt.stripeSize :=
        Nat.le_mul_of_pos_left _ lyt.count_pos
      rw [Nat.sub_mul, Nat.one_mul, Nat.add_mul, Nat.one_mul]
      omega
    rw [hmod, if_pos (by omega), hhome, place_eq hs hp', Nat.add_mul, Nat.one_mul]
    congr 1
    omega

/-- One turn of the loop. -/
theorem readWriteLoop_turn (lyt : Layout) (cmd : Cmd) (off idx ref : Nat) {left : Nat}
    (hleft : 0 < left) :
    let c := min left lyt.stripeSize
    let rest := readWriteLoop lyt cmd (off + c) (left - c) ((idx + 1) % lyt.stripeCount) (ref + 1)
    readWriteLoop lyt cmd off left idx ref =
      { rest with subs := ⟨cmd, idx, stripeOffset lyt off, c⟩ :: rest.subs } := by
  intro c rest
  rw [readWriteLoop, if_neg (by omega)]
  rfl

/-- The loop sends every byte where its home belongs, and its sub-IOs sum to the bytes left. -/
theorem readWriteLoop_spec (lyt : Layout) (cmd : Cmd) (off left ref : Nat) :
    let r := readWriteLoop lyt cmd off left (off / lyt.stripeSize % lyt.stripeCount) ref
    r.rc = 0 ∧ (r.subs.map SubIo.count).sum = left ∧
      ∀ j < left, locate r.subs j = some (place lyt (home lyt off (off + j))) := by
  induction left using Nat.strong_induction_on generalizing off ref with
  | _ left ih =>
    have hpos := lyt.size_pos
    rcases Nat.eq_zero_or_pos left with rfl | hleft
    · rw [readWriteLoop, if_pos rfl]
      exact ⟨rfl, rfl, fun j hj => absurd hj (Nat.not_lt_zero j)⟩
    · rw [readWriteLoop_turn lyt cmd off _ ref hleft]
      rcases Nat.lt_or_ge lyt.stripeSize left with hlong | hshort
      · -- a whole stripe size goes to this object, and the next offset is on the next object
        rw [Nat.min_eq_right hlong.le]
        have hidx : (off / lyt.stripeSize % lyt.stripeCount + 1) % lyt.stripeCount =
            (off + lyt.stripeSize) / lyt.stripeSize % lyt.stripeCount := by
          rw [Nat.add_div_right _ hpos, Nat.mod_add_mod]
        rw [hidx]
        obtain ⟨hrc, hsum, hsent⟩ := ih (left - lyt.stripeSize) (by omega)
          (off + lyt.stripeSize) (ref + 1)
        refine ⟨hrc, ?_, fun j hj => ?_⟩
        · rw [List.map_cons, List.sum_cons, hsum]
          dsimp only
          omega
        · unfold locate
          dsimp only
          split
          · next hin => rw [place_home off hin]
          · next hout =>
              rw [hsent _ (by omega), show off + lyt.stripeSize + (j - lyt.stripeSize) = off + j by
                omega]
              unfold home
              rw [Nat.add_mod_right]
      · -- the last sub-IO takes all bytes that are left
        rw [Nat.min_eq_left hshort, Nat.sub_self, readWriteLoop, if_pos rfl]
        refine ⟨rfl, by simp, fun j hj => ?_⟩
        unfold locate
        dsimp only
        rw [if_pos hj, place_home off (by omega)]

/-- An accepted IO is submitted in full, and every byte is sent where its home belongs. -/
theorem readWrite_spec {lyt : Layout} {io : IoDesc} (h : Accepts lyt io) :
    (∃ r, readWrite lyt io = .ok r ∧ r.rc = 0 ∧ (r.subs.map SubIo.count).sum = io.count) ∧
      ∀ b, Holds io b → sentTo lyt io b = some (place lyt (home lyt io.off b)) := by
  have hrun : readWrite lyt io = .ok (readWriteLoop lyt io.cmd io.off io.count
      (io.off / lyt.stripeSize % lyt.stripeCount) io.ref) := by
    unfold readWrite
    rw [h, ok_bind, check_true rfl, ok_bind]
  obtain ⟨hrc, hsum, hsent⟩ := readWriteLoop_spec lyt io.cmd io.off io.count io.ref
  refine ⟨⟨_, hrun, hrc, hsum⟩, fun b ⟨hlo, hhi⟩ => ?_⟩
  unfold sentTo
  rw [hrun]
  show locate _ (b - io.off) = _
  rw [hsent _ (by omega), Nat.add_sub_cancel' hlo]

/-- Two IOs keep their bytes apart: a byte of the one and a byte of the other are sent to one place
exactly when they are the same byte of the file. -/
def KeepsApart (lyt : Layout) (io₁ io₂ : IoDesc) : Prop :=
  ∀ b₁ b₂, Holds io₁ b₁ → Holds io₂ b₂ → (sentTo lyt io₁ b₁ = sentTo lyt io₂ b₂ ↔ b₁ = b₂)

/-- The byte `b` of the IO lies behind the end of the stripe in which its sub-IO starts. -/
def Spilled (lyt : Layout) (io : IoDesc) (b : Nat) : Prop :=
  Holds io b ∧ b % lyt.stripeSize < io.off % lyt.stripeSize

/-- The byte `b` of the IO lies in the stripe in which its sub-IO starts. -/
def Kept (lyt : Layout) (io : IoDesc) (b : Nat) : Prop :=
  Holds io b ∧ io.off % lyt.stripeSize ≤ b % lyt.stripeSize

/-- No spilled byte of the first IO is a kept byte of the second, and none is
`(stripe_count - 1) * stripe_size` before one. -/
def Clear (lyt : Layout) (io₁ io₂ : IoDesc) : Prop :=
  ∀ b, Spilled lyt io₁ b →
    ¬ Kept lyt io₂ b ∧ ¬ Kept lyt io₂ (b + (lyt.stripeCount - 1) * lyt.stripeSize)

/-- Every byte of an IO is spilled or kept. -/
theorem spilled_or_kept (lyt : Layout) {io : IoDesc} {b : Nat} (h : Holds io b) :
    Spilled lyt io b ∨ Kept lyt io b := by
  rcases Nat.lt_or_ge (b % lyt.stripeSize) (io.off % lyt.stripeSize) with hlt | hge
  · exact .inl ⟨h, hlt⟩
  · exact .inr ⟨h, hge⟩

/-- Two spilled bytes are moved by the same distance, and two kept bytes are not moved. -/
theorem home_eq_iff_same {lyt : Layout} {io₁ io₂ : IoDesc} {b₁ b₂ : Nat}
    (h : Spilled lyt io₁ b₁ ∧ Spilled lyt io₂ b₂ ∨ Kept lyt io₁ b₁ ∧ Kept lyt io₂ b₂) :
    home lyt io₁.off b₁ = home lyt io₂.off b₂ ↔ b₁ = b₂ := by
  unfold home
  rcases h with ⟨h₁, h₂⟩ | ⟨h₁, h₂⟩
  · rw [if_pos h₁.2, if_pos h₂.2]
    omega
  · rw [if_neg (Nat.not_lt.mpr h₁.2), if_neg (Nat.not_lt.mpr h₂.2)]

/-- With several stripes, a spilled and a kept byte are kept apart when the spilled byte and its
home both miss the kept byte. -/
theorem home_eq_iff {lyt : Layout} (hcount : lyt.stripeCount ≠ 1) {io₁ io₂ : IoDesc} {b₁ b₂ : Nat}
    (h₁ : Spilled lyt io₁ b₁) (h₂ : Kept lyt io₂ b₂) :
    (home lyt io₁.off b₁ = home lyt io₂.off b₂ ↔ b₁ = b₂) ↔
      b₂ ≠ b₁ ∧ b₂ ≠ b₁ + (lyt.stripeCount - 1) * lyt.stripeSize := by
  have hpos : 0 < (lyt.stripeCount - 1) * lyt.stripeSize :=
    Nat.mul_pos (by have := lyt.count_pos; omega) lyt.size_pos
  unfold home
  rw [if_pos h₁.2, if_neg (Nat.not_lt.mpr h₂.2)]
  omega

/-- The homes of the bytes of two IOs differ where the bytes do exactly when the spilled bytes of
each IO are clear of the kept bytes of the other. -/
theorem homes_iff (lyt : Layout) (io₁ io₂ : IoDesc) :
    (∀ b₁ b₂, Holds io₁ b₁ → Holds io₂ b₂ →
      (home lyt io₁.off b₁ = home lyt io₂.off b₂ ↔ b₁ = b₂)) ↔
    lyt.stripeCount = 1 ∨ Clear lyt io₁ io₂ ∧ Clear lyt io₂ io₁ := by
  by_cases hcount : lyt.stripeCount = 1
  · -- with one stripe nothing moves
    have hhome : ∀ off b, home lyt off b = b := by
      intro off b
      unfold home
      rw [hcount, Nat.sub_self, Nat.zero_mul, Nat.add_zero, ite_self]
    exact ⟨fun _ => .inl hcount, fun _ b₁ b₂ _ _ => by rw [hhome, hhome]⟩
  · constructor
    · intro h
      refine .inr ⟨fun b hb => ?_, fun b hb => ?_⟩
      · refine ⟨fun hk => ?_, fun hk => ?_⟩
        · exact ((home_eq_iff hcount hb hk).mp (h _ _ hb.1 hk.1)).1 rfl
        · exact ((home_eq_iff hcount hb hk).mp (h _ _ hb.1 hk.1)).2 rfl
      · have hsymm : ∀ c, Kept lyt io₁ c →
            (home lyt io₂.off b = home lyt io₁.off c ↔ b = c) := fun c hk => by
          rw [eq_comm, h c b hk.1 hb.1, eq_comm]
        refine ⟨fun hk => ?_, fun hk => ?_⟩
        · exact ((home_eq_iff hcount hb hk).mp (hsymm _ hk)).1 rfl
        · exact ((home_eq_iff hcount hb hk).mp (hsymm _ hk)).2 rfl
    · rintro (h | ⟨hclear₁, hclear₂⟩) b₁ b₂ hb₁ hb₂
      · exact absurd h hcount
      · rcases spilled_or_kept lyt hb₁ with h₁ | h₁ <;> rcases spilled_or_kept lyt hb₂ with h₂ | h₂
        · exact home_eq_iff_same (.inl ⟨h₁, h₂⟩)
        · refine (home_eq_iff hcount h₁ h₂).mpr ⟨?_, ?_⟩
          · rintro rfl
            exact (hclear₁ _ h₁).1 h₂
          · rintro rfl
            exact (hclear₁ _ h₁).2 h₂
        · rw [eq_comm, eq_comm (a := b₁)]
          refine (home_eq_iff hcount h₂ h₁).mpr ⟨?_, ?_⟩
          · rintro rfl
            exact (hclear₂ _ h₂).1 h₁
          · rintro rfl
            exact (hclear₂ _ h₂).2 h₁
        · exact home_eq_iff_same (.inr ⟨h₁, h₂⟩)

/-- Two accepted IOs keep their bytes apart exactly when the file has one stripe or the spilled
bytes of each are clear of the kept bytes of the other. -/
theorem keepsApart_iff_clear {lyt : Layout} {io₁ io₂ : IoDesc} (h₁ : Accepts lyt io₁)
    (h₂ : Accepts lyt io₂) :
    KeepsApart lyt io₁ io₂ ↔ lyt.stripeCount = 1 ∨ Clear lyt io₁ io₂ ∧ Clear lyt io₂ io₁ := by
  have hhome : ∀ b₁ b₂, Holds io₁ b₁ → Holds io₂ b₂ →
      (sentTo lyt io₁ b₁ = sentTo lyt io₂ b₂ ↔ home lyt io₁.off b₁ = home lyt io₂.off b₂) := by
    intro b₁ b₂ hb₁ hb₂
    rw [(readWrite_spec h₁).2 b₁ hb₁, (readWrite_spec h₂).2 b₂ hb₂, Option.some_inj]
    exact ⟨place_injective lyt, congrArg (place lyt)⟩
  rw [← homes_iff]
  constructor
  · intro h b₁ b₂ hb₁ hb₂
    rw [← hhome b₁ b₂ hb₁ hb₂]
    exact h b₁ b₂ hb₁ hb₂
  · intro h b₁ b₂ hb₁ hb₂
    rw [hhome b₁ b₂ hb₁ hb₂]
    exact h b₁ b₂ hb₁ hb₂

/-- A layout keeps all accepted IOs apart exactly when it has one stripe or stripes of one byte. -/
theorem keepsApart_iff (lyt : Layout) :
    (∀ io₁ io₂, Accepts lyt io₁ → Accepts lyt io₂ → KeepsApart lyt io₁ io₂) ↔
      lyt.stripeCount = 1 ∨ lyt.stripeSize = 1 := by
  have hpos := lyt.size_pos
  constructor
  · intro h
    by_contra hnot
    push Not at hnot
    -- one stripe size from byte 1 on reaches the first byte of the second stripe
    have hlong : Accepts lyt ⟨.read, 0, 1, lyt.stripeSize⟩ := by
      unfold Accepts check
      rw [if_neg (Nat.ne_of_gt hpos)]
      simp
    have hone : Accepts lyt ⟨.read, 0, lyt.stripeSize, 1⟩ := by
      unfold Accepts check
      simp [Nat.mod_one]
    rcases (keepsApart_iff_clear hlong hone).mp (h _ _ hlong hone) with hcount | ⟨hclear, -⟩
    · exact hnot.1 hcount
    · refine (hclear lyt.stripeSize ⟨⟨hpos, ?_⟩, ?_⟩).1 ⟨⟨le_rfl, Nat.lt_succ_self _⟩, le_rfl⟩
      · show lyt.stripeSize < 1 + lyt.stripeSize
        omega
      · show lyt.stripeSize % lyt.stripeSize < 1 % lyt.stripeSize
        rw [Nat.mod_self, Nat.mod_eq_of_lt (by omega : 1 < lyt.stripeSize)]
        exact Nat.one_pos
  · intro hcond io₁ io₂ h₁ h₂
    refine (keepsApart_iff_clear h₁ h₂).mpr (hcond.imp_right fun hsize => ?_)
    have hnone : ∀ io b, ¬ Spilled lyt io b := fun io b hb => by
      have := hb.2
      rw [hsize, Nat.mod_one, Nat.mod_one] at this
      exact Nat.lt_irrefl _ this
    exact ⟨fun b hb => absurd hb (hnone _ _), fun b hb => absurd hb (hnone _ _)⟩

/-- The sub-IOs of an accepted IO sum to its count, and two accepted IOs keep their bytes apart
exactly when the file has one stripe or no spilled byte of the one meets a kept byte of the other,
where it lies or where it is sent. -/
theorem readWrite_striping (lyt : Layout) (io₁ io₂ : IoDesc) (h₁ : Accepts lyt io₁)
    (h₂ : Accepts lyt io₂) :
    (∃ r, readWrite lyt io₁ = .ok r ∧ r.rc = 0 ∧ (r.subs.map SubIo.count).sum = io₁.count) ∧
    (KeepsApart lyt io₁ io₂ ↔ lyt.stripeCount = 1 ∨ Clear lyt io₁ io₂ ∧ Clear lyt io₂ io₁) :=
  ⟨(readWrite_spec h₁).1, keepsApart_iff_clear h₁ h₂⟩

/-- Two stripes of 4 MiB. -/
def sampleLayout : Layout := ⟨4194304, 2, by decide, by decide⟩

/-- The condition decides the two IOs at 6 MiB and at 8 MiB. -/
theorem readWrite_striping_sample :
    (∃ r, readWrite sampleLayout ⟨.write, 0, 6291456, 4194304⟩ = .ok r ∧ r.rc = 0 ∧
      (r.subs.map SubIo.count).sum = 4194304) ∧
    (KeepsApart sampleLayout ⟨.write, 0, 6291456, 4194304⟩ ⟨.write, 0, 8388608, 4194304⟩ ↔
      sampleLayout.stripeCount = 1 ∨
        Clear sampleLayout ⟨.write, 0, 6291456, 4194304⟩ ⟨.write, 0, 8388608, 4194304⟩ ∧
        Clear sampleLayout ⟨.write, 0, 8388608, 4194304⟩ ⟨.write, 0, 6291456, 4194304⟩) :=
  readWrite_striping sampleLayout ⟨.write, 0, 6291456, 4194304⟩ ⟨.write, 0, 8388608, 4194304⟩
    rfl rfl

/-- The first byte of the stripe at 8 MiB belongs to object 0. The IO at 6 MiB sends it to object
1, the IO at 8 MiB to object 0. -/
theorem readWrite_not_apart : ¬ ∀ (lyt : Layout) (io₁ io₂ : IoDesc), Accepts lyt io₁ →
    Accepts lyt io₂ → KeepsApart lyt io₁ io₂ := by
  intro h
  have hacc₁ : Accepts sampleLayout ⟨.write, 0, 6291456, 4194304⟩ := rfl
  have hacc₂ : Accepts sampleLayout ⟨.write, 0, 8388608, 4194304⟩ := rfl
  have hheld₁ : Holds ⟨.write, 0, 6291456, 4194304⟩ 8388608 := by unfold Holds; decide
  have hheld₂ : Holds ⟨.write, 0, 8388608, 4194304⟩ 8388608 := by unfold Holds; decide
  have heq := (h sampleLayout _ _ hacc₁ hacc₂ 8388608 8388608 hheld₁ hheld₂).mpr rfl
  rw [(readWrite_spec hacc₁).2 _ hheld₁, (readWrite_spec hacc₂).2 _ hheld₂] at heq
  revert heq
  decide

end LustreSimulator.Lov
