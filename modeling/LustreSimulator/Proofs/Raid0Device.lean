import LustreSimulator.Lib.Run
import LustreSimulator.Lib.Stripe
import LustreSimulator.Raid0Device

/-!
# `LustreSimulator.Proofs.Raid0Device`: when a striped request is served

`stripeOffset_eq` reads `StripeOffset` in coordinates: round, member and place inside the chunk.
From it, the first sub-request covers the whole request when there is one member or the request
lies in one chunk (`first_sub_full`), and less than the request otherwise (`first_sub_short`).
Then the loop goes on to a second turn and its assertion on `req->ref` fires, because the first
sub-request still refers to the request.

`submitIoreq_served_iff` is the result: a request is served exactly under this condition, and
when its count is not `OBD_OBJECT_EOF`.
-/

set_option autoImplicit false

namespace LustreSimulator.Raid0Device

open Lib

/-- `StripeNumber` is the member of the coordinates. -/
theorem stripeNumber_eq {d : Raid0Device} {round stripe place : Nat} (hs : stripe < d.devcnt)
    (hp : place < d.chunk) :
    d.stripeNumber (round * (d.devcnt * d.chunk) + (stripe * d.chunk + place)) = stripe := by
  unfold stripeNumber
  dsimp only
  rw [(Stripe.coords_div_mod round hs hp).2, Nat.mul_comm stripe, Nat.mul_add_div (by omega),
    Nat.div_eq_of_lt hp, Nat.add_zero]

/-- `StripeOffset` in coordinates: an offset on an earlier member falls on the begin of the
member's chunk of that round, one on a later member on its end. -/
theorem stripeOffset_eq {d : Raid0Device} (stripeno : Nat) {round stripe place : Nat}
    (hs : stripe < d.devcnt) (hp : place < d.chunk) :
    d.stripeOffset stripeno (round * (d.devcnt * d.chunk) + (stripe * d.chunk + place)) =
      if stripe < stripeno then (-1, round * d.chunk)
      else if stripeno < stripe then (1, round * d.chunk + d.chunk)
      else (0, round * d.chunk + place) := by
  obtain ⟨hdiv, hmod⟩ := Stripe.coords_div_mod round hs hp
  unfold stripeOffset
  dsimp only
  rw [Nat.mul_comm d.chunk d.devcnt, hdiv, hmod]
  rcases Nat.lt_trichotomy stripe stripeno with h | rfl | h
  · have : (stripe + 1) * d.chunk ≤ stripeno * d.chunk := Nat.mul_le_mul_right _ h
    rw [Nat.add_mul, Nat.one_mul] at this
    rw [if_pos (by omega), if_pos h]
  · rw [if_neg (by omega), if_neg (by omega), if_neg (Nat.lt_irrefl _),
      if_neg (Nat.lt_irrefl _)]
    congr 2
    omega
  · have : (stripeno + 1) * d.chunk ≤ stripe * d.chunk := Nat.mul_le_mul_right _ h
    rw [Nat.add_mul, Nat.one_mul] at this
    rw [if_neg (by omega), if_pos (by omega), if_neg (by omega), if_pos h]

/-- The request is served by one sub-request: there is one member, or the request lies in one
chunk. -/
def OneSub (d : Raid0Device) (off count : Nat) : Prop :=
  d.devcnt = 1 ∨ off / d.chunk = (off + count - 1) / d.chunk

/-- The number of bytes of a range on the member that holds its first byte. -/
def firstCount (d : Raid0Device) (off count : Nat) : Nat :=
  (d.stripeOffset (d.stripeNumber off) (off + count)).2 -
    (d.stripeOffset (d.stripeNumber off) off).2

/-- A range lies in one chunk when it ends there. -/
theorem oneChunk_iff {d : Raid0Device} {round stripe place count : Nat} (hp : place < d.chunk)
    (hcount : 0 < count) :
    (round * (d.devcnt * d.chunk) + (stripe * d.chunk + place)) / d.chunk =
      (round * (d.devcnt * d.chunk) + (stripe * d.chunk + place) + count - 1) / d.chunk ↔
    place + count ≤ d.chunk := by
  have hchunk : 0 < d.chunk := by omega
  have hsplit : round * (d.devcnt * d.chunk) + (stripe * d.chunk + place) + count - 1 =
      d.chunk * (round * d.devcnt + stripe) + (place + count - 1) := by
    have : round * (d.devcnt * d.chunk) + (stripe * d.chunk + place) =
        d.chunk * (round * d.devcnt + stripe) + place := by ring
    omega
  rw [Stripe.coords_div_chunk hp, hsplit, Nat.mul_add_div hchunk, Nat.left_eq_add]
  constructor
  · intro h
    have := (Nat.div_eq_zero_iff_lt hchunk).mp h
    omega
  · intro h
    exact (Nat.div_eq_zero_iff_lt hchunk).mpr (by omega)

/-- With one member, the member's offsets are the request's offsets. -/
theorem firstCount_one {d : Raid0Device} (hdev : d.devcnt = 1) (hchunk : 0 < d.chunk)
    (off count : Nat) : firstCount d off count = count := by
  obtain ⟨a, s, p, hs, hp, hoff⟩ := Stripe.exists_coords (by omega : 0 < d.devcnt) hchunk off
  obtain ⟨b, t, u, ht, hu, hend⟩ :=
    Stripe.exists_coords (by omega : 0 < d.devcnt) hchunk (off + count)
  obtain rfl : s = 0 := by omega
  obtain rfl : t = 0 := by omega
  unfold firstCount
  rw [hend, hoff, stripeNumber_eq hs hp, stripeOffset_eq 0 ht hu, stripeOffset_eq 0 hs hp]
  rw [hdev] at hoff hend
  simp only [Nat.lt_irrefl, if_false]
  simp only [Nat.one_mul, Nat.zero_mul, Nat.zero_add] at hoff hend
  omega

/-- A request inside one chunk is served in full by the member of that chunk. -/
theorem firstCount_chunk {d : Raid0Device} {round stripe place count : Nat}
    (hs : stripe < d.devcnt) (hp : place < d.chunk) (hle : place + count ≤ d.chunk) :
    firstCount d (round * (d.devcnt * d.chunk) + (stripe * d.chunk + place)) count = count := by
  unfold firstCount
  rw [stripeNumber_eq hs hp, stripeOffset_eq stripe hs hp]
  simp only [Nat.lt_irrefl, if_false]
  rcases Nat.lt_or_eq_of_le hle with hlt | heq
  · -- the request ends inside the chunk
    rw [Nat.add_assoc, Nat.add_assoc, stripeOffset_eq stripe hs hlt]
    simp only [Nat.lt_irrefl, if_false]
    omega
  · by_cases hlast : stripe + 1 < d.devcnt
    · -- it ends where the chunk of the next member begins
      have hend : round * (d.devcnt * d.chunk) + (stripe * d.chunk + place) + count =
          round * (d.devcnt * d.chunk) + ((stripe + 1) * d.chunk + 0) := by
        rw [Nat.add_mul, Nat.one_mul]
        omega
      rw [hend, stripeOffset_eq stripe hlast (by omega), if_neg (by omega), if_pos (by omega)]
      dsimp only
      omega
    · -- it ends with the round
      have hdev : d.devcnt = stripe + 1 := by omega
      have hend : round * (d.devcnt * d.chunk) + (stripe * d.chunk + place) + count =
          (round + 1) * (d.devcnt * d.chunk) + (0 * d.chunk + 0) := by
        rw [hdev, Nat.add_mul stripe, Nat.one_mul, Nat.add_mul round]
        omega
      rw [hend, stripeOffset_eq stripe (by omega) (by omega), Nat.add_mul, Nat.one_mul]
      split
      · dsimp only
        omega
      · rw [if_neg (by omega)]
        dsimp only
        omega

/-- With several members, a request that leaves its chunk has bytes on another member. -/
theorem firstCount_short {d : Raid0Device} (hdev : 1 < d.devcnt) {round stripe place count : Nat}
    (hs : stripe < d.devcnt) (hp : place < d.chunk) (hlt : d.chunk < place + count) :
    firstCount d (round * (d.devcnt * d.chunk) + (stripe * d.chunk + place)) count < count := by
  obtain ⟨b, t, u, ht, hu, hend⟩ := Stripe.exists_coords (by omega : 0 < d.devcnt)
    (by omega : 0 < d.chunk) (round * (d.devcnt * d.chunk) + (stripe * d.chunk + place) + count)
  unfold firstCount
  rw [hend, stripeNumber_eq hs hp, stripeOffset_eq stripe ht hu, stripeOffset_eq stripe hs hp]
  simp only [Nat.lt_irrefl, if_false]
  obtain ⟨m, hm⟩ : ∃ m, d.devcnt = m + 2 := ⟨d.devcnt - 2, by omega⟩
  generalize hc : d.chunk = c at *
  rw [hm] at hend hs ht
  -- the end lies in the round `round + k`
  have hle : round ≤ b := by
    by_contra hlt'
    have hb : (b + 1) * ((m + 2) * c) ≤ round * ((m + 2) * c) :=
      Nat.mul_le_mul_right _ (by omega)
    have htu : t * c + u < (m + 2) * c := by
      have : (t + 1) * c ≤ (m + 2) * c := Nat.mul_le_mul_right _ ht
      rw [Nat.add_mul, Nat.one_mul] at this
      omega
    rw [Nat.add_mul, Nat.one_mul] at hb
    omega
  obtain ⟨k, rfl⟩ := Nat.exists_eq_add_of_le hle
  have hsc : stripe * c ≤ (m + 1) * c := Nat.mul_le_mul_right _ (by omega)
  have hexp : (round + k) * ((m + 2) * c) =
      round * ((m + 2) * c) + (k * (m * c) + k * c + k * c) := by ring
  have hrk : (round + k) * c = round * c + k * c := by ring
  rw [hexp] at hend
  rw [hrk]
  have hm1 : (m + 1) * c = m * c + c := by ring
  have hkm : k ≠ 0 → m * c ≤ k * (m * c) := fun hk => Nat.le_mul_of_pos_left _ (by omega)
  have hkc : k ≠ 0 → c ≤ k * c := fun hk => Nat.le_mul_of_pos_left _ (by omega)
  rcases Nat.lt_trichotomy t stripe with h | rfl | h
  · rw [if_pos h]
    dsimp only
    have hts : (t + 1) * c ≤ stripe * c := Nat.mul_le_mul_right _ h
    rw [Nat.add_mul, Nat.one_mul] at hts
    rcases k with _ | _ | k
    · omega
    · omega
    · have h2 : (k + 1 + 1) * (m * c) = k * (m * c) + m * c + m * c := by ring
      have h3 : (k + 1 + 1) * c = k * c + c + c := by ring
      omega
  · simp only [Nat.lt_irrefl, if_false]
    rcases Nat.eq_zero_or_pos k with rfl | hk
    · omega
    · have := hkc (by omega)
      omega
  · rw [if_neg (by omega), if_pos h]
    dsimp only
    have hts : (stripe + 1) * c ≤ t * c := Nat.mul_le_mul_right _ h
    rw [Nat.add_mul, Nat.one_mul] at hts
    rcases Nat.eq_zero_or_pos k with rfl | hk
    · omega
    · have := hkc (by omega)
      omega

/-- The first sub-request covers the request exactly when one sub-request is enough. Otherwise
it is shorter. -/
theorem firstCount_cases {d : Raid0Device} (hdev : 0 < d.devcnt) (hchunk : 0 < d.chunk)
    (off : Nat) {count : Nat} (hcount : 0 < count) :
    (OneSub d off count → firstCount d off count = count) ∧
    (¬ OneSub d off count → firstCount d off count < count) := by
  obtain ⟨a, s, p, hs, hp, rfl⟩ := Stripe.exists_coords hdev hchunk off
  unfold OneSub
  rw [oneChunk_iff hp hcount]
  constructor
  · rintro (hone | hle)
    · exact firstCount_one hone hchunk _ _
    · exact firstCount_chunk hs hp hle
  · intro h
    push Not at h
    exact firstCount_short (by omega) hs hp h.2

/-- The first turn of the loop: the member of the first byte gets its part of the request. -/
theorem stripeIntersect_first {d : Raid0Device} (hdev : 0 < d.devcnt) (hchunk : 0 < d.chunk)
    {off count : Nat} (heof : off ≠ obdObjectEof ∧ count ≠ obdObjectEof) :
    d.stripeIntersect (d.stripeNumber off) off count =
      .ok (1, (d.stripeOffset (d.stripeNumber off) off).2, firstCount d off count) := by
  unfold stripeIntersect
  rw [check_true heof, ok_bind]
  dsimp only
  have hzero : (d.stripeOffset (d.stripeNumber off) off).1 = 0 := by
    obtain ⟨a, s, p, hs, hp, rfl⟩ := Stripe.exists_coords hdev hchunk off
    rw [stripeNumber_eq hs hp, stripeOffset_eq s hs hp, if_neg (Nat.lt_irrefl _),
      if_neg (Nat.lt_irrefl _)]
  rw [if_neg (fun h => h.1 hzero)]
  rfl

/-- A loop with bytes left and a referenced request stops at its assertion. -/
theorem submitLoop_ref {d : Raid0Device} {off count ref left stripe : Nat} (hleft : 0 < left)
    (href : ref ≠ 0) : d.submitLoop off count ref left stripe = .error .ref := by
  unfold submitLoop
  rw [if_neg (by omega), if_neg href]

/-- A loop with no bytes left is done. -/
theorem submitLoop_done {d : Raid0Device} {off count ref stripe : Nat} :
    d.submitLoop off count ref 0 stripe = .ok (ref, []) := by
  unfold submitLoop
  rw [if_pos rfl]

/-- What `SubmitIoreq` does with a request that nothing refers to: one sub-request, or an
assertion. -/
theorem submitIoreq_eq {d : Raid0Device} (hdev : 0 < d.devcnt) (hchunk : 0 < d.chunk)
    (req : Ioreq) (hcount : 0 < req.count) (hend : req.off + req.count ≤ obdObjectEof)
    (href : req.ref = 0) :
    (OneSub d req.off req.count ∧ req.count ≠ obdObjectEof →
      d.submitIoreq req = .ok (1, [⟨d.stripeNumber req.off,
        (d.stripeOffset (d.stripeNumber req.off) req.off).2, req.count⟩])) ∧
    (¬ (OneSub d req.off req.count ∧ req.count ≠ obdObjectEof) →
      ∃ fault, d.submitIoreq req = .error fault) := by
  obtain ⟨hfull, hshort⟩ := firstCount_cases hdev hchunk req.off hcount
  have hturn : d.submitIoreq req =
      (d.stripeIntersect (d.stripeNumber req.off) req.off req.count).bind fun r =>
      (check (r.1 = 1) .rc).bind fun _ =>
      (submitLoop d req.off req.count 1 (req.count - r.2.2)
        ((d.stripeNumber req.off + 1) % d.devcnt)).bind fun rest =>
      .ok (rest.1, ⟨d.stripeNumber req.off, r.2.1, r.2.2⟩ :: rest.2) := by
    unfold submitIoreq
    rw [href, submitLoop, if_neg (by omega)]
    rfl
  by_cases heof : req.count = obdObjectEof
  · refine ⟨fun h => absurd heof h.2, fun _ => ⟨.eof, ?_⟩⟩
    rw [hturn, stripeIntersect, check, if_neg (fun h => h.2 heof)]
    rfl
  · have hoff : req.off ≠ obdObjectEof := by omega
    rw [stripeIntersect_first hdev hchunk ⟨hoff, heof⟩, ok_bind, check_true rfl, ok_bind] at hturn
    dsimp only at hturn
    constructor
    · rintro ⟨hone, -⟩
      rw [hturn, hfull hone, Nat.sub_self, submitLoop_done]
      rfl
    · intro hnot
      have hlt := hshort fun hone => hnot ⟨hone, heof⟩
      refine ⟨.ref, ?_⟩
      rw [hturn, submitLoop_ref (by omega) (by decide)]
      rfl

/-- A request is served: no assertion fires, at most one sub-request goes to each member, the
sub-requests are not empty and their sizes sum to the size of the request, and the completion of
the request is called once, when all sub-requests have completed, in whatever order they do. -/
def Served (d : Raid0Device) (req : Ioreq) : Prop :=
  ∃ ref subs, d.submitIoreq req = .ok (ref, subs) ∧
    (subs.map Sub.stripe).Nodup ∧ (∀ s ∈ subs, s.stripe < d.devcnt ∧ 0 < s.count) ∧
    (subs.map Sub.count).sum = req.count ∧
    ∀ order a, Run CompletionStep ⟨ref, subs, 0⟩ order a →
      a.called = if a.pending = [] then 1 else 0

/-- `Raid0Device::SubmitIoreq` serves a request that nothing refers to exactly when there is one
member or the request lies in one chunk, and its count is not `OBD_OBJECT_EOF`. -/
theorem submitIoreq_served_iff (d : Raid0Device) (hdev : 1 ≤ d.devcnt) (hchunk : 0 < d.chunk)
    (req : Ioreq) (hcount : 0 < req.count) (hend : req.off + req.count ≤ obdObjectEof)
    (href : req.ref = 0) :
    Served d req ↔ (d.devcnt = 1 ∨ req.off / d.chunk = (req.off + req.count - 1) / d.chunk) ∧
      req.count ≠ obdObjectEof := by
  obtain ⟨hok, herr⟩ := submitIoreq_eq hdev hchunk req hcount hend href
  constructor
  · rintro ⟨ref, subs, hsub, -⟩
    by_contra hnot
    obtain ⟨fault, hfault⟩ := herr hnot
    rw [hsub] at hfault
    cases hfault
  · intro hcond
    refine ⟨1, _, hok hcond, by simp, ?_, by simp, ?_⟩
    · intro s hs
      rw [List.mem_singleton] at hs
      subst hs
      refine ⟨?_, hcount⟩
      obtain ⟨a, s, p, hs, hp, hoff⟩ := Stripe.exists_coords hdev hchunk req.off
      show d.stripeNumber req.off < d.devcnt
      rw [hoff, stripeNumber_eq hs hp]
      exact hs
    · intro order a hrun
      -- the single sub-request completes, and nothing is left to complete
      cases hrun with
      | nil => rfl
      | cons hstep hrest =>
          obtain ⟨hmem, rfl⟩ := hstep
          rw [List.mem_singleton] at hmem
          subst hmem
          cases hrest with
          | nil => simp [Active.completion]
          | cons hstep' _ =>
              have := hstep'.1
              simp [Active.completion] at this

/-- The first request of `SelfTest`: two members with chunks of 4 MiB, the range from 0 to
2 MiB. -/
theorem submitIoreq_served_iff_selfTest :
    Served ⟨2, 1048576 * 4⟩ ⟨.write, 0, 0, 1048576 * 0, 1048576 * 2⟩ ↔
      ((2 : Nat) = 1 ∨ 1048576 * 0 / (1048576 * 4) =
        (1048576 * 0 + 1048576 * 2 - 1) / (1048576 * 4)) ∧ 1048576 * 2 ≠ obdObjectEof :=
  submitIoreq_served_iff ⟨2, 1048576 * 4⟩ (by decide) (by decide)
    ⟨.write, 0, 0, 1048576 * 0, 1048576 * 2⟩ (by decide) (by decide) rfl

/-- The third request of `SelfTest` runs from 27 MiB to 32 MiB and crosses from chunk 6 to
chunk 7: its assertion fires. -/
theorem submitIoreq_not_served : ¬ ∀ (d : Raid0Device) (req : Ioreq), 1 ≤ d.devcnt →
    0 < d.chunk → 0 < req.count → req.off + req.count ≤ obdObjectEof → req.ref = 0 →
    Served d req := by
  intro h
  obtain ⟨ref, subs, hsub, -⟩ := h ⟨2, 1048576 * 4⟩
    ⟨.write, 0, 0, 1048576 * 27, 1048576 * 5⟩ (by decide) (by decide) (by decide) (by decide) rfl
  obtain ⟨fault, hfault⟩ := (submitIoreq_eq (d := ⟨2, 1048576 * 4⟩) (by decide) (by decide)
    ⟨.write, 0, 0, 1048576 * 27, 1048576 * 5⟩ (by decide) (by decide) rfl).2
    (by unfold OneSub; decide)
  rw [hsub] at hfault
  cases hfault

end LustreSimulator.Raid0Device
