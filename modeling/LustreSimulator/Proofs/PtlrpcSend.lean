import Mathlib.Data.Int.ModEq
import LustreSimulator.PtlrpcSend
import LustreSimulator.Proofs.AdaptiveTimeout

/-!
# `LustreSimulator.Proofs.PtlrpcSend`: the floor of a new RPC's timeout

`ClientSend` compares `rpc->deadline` with `at_min`, a time since the start with a number of
seconds. So the floor is of no effect after the first seconds, and only the estimates keep the
deadline away: `Enough` is what they have to be (`deadline_floor_iff`). A small estimate of the
service time is not enough (`deadline_below_floor`).

`Words` says that what `at_add` keeps are words, and a history of updates preserves it.
-/

set_option autoImplicit false

namespace LustreSimulator.Ptlrpc

open Lib

variable {p : Params} {iat iat' : ImpAt} {u : Update} {us : List Update} {now rand : Nat}
  {srvAlgo : AdaptiveTimeout.Algo}

/-! ### The estimates of an import -/

/-- The values of a timeout are words. -/
structure Words (at_ : AdaptiveTimeout) : Prop where
  max : at_.max < 2 ^ 32
  estimate : at_.estimate < 2 ^ 32
  hist : ∀ x ∈ at_.hist, x < 2 ^ 32

/-- What the updates keep of an import. -/
structure Estimates (iat : ImpAt) : Prop where
  service : Words iat.serviceEstimate
  latency : Words iat.netLatency
  serviceFlags : iat.serviceEstimate.flags = .max
  latencyFlags : iat.netLatency.flags = .none

/-- The maximum of words is a word. -/
theorem foldl_max_lt {v : Nat} {l : List Nat} (hv : v < 2 ^ 32) (hl : ∀ x ∈ l, x < 2 ^ 32) :
    l.foldl Nat.max v < 2 ^ 32 := by
  induction l generalizing v with
  | nil => exact hv
  | cons x l ih =>
      refine ih (Nat.max_lt.mpr ⟨hv, hl x (List.mem_cons_self ..)⟩) fun y hy => ?_
      exact hl y (List.mem_cons_of_mem x hy)

/-- `at_add` notes words. -/
theorem Words.addValue {at_ : AdaptiveTimeout} {q : AdaptiveTimeout.Params} {val t now : Nat}
    {r : AdaptiveTimeout × Bool} (h : Words at_) (hval : val < 2 ^ 32)
    (hadd : at_.addValue q val t now = .ok r) : Words r.1 := by
  have hset : ∀ l : List Nat, (∀ x ∈ l, x < 2 ^ 32) → ∀ x ∈ l.set 0 val, x < 2 ^ 32 := by
    intro l hl x hx
    rcases List.mem_or_eq_of_mem_set hx with hx | rfl
    · exact hl x hx
    · exact hval
  unfold AdaptiveTimeout.addValue at hadd
  dsimp only at hadd
  split at hadd
  · cases hadd
    exact ⟨hval, hval, hset _ h.hist⟩
  split at hadd
  · split at hadd
    · cases hadd
      exact ⟨Nat.max_lt.mpr ⟨hval, h.max⟩, h.estimate, hset _ h.hist⟩
    · cases hadd
      exact h
  · obtain ⟨_, -, hadd⟩ := bind_eq_ok.mp hadd
    obtain ⟨_, -, hadd⟩ := bind_eq_ok.mp hadd
    cases hadd
    refine ⟨foldl_max_lt hval fun x hx => h.hist x (List.mem_of_mem_take hx), h.estimate,
      hset _ fun x hx => ?_⟩
    rcases List.mem_append.mp hx with hx | hx
    · rw [(List.mem_replicate.mp hx).2]
      decide
    · exact h.hist x (List.mem_of_mem_take hx)

/-- `at_add` with an algorithm of the clients leaves words, and the algorithm. -/
theorem Words.atAdd {at_ at' : AdaptiveTimeout} {q : AdaptiveTimeout.Params} {val t now : Nat}
    (h : Words at_) (hval : val < 2 ^ 32) (hflags : at_.flags = .max ∨ at_.flags = .none)
    (hadd : at_.atAdd q val t now = .ok at') : Words at' ∧ at'.flags = at_.flags := by
  unfold AdaptiveTimeout.atAdd at hadd
  rw [if_neg (by rcases hflags with h | h <;> simp [h])] at hadd
  obtain ⟨_, -, hadd⟩ := bind_eq_ok.mp hadd
  split at hadd
  · cases hadd
    exact ⟨h, rfl⟩
  · obtain ⟨r, hr, hadd⟩ := bind_eq_ok.mp hadd
    have hwords := h.addValue hval hr
    have hsame := AdaptiveTimeout.addValue_flags hr
    cases hadd
    refine ⟨⟨hwords.max, ?_, hwords.hist⟩, hsame⟩
    dsimp only
    rw [hsame]
    have hle : ∀ e : Nat, e < 2 ^ 32 → (if q.atMax > 0 then min e q.atMax else e) < 2 ^ 32 := by
      intro e he
      split
      · exact Nat.lt_of_le_of_lt (Nat.min_le_left e q.atMax) he
      · exact he
    rcases hflags with hflags | hflags
    · rw [hflags]
      exact hle _ hwords.max
    · rw [hflags]
      exact hle _ hwords.estimate

/-- An update keeps the estimates. -/
theorem Estimates.update (h : Estimates iat) (hstep : Updates p iat u iat') : Estimates iat' := by
  cases hstep with
  | servtime hval hadd =>
      obtain ⟨hwords, hflags⟩ := h.service.atAdd hval (.inl h.serviceFlags) hadd
      exact ⟨hwords, h.latency, hflags.trans h.serviceFlags, h.latencyFlags⟩
  | netLatency hval hadd =>
      obtain ⟨hwords, hflags⟩ := h.latency.atAdd hval (.inr h.latencyFlags) hadd
      exact ⟨h.service, hwords, h.serviceFlags, hflags.trans h.latencyFlags⟩

/-- `init_imp_at` starts so. -/
theorem estimates_init : Estimates initImpAt := by
  refine ⟨⟨by decide, by decide, ?_⟩, ⟨by decide, by decide, ?_⟩, rfl, rfl⟩
  · decide
  · decide

/-- What any history of updates leaves. -/
theorem estimates_of_run (hrun : Run (Updates p) initImpAt us iat) : Estimates iat :=
  hrun.invariant (fun _ _ _ h hstep => h.update hstep) estimates_init

/-! ### The deadline -/

/-- The seconds that the two estimates give a new RPC. The sum for the service time wraps, and
`at_get` returns a latency of `2 ^ 31` or more as a negative number. -/
def allowance (iat : ImpAt) : Int :=
  ((iat.serviceEstimate.estimate + iat.serviceEstimate.estimate / 4 + 5) % 2 ^ 32 : Nat) +
    toInt32 iat.netLatency.estimate

/-- The estimates reach `at_min` and the deadline fits, or a negative number of seconds takes the
deadline past 0 to the end of the clock. -/
def Enough (p : Params) (iat : ImpAt) (now : Nat) : Prop :=
  ((p.atMin : Int) ≤ allowance iat ∧ now + allowance iat * p.timeUnit < (2 ^ 64 : Nat)) ∨
    allowance iat < 0 ∧ now + allowance iat * p.timeUnit < 0

instance (p : Params) (iat : ImpAt) (now : Nat) : Decidable (Enough p iat now) := by
  unfold Enough
  infer_instance

/-- Times in words, as one sum. -/
theorem add64_ticks (now secs unit : Nat) (i : Int) :
    (add64 (add64 now (mul64 secs unit)) (mul64 (toWord64 i) unit) : Int) =
      (now + (secs + i) * unit) % (2 ^ 64 : Nat) := by
  have hword : (toWord64 i : Int) = i % (2 ^ 64 : Nat) :=
    Int.toNat_of_nonneg (Int.emod_nonneg i (by decide))
  unfold add64 mul64
  rw [Int.natCast_mod, Nat.cast_add, Int.natCast_mod, Nat.cast_add, Int.natCast_mod,
    Int.natCast_mod, Nat.cast_mul, Nat.cast_mul, hword, add_mul, ← add_assoc]
  refine Int.ModEq.add ?_ ?_
  · exact (Int.mod_modEq _ _).trans ((Int.ModEq.refl _).add (Int.mod_modEq _ _))
  · exact (Int.mod_modEq _ _).trans ((Int.mod_modEq _ _).mul_right _)

/-- The values of the estimates. -/
theorem Estimates.atGet (h : Estimates iat) (obdTimeout queued : Nat) :
    iat.serviceEstimate.atGet obdTimeout queued = iat.serviceEstimate.estimate ∧
      iat.netLatency.atGet obdTimeout queued = iat.netLatency.estimate := by
  unfold AdaptiveTimeout.atGet
  rw [h.serviceFlags, h.latencyFlags]
  exact ⟨rfl, rfl⟩

/-- The deadline that the estimates give. -/
theorem estimated_eq (h : Estimates iat) (hon : 0 < p.srv.at_.atMax) (halgo : srvAlgo ≠ .fixed) :
    (estimated .words p srvAlgo iat now : Int) =
      (now + allowance iat * p.timeUnit) % (2 ^ 64 : Nat) := by
  have hat : p.atOn = true := bne_iff_ne.mpr (Nat.ne_of_gt hon)
  obtain ⟨hserv, hlat⟩ := h.atGet p.obdTimeout 0
  have hword : iat.serviceEstimate.estimate % 2 ^ 32 = iat.serviceEstimate.estimate :=
    Nat.mod_eq_of_lt h.service.estimate
  unfold estimated atGetServtime atGetNetLatency
  rw [if_neg (by simp [hat, halgo]), if_pos hat, hserv, hlat]
  dsimp only [Arith.words]
  rw [hword]
  exact add64_ticks ..

/-- Without `SCHED_ON` the deadline is the larger of two times. -/
theorem sendDeadline_eq (a : Arith) (hsched : p.schedOn = false) :
    sendDeadline a p srvAlgo iat now rand = max (estimated a p srvAlgo iat now) p.atMin := by
  unfold sendDeadline
  rw [if_neg (Bool.eq_false_iff.mp hsched)]
  dsimp only
  split <;> omega

/-- Where the words do not wrap, it does not matter which of the two computes the deadline. -/
theorem sendDeadline_exact (h : Estimates iat) (hon : 0 < p.srv.at_.atMax)
    (hsched : p.schedOn = false) (halgo : srvAlgo ≠ .fixed)
    (hserv : iat.serviceEstimate.estimate + iat.serviceEstimate.estimate / 4 + 5 < 2 ^ 32)
    (hlat : iat.netLatency.estimate < 2 ^ 31)
    (hfits : now + allowance iat * p.timeUnit < (2 ^ 64 : Nat)) :
    sendDeadline .exact p srvAlgo iat now rand = sendDeadline .words p srvAlgo iat now rand := by
  have hsecs : allowance iat = (iat.serviceEstimate.estimate + iat.serviceEstimate.estimate / 4 + 5 +
      iat.netLatency.estimate : Nat) := by
    unfold allowance
    rw [Nat.mod_eq_of_lt hserv, toInt32_eq hlat]
    omega
  have hat : p.atOn = true := bne_iff_ne.mpr (Nat.ne_of_gt hon)
  have hwords : (estimated .words p srvAlgo iat now : Int) = _ := estimated_eq h hon halgo
  rw [hsecs] at hwords hfits
  rw [Int.emod_eq_of_lt (by exact_mod_cast Nat.zero_le _) hfits] at hwords
  obtain ⟨hservEst, hlatEst⟩ := h.atGet p.obdTimeout 0
  have hexact : estimated .exact p srvAlgo iat now =
      now + (iat.serviceEstimate.estimate + iat.serviceEstimate.estimate / 4 + 5 +
        iat.netLatency.estimate) * p.timeUnit := by
    unfold estimated atGetServtime atGetNetLatency
    rw [if_neg (by simp [hat, halgo]), if_pos hat, hservEst, hlatEst, Nat.add_mul, ← Nat.add_assoc]
    rfl
  rw [sendDeadline_eq _ hsched, sendDeadline_eq _ hsched, hexact]
  congr 1
  exact_mod_cast hwords.symm

/-- The seconds are between the bounds of the two words. -/
theorem allowance_bounds (iat : ImpAt) :
    -2 ^ 31 ≤ allowance iat ∧ allowance iat < 2 ^ 32 + 2 ^ 31 := by
  unfold allowance toInt32
  omega

/-- Seconds in ticks fit into a time. -/
theorem ticks_bounds (iat : ImpAt) (hunit : p.timeUnit ≤ 2 ^ 31) :
    -2 ^ 62 ≤ allowance iat * p.timeUnit ∧ allowance iat * p.timeUnit < 2 ^ 64 := by
  obtain ⟨hlow, hhigh⟩ := allowance_bounds iat
  have hbelow := Int.mul_le_mul_of_nonneg_right hlow (Int.natCast_nonneg p.timeUnit)
  have habove := Int.mul_le_mul_of_nonneg_right (Int.le_of_lt hhigh)
    (Int.natCast_nonneg p.timeUnit)
  omega

/-- A sum on 64 bits is far enough after `now` when the summand is and the sum does not wrap. -/
theorem far_iff {ticks floor : Int} {far : Nat} (hnow : now < 2 ^ 64) (hlow : -2 ^ 62 ≤ ticks)
    (hhigh : ticks < 2 ^ 64) (hpos : 0 < floor) (hfloor : floor < 2 ^ 63)
    (hfar : (far : Int) = (now + ticks) % (2 ^ 64 : Nat)) :
    now + floor ≤ far ↔
      (floor ≤ ticks ∧ now + ticks < (2 ^ 64 : Nat)) ∨ ticks < 0 ∧ now + ticks < 0 := by
  omega

/-- The seconds are enough, said in ticks. -/
theorem enough_iff (hunit : 0 < p.timeUnit) : Enough p iat now ↔
    (((p.atMin * p.timeUnit : Nat) : Int) ≤ allowance iat * p.timeUnit ∧
      now + allowance iat * p.timeUnit < (2 ^ 64 : Nat)) ∨
    allowance iat * p.timeUnit < 0 ∧ now + allowance iat * p.timeUnit < 0 := by
  have hunit : (0 : Int) < p.timeUnit := by exact_mod_cast hunit
  have hneg : allowance iat * p.timeUnit < 0 ↔ allowance iat < 0 :=
    ⟨fun h => Int.neg_of_mul_neg_left h hunit, fun h => Int.mul_neg_of_neg_of_pos h hunit⟩
  unfold Enough
  rw [Nat.cast_mul, Int.mul_le_mul_iff_of_pos_right hunit, hneg]

/-- **The floor of the timeout.** After any history of updates, `ClientSend` gives a new RPC at least
`at_min` seconds and passes its assertion exactly when the two estimates are that large. -/
theorem deadline_floor_iff (hunit : 1 < p.timeUnit) (hunit' : p.timeUnit ≤ 2 ^ 31)
    (hnow : now < 2 ^ 64) (hon : 0 < p.srv.at_.atMax) (hsched : p.schedOn = false)
    (halgo : srvAlgo ≠ .fixed) (hmin : p.srv.epMargin + 4 ≤ p.atMin) (hmin' : p.atMin < 2 ^ 32)
    (hrun : Run (Updates p) initImpAt us iat) :
    (∃ d, armDeadline .words p srvAlgo iat now rand = .ok d ∧ now + p.atMin * p.timeUnit ≤ d) ↔
      Enough p iat now := by
  have hfloor : 0 < p.atMin * p.timeUnit ∧ p.atMin < p.atMin * p.timeUnit := by
    have hdouble := Nat.mul_le_mul_left p.atMin hunit
    omega
  have hfloor' : p.atMin * p.timeUnit < 2 ^ 63 :=
    calc p.atMin * p.timeUnit ≤ p.atMin * 2 ^ 31 := Nat.mul_le_mul_left _ hunit'
      _ < 2 ^ 63 := by omega
  have hmargin : p.srv.epMargin * p.timeUnit < p.atMin * p.timeUnit :=
    Nat.mul_lt_mul_of_pos_right (by omega) (by omega)
  obtain ⟨hlow, hhigh⟩ := ticks_bounds iat hunit'
  have hfar : (estimated .words p srvAlgo iat now : Int) = _ :=
    estimated_eq (estimates_of_run hrun) hon halgo
  have hsend : sendDeadline .words p srvAlgo iat now rand = _ := sendDeadline_eq _ hsched
  have hword : estimated .words p srvAlgo iat now < 2 ^ 64 := add64_lt _ _
  have hiff := far_iff hnow hlow hhigh (Int.natCast_pos.mpr hfloor.1) (by exact_mod_cast hfloor')
    hfar
  -- `at_min` itself is too early, whatever the time
  rw [enough_iff (by omega), ← hiff]
  unfold armDeadline
  constructor
  · rintro ⟨d, hd, hle⟩
    obtain ⟨_, -, hd⟩ := bind_eq_ok.mp hd
    cases hd
    rw [hsend] at hle
    omega
  · intro hle
    have hsrvdl : sendDeadline .words p srvAlgo iat now rand >
        Arith.words.add now (Arith.words.mul p.srv.epMargin p.timeUnit) := by
      show _ > add64 now (mul64 p.srv.epMargin p.timeUnit)
      have hfits : now + p.srv.epMargin * p.timeUnit < 2 ^ 64 := by omega
      rw [hsend, mul64_eq (by omega), add64_eq hfits]
      omega
    refine ⟨sendDeadline .words p srvAlgo iat now rand, ?_, ?_⟩
    · dsimp only
      rw [check_true fun _ => hsrvdl, ok_bind]
    · rw [hsend]
      omega

/-- The parameters of the source. -/
def sendParams : Params :=
  ⟨⟨true, false, false, false, 5, 30, ⟨1000000000, 600, 5, fun at_ _ => at_.estimate⟩⟩, false,
    atMinOf 0 5, 50⟩

/-- A service estimate of 30 s. -/
theorem deadline_floor_thirty :
    ∃ iat, Run (Updates sendParams) initImpAt [.servtime 30 1000000000] iat ∧
      ∃ d, armDeadline .words sendParams .curfit iat 2000000000 0 = .ok d ∧
        2000000000 + sendParams.atMin * sendParams.timeUnit ≤ d := by
  have hrun : ∃ iat, Run (Updates sendParams) initImpAt [.servtime 30 1000000000] iat ∧
      Enough sendParams iat 2000000000 :=
    ⟨_, .cons (.servtime (by decide) rfl) (.nil _), by decide⟩
  obtain ⟨iat, hrun, henough⟩ := hrun
  exact ⟨iat, hrun, (deadline_floor_iff (by decide) (by decide) (by decide) (by decide) rfl
    (by decide) (by decide) (by decide) hrun).mpr henough⟩

/-- A service estimate of 1 s gives a new RPC 6 s. -/
theorem deadline_below_floor :
    ¬ ∀ (p : Params) (us : List Update) (iat : ImpAt) (now rand : Nat), 1 < p.timeUnit →
      p.timeUnit ≤ 2 ^ 31 → now < 2 ^ 64 → 0 < p.srv.at_.atMax → p.schedOn = false →
      p.srv.epMargin + 4 ≤ p.atMin → p.atMin < 2 ^ 32 → Run (Updates p) initImpAt us iat →
      ∃ d, armDeadline .words p .curfit iat now rand = .ok d ∧ now + p.atMin * p.timeUnit ≤ d := by
  intro hall
  have hrun : ∃ iat, Run (Updates sendParams) initImpAt [.servtime 1 1000000000] iat ∧
      armDeadline .words sendParams .curfit iat 2000000000 0 = .ok 8000000000 :=
    ⟨_, .cons (.servtime (by decide) rfl) (.nil _), rfl⟩
  obtain ⟨iat, hrun, heq⟩ := hrun
  obtain ⟨d, hd, hle⟩ := hall sendParams _ iat 2000000000 0 (by decide) (by decide) (by decide)
    (by decide) rfl (by decide) (by decide) hrun
  rw [heq] at hd
  cases hd
  exact absurd hle (by decide)

end LustreSimulator.Ptlrpc
