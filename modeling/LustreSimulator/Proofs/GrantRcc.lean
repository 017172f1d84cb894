import Mathlib.Data.Rat.Lemmas
import Mathlib.Tactic.Ring
import LustreSimulator.GrantRcc
import LustreSimulator.Lib.Run

/-!
# `LustreSimulator.Proofs.GrantRcc`: the credits of a server are defined

`CalcGrantRCC` divides by the load `st` unless the load is low and `ccDe` is below `Dmax`. A load
that rounds down to 0 is low, but `ccDe` is `Dmax` at first, and again after enough growth. Then the
code divides by 0 (`credits_undefined`).

`Loaded` is the condition of one call in terms of what it reads, and `credits_iff` says that it is
the only one: `ccDe` stays between the bounds, and the last two lines of the code put the credits
between theirs when `Cmin ≤ Cmax`.
-/

set_option autoImplicit false

namespace LustreSimulator.GrantRcc

open Lib

variable {p : Params} {s s' : State} {a : Completed} {as : List Completed}

/-- The parameters fit their words, the bounds of `ccDe` are in order, and the division by the
constant `TimeUnit` is defined. -/
structure Params.Valid (p : Params) : Prop where
  clientCount : 1 ≤ p.clientCount
  dmax : p.clientCount ≤ p.dmax
  dmax_lt : p.dmax < 2 ^ 31
  lmax : 0 < p.lmax
  lmax_lt : p.lmax < 2 ^ 31
  timeUnit : 0 < p.timeUnit

/-- The words of the parameters have their values. -/
theorem Params.Valid.words (hp : p.Valid) : (toWord32 p.clientCount : Int) = p.clientCount ∧
    (toWord32 p.dmax : Int) = p.dmax ∧ (toWord32 p.lmax : Int) = p.lmax := by
  have hone := hp.clientCount
  have hle := hp.dmax
  have hlt := hp.dmax_lt
  have hpos := hp.lmax
  have hlt' := hp.lmax_lt
  exact ⟨toWord32_eq (by omega) (by omega), toWord32_eq (by omega) (by omega),
    toWord32_eq (by omega) (by omega)⟩

/-- `ccDe` is between its bounds. -/
def InRange (p : Params) (s : State) : Prop := p.clientCount ≤ s.ccDe ∧ (s.ccDe : Int) ≤ p.dmax

/-- The load is not 0, or `ccDe` has room to grow. The load is four parts of the bytes in progress,
in units of 300 MiB, and one part of the service time in seconds. -/
def Loaded (p : Params) (s : State) (a : Completed) : Prop :=
  5 ≤ (4 * (a.iosize / 1048576 / 300 % 2 ^ 32 : Nat) + toInt32 (a.servTime / p.timeUnit)).natAbs ∨
    (s.ccDe : Int) < p.dmax

instance (p : Params) (s : State) (a : Completed) : Decidable (Loaded p s a) := by
  unfold Loaded
  infer_instance

/-- The call is defined, and the credits are between their bounds. -/
def Granted (p : Params) (s : State) (a : Completed) : Prop :=
  ∃ s' rcc, calcGrantRCC p s a = .ok (s', rcc) ∧ InRange p s' ∧ p.cmin ≤ rcc ∧ rcc ≤ p.cmax

/-- Truncation of a quotient. -/
theorem trunc_div (i : Int) {n : Int} (hn : 0 < n) : trunc ((i : ℚ) / n) = i.tdiv n := by
  -- the quotient in lowest terms, whose common factor cancels
  obtain ⟨c, hi, hden⟩ := Rat.exists_eq_mul_div_num_and_eq_mul_div_den i (Int.ne_of_gt hn)
  have hc : 0 < c := by
    have hpos : (0 : Int) < ((i : ℚ) / n).den := Int.natCast_pos.mpr (Rat.den_pos _)
    rw [hden] at hn
    exact Int.pos_of_mul_pos_left hn hpos
  unfold trunc
  generalize (i : ℚ) / n = x at hi hden
  rw [hi, hden, Int.mul_tdiv_mul_of_pos _ _ hc]

/-- The load of `METHOD 5` is 0 when its parts are less than five. -/
theorem load_eq_zero (st : Nat) (la : Int) (hst : st < 2 ^ 32) (hla : -2 ^ 31 ≤ la ∧ la < 2 ^ 31) :
    toWord32 (trunc (4 / 5 * st + 1 / 5 * la)) = 0 ↔ (4 * (st : Int) + la).natAbs < 5 := by
  have hsum : (4 / 5 * st + 1 / 5 * la : ℚ) = ((4 * st + la : Int) : ℚ) / (5 : Int) := by
    push_cast
    ring
  have habs : ((4 * (st : Int) + la).tdiv 5).natAbs = (4 * (st : Int) + la).natAbs / 5 :=
    Int.natAbs_tdiv _ _
  rw [hsum, trunc_div _ (by decide)]
  unfold toWord32
  omega

/-- The load of a completed RPC. -/
theorem load_iff (p : Params) (a : Completed) :
    toWord32 (trunc (4 / 5 * (a.iosize / 1048576 / 300 % 2 ^ 32 : Nat) +
      1 / 5 * toInt32 (a.servTime / p.timeUnit))) = 0 ↔
      (4 * (a.iosize / 1048576 / 300 % 2 ^ 32 : Nat) +
        toInt32 (a.servTime / p.timeUnit)).natAbs < 5 := by
  refine load_eq_zero _ _ (Nat.mod_lt _ (by decide)) ?_
  unfold toInt32
  omega

/-- `METHOD 5` divides unless it is in its first branch, and by 0 when the load is. -/
theorem method5_iff (hp : p.Valid) :
    (∃ ccDe, method5 p s.ccDe a = .ok ccDe) ↔ Loaded p s a := by
  obtain ⟨-, hdmax, hlmax⟩ := hp.words
  have hload := load_iff p a
  unfold method5 Loaded
  dsimp only
  generalize toWord32 (trunc _) = st at hload ⊢
  split
  · -- the first branch has no quotient
    rename_i hlow
    exact iff_of_true ⟨_, rfl⟩ (.inr (by omega))
  · rename_i hhigh
    have hpos := hp.lmax
    rw [exists_bind_ok fun _ => ⟨_, rfl⟩]
    constructor
    · rintro ⟨_, hcheck⟩
      rw [check_eq_ok] at hcheck
      left
      omega
    · intro hloaded
      refine ⟨(), check_true fun hzero => ?_⟩
      rcases hloaded with hloaded | hroom
      · exact Nat.not_lt.mpr hloaded (hload.mp hzero)
      · exact hhigh ⟨by omega, by omega⟩

/-- `CalcGrantRCC` leaves `ccDe` between its bounds. The credits are at least `Cmin`, and at most the
larger of `Cmin` and `Cmax`. -/
theorem calcGrantRCC_spec (hp : p.Valid) {rcc : Int} (h : calcGrantRCC p s a = .ok (s', rcc)) :
    InRange p s' ∧ p.cmin ≤ rcc ∧ (p.cmin ≤ p.cmax → rcc ≤ p.cmax) := by
  obtain ⟨ccDe, -, h⟩ := bind_eq_ok.mp h
  obtain ⟨_, -, h⟩ := bind_eq_ok.mp h
  cases h
  obtain ⟨hcount, hdmax, -⟩ := hp.words
  have hle := hp.dmax
  refine ⟨⟨?_, ?_⟩, Int.le_max_right _ _, fun hle => ?_⟩
  · show p.clientCount ≤ ((min _ (max ccDe _) : Nat) : Int)
    omega
  · show ((min _ (max ccDe _) : Nat) : Int) ≤ p.dmax
    omega
  · exact Int.max_le.mpr ⟨Int.min_le_right _ _, hle⟩

/-- `ccDe` starts at its upper bound. -/
theorem inRange_start (hp : p.Valid) : InRange p (start p) := by
  obtain ⟨-, hdmax, -⟩ := hp.words
  unfold InRange start
  dsimp only
  rw [hdmax]
  exact ⟨hp.dmax, Int.le_refl _⟩

/-- The next RPC is granted credits between their bounds exactly when the load is not 0 or `ccDe` can
grow, and the bounds are in order. -/
theorem granted_iff (hp : p.Valid) (s : State) (a : Completed) :
    Granted p s a ↔ Loaded p s a ∧ p.cmin ≤ p.cmax := by
  constructor
  · rintro ⟨s', rcc, hok, -, hmin, hmax⟩
    obtain ⟨ccDe, hmethod, -⟩ := bind_eq_ok.mp hok
    exact ⟨(method5_iff hp).mp ⟨ccDe, hmethod⟩, Int.le_trans hmin hmax⟩
  · rintro ⟨hloaded, hle⟩
    obtain ⟨ccDe, hmethod⟩ := (method5_iff hp).mpr hloaded
    have hcount : toWord32 p.clientCount ≠ 0 := by
      obtain ⟨hcount, -, -⟩ := hp.words
      have hone := hp.clientCount
      omega
    obtain ⟨s', rcc, hok⟩ : ∃ s' rcc, calcGrantRCC p s a = .ok (s', rcc) :=
      ⟨_, _, bind_eq_ok.mpr ⟨ccDe, hmethod, bind_eq_ok.mpr ⟨(), check_true hcount, rfl⟩⟩⟩
    obtain ⟨hrange, hmin, hmax⟩ := calcGrantRCC_spec hp hok
    exact ⟨s', rcc, hok, hrange, hmin, hmax hle⟩

/-- **The credits of a server.** After any sequence of completed RPCs `ccDe` is between its bounds, and
the next one is granted credits between theirs exactly when the load is not 0 or `ccDe` can grow,
and `Cmin` is not above `Cmax`. -/
theorem credits_iff (hp : p.Valid) (hrun : Run (Step p) (start p) as s) :
    InRange p s ∧ ∀ a, Granted p s a ↔ Loaded p s a ∧ p.cmin ≤ p.cmax := by
  refine ⟨hrun.invariant (fun _ _ _ _ hstep => ?_) (inRange_start hp), granted_iff hp s⟩
  cases hstep with
  | complete hok => exact (calcGrantRCC_spec hp hok).1

/-- The parameters of the source, with 100 clients. -/
def exampleParams : Params := ⟨100, 64, 8192, 25, 1, 32, 8, 1000000000⟩

theorem exampleParams_valid : exampleParams.Valid :=
  ⟨by decide, by decide, by decide, by decide, by decide, by decide⟩

/-- A loaded server, with RPCs of 200 s and of 10 s. -/
theorem credits_loaded :
    ∃ s, Run (Step exampleParams) (start exampleParams) [⟨200000000000, 8, 8, 0, 9000, 0⟩] s ∧
      Granted exampleParams s ⟨10000000000, 8, 8, 0, 100, 0⟩ := by
  obtain ⟨s, rcc, hok, -⟩ := (granted_iff exampleParams_valid (start exampleParams)
    ⟨200000000000, 8, 8, 0, 9000, 0⟩).mpr (by decide)
  have hrun : Run (Step exampleParams) (start exampleParams)
      [⟨200000000000, 8, 8, 0, 9000, 0⟩] s := .cons (.complete hok) (.nil s)
  exact ⟨s, hrun, ((credits_iff exampleParams_valid hrun).2 _).mpr ⟨.inl (by decide), by decide⟩⟩

/-- The first RPC of a server, with a service time of 1 s: the load is 0, and `ccDe` is `Dmax`. -/
theorem credits_undefined :
    ¬ ∀ (p : Params) (as : List Completed) (s : State) (a : Completed), p.Valid →
      Run (Step p) (start p) as s → Granted p s a := by
  intro hall
  have hgranted := hall exampleParams [] _ ⟨1000000000, 8, 8, 0, 100, 0⟩ exampleParams_valid (.nil _)
  exact absurd ((granted_iff exampleParams_valid _ _).mp hgranted).1 (by decide)

end LustreSimulator.GrantRcc
