import LustreSimulator.Lib.Run

/-!
# `LustreSimulator.Lib.TokenBucket`: the bound on the grants of a token bucket

A token bucket holds a number of tokens and the time of the last grant. Tokens come in lazily:
a grant at the time `now` may count one token for each `period` since the last grant, takes one
token, and leaves fewer than `depth`. `Grant depth period` is this step, labelled by its time.
It is an inequality, so it also covers a bucket that gives tokens away, is refilled more slowly
or is less deep.

`grants_window` is the bound: in every run, the grants inside a window `[t₀, t₁]` are at most
`depth + (t₁ - t₀) / period`. The argument is a potential: the grants of the window so far and
the tokens left are together at most `depth` and one for each full period since the begin of the
window (`WindowInv`).
-/

set_option autoImplicit false

namespace LustreSimulator.Lib

/-- A token bucket: the tokens left by the last grant, and its time. -/
structure Bucket where
  tokens : Nat
  last : Nat
  deriving DecidableEq, Repr

/-- One token is granted at the time `now`. -/
def Grant (depth period : Nat) (b : Bucket) (now : Nat) (b' : Bucket) : Prop :=
  b.last ≤ now ∧ b'.last = now ∧ b'.tokens + 1 ≤ depth ∧
    b'.tokens + 1 ≤ b.tokens + (now - b.last) / period

/-- The number of times inside the window. -/
def countWindow (t₀ t₁ : Nat) (ts : List Nat) : Nat :=
  ts.countP fun t => t₀ ≤ t ∧ t ≤ t₁

/-- The potential of a window: after `n` grants in it, unless there was none, the last grant was
not before the window, and as long as it was not after it the grants and the tokens left are
bounded by the depth and the periods that have passed. -/
def WindowInv (depth period t₀ t₁ n : Nat) (b : Bucket) : Prop :=
  n ≤ depth + (t₁ - t₀) / period ∧
    (n = 0 ∨ t₀ ≤ b.last ∧ (b.last ≤ t₁ → n + b.tokens ≤ depth + (b.last - t₀) / period))

/-- A grant keeps the potential, and counts when it is inside the window. -/
theorem WindowInv.grant {depth period t₀ t₁ n : Nat} {b b' : Bucket} {now : Nat}
    (h : WindowInv depth period t₀ t₁ n b) (hg : Grant depth period b now b') :
    WindowInv depth period t₀ t₁ (n + if t₀ ≤ now ∧ now ≤ t₁ then 1 else 0) b' := by
  obtain ⟨hbound, hpot⟩ := h
  obtain ⟨hle, hlast, hdepth, htokens⟩ := hg
  by_cases hin : t₀ ≤ now ∧ now ≤ t₁
  · rw [if_pos hin]
    -- the potential after the grant, from which the bound follows
    have hnew : n + 1 + b'.tokens ≤ depth + (now - t₀) / period := by
      rcases hpot with rfl | ⟨hlo, hpot⟩
      · have hfirst : 0 + 1 + b'.tokens ≤ depth := by omega
        exact Nat.le_trans hfirst (Nat.le_add_right _ _)
      · have hold := hpot (by omega)
        have hadd : (b.last - t₀) / period + (now - b.last) / period ≤ (now - t₀) / period := by
          have hsum : b.last - t₀ + (now - b.last) = now - t₀ := by omega
          rw [← hsum]
          exact Nat.div_add_div_le_add_div
        omega
    have hmono : (now - t₀) / period ≤ (t₁ - t₀) / period := Nat.div_le_div_right (by omega)
    refine ⟨by omega, Or.inr ⟨by omega, fun _ => ?_⟩⟩
    rw [hlast]
    exact hnew
  · rw [if_neg hin, Nat.add_zero]
    refine ⟨hbound, ?_⟩
    rcases hpot with rfl | ⟨hlo, -⟩
    · exact Or.inl rfl
    · refine Or.inr ⟨by omega, fun hle' => ?_⟩
      omega

/-- A run of grants keeps the potential. -/
theorem WindowInv.run {depth period t₀ t₁ n : Nat} {b b' : Bucket} {ts : List Nat}
    (h : WindowInv depth period t₀ t₁ n b) (hrun : Run (Grant depth period) b ts b') :
    WindowInv depth period t₀ t₁ (n + countWindow t₀ t₁ ts) b' := by
  induction hrun generalizing n with
  | nil => exact h
  | @cons b u b' now ts hg _ ih =>
      have hcount : n + countWindow t₀ t₁ (now :: ts) =
          (n + if t₀ ≤ now ∧ now ≤ t₁ then 1 else 0) + countWindow t₀ t₁ ts := by
        unfold countWindow
        rw [List.countP_cons]
        simp only [decide_eq_true_eq]
        omega
      rw [hcount]
      exact ih (h.grant hg)

/-- The grants of a run inside a window are at most the depth and one for each full period of
the window. -/
theorem grants_window {depth period : Nat} {b b' : Bucket} {ts : List Nat}
    (hrun : Run (Grant depth period) b ts b') (t₀ t₁ : Nat) :
    countWindow t₀ t₁ ts ≤ depth + (t₁ - t₀) / period := by
  have hinit : WindowInv depth period t₀ t₁ 0 b := ⟨Nat.zero_le _, Or.inl rfl⟩
  have := (hinit.run hrun).1
  rwa [Nat.zero_add] at this

end LustreSimulator.Lib
