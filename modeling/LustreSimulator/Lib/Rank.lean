import LustreSimulator.Lib.Run

/-!
# `LustreSimulator.Lib.Rank`: a rank bounds the waiting

Something waits in a system to be hit. The steps of some actions are services, and a rank is a
number that every service which does not hit lowers and no other step raises. Then a run with more
services than the rank of its first state hits, and `exists_hit` finds the first time.

Where new work comes in, the rank is a potential, an integer: a run has at most as many services as
its potential falls, which is `countP_add_le`.
-/

set_option autoImplicit false

namespace LustreSimulator.Lib.Run

variable {σ : Type*} {α : Type*} {Step : σ → α → σ → Prop}

/-- A run with more services than its rank has a step that hits. The invariant `P` still holds
there, and there are at most as many services before as the rank says. -/
theorem exists_hit (P : σ → Prop) (Hit : σ → α → Prop) (rank : σ → Nat) (serves : α → Bool)
    (hstep : ∀ s a t, P s → Step s a t → ¬ Hit s a →
      P t ∧ rank t + (if serves a then 1 else 0) ≤ rank s)
    {s t : σ} {as : List α} (hrun : Run Step s as t) (hs : P s)
    (hcount : rank s < as.countP serves) :
    ∃ pre a post u v, as = pre ++ a :: post ∧ Run Step s pre u ∧ Step u a v ∧ Run Step v post t ∧
      P u ∧ Hit u a ∧ pre.countP serves ≤ rank s := by
  induction hrun with
  | nil => exact absurd hcount (Nat.not_lt_zero _)
  | @cons s m t a as hfirst hrest ih =>
      by_cases hhit : Hit s a
      · exact ⟨[], a, as, s, m, rfl, .nil s, hfirst, hrest, hs, hhit, Nat.zero_le _⟩
      · obtain ⟨hm, hrank⟩ := hstep s a m hs hfirst hhit
        rw [List.countP_cons] at hcount
        obtain ⟨pre, b, post, u, v, rfl, hpre, hb, hpost, hu, hhit', hle⟩ := ih hm (by omega)
        refine ⟨a :: pre, b, post, u, v, rfl, .cons hfirst hpre, hb, hpost, hu, hhit', ?_⟩
        rw [List.countP_cons]
        omega

/-- A potential that every service lowers and no other step raises bounds the services of a run. -/
theorem countP_add_le (P : σ → Prop) (potential : σ → Int) (serves : α → Bool)
    (hstep : ∀ s a t, P s → Step s a t →
      P t ∧ potential t + (if serves a then 1 else 0) ≤ potential s)
    {s t : σ} {as : List α} (hrun : Run Step s as t) (hs : P s) :
    (as.countP serves : Int) + potential t ≤ potential s := by
  induction hrun with
  | nil => simp
  | @cons s m t a as hfirst hrest ih =>
      obtain ⟨hm, hle⟩ := hstep s a m hs hfirst
      have hrest := ih hm
      rw [List.countP_cons]
      cases hserves : serves a <;> simp [hserves] at hle ⊢ <;> omega

end LustreSimulator.Lib.Run
