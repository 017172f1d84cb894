import Mathlib.Tactic.Common
import Mathlib.Data.List.Basic

/-!
# `LustreSimulator.Lib.Run`: runs of a labelled step relation

A system is a relation `Step : σ → α → σ → Prop`: `Step s a t` says that the action `a`
takes the state `s` to the state `t`. `Run Step s as t` says that the list of actions `as`
takes `s` to `t`, one step for each action.

The rules below are the ones a proof about a system uses:

* `Run.invariant` passes from what one step preserves to what a run preserves;
* `Run.append` and `Run.exists_of_append` glue and cut runs, and `Run.exists_of_mem` finds
  the states around one action of a run;
* `Run.guard` turns a run whose steps all meet a condition into a run of the restricted
  relation, so `Run.invariant` applies to it;
* `Run.exists_of_exec` finds a run by computation, where the steps can be computed.
-/

set_option autoImplicit false

namespace LustreSimulator.Lib

variable {σ : Type*} {α : Type*}

/-- The actions `as` take the first state to the last, one step for each action. -/
inductive Run (Step : σ → α → σ → Prop) : σ → List α → σ → Prop where
  | nil (s : σ) : Run Step s [] s
  | cons {s t u : σ} {a : α} {as : List α} :
      Step s a t → Run Step t as u → Run Step s (a :: as) u

namespace Run

variable {Step : σ → α → σ → Prop} {s t u : σ} {a : α} {as bs : List α}

/-- The empty run stays where it is. -/
@[simp]
theorem nil_iff : Run Step s [] t ↔ s = t := by
  constructor
  · intro h
    cases h
    rfl
  · rintro rfl
    exact .nil s

/-- A nonempty run is its first step and the rest. -/
theorem cons_iff : Run Step s (a :: as) u ↔ ∃ t, Step s a t ∧ Run Step t as u := by
  constructor
  · intro h
    cases h with
    | cons hstep hrun => exact ⟨_, hstep, hrun⟩
  · rintro ⟨t, hstep, hrun⟩
    exact .cons hstep hrun

/-- Two runs that meet glue together. -/
theorem append (h₁ : Run Step s as t) (h₂ : Run Step t bs u) : Run Step s (as ++ bs) u := by
  induction h₁ with
  | nil => exact h₂
  | cons hstep _ ih => exact .cons hstep (ih h₂)

/-- One more step at the end of a run. -/
theorem snoc (h : Run Step s as t) (hstep : Step t a u) : Run Step s (as ++ [a]) u :=
  h.append (.cons hstep (.nil u))

/-- A run over a concatenation passes through a state between the two parts. -/
theorem exists_of_append (h : Run Step s (as ++ bs) u) :
    ∃ t, Run Step s as t ∧ Run Step t bs u := by
  induction as generalizing s with
  | nil => exact ⟨s, .nil s, h⟩
  | cons a as ih =>
      obtain ⟨m, hstep, hrun⟩ := cons_iff.mp h
      obtain ⟨t, h₁, h₂⟩ := ih hrun
      exact ⟨t, .cons hstep h₁, h₂⟩

/-- Every action of a run is a step from some state of the run to the next. -/
theorem exists_of_mem (h : Run Step s as u) (ha : a ∈ as) :
    ∃ pre post t v, as = pre ++ a :: post ∧
      Run Step s pre t ∧ Step t a v ∧ Run Step v post u := by
  obtain ⟨pre, post, rfl⟩ := List.append_of_mem ha
  obtain ⟨t, h₁, h₂⟩ := h.exists_of_append
  obtain ⟨v, hstep, hpost⟩ := cons_iff.mp h₂
  exact ⟨pre, post, t, v, rfl, h₁, hstep, hpost⟩

/-- The invariant rule: a property that each step keeps is kept by a run. -/
theorem invariant {P : σ → Prop} (hstep : ∀ s a t, P s → Step s a t → P t)
    (h : Run Step s as t) (hs : P s) : P t := by
  induction h with
  | nil => exact hs
  | cons h₁ _ ih => exact ih (hstep _ _ _ hs h₁)

/-- A run of a smaller relation is a run of the larger one. -/
theorem mono {Step' : σ → α → σ → Prop} (hsub : ∀ s a t, Step s a t → Step' s a t)
    (h : Run Step s as t) : Run Step' s as t := by
  induction h with
  | nil => exact .nil _
  | cons h₁ _ ih => exact .cons (hsub _ _ _ h₁) ih

/-- A run whose steps all meet the condition `C`, a condition on the state before the step
and on the action, is a run of the relation restricted to `C`. -/
theorem guard {C : σ → α → Prop} (h : Run Step s as u)
    (hC : ∀ pre a post t, as = pre ++ a :: post → Run Step s pre t → C t a) :
    Run (fun s a t => C s a ∧ Step s a t) s as u := by
  induction h with
  | nil => exact .nil _
  | @cons s t u a as h₁ _ ih =>
      refine .cons ⟨hC [] a as s rfl (.nil s), h₁⟩ (ih ?_)
      intro pre b post v heq hrun
      exact hC (a :: pre) b post v (by rw [heq]; rfl) (.cons h₁ hrun)

section
variable {ε : Type*} (Enabled : σ → α → Prop) [∀ s a, Decidable (Enabled s a)]
  (fire : σ → α → Except ε σ)

/-- What the actions do one after the other, as long as they are enabled and do not fail. -/
def exec : σ → List α → Option σ
  | s, [] => some s
  | s, a :: as => if Enabled s a then (fire s a).toOption.bind fun t => exec t as else none

variable {Enabled fire}

/-- What is computed is a run. -/
theorem of_exec (hstep : ∀ s a t, Enabled s a → fire s a = .ok t → Step s a t)
    (h : exec Enabled fire s as = some u) : Run Step s as u := by
  induction as generalizing s with
  | nil => exact nil_iff.mpr (Option.some.inj h)
  | cons a as ih =>
      rw [exec] at h
      split at h
      · next hen =>
          cases hfire : fire s a with
          | error e => simp [hfire, Except.toOption] at h
          | ok t =>
              refine .cons (hstep s a t hen hfire) (ih ?_)
              simpa [hfire, Except.toOption] using h
      · cases h

/-- A run that is computed, with what is true at its end. -/
theorem exists_of_exec (hstep : ∀ s a t, Enabled s a → fire s a = .ok t → Step s a t)
    {Q : σ → Bool} (h : (exec Enabled fire s as).any Q = true) :
    ∃ t, Run Step s as t ∧ Q t = true := by
  obtain ⟨t, ht, hQ⟩ := Option.any_eq_true _ _ |>.mp h
  exact ⟨t, of_exec hstep ht, hQ⟩

end

end Run

end LustreSimulator.Lib
