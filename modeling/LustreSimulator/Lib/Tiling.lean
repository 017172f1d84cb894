import Mathlib.Tactic.Common
import Mathlib.Data.List.Basic

/-!
# `LustreSimulator.Lib.Tiling`: lists of consecutive ranges

`Tiles start l stop` says that the ranges of `l`, each an offset and a length, follow each
other without gap or overlap from `start` to `stop`. `Tiles.append` glues two tilings,
`tiles_append` cuts one, and `Tiles.snoc` adds a range at the end. A tiling covers each number
between its ends once (`Tiles.countP_covers`). `pieces` cuts a range into a tiling.
-/

set_option autoImplicit false

namespace LustreSimulator.Lib

/-- The ranges of the list lead from `start` to `stop`, each beginning where the one before it
ends. -/
def Tiles (start : Nat) : List (Nat × Nat) → Nat → Prop
  | [], stop => start = stop
  | r :: rest, stop => r.1 = start ∧ Tiles (start + r.2) rest stop

@[simp]
theorem tiles_nil (start stop : Nat) : Tiles start [] stop ↔ start = stop := Iff.rfl

@[simp]
theorem tiles_cons (start : Nat) (r : Nat × Nat) (l : List (Nat × Nat)) (stop : Nat) :
    Tiles start (r :: l) stop ↔ r.1 = start ∧ Tiles (start + r.2) l stop := Iff.rfl

/-- A tiling of two lists is a tiling of each, and they meet. -/
theorem tiles_append {start stop : Nat} {l m : List (Nat × Nat)} :
    Tiles start (l ++ m) stop ↔ ∃ mid, Tiles start l mid ∧ Tiles mid m stop := by
  induction l generalizing start with
  | nil => simp
  | cons r l ih =>
      simp only [List.cons_append, tiles_cons, ih]
      constructor
      · rintro ⟨hr, mid, hl, hm⟩
        exact ⟨mid, ⟨hr, hl⟩, hm⟩
      · rintro ⟨mid, ⟨hr, hl⟩, hm⟩
        exact ⟨hr, mid, hl, hm⟩

/-- Two tilings that meet glue together. -/
theorem Tiles.append {start mid stop : Nat} {l m : List (Nat × Nat)} (hl : Tiles start l mid)
    (hm : Tiles mid m stop) : Tiles start (l ++ m) stop :=
  tiles_append.mpr ⟨mid, hl, hm⟩

/-- A range that begins at the end of a tiling extends it. -/
theorem Tiles.snoc {start stop : Nat} {l : List (Nat × Nat)} (h : Tiles start l stop) (n : Nat) :
    Tiles start (l ++ [(stop, n)]) (stop + n) :=
  h.append ⟨rfl, rfl⟩

/-- A tiling leads forward. -/
theorem Tiles.le {start stop : Nat} {l : List (Nat × Nat)} (h : Tiles start l stop) :
    start ≤ stop := by
  induction l generalizing start with
  | nil => exact Nat.le_of_eq h
  | cons r l ih =>
      have := ih h.2
      omega

/-- Tilings that follow each other are one. -/
theorem tiles_flatMap {n : Nat} {l : Nat → List (Nat × Nat)} {f : Nat → Nat}
    (h : ∀ i < n, Tiles (f i) (l i) (f (i + 1))) : Tiles (f 0) ((List.range n).flatMap l) (f n) := by
  induction n with
  | zero => rfl
  | succ n ih =>
      rw [List.range_succ, List.flatMap_append, List.flatMap_singleton]
      exact (ih fun i hi => h i (Nat.lt_succ_of_lt hi)).append (h n (Nat.lt_succ_self n))

/-- The range holds the number. -/
def Covers (b : Nat) (r : Nat × Nat) : Bool := r.1 ≤ b ∧ b < r.1 + r.2

/-- A tiling covers each number between its ends once, and no other. -/
theorem Tiles.countP_covers {start stop : Nat} {l : List (Nat × Nat)} (h : Tiles start l stop)
    (b : Nat) : l.countP (Covers b) = if start ≤ b ∧ b < stop then 1 else 0 := by
  induction l generalizing start with
  | nil =>
      cases h
      simp only [List.countP_nil]
      split <;> omega
  | cons r l ih =>
      obtain ⟨hr, hl⟩ := h
      have hle := hl.le
      have hcovers : Covers b r = true ↔ start ≤ b ∧ b < start + r.2 := by simp [Covers, hr]
      rw [List.countP_cons, ih hl]
      simp only [hcovers]
      split_ifs <;> omega

/-- A range of the length `n` from `off` on, cut into pieces of the length `x` and a last one. It
stays whole when `x` is 0. -/
def pieces (x off n : Nat) : List (Nat × Nat) :=
  if n = 0 then []
  else if x = 0 then [(off, n)]
  else (off, min n x) :: pieces x (off + min n x) (n - min n x)
termination_by n
decreasing_by omega

@[simp]
theorem pieces_zero (x off : Nat) : pieces x off 0 = [] := by
  rw [pieces, if_pos rfl]

@[simp]
theorem pieces_whole {off n : Nat} (hn : n ≠ 0) : pieces 0 off n = [(off, n)] := by
  rw [pieces, if_neg hn, if_pos rfl]

/-- The first piece and the others. -/
theorem pieces_cons {x off n : Nat} (hn : n ≠ 0) (hx : x ≠ 0) :
    pieces x off n = (off, min n x) :: pieces x (off + min n x) (n - min n x) := by
  rw [pieces, if_neg hn, if_neg hx]

/-- The pieces tile the range. -/
theorem tiles_pieces (x off n : Nat) : Tiles off (pieces x off n) (off + n) := by
  induction n using Nat.strongRecOn generalizing off with
  | _ n ih =>
      by_cases hn : n = 0
      · simp [hn]
      · by_cases hx : x = 0
        · simp [hx, hn]
        · have hrest := ih (n - min n x) (by omega) (off + min n x)
          rw [pieces_cons hn hx]
          refine ⟨rfl, ?_⟩
          rwa [Nat.add_assoc, Nat.add_sub_cancel' (Nat.min_le_left n x)] at hrest

end LustreSimulator.Lib
