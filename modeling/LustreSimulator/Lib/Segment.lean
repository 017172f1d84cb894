import Mathlib.Tactic.Common
import Mathlib.Data.List.Basic
import Mathlib.Data.Finset.Card
import Mathlib.Order.Interval.Finset.Nat

/-!
# `LustreSimulator.Lib.Segment`: piecewise translations

A `Segment` sends the `len` points from `src` on to the `len` points from `dst` on, and a list
of segments is a relation between points: `Sends l x y`. This is the shape of an extent map, of
a page table or of a relocation list.

* `Sorted` lists are in increasing order without overlap. A sorted list sends a point to one
  place only (`Sorted.unique`).
* `Sorted.insert` and `Sorted.grow` keep a list sorted, and `sends_insert` and `sends_grow` say
  what the new list sends.
* `holes l start len` counts the points of a window that the list does not define.
  `holes_fill` is the account when a segment fills a part of the window.
* `taken l w` counts the points of the segment `w` that the list sends where `w` does.
  `taken_fill` is the account when a part of `w` joins the list.
-/

set_option autoImplicit false

namespace LustreSimulator.Lib

/-- The points `src, ..., src + len - 1` go to `dst, ..., dst + len - 1`. -/
structure Segment where
  src : Nat
  dst : Nat
  len : Nat
  deriving DecidableEq, Repr

namespace Segment

/-- The segment defines the point `x`. -/
def Defines (s : Segment) (x : Nat) : Prop := s.src ≤ x ∧ x < s.src + s.len

/-- The segment sends `x` to `y`. -/
def Sends (s : Segment) (x y : Nat) : Prop := s.Defines x ∧ y = s.dst + (x - s.src)

/-- `s` is a part of `t`: it lies inside `t` and sends its points to the same places. -/
def Inside (s t : Segment) : Prop :=
  t.src ≤ s.src ∧ s.src + s.len ≤ t.src + t.len ∧ s.dst = t.dst + (s.src - t.src)

/-- A part of a segment sends nothing else. -/
theorem Inside.sends {s t : Segment} (h : s.Inside t) {x y : Nat} (hs : s.Sends x y) :
    t.Sends x y := by
  obtain ⟨hsrc, hend, hdst⟩ := h
  obtain ⟨⟨hlo, hhi⟩, rfl⟩ := hs
  refine ⟨⟨by omega, by omega⟩, by omega⟩

/-- Every segment is a part of itself. -/
theorem inside_refl (s : Segment) : s.Inside s := ⟨le_rfl, le_rfl, by omega⟩

/-- A segment sends a point to one place only. -/
theorem Sends.unique {s : Segment} {x y y' : Nat} (h : s.Sends x y) (h' : s.Sends x y') :
    y = y' := by
  rw [h.2, h'.2]

/-- The targets of a segment. -/
theorem Sends.range {s : Segment} {x y : Nat} (h : s.Sends x y) :
    s.dst ≤ y ∧ y < s.dst + s.len := by
  obtain ⟨⟨hlo, hhi⟩, rfl⟩ := h
  omega

/-- A segment that another one continues, in the source and in the target. -/
def grow (s : Segment) (n : Nat) : Segment := { s with len := s.len + n }

/-- The longer segment sends what the two parts send. -/
theorem sends_grow (s : Segment) (n x y : Nat) :
    (s.grow n).Sends x y ↔ s.Sends x y ∨ Sends ⟨s.src + s.len, s.dst + s.len, n⟩ x y := by
  simp only [Sends, Defines, grow]
  omega

end Segment

/-- Some segment of the list defines `x`. -/
def Defines (l : List Segment) (x : Nat) : Prop := ∃ s ∈ l, s.Defines x

/-- Some segment of the list sends `x` to `y`. -/
def Sends (l : List Segment) (x y : Nat) : Prop := ∃ s ∈ l, s.Sends x y

/-- What a list defines is what it sends somewhere. -/
theorem defines_iff_sends {l : List Segment} {x : Nat} : Defines l x ↔ ∃ y, Sends l x y := by
  constructor
  · rintro ⟨s, hs, hx⟩
    exact ⟨_, s, hs, hx, rfl⟩
  · rintro ⟨y, s, hs, hx, -⟩
    exact ⟨s, hs, hx⟩

/-- A new segment adds what it sends. -/
theorem sends_insert (pre post : List Segment) (s : Segment) (x y : Nat) :
    Sends (pre ++ s :: post) x y ↔ Sends (pre ++ post) x y ∨ s.Sends x y := by
  simp only [Sends, List.mem_append, List.mem_cons]
  constructor
  · rintro ⟨t, ht | rfl | ht, h⟩
    · exact Or.inl ⟨t, Or.inl ht, h⟩
    · exact Or.inr h
    · exact Or.inl ⟨t, Or.inr ht, h⟩
  · rintro (⟨t, ht | ht, h⟩ | h)
    · exact ⟨t, Or.inl ht, h⟩
    · exact ⟨t, Or.inr (Or.inr ht), h⟩
    · exact ⟨s, Or.inr (Or.inl rfl), h⟩

/-- Growing a segment adds what the new part sends. -/
theorem sends_grow (pre post : List Segment) (s : Segment) (n x y : Nat) :
    Sends (pre ++ s.grow n :: post) x y ↔
      Sends (pre ++ s :: post) x y ∨ Segment.Sends ⟨s.src + s.len, s.dst + s.len, n⟩ x y := by
  rw [sends_insert, sends_insert, Segment.sends_grow, or_assoc]

/-- What a new segment adds to the points a list defines. -/
theorem defines_insert (pre post : List Segment) (s : Segment) (x : Nat) :
    Defines (pre ++ s :: post) x ↔ Defines (pre ++ post) x ∨ s.Defines x := by
  simp only [defines_iff_sends, sends_insert]
  constructor
  · rintro ⟨y, h | h⟩
    · exact Or.inl ⟨y, h⟩
    · exact Or.inr h.1
  · rintro (⟨y, h⟩ | h)
    · exact ⟨y, Or.inl h⟩
    · exact ⟨_, Or.inr ⟨h, rfl⟩⟩

/-! ### Sorted lists -/

/-- The segments are in increasing order and do not overlap. -/
def Sorted (l : List Segment) : Prop := l.Pairwise fun s t => s.src + s.len ≤ t.src

/-- Two segments of a sorted list are the same or lie apart. -/
theorem Sorted.apart {l : List Segment} (h : Sorted l) {s t : Segment} (hs : s ∈ l)
    (ht : t ∈ l) : s = t ∨ s.src + s.len ≤ t.src ∨ t.src + t.len ≤ s.src := by
  induction h with
  | nil => cases hs
  | cons hhead _ ih =>
      rcases List.mem_cons.mp hs with rfl | hs'
      · rcases List.mem_cons.mp ht with rfl | ht'
        · exact Or.inl rfl
        · exact Or.inr (Or.inl (hhead t ht'))
      · rcases List.mem_cons.mp ht with rfl | ht'
        · exact Or.inr (Or.inr (hhead s hs'))
        · exact ih hs' ht'

/-- A sorted list sends a point to one place only. -/
theorem Sorted.unique {l : List Segment} (h : Sorted l) {x y y' : Nat} (hy : Sends l x y)
    (hy' : Sends l x y') : y = y' := by
  obtain ⟨s, hs, hsy⟩ := hy
  obtain ⟨t, ht, hty⟩ := hy'
  have hst : s = t := by
    obtain ⟨hslo, hshi⟩ := hsy.1
    obtain ⟨htlo, hthi⟩ := hty.1
    rcases h.apart hs ht with hst | hst | hst
    · exact hst
    · omega
    · omega
  subst hst
  exact hsy.unique hty

/-- A segment that lies between two parts of a sorted list can join it. -/
theorem Sorted.insert {pre post : List Segment} (h : Sorted (pre ++ post)) {s : Segment}
    (hpre : ∀ t ∈ pre, t.src + t.len ≤ s.src) (hpost : ∀ t ∈ post, s.src + s.len ≤ t.src) :
    Sorted (pre ++ s :: post) := by
  obtain ⟨h₁, h₂, h₁₂⟩ := List.pairwise_append.mp h
  refine List.pairwise_append.mpr ⟨h₁, List.pairwise_cons.mpr ⟨hpost, h₂⟩, ?_⟩
  intro a ha b hb
  cases hb with
  | head => exact hpre a ha
  | tail _ hb => exact h₁₂ a ha b hb

/-- A segment of a sorted list can grow up to the next one. -/
theorem Sorted.grow {pre post : List Segment} {s : Segment} (h : Sorted (pre ++ s :: post))
    {n : Nat} (hpost : ∀ t ∈ post, s.src + s.len + n ≤ t.src) :
    Sorted (pre ++ s.grow n :: post) := by
  obtain ⟨h₁, h₂, h₁₂⟩ := List.pairwise_append.mp h
  refine List.pairwise_append.mpr ⟨h₁, List.pairwise_cons.mpr ⟨?_, h₂.of_cons⟩, ?_⟩
  · intro t ht
    have := hpost t ht
    simp only [Segment.grow]
    omega
  · intro a ha b hb
    cases hb with
    | head => exact h₁₂ a ha s (List.mem_cons_self ..)
    | tail _ hb => exact h₁₂ a ha b (List.mem_cons_of_mem _ hb)

/-! ### Counting the holes of a window -/

open Classical in
/-- The number of points of the window `[start, start + len)` that the list does not define. -/
noncomputable def holes (l : List Segment) (start len : Nat) : Nat :=
  ((Finset.Ico start (start + len)).filter fun x => ¬ Defines l x).card

/-- A window has no more holes than points. -/
theorem holes_le (l : List Segment) (start len : Nat) : holes l start len ≤ len := by
  classical
  calc holes l start len ≤ (Finset.Ico start (start + len)).card := Finset.card_filter_le _ _
    _ = len := by simp

/-- A list that defines more leaves no more holes. -/
theorem holes_mono {l l' : List Segment} (h : ∀ x, Defines l x → Defines l' x)
    (start len : Nat) : holes l' start len ≤ holes l start len := by
  classical
  refine Finset.card_le_card fun x hx => ?_
  rw [Finset.mem_filter] at hx ⊢
  exact ⟨hx.1, fun hd => hx.2 (h x hd)⟩

/-- Filling a part of a window that the list did not define takes the points of that part from
the holes. -/
theorem holes_fill {l l' : List Segment} {s : Segment} {start len : Nat}
    (h : ∀ x, Defines l' x ↔ Defines l x ∨ s.Defines x)
    (hlo : start ≤ s.src) (hhi : s.src + s.len ≤ start + len)
    (hnew : ∀ x, s.Defines x → ¬ Defines l x) :
    holes l' start len + s.len = holes l start len := by
  classical
  have hsplit : (Finset.Ico start (start + len)).filter (fun x => ¬ Defines l x) =
      (Finset.Ico start (start + len)).filter (fun x => ¬ Defines l' x) ∪
        Finset.Ico s.src (s.src + s.len) := by
    ext x
    simp only [Finset.mem_filter, Finset.mem_union, Finset.mem_Ico, h]
    constructor
    · rintro ⟨hx, hd⟩
      by_cases hs : s.Defines x
      · exact Or.inr hs
      · exact Or.inl ⟨hx, by tauto⟩
    · rintro (⟨hx, hd⟩ | hs)
      · exact ⟨hx, fun hl => hd (Or.inl hl)⟩
      · exact ⟨by omega, hnew x hs⟩
  have hdisj : Disjoint ((Finset.Ico start (start + len)).filter (fun x => ¬ Defines l' x))
      (Finset.Ico s.src (s.src + s.len)) := by
    rw [Finset.disjoint_left]
    intro x hx hs
    rw [Finset.mem_filter] at hx
    exact hx.2 ((h x).mpr (Or.inr (Finset.mem_Ico.mp hs)))
  unfold holes
  rw [hsplit, Finset.card_union_of_disjoint hdisj]
  simp

/-! ### Counting what a list takes from a segment -/

open Classical in
/-- The number of points of the segment `w` that the list sends to the same places. -/
noncomputable def taken (l : List Segment) (w : Segment) : Nat :=
  ((Finset.Ico w.src (w.src + w.len)).filter fun x => Sends l x (w.dst + (x - w.src))).card

/-- Lists that send the same points into the segment take the same from it. -/
theorem taken_congr {l l' : List Segment} {w : Segment}
    (h : ∀ x y, w.Sends x y → (Sends l' x y ↔ Sends l x y)) : taken l' w = taken l w := by
  classical
  unfold taken
  congr 1
  apply Finset.filter_congr
  intro x hx
  exact h x _ ⟨Finset.mem_Ico.mp hx, rfl⟩

/-- A list that sends no point there takes nothing. -/
theorem taken_eq_zero {l : List Segment} {w : Segment}
    (h : ∀ x y, w.Sends x y → ¬ Sends l x y) : taken l w = 0 := by
  classical
  unfold taken
  rw [Finset.card_eq_zero, Finset.filter_eq_empty_iff]
  intro x hx
  exact h x _ ⟨Finset.mem_Ico.mp hx, rfl⟩

/-- A part of the segment that joins the list takes its points, when the list sent none of them
there. -/
theorem taken_fill {l l' : List Segment} {s w : Segment} (hs : s.Inside w)
    (h : ∀ x y, Sends l' x y ↔ Sends l x y ∨ s.Sends x y)
    (hnew : ∀ x y, s.Sends x y → ¬ Sends l x y) : taken l' w = taken l w + s.len := by
  classical
  have hsends : ∀ x, s.Sends x (w.dst + (x - w.src)) ↔ s.Defines x := by
    intro x
    refine ⟨fun hx => hx.1, fun hx => ⟨hx, ?_⟩⟩
    obtain ⟨hsrc, -, hdst⟩ := hs
    obtain ⟨hlo, -⟩ := hx
    omega
  have hsplit : (Finset.Ico w.src (w.src + w.len)).filter
      (fun x => Sends l' x (w.dst + (x - w.src))) =
      (Finset.Ico w.src (w.src + w.len)).filter (fun x => Sends l x (w.dst + (x - w.src))) ∪
        Finset.Ico s.src (s.src + s.len) := by
    ext x
    simp only [Finset.mem_filter, Finset.mem_union, Finset.mem_Ico, h, hsends]
    constructor
    · rintro ⟨hx, hl | hd⟩
      · exact Or.inl ⟨hx, hl⟩
      · exact Or.inr hd
    · rintro (⟨hx, hl⟩ | hd)
      · exact ⟨hx, Or.inl hl⟩
      · obtain ⟨hsrc, hend, -⟩ := hs
        exact ⟨by omega, Or.inr hd⟩
  have hdisj : Disjoint ((Finset.Ico w.src (w.src + w.len)).filter
      (fun x => Sends l x (w.dst + (x - w.src)))) (Finset.Ico s.src (s.src + s.len)) := by
    rw [Finset.disjoint_left]
    intro x hx hd
    rw [Finset.mem_filter] at hx
    exact hnew x _ ((hsends x).mpr (Finset.mem_Ico.mp hd)) hx.2
  unfold taken
  rw [hsplit, Finset.card_union_of_disjoint hdisj]
  simp

end LustreSimulator.Lib
