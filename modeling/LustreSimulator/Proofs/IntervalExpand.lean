import LustreSimulator.Proofs.IntervalSearch

/-!
# `LustreSimulator.Proofs.IntervalExpand`: the gap around an extent

`interval_expand_high` goes down the tree once. On the way it keeps the smallest start above the end
of the extent, and it stops at a subtree whose `in_max_high` is below this end: no extent there ends
above it, so none starts above it either. `in_max_high` may be too large after an erasure. Then the
descent goes on, and finds the same.

`expandHighLoop_spec` is the descent, with the result that it brings along from above.
`interval_expand_exact` is `interval_expand` on every tree in use.
-/

set_option autoImplicit false

namespace LustreSimulator

open Lib

namespace IntervalTree

variable {t : IntervalTree} {ext e : IntervalExtent}

/-- The extents of a tree in use are not empty. -/
theorem Built.low_le_high (h : Built t) : ∀ x ∈ t.toList, low x ≤ high x := by
  have hkeys : ∀ k ∈ keys t, k.2.start ≤ k.2.end_ := by
    induction h with
    | nil => exact fun k hk => nomatch hk
    | @insert t t' addr start end_ found hbuilt hle hinsert ih =>
        rcases @insert_spec t (intervalSet addr start end_) hbuilt.wf rfl with
          ⟨x, u, hu, -, -, -, hkeys⟩ | ⟨u, l, m, hu, -, hkeys, hkeys'⟩
        · rw [hinsert] at hu
          cases hu
          rwa [hkeys]
        · rw [hinsert] at hu
          cases hu
          intro k hk
          rw [hkeys] at ih
          rw [hkeys', List.mem_append, List.mem_cons] at hk
          rcases hk with hk | rfl | hk
          · exact ih k (List.mem_append_left _ hk)
          · exact hle
          · exact ih k (List.mem_append_right _ hk)
    | erase hbuilt herase ih =>
        obtain ⟨u, l, m, hu, -, hkeys, hkeys'⟩ := erase_spec hbuilt.wf
        rw [herase] at hu
        cases hu
        rw [hkeys] at ih
        rw [hkeys']
        exact fun k hk => ih k (((List.sublist_cons_self _ m).append_left l).subset hk)
  exact fun x hx => hkeys x.key (List.mem_map_of_mem hx)

/-- `x` is the first node of the tree that starts above `high`. -/
def FirstAbove (high : Nat) (t : IntervalTree) (x : IntervalNode) : Prop :=
  x ∈ t.toList ∧ high < low x ∧ ∀ y ∈ t.toList, high < low y → low x ≤ low y

/-- The descent ends in front of the first start above `high`, and where there is none it keeps the
result from above. -/
theorem expandHighLoop_spec {high result : Nat} (hsorted : Sorted (keys t)) (hb : Bounded t)
    (hle : ∀ x ∈ t.toList, low x ≤ IntervalTree.high x) :
    (∃ x, FirstAbove high t x ∧ expandHighLoop high t result + 1 = low x) ∨
      ((∀ y ∈ t.toList, low y ≤ high) ∧ expandHighLoop high t result = result) := by
  induction t generalizing result with
  | nil => exact .inr ⟨fun y hy => (nomatch hy), rfl⟩
  | node c l x r ihl ihr =>
      have hmax := high_le_maxHigh hb
      obtain ⟨-, -, -, hbl, hbr⟩ := hb
      rw [keys, RbTree.toList_node, List.map_append, List.map_cons, Sorted, List.pairwise_append,
        List.pairwise_cons] at hsorted
      obtain ⟨hsl, ⟨hxr, hsr⟩, hlx⟩ := hsorted
      have hleft : ∀ y ∈ l.toList, low y ≤ low x := fun y hy =>
        low_le_of_compare (hlx _ (List.mem_map_of_mem hy) _ List.mem_cons_self)
      have hright : ∀ y ∈ r.toList, low x ≤ low y := fun y hy =>
        low_le_of_compare (hxr _ (List.mem_map_of_mem hy))
      simp only [RbTree.toList_node, List.mem_append, List.mem_cons, FirstAbove] at hle hmax ⊢
      rw [expandHighLoop]
      split
      · -- every extent below ends in front of `high`
        rename_i hstop
        refine .inr ⟨fun y hy => ?_, rfl⟩
        have hylow := hle y hy
        have hyhigh := hmax y hy
        rw [maxHigh_node] at hyhigh
        omega
      split
      · rename_i hlow
        rcases @ihl (low x - 1) hsl hbl (fun y hy => hle y (.inl hy)) with
          ⟨z, ⟨hz, hzhigh, hzleast⟩, hresult⟩ | ⟨hnone, hresult⟩
        · refine .inl ⟨z, ⟨.inl hz, hzhigh, fun y hy hyhigh => ?_⟩, hresult⟩
          rcases hy with hy | rfl | hy
          · exact hzleast y hy hyhigh
          · exact hleft z hz
          · exact Nat.le_trans (hleft z hz) (hright y hy)
        · refine .inl ⟨x, ⟨.inr (.inl rfl), hlow, fun y hy hyhigh => ?_⟩, by omega⟩
          rcases hy with hy | rfl | hy
          · have := hnone y hy
            omega
          · exact Nat.le_refl _
          · exact hright y hy
      · rename_i hlow
        have hx := Nat.le_of_not_lt hlow
        rcases @ihr result hsr hbr (fun y hy => hle y (.inr (.inr hy))) with
          ⟨z, ⟨hz, hzhigh, hzleast⟩, hresult⟩ | ⟨hnone, hresult⟩
        · refine .inl ⟨z, ⟨.inr (.inr hz), hzhigh, fun y hy hyhigh => ?_⟩, hresult⟩
          rcases hy with hy | rfl | hy
          · have := hleft y hy
            omega
          · omega
          · exact hzleast y hy hyhigh
        · refine .inr ⟨fun y hy => ?_, hresult⟩
          rcases hy with hy | rfl | hy
          · exact Nat.le_trans (hleft y hy) hx
          · exact hx
          · exact hnone y hy

/-- What `interval_expand_high` returns. -/
theorem expandHigh_spec (h : Built t) (high : Nat) :
    (∃ x, FirstAbove high t x ∧ expandHigh t high + 1 = low x) ∨
      ((∀ y ∈ t.toList, low y ≤ high) ∧ expandHigh t high = allOnes) :=
  expandHighLoop_spec h.wf.sorted h.wf.bounded h.low_le_high

/-- The end that `interval_expand` leaves, where `high` is the end of the extent. -/
def HighEnd (t : IntervalTree) (high end_ : Nat) : Prop :=
  (∃ x, FirstAbove high t x ∧ end_ = low x - 1) ∨ ((∀ y ∈ t.toList, low y ≤ high) ∧ end_ = allOnes)

/-- An extent that grows upwards to such an end overlaps nothing new. -/
theorem HighEnd.not_overlapped {end_ : Nat} (h : HighEnd t ext.end_ end_)
    (hmiss : ∀ x ∈ t.toList, ext.overlapped x.extent = false) :
    ∀ x ∈ t.toList, IntervalExtent.overlapped ⟨ext.start, end_⟩ x.extent = false := by
  intro x hx
  have hx' := hmiss x hx
  have hlow : low x = x.extent.start := rfl
  simp only [IntervalExtent.overlapped, Bool.and_eq_false_iff, decide_eq_false_iff_not] at hx' ⊢
  rcases h with ⟨z, ⟨-, hzhigh, hzleast⟩, rfl⟩ | ⟨hnone, rfl⟩
  · -- a node that starts above the extent starts at the first one or behind it
    by_cases hxhigh : ext.end_ < low x
    · have := hzleast x hx hxhigh
      omega
    · omega
  · have := hnone x hx
    omega

/-- It is not below the end of the extent. -/
theorem HighEnd.le {high end_ : Nat} (h : HighEnd t high end_) (hhigh : high < 2 ^ 64) :
    high ≤ end_ := by
  rcases h with ⟨z, ⟨-, hzhigh, -⟩, rfl⟩ | ⟨-, rfl⟩
  · omega
  · unfold allOnes
    omega

/-- `interval_is_overlapped` finds nothing where no node overlaps. -/
theorem intervalIsOverlapped_eq_false (h : Built t) {fuel : Nat} (hfuel : t.toList.length ≤ fuel)
    (he : ∀ x ∈ t.toList, e.overlapped x.extent = false) :
    intervalIsOverlapped fuel t e = some false := by
  rw [intervalIsOverlapped_eq h.wf hfuel, Option.some_inj, Bool.eq_false_iff, Ne,
    isOverlapped_iff h.wf]
  rintro ⟨x, hx, hover⟩
  rw [he x hx] at hover
  cases hover

/-- Where the extent ends afterwards. -/
theorem expanded_end (h : Built t) (ext : IntervalExtent) (limiter : Option IntervalExtent)
    {end_ : Nat}
    (hend : (if expandsHigh ext limiter then expandHigh t ext.end_ else ext.end_) = end_) :
    (expandsHigh ext limiter = true → HighEnd t ext.end_ end_) ∧
      (expandsHigh ext limiter = false → end_ = ext.end_) := by
  rw [← hend]
  cases expandsHigh ext limiter with
  | true =>
      refine ⟨fun _ => ?_, fun hexp => (nomatch hexp)⟩
      rcases expandHigh_spec h ext.end_ with ⟨x, hx, heq⟩ | hnone
      · exact .inl ⟨x, hx, (Nat.sub_eq_of_eq_add heq.symm).symm⟩
      · exact .inr hnone
  | false => exact ⟨fun hexp => (nomatch hexp), fun _ => rfl⟩

/-- Where it starts: the start moves in the empty tree alone. -/
theorem expanded_start (t : IntervalTree) (ext : IntervalExtent) (limiter : Option IntervalExtent)
    {start : Nat}
    (hstart : (if expandsLow ext limiter then expandLow t ext.start else ext.start) = start) :
    start ≤ ext.start ∧ (t = .nil ∨ start = ext.start) := by
  rw [← hstart, expandLow]
  split_ifs with _ hnil
  · exact ⟨Nat.zero_le _, .inl hnil⟩
  · exact ⟨Nat.le_refl _, .inr rfl⟩
  · exact ⟨Nat.le_refl _, .inr rfl⟩

/-- **Expanding is safe, and as far up as possible.** On every tree in use and for every extent that
overlaps no node of it, `interval_expand` passes its two assertions. Its extent contains the one it
was called with, and still overlaps no node. Where it expands upwards the end is next to the first
start above the old end, or the largest value when there is none. -/
theorem interval_expand_exact {ε : Type} (lassert : ε) (h : Built t) (ext : IntervalExtent)
    (limiter : Option IntervalExtent) (hend : ext.end_ < 2 ^ 64)
    (hmiss : ∀ x ∈ t.toList, ext.overlapped x.extent = false) {fuel : Nat}
    (hfuel : t.toList.length ≤ fuel) :
    ∃ e, intervalExpand lassert fuel t ext limiter = some (.ok e) ∧
      e.start ≤ ext.start ∧ ext.end_ ≤ e.end_ ∧
      (∀ x ∈ t.toList, e.overlapped x.extent = false) ∧
      (expandsHigh ext limiter = true → HighEnd t ext.end_ e.end_) ∧
      (expandsHigh ext limiter = false → e.end_ = ext.end_) := by
  generalize hend' : (if expandsHigh ext limiter then expandHigh t ext.end_ else ext.end_) = end_
  generalize hstart' : (if expandsLow ext limiter then expandLow t ext.start else ext.start) = start
  have hends := expanded_end h ext limiter hend'
  have hstart := expanded_start t ext limiter hstart'
  have hmiss' : ∀ x ∈ t.toList, IntervalExtent.overlapped ⟨ext.start, end_⟩ x.extent = false := by
    cases hexp : expandsHigh ext limiter with
    | true => exact (hends.1 hexp).not_overlapped hmiss
    | false =>
        rw [hends.2 hexp]
        exact hmiss
  have hafter : ∀ x ∈ t.toList, IntervalExtent.overlapped ⟨start, end_⟩ x.extent = false := by
    rcases hstart.2 with rfl | rfl
    · exact fun x hx => nomatch hx
    · exact hmiss'
  refine ⟨⟨start, end_⟩, ?_, hstart.1, ?_, hafter, hends⟩
  · -- neither assertion fails
    rw [intervalExpand, intervalIsOverlapped_eq_false h hfuel hmiss]
    dsimp only [Option.bind]
    rw [if_neg Bool.false_ne_true, hstart',
      show expandsHigh ⟨start, ext.end_⟩ limiter = expandsHigh ext limiter from rfl, hend',
      intervalIsOverlapped_eq_false h hfuel hafter]
    rfl
  · cases hexp : expandsHigh ext limiter with
    | true => exact (hends.1 hexp).le hend
    | false => exact Nat.le_of_eq (hends.2 hexp).symm

/-- The gap between the second and the third of three extents, without a limiter. -/
theorem interval_expand_exact_three : ∃ t, Built t ∧ t.toList.length = 3 ∧
    ∃ e, intervalExpand () 3 t ⟨13000, 14000⟩ none = some (.ok e) ∧ HighEnd t 14000 e.end_ := by
  obtain ⟨t, hbuilt, hlen, hmiss⟩ : ∃ t, Built t ∧ t.toList.length = 3 ∧
      ∀ x ∈ t.toList, IntervalExtent.overlapped ⟨13000, 14000⟩ x.extent = false :=
    ⟨_, @Built.insert _ _ 3 16384 20479 _
      (@Built.insert _ _ 2 8192 12287 _ (@Built.insert _ _ 1 0 4095 _ .nil (by decide) rfl)
        (by decide) rfl) (by decide) rfl, rfl, by decide⟩
  obtain ⟨e, he, -, -, -, hhigh, -⟩ :=
    interval_expand_exact () hbuilt ⟨13000, 14000⟩ none (by decide) hmiss (Nat.le_of_eq hlen)
  exact ⟨t, hbuilt, hlen, e, he, hhigh rfl⟩

end IntervalTree

end LustreSimulator
