import LustreSimulator.Lib.BinHeap
import LustreSimulator.NrsBinheap
import Mathlib.Logic.Function.Basic

/-!
# `LustreSimulator.Proofs.NrsBinheap`: the binary heap as a scheduler finds a least element

`cells` is the array behind the pages. `cfsAaIndex_injective` says that no two indices share a
cell, so a write changes one index only. Each loop then is a way up or down in the sense of
`Lib.BinHeap`. `enqueue_spec` adds an element and `dequeue_spec` takes a least one.
-/

set_option autoImplicit false

namespace LustreSimulator.NrsBinheap

open Lib

variable {α : Type*} {compare : α → α → Bool} {h : NrsBinheap α} {e : α}

/-- The index of a cell. -/
def Slot.index : Slot → Nat
  | .one i => i
  | .two i j => caaSize + i * caaSize + j
  | .three i j k => caaSize + caaSize * caaSize + (i * caaSize + j) * caaSize + k

/-- The index of the cell of an index. -/
theorem index_cfsAaIndex (idx : Nat) : (cfsAaIndex idx).index = idx := by
  unfold cfsAaIndex caaSize
  dsimp only
  split
  · rfl
  · split
    · unfold Slot.index caaSize
      dsimp only
      omega
    · unfold Slot.index caaSize
      dsimp only
      omega

/-- Different indices have different cells. -/
theorem cfsAaIndex_injective : Function.Injective cfsAaIndex :=
  Function.LeftInverse.injective index_cfsAaIndex

/-- The array behind the pages. -/
def arr (m : Slot → α) (i : Nat) : α := m (cfsAaIndex i)

/-- A write changes one index. -/
theorem arr_put (m : Slot → α) (idx : Nat) (e : α) :
    arr (put m idx e) = Function.update (arr m) idx e := by
  funext i
  show (if cfsAaIndex i = cfsAaIndex idx then e else arr m i) = _
  by_cases hi : i = idx
  · rw [hi, if_pos rfl, Function.update_self]
  · rw [if_neg (fun heq => hi (cfsAaIndex_injective heq)), Function.update_of_ne hi]

/-- The comparison is a total preorder. -/
structure Ordered (compare : α → α → Bool) : Prop where
  total : ∀ x y, compare x y = true ∨ compare y x = true
  trans : ∀ x y z, compare x y = true → compare y z = true → compare x z = true

/-- Nothing is greater than itself. -/
theorem Ordered.refl (ho : Ordered compare) (x : α) : compare x x = true :=
  (ho.total x x).elim id id

/-- The hole moves from one cell to another, which is a swap. -/
theorem update_swap (f : Nat → α) (e : α) {c p : Nat} (hne : p ≠ c) :
    Function.update (Function.update f c (f p)) p e = swapCells (Function.update f c e) c p := by
  funext i
  by_cases hp : i = p
  · rw [hp, Function.update_self, swapCells_right, Function.update_self]
  · rw [Function.update_of_ne hp]
    by_cases hc : i = c
    · rw [hc, Function.update_self, swapCells_left, Function.update_of_ne hne]
    · rw [Function.update_of_ne hc, swapCells_of_ne _ hc hp, Function.update_of_ne hc]

/-- The way up leaves a heap with the same content. -/
theorem bubble_spec (ho : Ordered compare) {n : Nat} (k child : Nat) (m : Slot → α)
    (hk : child ≤ k) (hchild : child < n)
    (hhole : UpHole (compare · · = true) (Function.update (arr m) child e) n child) :
    IsHeap (compare · · = true) (arr (bubble compare e k child m)) n ∧
    content (arr (bubble compare e k child m)) n =
      content (Function.update (arr m) child e) n := by
  induction k generalizing child m with
  | zero =>
      have hzero : child = 0 := by omega
      show IsHeap _ (arr (put m child e)) n ∧ content (arr (put m child e)) n = _
      rw [arr_put]
      exact ⟨hhole.done (Or.inl hzero), rfl⟩
  | succ k ih =>
      unfold bubble
      split
      · rename_i hzero
        rw [arr_put]
        exact ⟨hhole.done (Or.inl hzero), rfl⟩
      · rename_i hpos
        have hpos : 0 < child := Nat.pos_of_ne_zero hpos
        have hlt : parentOf child < child := parentOf_lt hpos
        have hparent : Function.update (arr m) child e (parentOf child) = arr m (parentOf child) :=
          Function.update_of_ne (Nat.ne_of_lt hlt) _ _
        dsimp only
        split
        · rename_i hstop
          rw [arr_put]
          refine ⟨hhole.done (Or.inr ?_), rfl⟩
          rw [hparent, Function.update_self]
          exact hstop
        · rename_i hgo
          have hless : compare e (arr m (parentOf child)) = true :=
            (ho.total e _).resolve_right hgo
          have hstep := hhole.step ho.trans hpos hchild
            (by rw [hparent, Function.update_self]; exact hless)
          have hfill : Function.update (arr (put m child (m (cfsAaIndex ((child - 1) / 2)))))
              ((child - 1) / 2) e =
              swapCells (Function.update (arr m) child e) child (parentOf child) := by
            rw [arr_put]
            exact update_swap (arr m) e (Nat.ne_of_lt hlt)
          obtain ⟨hheap, hcontent⟩ := ih ((child - 1) / 2) _ (by omega) (by omega) (hfill ▸ hstep)
          refine ⟨hheap, hcontent.trans ?_⟩
          rw [hfill]
          exact content_swap _ hchild (by omega)

/-- The child that the way down looks at is a least one. -/
theorem sink_child (ho : Ordered compare) {n parent child : Nat} (m : Slot → α)
    (hn : 2 * parent + 1 < n)
    (hchild : (if 2 * parent + 2 < n ∧
        compare (m (cfsAaIndex (2 * parent + 2))) (m (cfsAaIndex (2 * parent + 1))) = true
      then 2 * parent + 2 else 2 * parent + 1) = child) :
    parentOf child = parent ∧ 0 < child ∧ child < n ∧
      ∀ i, 0 < i → i < n → parentOf i = parent → compare (arr m child) (arr m i) = true := by
  split at hchild
  · rename_i hless
    subst hchild
    refine ⟨(parentOf_eq_iff (by omega)).mpr (Or.inr rfl), by omega, hless.1, ?_⟩
    intro i hi hin hp
    rcases (parentOf_eq_iff hi).mp hp with rfl | rfl
    · exact hless.2
    · exact ho.refl _
  · rename_i hless
    subst hchild
    refine ⟨(parentOf_eq_iff (by omega)).mpr (Or.inl rfl), by omega, hn, ?_⟩
    intro i hi hin hp
    rcases (parentOf_eq_iff hi).mp hp with rfl | rfl
    · exact ho.refl _
    · exact (ho.total _ _).resolve_right fun h => hless ⟨hin, h⟩

/-- The way down leaves a heap with the same content. -/
theorem sink_spec (ho : Ordered compare) {n : Nat} (k parent : Nat) (m : Slot → α)
    (hk : n ≤ parent + k) (hparent : parent < n ∨ n = 0)
    (hhole : DownHole (compare · · = true) (Function.update (arr m) parent e) n parent) :
    IsHeap (compare · · = true) (arr (sink compare e n k parent m)) n ∧
    content (arr (sink compare e n k parent m)) n =
      content (Function.update (arr m) parent e) n := by
  have hlast : n ≤ 2 * parent + 1 →
      IsHeap (compare · · = true) (Function.update (arr m) parent e) n := by
    intro hn
    apply hhole.done
    intro i hi hin hchild
    have := (parentOf_eq_iff hi).mp hchild
    omega
  induction k generalizing parent m with
  | zero =>
      show IsHeap _ (arr (put m parent e)) n ∧ content (arr (put m parent e)) n = _
      rw [arr_put]
      exact ⟨hlast (by omega), rfl⟩
  | succ k ih =>
      unfold sink
      split
      · rename_i hn
        rw [arr_put]
        exact ⟨hlast hn, rfl⟩
      · rename_i hn
        dsimp only
        generalize hchild : (if 2 * parent + 2 < n ∧
            compare (m (cfsAaIndex (2 * parent + 2))) (m (cfsAaIndex (2 * parent + 1))) = true
          then 2 * parent + 2 else 2 * parent + 1) = child
        obtain ⟨hpar, hpos, hcn, hleast⟩ := sink_child ho m (Nat.not_le.mp hn) hchild
        have hlt : parent < child := hpar ▸ parentOf_lt hpos
        have hne : ∀ i, 0 < i → parentOf i = parent → i ≠ parent := by
          intro i hi hp
          have := parentOf_lt hi
          omega
        split
        · rename_i hstop
          rw [arr_put]
          refine ⟨hhole.done ?_, rfl⟩
          intro i hi hin hp
          rw [Function.update_self, Function.update_of_ne (hne i hi hp)]
          exact ho.trans _ _ _ hstop (hleast i hi hin hp)
        · rename_i hgo
          have hchildVal : Function.update (arr m) parent e child = arr m child :=
            Function.update_of_ne (hne child hpos hpar) _ _
          have hstep := hhole.step hpos hcn hpar
            (by rw [hchildVal, Function.update_self]; exact (ho.total _ _).resolve_right hgo)
            (by
              intro i hi hin hp
              rw [hchildVal, Function.update_of_ne (hne i hi hp)]
              exact hleast i hi hin hp)
          have hfill : Function.update (arr (put m parent (m (cfsAaIndex child)))) child e =
              swapCells (Function.update (arr m) parent e) parent child := by
            rw [arr_put]
            exact update_swap (arr m) e (Nat.ne_of_gt hlt)
          have hhole' : DownHole (compare · · = true)
              (Function.update (arr (put m parent (m (cfsAaIndex child)))) child e) n child := by
            rw [hfill]
            exact hstep
          obtain ⟨hheap, hcontent⟩ := ih child _ (by omega) (Or.inl hcn) hhole' (by
            intro hn'
            apply hhole'.done
            intro i hi hin hp
            have := (parentOf_eq_iff hi).mp hp
            omega)
          refine ⟨hheap, hcontent.trans ?_⟩
          rw [hfill]
          exact content_swap _ (by omega) hcn

/-- A write fills the hole. -/
theorem all_put {P : α → Prop} {n hole : Nat} {m : Slot → α} (he : P e)
    (hall : ∀ i, i < n → i ≠ hole → P (arr m i)) (i : Nat) (hi : i < n) :
    P (arr (put m hole e) i) := by
  rw [arr_put, Function.update_apply]
  split
  · exact he
  · rename_i hne
    exact hall i hi hne

/-- An element moves into the hole, and leaves one. -/
theorem all_put_move {P : α → Prop} {n hole next : Nat} {m : Slot → α} (hnext : next < n)
    (hne : next ≠ hole) (hall : ∀ i, i < n → i ≠ hole → P (arr m i)) (i : Nat) (hi : i < n)
    (_hi : i ≠ next) : P (arr (put m hole (m (cfsAaIndex next))) i) :=
  all_put (hall next hnext hne) hall i hi

/-- The way up fills the hole, whatever the comparisons say. -/
theorem bubble_all {P : α → Prop} (he : P e) {n : Nat} (k child : Nat) (m : Slot → α)
    (hchild : child < n) (hall : ∀ i, i < n → i ≠ child → P (arr m i)) (i : Nat) (hi : i < n) :
    P (arr (bubble compare e k child m) i) := by
  induction k generalizing child m with
  | zero => exact all_put he hall i hi
  | succ k ih =>
      unfold bubble
      split
      · exact all_put he hall i hi
      · dsimp only
        split
        · exact all_put he hall i hi
        · exact ih ((child - 1) / 2) _ (by omega) (all_put_move (by omega) (by omega) hall)

/-- The way down fills the hole, whatever the comparisons say. -/
theorem sink_all {P : α → Prop} (he : P e) {n : Nat} (k parent : Nat) (m : Slot → α)
    (hall : ∀ i, i < n → i ≠ parent → P (arr m i)) (i : Nat) (hi : i < n) :
    P (arr (sink compare e n k parent m) i) := by
  induction k generalizing parent m with
  | zero => exact all_put he hall i hi
  | succ k ih =>
      unfold sink
      split
      · exact all_put he hall i hi
      · dsimp only
        generalize hchild : (if 2 * parent + 2 < n ∧
            compare (m (cfsAaIndex (2 * parent + 2))) (m (cfsAaIndex (2 * parent + 1))) = true
          then 2 * parent + 2 else 2 * parent + 1) = child
        have hlt : parent < child ∧ child < n := by
          split at hchild <;> omega
        split
        · exact all_put he hall i hi
        · exact ih child _ (all_put_move hlt.2 (by omega) hall)

/-- The elements of the heap. -/
def elements (h : NrsBinheap α) : Multiset α := content (arr h.members) h.cbhSize

/-- The cells are a heap, and the counters agree. -/
structure WF (compare : α → α → Bool) (h : NrsBinheap α) : Prop where
  heap : IsHeap (compare · · = true) (arr h.members) h.cbhSize
  maxsize : h.cbhSize ≤ h.cbhMaxsize
  size : h.size = h.cbhSize

/-- A new heap is empty. -/
theorem wf_new [Inhabited α] : WF compare (new : NrsBinheap α) :=
  ⟨fun _ _ hi => absurd hi (Nat.not_lt_zero _), Nat.le_refl _, rfl⟩

/-- The heap has as many elements as cells in use. -/
theorem card_elements (h : NrsBinheap α) : Multiset.card h.elements = h.cbhSize := by
  unfold elements content
  rw [Multiset.card_map, Multiset.card_range]

/-- Only the comparisons of the elements matter. -/
theorem WF.congr {compare' : α → α → Bool} (hwf : WF compare h)
    (heq : ∀ x ∈ h.elements, ∀ y ∈ h.elements, compare' x y = compare x y) : WF compare' h := by
  refine ⟨?_, hwf.maxsize, hwf.size⟩
  intro i hpos hi
  have hparent : parentOf i < h.cbhSize := Nat.lt_trans (parentOf_lt hpos) hi
  show compare' _ _ = true
  rw [heq _ (mem_content.mpr ⟨_, hparent, rfl⟩) _ (mem_content.mpr ⟨i, hi, rfl⟩)]
  exact hwf.heap i hpos hi

/-- `Enqueue` adds an element, when there is a cell for it. -/
theorem enqueue_spec (ho : Ordered compare) (hwf : WF compare h) (hcap : h.cbhSize < caaCapacity) :
    ∃ h', h.enqueue compare e = some h' ∧ WF compare h' ∧ h'.elements = e ::ₘ h.elements ∧
      h'.cbhSize = h.cbhSize + 1 := by
  have hhole : UpHole (compare · · = true) (Function.update (arr h.members) h.cbhSize e)
      (h.cbhSize + 1) h.cbhSize := by
    constructor
    · intro i hi hin hne
      have hlt := parentOf_lt hi
      rw [Function.update_of_ne hne, Function.update_of_ne (by omega)]
      exact hwf.heap i hi (by omega)
    · intro hpos i hi hin hp
      have := parentOf_lt hi
      omega
  obtain ⟨hheap, hcontent⟩ := bubble_spec ho h.cbhSize h.cbhSize h.members (Nat.le_refl _)
    (Nat.lt_succ_self _) hhole
  refine ⟨_, if_pos ⟨hwf.maxsize, hcap⟩, ⟨hheap, ?_, ?_⟩, ?_, rfl⟩
  · show h.cbhSize + 1 ≤ if h.cbhSize < h.cbhMaxsize then h.cbhMaxsize else h.cbhSize + 1
    split
    · rename_i hlt
      exact hlt
    · exact Nat.le_refl _
  · show h.size + 1 = ((h.cbhSize + 1 : Nat) : Int)
    rw [hwf.size]
    rfl
  · show content (arr _) (h.cbhSize + 1) = _
    rw [hcontent, content_succ, Function.update_self]
    congr 1
    exact content_congr fun k hk => Function.update_of_ne (Nat.ne_of_lt hk) _ _

/-- `Dequeue` finds the heap empty, or takes a least element. -/
theorem dequeue_spec (ho : Ordered compare) (hwf : WF compare h) :
    (h.elements = 0 ∧ h.dequeue compare = (none, h)) ∨
    ∃ x h', h.dequeue compare = (some x, h') ∧ WF compare h' ∧ h.elements = x ::ₘ h'.elements ∧
      (∀ y ∈ h.elements, compare x y = true) ∧ h'.cbhSize + 1 = h.cbhSize := by
  cases hn : h.cbhSize with
  | zero =>
      left
      constructor
      · unfold elements
        rw [hn]
        rfl
      · unfold dequeue
        rw [if_pos (by rw [hwf.size, hn]; rfl)]
  | succ n =>
      right
      have hsize : h.size ≠ 0 := by
        rw [hwf.size, hn]
        omega
      have hhole : DownHole (compare · · = true)
          (Function.update (arr h.members) 0 (arr h.members n)) n 0 := by
        constructor
        · intro i hi hin hp
          rw [Function.update_of_ne hp, Function.update_of_ne (Nat.ne_of_gt hi)]
          exact hwf.heap i hi (by omega)
        · exact fun hpos => absurd hpos (Nat.lt_irrefl 0)
      obtain ⟨hheap, hcontent⟩ := sink_spec ho n 0 h.members (by omega) (by omega) hhole
      have hdeq : h.dequeue compare = (some (arr h.members 0), { h with
          members := sink compare (arr h.members n) n n 0 h.members
          cbhSize := n
          size := h.size - 1 }) := by
        unfold dequeue cfsBheapRemoveRoot
        rw [if_neg hsize]
        dsimp only
        rw [if_neg (by omega), hn]
        rfl
      refine ⟨_, _, hdeq, ⟨hheap, ?_, ?_⟩, ?_, ?_, rfl⟩
      · have := hwf.maxsize
        show n ≤ h.cbhMaxsize
        omega
      · show h.size - 1 = (n : Int)
        rw [hwf.size, hn]
        omega
      · -- the last element takes the place of the first
        show content (arr h.members) h.cbhSize = arr h.members 0 ::ₘ content (arr _) n
        rw [hn, hcontent, ← content_swap (arr h.members) (Nat.succ_pos n) (Nat.lt_succ_self n),
          content_succ, swapCells_right]
        congr 1
        apply content_congr
        intro k hk
        by_cases hk0 : k = 0
        · rw [hk0, swapCells_left, Function.update_self]
        · rw [swapCells_of_ne _ hk0 (Nat.ne_of_lt hk), Function.update_of_ne hk0]
      · intro y hy
        obtain ⟨i, hi, rfl⟩ := mem_content.mp hy
        exact hwf.heap.root_le ho.refl ho.trans i hi

end LustreSimulator.NrsBinheap
