import LustreSimulator.Proofs.NrsAutoArray
import LustreSimulator.Proofs.NrsBinheap

/-!
# `LustreSimulator.Proofs.NrsPriorityQueue`: the binary heap is a priority queue

`flat` is the heap over the array of cells that `LustreSimulator.NrsBinheap` describes.
`enqueue_flat` and `dequeue_flat` say that the heap with its pages does the same: every access
finds its page, and no comparison looks into a NULL. `Holds` is the invariant of a run, and
`runCalls_serves` says that a run is a run of a priority queue. A run that needs a cell beyond the
three levels has no result (`Holds.withinLevels`).
-/

set_option autoImplicit false

namespace LustreSimulator.PagedBinheap

open Lib NrsBinheap

variable {α : Type} {compare : α → α → Bool}

/-! ### The comparison of cells -/

/-- The order of the cells, where NULL stands behind all elements. -/
def orNull (compare : α → α → Bool) : Option α → Option α → Bool
  | some a, some b => compare a b
  | some _, none => true
  | none, some _ => false
  | none, none => true

/-- The order of the cells is a total preorder. -/
theorem ordered_orNull (ho : Ordered compare) : Ordered (orNull compare) := by
  constructor
  · intro x y
    cases x with
    | none =>
        cases y with
        | none => exact Or.inl rfl
        | some b => exact Or.inr rfl
    | some a =>
        cases y with
        | none => exact Or.inl rfl
        | some b => exact ho.total a b
  · intro x y z hxy hyz
    cases z with
    | none => cases x <;> rfl
    | some c =>
        cases y with
        | none => cases hyz
        | some b =>
            cases x with
            | none => cases hxy
            | some a => exact ho.trans a b c hxy hyz

/-! ### The loops -/

/-- The pages of an array are pages of another. -/
def Keeps (m m' : AutoArray α) : Prop :=
  ∀ s, (∃ x, m.load s = some x) → ∃ x, m'.load s = some x

/-- A cell that can be read can be written, as one of an array. -/
theorem exists_put {m : AutoArray α} {i : Nat} (hload : ∃ x, m.load (cfsAaIndex i) = some x)
    (e : Option α) :
    ∃ m', m.store e (cfsAaIndex i) = some m' ∧ m'.cells = put m.cells i e ∧ Keeps m m' := by
  obtain ⟨x, hx⟩ := hload
  obtain ⟨m', hm'⟩ := AutoArray.exists_store hx e
  exact ⟨m', hm', AutoArray.cells_store hm', fun s => AutoArray.exists_load_store hm'⟩

/-- A write leaves the elements of the other cells. -/
theorem full_of_store {m m' : AutoArray α} {e : Option α} {i c : Nat}
    (h : m.store e (cfsAaIndex c) = some m') (hne : i ≠ c)
    (hfull : ∃ b, m.cells (cfsAaIndex i) = some b) : ∃ b, m'.cells (cfsAaIndex i) = some b := by
  obtain ⟨b, hb⟩ := hfull
  refine ⟨b, ?_⟩
  rw [AutoArray.cells_store h]
  exact (if_neg fun heq => hne (cfsAaIndex_injective heq)).trans hb

/-- The way up finds its pages and elements, and does to the cells what it does to an array. -/
theorem bubble_flat {e : α} (k child : Nat) (m : AutoArray α)
    (hload : ∃ x, m.load (cfsAaIndex child) = some x)
    (hfull : ∀ i, i < child → ∃ b, m.cells (cfsAaIndex i) = some b) :
    ∃ m', bubble compare e k child (cfsAaIndex child) m = some m' ∧
      m'.cells = NrsBinheap.bubble (orNull compare) (some e) k child m.cells ∧ Keeps m m' := by
  -- the cells above the hole are full; the hole itself may hold NULL, and is only written
  induction k generalizing child m with
  | zero => exact exists_put hload (some e)
  | succ k ih =>
      unfold bubble NrsBinheap.bubble
      by_cases hzero : child = 0
      · rw [if_pos hzero, if_pos hzero]
        exact exists_put hload (some e)
      · rw [if_neg hzero, if_neg hzero]
        have hlt : (child - 1) / 2 < child := by omega
        obtain ⟨b, hb⟩ := hfull _ hlt
        have hparent := AutoArray.load_of_cells hb
        dsimp only [Option.bind_eq_bind]
        rw [AutoArray.cfsAaIndex_of_load hparent, Option.bind_some, hparent, Option.bind_some, hb]
        show ∃ m', (if compare b e = true then _ else _) = some m' ∧
          m'.cells = (if compare b e = true then _ else _) ∧ Keeps m m'
        by_cases hstop : compare b e = true
        · rw [if_pos hstop, if_pos hstop]
          exact exists_put hload (some e)
        · rw [if_neg hstop, if_neg hstop]
          -- the parent moves down, and the way goes on from its cell
          obtain ⟨m₁, hm₁, hcells₁, hkeeps₁⟩ := exists_put hload (some b)
          have hfull₁ : ∀ i, i < (child - 1) / 2 → ∃ b, m₁.cells (cfsAaIndex i) = some b :=
            fun i hi => full_of_store hm₁ (by omega) (hfull i (by omega))
          rw [hm₁, Option.bind_some]
          obtain ⟨m', hm', hcells', hkeeps'⟩ :=
            ih ((child - 1) / 2) m₁ (hkeeps₁ _ ⟨_, hparent⟩) hfull₁
          exact ⟨m', hm', hcells₁ ▸ hcells', fun s hs => hkeeps' s (hkeeps₁ s hs)⟩

/-- The child that the way down looks at is the one that it looks at in an array. -/
theorem lesserChild_flat {n parent child : Nat} {m : AutoArray α} (hn : 2 * parent + 1 < n)
    (hfull : ∀ i, parent < i → i < n → ∃ b, m.cells (cfsAaIndex i) = some b)
    (hchild : (if 2 * parent + 2 < n ∧ orNull compare (m.cells (cfsAaIndex (2 * parent + 2)))
        (m.cells (cfsAaIndex (2 * parent + 1))) = true
      then 2 * parent + 2 else 2 * parent + 1) = child) :
    lesserChild compare n parent m =
      some (child, cfsAaIndex child, m.cells (cfsAaIndex child)) := by
  obtain ⟨b, hb⟩ := hfull (2 * parent + 1) (by omega) hn
  have hload := AutoArray.load_of_cells hb
  unfold lesserChild
  dsimp only [Option.bind_eq_bind]
  rw [AutoArray.cfsAaIndex_of_load hload, Option.bind_some, hload, Option.bind_some]
  by_cases hn₂ : 2 * parent + 2 < n
  · obtain ⟨b₂, hb₂⟩ := hfull (2 * parent + 2) (by omega) hn₂
    have hload₂ := AutoArray.load_of_cells hb₂
    rw [if_pos hn₂, AutoArray.cfsAaIndex_of_load hload₂, Option.bind_some, hload₂,
      Option.bind_some]
    rw [hb, hb₂] at hchild
    show some (if compare b₂ b = true then _ else _) = _
    by_cases hless : compare b₂ b = true
    · rw [if_pos ⟨hn₂, hless⟩] at hchild
      rw [if_pos hless, ← hchild, hb₂]
    · rw [if_neg (fun h => hless h.2)] at hchild
      rw [if_neg hless, ← hchild, hb]
  · rw [if_neg (fun h => hn₂ h.1)] at hchild
    rw [if_neg hn₂, ← hchild, hb]

/-- The way down finds its pages and elements, and does to the cells what it does to an array. -/
theorem sink_flat {b : α} {n : Nat} (k parent : Nat) (m : AutoArray α)
    (hload : ∃ x, m.load (cfsAaIndex parent) = some x)
    (hfull : ∀ i, parent < i → i < n → ∃ b, m.cells (cfsAaIndex i) = some b) :
    ∃ m', sink compare (some b) n k parent (cfsAaIndex parent) m = some m' ∧
      m'.cells = NrsBinheap.sink (orNull compare) (some b) n k parent m.cells ∧ Keeps m m' := by
  -- the cells below the hole are full, and only these are read
  induction k generalizing parent m with
  | zero => exact exists_put hload (some b)
  | succ k ih =>
      unfold sink NrsBinheap.sink
      by_cases hn : 2 * parent + 1 ≥ n
      · rw [if_pos hn, if_neg (by omega)]
        exact exists_put hload (some b)
      · rw [if_neg hn, if_pos (by omega)]
        dsimp only [Option.bind_eq_bind]
        generalize hchild : (if 2 * parent + 2 < n ∧
            orNull compare (m.cells (cfsAaIndex (2 * parent + 2)))
              (m.cells (cfsAaIndex (2 * parent + 1))) = true
          then 2 * parent + 2 else 2 * parent + 1) = child
        rw [lesserChild_flat (by omega) hfull hchild, Option.bind_some]
        dsimp only
        have hlt : parent < child ∧ child < n := by
          split at hchild <;> omega
        obtain ⟨c, hc⟩ := hfull child hlt.1 hlt.2
        rw [hc]
        show ∃ m', (if compare b c = true then _ else _) = some m' ∧
          m'.cells = (if compare b c = true then _ else _) ∧ Keeps m m'
        by_cases hstop : compare b c = true
        · rw [if_pos hstop, if_pos hstop]
          exact exists_put hload (some b)
        · rw [if_neg hstop, if_neg hstop]
          -- the child moves up, and the way goes on from its cell
          obtain ⟨m₁, hm₁, hcells₁, hkeeps₁⟩ := exists_put hload (some c)
          have hfull₁ : ∀ i, child < i → i < n → ∃ b, m₁.cells (cfsAaIndex i) = some b :=
            fun i hi hin => full_of_store hm₁ (by omega) (hfull i (by omega) hin)
          rw [hm₁, Option.bind_some]
          obtain ⟨m', hm', hcells', hkeeps'⟩ :=
            ih child m₁ (hkeeps₁ _ ⟨_, AutoArray.load_of_cells hc⟩) hfull₁
          exact ⟨m', hm', hcells₁ ▸ hcells', fun s hs => hkeeps' s (hkeeps₁ s hs)⟩

/-! ### The operations -/

variable {h : PagedBinheap α} {e : α} {alloc : Nat → Bool} {S : Multiset α}

/-- The heap over the array of cells. -/
def flat (h : PagedBinheap α) : NrsBinheap (Option α) :=
  ⟨h.cbhMembers.cells, h.cbhSize, h.cbhMaxsize, h.size⟩

/-- What the cells in use hold. -/
def stored (h : PagedBinheap α) : Multiset (Option α) :=
  (Multiset.range h.cbhSize).map fun i => h.cbhMembers.cells (cfsAaIndex i)

/-- Each cell up to the mark `cbh_maxsize` has its page. -/
def Paged (h : PagedBinheap α) : Prop :=
  ∀ i, i < h.cbhMaxsize → ∃ x, h.cbhMembers.load (cfsAaIndex i) = some x

/-- The cell behind the last element is there, or the array grows by it. -/
def FindsCell (h : PagedBinheap α) (alloc : Nat → Bool) : Prop :=
  h.cbhSize < h.cbhMaxsize ∨
    ∃ a s, h.cbhMembers.cfsAaLookup h.cbhSize true alloc = some (a, some s)

/-- The array grows by each cell of the three levels, when no allocation fails. -/
theorem findsCell_of_alloc (halloc : ∀ k, alloc k = true) (hcap : h.cbhSize < caaCapacity) :
    FindsCell h alloc := by
  obtain ⟨a, ha⟩ := AutoArray.exists_cfsAaLookup halloc hcap h.cbhMembers
  exact Or.inr ⟨a, _, ha⟩

/-- `Enqueue` does what it does over an array, when it finds a cell. -/
theorem enqueue_flat (hcell : FindsCell h alloc) (hmax : h.cbhSize ≤ h.cbhMaxsize)
    (hpaged : Paged h)
    (hfull : ∀ i, i < h.cbhSize → ∃ b, h.cbhMembers.cells (cfsAaIndex i) = some b) :
    ∃ h', h.enqueue compare alloc e = some (0, h') ∧
      h.flat.enqueue (orNull compare) (some e) = some h'.flat ∧ Paged h' := by
  have hflat : h.cbhSize < caaCapacity → h.flat.enqueue (orNull compare) (some e) = some
      { members := NrsBinheap.bubble (orNull compare) (some e) h.cbhSize h.cbhSize
          h.cbhMembers.cells
        cbhSize := h.cbhSize + 1
        cbhMaxsize := if h.cbhSize < h.cbhMaxsize then h.cbhMaxsize else h.cbhSize + 1
        size := h.size + 1 } := fun hcap => if_pos ⟨hmax, hcap⟩
  unfold enqueue cfsBheapInsert
  dsimp only
  rw [if_pos hmax]
  by_cases hroom : h.cbhSize < h.cbhMaxsize
  · -- the cell is there
    obtain ⟨x, hx⟩ := hpaged _ hroom
    obtain ⟨m, hm, hcells, hkeeps⟩ :=
      @bubble_flat α compare e h.cbhSize h.cbhSize h.cbhMembers ⟨x, hx⟩ hfull
    rw [hflat (AutoArray.lt_caaCapacity_of_load hx), if_pos hroom, if_pos hroom,
      AutoArray.cfsAaIndex_of_load hx]
    dsimp only [Option.bind_eq_bind]
    rw [Option.bind_some, hm]
    refine ⟨_, rfl, ?_, fun i hi => hkeeps _ (hpaged i hi)⟩
    rw [← hcells]
    rfl
  · -- the array grows by the cell
    obtain ⟨a, s, ha⟩ := hcell.resolve_left hroom
    obtain ⟨hgrows, hfound⟩ := AutoArray.cfsAaLookup_spec ha
    obtain ⟨rfl, hload⟩ := hfound s rfl
    obtain ⟨x, hx⟩ := hload
    obtain ⟨m, hm, hcells, hkeeps⟩ :=
      @bubble_flat α compare e h.cbhSize h.cbhSize a ⟨x, hx⟩
        (by rw [hgrows.cells_eq]; exact hfull)
    rw [hflat (AutoArray.lt_caaCapacity_of_load hx), if_neg hroom, if_neg hroom, ha]
    dsimp only [Option.bind_eq_bind]
    rw [Option.bind_some]
    dsimp only
    rw [hm]
    refine ⟨_, rfl, ?_, ?_⟩
    · rw [← hgrows.cells_eq, ← hcells]
      rfl
    · intro i hi
      have hi : i < h.cbhSize + 1 := hi
      apply hkeeps
      by_cases hlast : i = h.cbhSize
      · rw [hlast]
        exact ⟨x, hx⟩
      · exact hgrows.exists_load (hpaged i (by omega))

/-- `Enqueue` goes beyond the pages, when the cells of the three levels are in use. -/
theorem enqueue_beyond (halloc : ∀ k, alloc k = true) (hcap : caaCapacity ≤ h.cbhSize)
    (hpaged : Paged h) : h.enqueue compare alloc e = none := by
  have hroom : ¬ h.cbhSize < h.cbhMaxsize := by
    intro hlt
    obtain ⟨x, hx⟩ := hpaged _ hlt
    have := AutoArray.lt_caaCapacity_of_load hx
    omega
  unfold enqueue cfsBheapInsert
  dsimp only
  rw [if_neg hroom, AutoArray.cfsAaLookup_beyond halloc hcap]
  split <;> rfl

/-- `Dequeue` does what it does over an array. -/
theorem dequeue_flat (hsize : h.size = h.cbhSize) (hpos : 0 < h.cbhSize) (hpaged : Paged h)
    (hfull : ∀ i, i < h.cbhSize → ∃ b, h.cbhMembers.cells (cfsAaIndex i) = some b) :
    ∃ b h', h.dequeue compare = some (some b, h') ∧
      h.flat.dequeue (orNull compare) = (some (some b), h'.flat) ∧ Paged h' := by
  obtain ⟨b, hb⟩ := hfull 0 hpos
  obtain ⟨c, hc⟩ := hfull (h.cbhSize - 1) (by omega)
  have hroot := AutoArray.load_of_cells hb
  have hlast := AutoArray.load_of_cells hc
  obtain ⟨m, hm, hcells, hkeeps⟩ := @sink_flat α compare c (h.cbhSize - 1) (h.cbhSize - 1) 0
    h.cbhMembers ⟨_, hroot⟩ fun i _ hi => hfull i (by omega)
  have hne : h.cbhSize ≠ 0 := by omega
  have hsize : h.size ≠ 0 := by omega
  refine ⟨b, { h with cbhMembers := m, cbhSize := h.cbhSize - 1, size := h.size - 1 }, ?_, ?_,
    fun i hi => hkeeps _ (hpaged i hi)⟩
  · unfold dequeue cfsBheapRemoveRoot
    rw [if_neg hsize]
    dsimp only [Option.bind_eq_bind]
    rw [if_neg hne, AutoArray.cfsAaIndex_of_load hroot, Option.bind_some, hroot, Option.bind_some,
      AutoArray.cfsAaIndex_of_load hlast, Option.bind_some, hlast, Option.bind_some, hm]
    rfl
  · unfold flat NrsBinheap.dequeue NrsBinheap.cfsBheapRemoveRoot
    dsimp only
    rw [if_neg hsize, if_neg hne, hb, hc, hcells]

/-! ### A run -/

/-- The invariant: the cells are a heap of the elements `S`, and have their pages. -/
structure Holds (compare : α → α → Bool) (h : PagedBinheap α) (S : Multiset α) : Prop where
  wf : WF (orNull compare) h.flat
  elements : h.stored = S.map some
  paged : Paged h

/-- A new heap is empty. -/
theorem holds_new : Holds compare (new : PagedBinheap α) 0 :=
  ⟨⟨fun _ _ hi => absurd hi (Nat.not_lt_zero _), Nat.le_refl _, rfl⟩, rfl,
    fun _ hi => absurd hi (Nat.not_lt_zero _)⟩

/-- The counter is the number of the elements. -/
theorem Holds.cbhSize_eq (hh : Holds compare h S) : h.cbhSize = Multiset.card S := by
  have hcard := card_elements h.flat
  rw [show h.flat.elements = S.map some from hh.elements, Multiset.card_map] at hcard
  exact hcard.symm

/-- Each cell in use has an element. -/
theorem Holds.full (hh : Holds compare h S) (i : Nat) (hi : i < h.cbhSize) :
    ∃ b, h.cbhMembers.cells (cfsAaIndex i) = some b := by
  have hmem : h.cbhMembers.cells (cfsAaIndex i) ∈ S.map some := by
    rw [← hh.elements]
    exact Multiset.mem_map.mpr ⟨i, Multiset.mem_range.mpr hi, rfl⟩
  obtain ⟨b, -, hb⟩ := Multiset.mem_map.mp hmem
  exact ⟨b, hb.symm⟩

/-- `Enqueue` adds an element. -/
theorem Holds.enqueue (ho : Ordered compare) (hh : Holds compare h S)
    (halloc : ∀ k, alloc k = true) (hcap : Multiset.card S < caaCapacity) (e : α) :
    ∃ h', h.enqueue compare alloc e = some (0, h') ∧ Holds compare h' (e ::ₘ S) := by
  rw [← hh.cbhSize_eq] at hcap
  obtain ⟨h', hdo, hflat, hpaged⟩ :=
    enqueue_flat (findsCell_of_alloc halloc hcap) hh.wf.maxsize hh.paged hh.full
  obtain ⟨q, hq, hwf, helements, -⟩ := enqueue_spec (ordered_orNull ho) hh.wf hcap
  obtain rfl := Option.some.inj (hflat.symm.trans hq)
  refine ⟨h', hdo, hwf, helements.trans ?_, hpaged⟩
  rw [Multiset.map_cons, ← hh.elements]
  rfl

/-- `Dequeue` finds the heap empty, or takes an element that precedes all others. -/
theorem Holds.dequeue (ho : Ordered compare) (hh : Holds compare h S) :
    ∃ r h' T, h.dequeue compare = some (r, h') ∧ Holds compare h' T ∧
      Serves (compare · · = true) S (.take r) T := by
  rcases S.empty_or_exists_mem with rfl | ⟨a, ha⟩
  · have hzero : h.size = 0 := hh.wf.size.trans (congrArg Nat.cast hh.cbhSize_eq)
    refine ⟨none, h, 0, ?_, hh, .idle⟩
    unfold PagedBinheap.dequeue
    rw [if_pos hzero]
  · have hpos : 0 < h.cbhSize := by
      rw [hh.cbhSize_eq]
      exact Multiset.card_pos_iff_exists_mem.mpr ⟨a, ha⟩
    obtain ⟨b, h', hdo, hflat, hpaged⟩ := dequeue_flat hh.wf.size hpos hh.paged hh.full
    -- the cell that the array finds is the one of an element
    rcases dequeue_spec (ordered_orNull ho) hh.wf with
      ⟨-, hempty⟩ | ⟨x, q, hq, hwf, helements, hleast, -⟩
    · rw [hflat] at hempty
      cases (Prod.mk.inj hempty).1
    · obtain ⟨hx, rfl⟩ := Prod.mk.inj (hflat.symm.trans hq)
      obtain rfl := Option.some.inj hx
      have hS : S.map some = some b ::ₘ h'.stored := hh.elements.symm.trans helements
      have hb : b ∈ S := by
        have hmem : some b ∈ S.map some := hS ▸ Multiset.mem_cons_self _ _
        exact (Multiset.mem_map_of_injective (Option.some_injective α)).mp hmem
      obtain ⟨T, rfl⟩ := Multiset.exists_cons_of_mem hb
      rw [Multiset.map_cons, Multiset.cons_inj_right] at hS
      refine ⟨some b, h', T, hdo, ⟨hwf, hS.symm, hpaged⟩, .take b T fun y hy => ?_⟩
      apply hleast (some y)
      rw [show h.flat.elements = _ from hh.elements]
      exact Multiset.mem_map_of_mem some hy

namespace Call

/-- The element that a call asks to store. -/
def enqueued : Call α → Option α
  | .enqueue e _ => some e
  | .requeue e _ => some e
  | .dequeue => none

/-- No allocation of the call fails. -/
def Allocates : Call α → Prop
  | .enqueue _ alloc => ∀ k, alloc k = true
  | .requeue _ alloc => ∀ k, alloc k = true
  | .dequeue => True

end Call

/-- The elements that a sequence of calls asks to store. -/
def enqueued (calls : List (Call α)) : Multiset α := calls.filterMap Call.enqueued

/-- The calls find a cell in one of the three levels for each element, when `n` elements are
stored at first. -/
def WithinLevels : Nat → List (Call α) → Prop
  | _, [] => True
  | n, .enqueue _ _ :: calls => n < caaCapacity ∧ WithinLevels (n + 1) calls
  | n, .requeue _ _ :: calls => n < caaCapacity ∧ WithinLevels (n + 1) calls
  | n, .dequeue :: calls => WithinLevels (n - 1) calls

/-- There is room for fewer calls than cells. -/
theorem withinLevels_of_length {n : Nat} {calls : List (Call α)}
    (h : n + calls.length ≤ caaCapacity) : WithinLevels n calls := by
  induction calls generalizing n with
  | nil => trivial
  | cons c calls ih =>
      rw [List.length_cons] at h
      cases c with
      | enqueue e alloc => exact ⟨by omega, ih (by omega)⟩
      | requeue e alloc => exact ⟨by omega, ih (by omega)⟩
      | dequeue => exact ih (by omega)

/-- A removal leaves one element less, or none. -/
theorem card_of_take {le : α → α → Prop} {r : Option α} {T : Multiset α}
    (hserve : Serves le S (.take r) T) : Multiset.card T = Multiset.card S - 1 := by
  cases hserve with
  | take a => rw [Multiset.card_cons, Nat.add_sub_cancel]
  | idle => rfl

/-- One call does what a priority queue does with the element of the call. -/
theorem Holds.call (ho : Ordered compare) (hh : Holds compare h S) {c : Call α}
    {calls : List (Call α)} (hc : c.Allocates)
    (hlevels : WithinLevels (Multiset.card S) (c :: calls)) :
    ∃ answer h' T, h.call compare c = some (answer, h') ∧ Holds compare h' T ∧
      Serves (compare · · = true) S answer T ∧ answer.inserted = c.enqueued ∧
      WithinLevels (Multiset.card T) calls := by
  -- `Enqueue` and `Requeue` are one function
  have hinsert : ∀ e alloc, (∀ k, alloc k = true) →
      Multiset.card S < caaCapacity ∧ WithinLevels (Multiset.card S + 1) calls →
      ∃ answer h' T, h.call compare (.enqueue e alloc) = some (answer, h') ∧ Holds compare h' T ∧
        Serves (compare · · = true) S answer T ∧ answer.inserted = some e ∧
        WithinLevels (Multiset.card T) calls := by
    intro e alloc halloc hroom
    obtain ⟨h', hdo, hh'⟩ := hh.enqueue ho halloc hroom.1 e
    refine ⟨.insert e, h', e ::ₘ S, ?_, hh', .insert e S, rfl, ?_⟩
    · show (h.enqueue compare alloc e).map _ = _
      rw [hdo]
      rfl
    · rw [Multiset.card_cons]
      exact hroom.2
  cases c with
  | enqueue e alloc => exact hinsert e alloc hc hlevels
  | requeue e alloc => exact hinsert e alloc hc hlevels
  | dequeue =>
      obtain ⟨r, h', T, hdo, hh', hserve⟩ := hh.dequeue ho
      refine ⟨.take r, h', T, ?_, hh', hserve, rfl, ?_⟩
      · show (h.dequeue compare).map _ = _
        rw [hdo]
        rfl
      · rw [card_of_take hserve]
        exact hlevels

/-- A run is a run of a priority queue, call by call with the elements of the calls. -/
theorem Holds.runCalls (ho : Ordered compare) (calls : List (Call α))
    (halloc : ∀ c ∈ calls, c.Allocates) (hh : Holds compare h S)
    (hlevels : WithinLevels (Multiset.card S) calls) :
    ∃ answers h' T, runCalls compare calls h = some (answers, h') ∧ Holds compare h' T ∧
      Run (Serves (compare · · = true)) S answers T ∧
      answers.map Service.inserted = calls.map Call.enqueued := by
  induction calls generalizing h S with
  | nil => exact ⟨[], h, S, rfl, hh, .nil S, rfl⟩
  | cons c calls ih =>
      obtain ⟨hc, halloc⟩ := List.forall_mem_cons.mp halloc
      obtain ⟨answer, h₁, T₁, hcall, hh₁, hserve, hinserted, hlevels₁⟩ := hh.call ho hc hlevels
      obtain ⟨answers, h', T, hrun, hh', hserves, hinserts⟩ := ih halloc hh₁ hlevels₁
      refine ⟨answer :: answers, h', T, ?_, hh', .cons hserve hserves, ?_⟩
      · show (h.call compare c).bind _ = _
        rw [hcall, Option.bind_some]
        show (PagedBinheap.runCalls compare calls h₁).bind _ = _
        rw [hrun]
        rfl
      · rw [List.map_cons, List.map_cons, hinserted, hinserts]

/-- The insertions of the answers are the elements of the calls. -/
theorem insertions_eq_enqueued {answers : List (Service α)} {calls : List (Call α)}
    (hmap : answers.map Service.inserted = calls.map Call.enqueued) :
    insertions answers = enqueued calls := by
  have hfilter := congrArg (List.filterMap id) hmap
  rw [List.filterMap_map, List.filterMap_map] at hfilter
  exact congrArg Multiset.ofList hfilter

/-- A run that has a result stays within the three levels. -/
theorem Holds.withinLevels (ho : Ordered compare) (calls : List (Call α))
    (halloc : ∀ c ∈ calls, c.Allocates) (hh : Holds compare h S) {answers : List (Service α)}
    {h' : PagedBinheap α} (hrun : PagedBinheap.runCalls compare calls h = some (answers, h')) :
    WithinLevels (Multiset.card S) calls := by
  induction calls generalizing h S answers with
  | nil => trivial
  | cons c calls ih =>
      obtain ⟨hc, htail⟩ := List.forall_mem_cons.mp halloc
      obtain ⟨⟨answer, h₁⟩, hcall, hrest⟩ := Option.bind_eq_some_iff.mp hrun
      obtain ⟨⟨answers₁, h₂⟩, hrun₁, hlast⟩ := Option.bind_eq_some_iff.mp hrest
      obtain ⟨rfl, rfl⟩ := Prod.mk.inj (Option.some.inj hlast)
      have hinsert : ∀ e alloc, (∀ k, alloc k = true) →
          h.call compare (.enqueue e alloc) = some (answer, h₁) →
          Multiset.card S < caaCapacity ∧ WithinLevels (Multiset.card S + 1) calls := by
        intro e alloc halloc hcall
        obtain ⟨⟨rc, h₃⟩, hdo, heq⟩ := Option.map_eq_some_iff.mp hcall
        obtain ⟨-, rfl⟩ := Prod.mk.inj heq
        -- a full array would have no result
        have hcap : Multiset.card S < caaCapacity := by
          by_contra hfull
          rw [enqueue_beyond halloc (by rw [hh.cbhSize_eq]; omega) hh.paged] at hdo
          cases hdo
        obtain ⟨h₄, hdo', hh'⟩ := hh.enqueue ho halloc hcap e
        obtain ⟨-, rfl⟩ := Prod.mk.inj (Option.some.inj (hdo.symm.trans hdo'))
        have hrest := ih htail hh' hrun₁
        rw [Multiset.card_cons] at hrest
        exact ⟨hcap, hrest⟩
      cases c with
      | enqueue e alloc => exact hinsert e alloc hc hcall
      | requeue e alloc => exact hinsert e alloc hc hcall
      | dequeue =>
          obtain ⟨r, h₃, T, hdo, hh', hserve⟩ := hh.dequeue ho
          obtain ⟨⟨r', h₄⟩, hdo', heq⟩ := Option.map_eq_some_iff.mp hcall
          obtain ⟨-, rfl⟩ := Prod.mk.inj heq
          obtain ⟨-, rfl⟩ := Prod.mk.inj (Option.some.inj (hdo'.symm.trans hdo))
          have hrest := ih htail hh' hrun₁
          rw [card_of_take hserve] at hrest
          exact hrest

/-- A sequence of calls with no allocation failure, over the three levels of the array, is a run
of a priority queue: each `Dequeue` takes an element that precedes all others, or finds nothing
when there is none, and the cells hold what was enqueued and not dequeued. -/
theorem runCalls_serves (ho : Ordered compare) (calls : List (Call α))
    (halloc : ∀ c ∈ calls, c.Allocates) (hlevels : WithinLevels 0 calls) :
    ∃ answers h S, runCalls compare calls new = some (answers, h) ∧
      Run (Serves (compare · · = true)) 0 answers S ∧ h.stored = S.map some ∧
      enqueued calls = removals answers + S := by
  obtain ⟨answers, h, S, hrun, hh, hserves, hmap⟩ := holds_new.runCalls ho calls halloc hlevels
  refine ⟨answers, h, S, hrun, hserves, hh.elements, ?_⟩
  rw [← insertions_eq_enqueued hmap, ← hserves.balance, zero_add]

/-- Descending elements are enqueued, and one is removed. -/
def exampleCalls : Nat → List (Call Nat)
  | 0 => [.dequeue]
  | n + 1 => .enqueue n (fun _ => true) :: exampleCalls n

/-- The calls of the example allocate, and they have room. -/
theorem exampleCalls_room (n : Nat) : (∀ c ∈ exampleCalls n, c.Allocates) ∧
    (exampleCalls n).length = n + 1 := by
  induction n with
  | zero => exact ⟨List.forall_mem_singleton.mpr trivial, rfl⟩
  | succ n ih =>
      exact ⟨List.forall_mem_cons.mpr ⟨fun _ => rfl, ih.1⟩, congrArg (· + 1) ih.2⟩

/-- 1500 elements need the second level of the array. -/
theorem runCalls_serves_levels :
    caaSize < 1500 ∧ ∃ answers h S,
      runCalls (fun a b : Nat => decide (a ≤ b)) (exampleCalls 1500) new = some (answers, h) ∧
      Run (Serves fun a b : Nat => decide (a ≤ b) = true) 0 answers S ∧ h.stored = S.map some ∧
      enqueued (exampleCalls 1500) = removals answers + S := by
  obtain ⟨halloc, hlength⟩ := exampleCalls_room 1500
  refine ⟨by decide, runCalls_serves ⟨fun x y => ?_, fun x y z => ?_⟩ _ halloc
    (withinLevels_of_length ?_)⟩
  · simpa using Nat.le_total x y
  · simpa using @Nat.le_trans x y z
  · rw [hlength]
    simp [caaCapacity, caaSize]

end LustreSimulator.PagedBinheap
