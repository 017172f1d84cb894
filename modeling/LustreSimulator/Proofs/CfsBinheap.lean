import LustreSimulator.Lib.BinHeap
import LustreSimulator.Proofs.CfsBinheapPages
import LustreSimulator.Proofs.NrsBinheap

/-!
# `LustreSimulator.Proofs.CfsBinheap`: the nodes of a heap

`Cells h g` says that the cells hold the nodes `g`, and that every node knows its cell. In the loops
it holds but for one cell, the node `g cur` being on its way (`Hole`). A turn of a loop is a swap of
`g`, so each loop is a way up or down in the sense of `Lib.BinHeap` (`bubbleLoop_spec`,
`sinkLoop_spec`).

`WF` is what holds between two calls. `insert_ok`, `insert_fail`, `remove_spec` and `relocate_spec`
are the results about the calls. They have no fault, when `insert` is called for a node that is not
in the heap and the others for a node that is.
-/

set_option autoImplicit false

namespace LustreSimulator.CfsBinheap

open Lib PageTable NrsBinheap

variable {ι : Type*} [DecidableEq ι] {compare : ι → ι → Bool} {h h' h₁ : CfsBinheap ι}
  {alloc : Nat → Bool} {g g' : Nat → ι} {e : ι} {i k c cur : Nat}

/-! ### Cells -/

/-- The cells hold `g`, and every node knows its cell. -/
structure Cells (h : CfsBinheap ι) (g : Nat → ι) : Prop where
  cell : ∀ i, i < h.nelements → h.elements.load cbhSize i = some (some (g i))
  index : ∀ i, i < h.nelements → h.chnIndex (g i) = i

/-- The same, but the node `g cur` is on its way and its cell holds anything. -/
structure Hole (h : CfsBinheap ι) (g : Nat → ι) (cur : Nat) : Prop where
  lt : cur < h.nelements
  there : ∃ x, h.elements.load cbhSize cur = some x
  cell : ∀ i, i < h.nelements → i ≠ cur → h.elements.load cbhSize i = some (some (g i))
  index : ∀ i, i < h.nelements → i ≠ cur → h.chnIndex (g i) = i
  inj : ∀ i j, i < h.nelements → j < h.nelements → g i = g j → i = j

/-- Nodes were moved, and the pages and the number of nodes are as before. -/
structure Moved (h h' : CfsBinheap ι) : Prop where
  has : ∀ b, h'.elements.Has cbhSize b = h.elements.Has cbhSize b
  nelements : h'.nelements = h.nelements
  hwm : h'.hwm = h.hwm
  pages : h'.pages = h.pages

omit [DecidableEq ι] in
/-- Moves one after another. -/
theorem Moved.trans (hm : Moved h h₁) (hm' : Moved h₁ h') : Moved h h' :=
  ⟨fun b => (hm'.has b).trans (hm.has b), hm'.nelements.trans hm.nelements, hm'.hwm.trans hm.hwm,
    hm'.pages.trans hm.pages⟩

omit [DecidableEq ι] in
/-- The pages are right when nodes were moved. -/
theorem Shape.moved (hs : Shape h) (hm : Moved h h') : Shape h' := by
  obtain ⟨S, hS, hcard⟩ := hs.pages
  refine ⟨hm.hwm ▸ hs.aligned, hm.hwm ▸ hs.cap, fun b => ?_, S, fun b => ?_, ?_⟩
  · rw [hm.has, hm.hwm]
    exact hs.has b
  · rw [hm.has]
    exact hS b
  · rw [hm.pages]
    exact hcard

omit [DecidableEq ι] in
/-- Two cells hold two nodes. -/
theorem Cells.inj (hc : Cells h g) (i j : Nat) (hi : i < h.nelements) (hj : j < h.nelements)
    (heq : g i = g j) : i = j := by
  rw [← hc.index i hi, ← hc.index j hj, heq]

omit [DecidableEq ι] in
/-- A node is about to move. -/
theorem Cells.hole (hc : Cells h g) (hlt : cur < h.nelements) : Hole h g cur :=
  ⟨hlt, ⟨_, hc.cell cur hlt⟩, fun i hi _ => hc.cell i hi, fun i hi _ => hc.index i hi, hc.inj⟩

omit [DecidableEq ι] in
/-- The node in another cell. -/
theorem Hole.node_eq (hh : Hole h g cur) (hi : i < h.nelements) (hne : i ≠ cur) :
    h.node i = .ok (g i) := by
  unfold node CfsBinheap.cell
  rw [hh.cell i hi hne]
  rfl

/-- A node takes a cell. -/
theorem seat_spec (hload : ∃ x, h.elements.load cbhSize cur = some x) (e : ι) :
    ∃ h', h.seat e cur = .ok h' ∧ Moved h h' ∧
      (∀ j, h'.elements.load cbhSize j =
        if j = cur then some (some e) else h.elements.load cbhSize j) ∧
      ∀ x, h'.chnIndex x = if x = e then cur else h.chnIndex x := by
  obtain ⟨x, hx⟩ := hload
  obtain ⟨t, ht⟩ := exists_store hx (some e)
  refine ⟨{ h.setIndex e cur with elements := t }, ?_, ⟨has_store ht, rfl, rfl, rfl⟩,
    load_store ht, fun _ => rfl⟩
  show ((require (h.elements.store cbhSize cur (some e)) Fault.stray).bind fun elements =>
    .ok { h.setIndex e cur with elements := elements }) = _
  rw [ht]
  rfl

/-- The node that is on its way takes the cell. -/
theorem Hole.done (hh : Hole h g cur) (hg : g cur = e) :
    ∃ h', h.seat e cur = .ok h' ∧ Moved h h' ∧ Cells h' g := by
  obtain ⟨h', heq, hmoved, hload, hindex⟩ := seat_spec hh.there e
  refine ⟨h', heq, hmoved, fun i hi => ?_, fun i hi => ?_⟩
  · rw [hmoved.nelements] at hi
    rw [hload]
    split
    · rename_i hic
      rw [hic, hg]
    · rename_i hic
      exact hh.cell i hi hic
  · rw [hmoved.nelements] at hi
    rw [hindex]
    split
    · rename_i hie
      exact hh.inj cur i hh.lt hi (hg.trans hie.symm)
    · rename_i hie
      exact hh.index i hi fun hic => hie (hic ▸ hg)

/-- Another node takes the cell, so that its own cell is free. -/
theorem Hole.move (hh : Hole h g cur) (hk : k < h.nelements) (hne : k ≠ cur) :
    ∃ h', h.seat (g k) cur = .ok h' ∧ Moved h h' ∧ Hole h' (swapCells g cur k) k := by
  obtain ⟨h', heq, hmoved, hload, hindex⟩ := seat_spec hh.there (g k)
  refine ⟨h', heq, hmoved, ?_, ?_, fun i hi hik => ?_, fun i hi hik => ?_, fun i j hi hj hij => ?_⟩
  · rw [hmoved.nelements]
    exact hk
  · exact ⟨some (g k), by rw [hload, if_neg hne, hh.cell k hk hne]⟩
  · rw [hmoved.nelements] at hi
    rw [hload]
    split
    · rename_i hic
      rw [hic, swapCells_left]
    · rename_i hic
      rw [swapCells_of_ne g hic hik]
      exact hh.cell i hi hic
  · rw [hmoved.nelements] at hi
    by_cases hic : i = cur
    · rw [hic, swapCells_left, hindex, if_pos rfl]
    · rw [swapCells_of_ne g hic hik, hindex, if_neg fun heq => hik (hh.inj i k hi hk heq)]
      exact hh.index i hi hic
  · rw [hmoved.nelements] at hi hj
    have hlt : ∀ m, m < h.nelements → Equiv.swap cur k m < h.nelements := by
      intro m hm
      rw [Equiv.swap_apply_def]
      split
      · exact hk
      · split
        · exact hh.lt
        · exact hm
    exact (Equiv.swap cur k).injective (hh.inj _ _ (hlt i hi) (hlt j hj) hij)

/-! ### `cfs_binheap_bubble` -/

/-- The way up ends. -/
theorem bubbleLoop_stop (did : Bool) (hh : Hole h g cur) (hg : g cur = e) (hk : cur ≤ k)
    (hstop : cur = 0 ∨ compare (g (parentOf cur)) e = true) :
    ∃ h', bubbleLoop compare e k cur did h = .ok (did, h') ∧ Moved h h' ∧ Cells h' g := by
  obtain ⟨h', heq, hmoved, hcells⟩ := hh.done hg
  refine ⟨h', ?_, hmoved, hcells⟩
  cases k with
  | zero =>
      unfold bubbleLoop
      rw [heq, ok_bind]
  | succ k =>
      unfold bubbleLoop
      split
      · rw [heq, ok_bind]
      · rename_i hpos
        have hlt : parentOf cur < cur := parentOf_lt (Nat.pos_of_ne_zero hpos)
        have hparent : parentOf cur < h.nelements := Nat.lt_trans hlt hh.lt
        have hnode := hh.node_eq hparent (Nat.ne_of_lt hlt)
        have hindex := hh.index _ hparent (Nat.ne_of_lt hlt)
        unfold parentOf at hnode hindex hstop
        dsimp only
        rw [hnode, ok_bind, check_true hindex, ok_bind, if_pos (hstop.resolve_left hpos), heq,
          ok_bind]

/-- One turn of the way up. -/
theorem bubbleLoop_move (did : Bool) (hh : Hole h g cur) (hpos : 0 < cur)
    (hgo : ¬ compare (g (parentOf cur)) e = true) :
    ∃ h₁, bubbleLoop compare e (k + 1) cur did h = bubbleLoop compare e k (parentOf cur) true h₁ ∧
      Moved h h₁ ∧ Hole h₁ (swapCells g cur (parentOf cur)) (parentOf cur) := by
  have hlt : parentOf cur < cur := parentOf_lt hpos
  have hparent : parentOf cur < h.nelements := Nat.lt_trans hlt hh.lt
  have hnode := hh.node_eq hparent (Nat.ne_of_lt hlt)
  have hindex := hh.index _ hparent (Nat.ne_of_lt hlt)
  obtain ⟨h₁, heq, hmoved, hhole⟩ := hh.move hparent (Nat.ne_of_lt hlt)
  refine ⟨h₁, ?_, hmoved, hhole⟩
  unfold parentOf at hnode hindex hgo heq
  conv_lhs => unfold bubbleLoop
  rw [if_neg (Nat.ne_of_gt hpos)]
  dsimp only
  rw [hnode, ok_bind, check_true hindex, ok_bind, if_neg hgo, heq, ok_bind]
  rfl

/-- The way up ends with a heap of the same nodes. -/
theorem bubbleLoop_spec (ho : Ordered compare) (k cur : Nat) (did : Bool) (h : CfsBinheap ι)
    (g : Nat → ι) (hh : Hole h g cur) (hg : g cur = e) (hk : cur ≤ k)
    (hup : UpHole (compare · · = true) g h.nelements cur) :
    ∃ r h' g', bubbleLoop compare e k cur did h = .ok (r, h') ∧ (did = true → r = true) ∧
      Moved h h' ∧ Cells h' g' ∧ IsHeap (compare · · = true) g' h.nelements ∧
      content g' h.nelements = content g h.nelements := by
  induction k generalizing cur did h g with
  | zero =>
      have hzero : cur = 0 := Nat.le_zero.mp hk
      obtain ⟨h', heq, hmoved, hcells⟩ := bubbleLoop_stop did hh hg hk (Or.inl hzero)
      exact ⟨did, h', g, heq, id, hmoved, hcells, hup.done (Or.inl hzero), rfl⟩
  | succ k ih =>
      by_cases hstop : cur = 0 ∨ compare (g (parentOf cur)) e = true
      · obtain ⟨h', heq, hmoved, hcells⟩ := bubbleLoop_stop did hh hg hk hstop
        exact ⟨did, h', g, heq, id, hmoved, hcells, hup.done (hg ▸ hstop), rfl⟩
      · obtain ⟨hne, hgo⟩ := not_or.mp hstop
        have hpos : 0 < cur := Nat.pos_of_ne_zero hne
        have hlt : parentOf cur < cur := parentOf_lt hpos
        obtain ⟨h₁, heq, hmoved, hhole⟩ :=
          bubbleLoop_move (k := k) did hh hpos hgo
        have hless : compare (g cur) (g (parentOf cur)) = true :=
          hg ▸ (ho.total e _).resolve_right hgo
        have hstep := hup.step ho.trans hpos hh.lt hless
        obtain ⟨r, h', g', heq', hr, hmoved', hcells, hheap, hcontent⟩ :=
          ih (parentOf cur) true h₁ _ hhole (by rw [swapCells_right, hg]) (by omega)
            (hmoved.nelements ▸ hstep)
        rw [hmoved.nelements] at hheap hcontent
        refine ⟨r, h', g', heq.trans heq', fun _ => hr rfl, hmoved.trans hmoved', hcells, hheap,
          hcontent.trans (content_swap g hh.lt (Nat.lt_trans hlt hh.lt))⟩

/-! ### `cfs_binheap_sink` -/

omit [DecidableEq ι] in
/-- The child to go down to is a least one. -/
theorem lesserChild_spec (ho : Ordered compare) (hh : Hole h g cur)
    (hn : 2 * cur + 1 < h.nelements) :
    ∃ c, lesserChild compare h (2 * cur + 1) = .ok (g c, c) ∧ 0 < c ∧ c < h.nelements ∧
      parentOf c = cur ∧
      ∀ i, 0 < i → i < h.nelements → parentOf i = cur → compare (g c) (g i) = true := by
  have hparent : ∀ i, 0 < i → parentOf i = cur → i = 2 * cur + 1 ∨ i = 2 * cur + 2 :=
    fun i hi hp => (parentOf_eq_iff hi).mp hp
  have hfirst : parentOf (2 * cur + 1) = cur := (parentOf_eq_iff (by omega)).mpr (Or.inl rfl)
  have hsecond : parentOf (2 * cur + 2) = cur := (parentOf_eq_iff (by omega)).mpr (Or.inr rfl)
  unfold lesserChild
  rw [hh.node_eq hn (by omega), ok_bind]
  split
  · rename_i hn2
    rw [hh.node_eq hn2 (by omega), ok_bind]
    by_cases hless : compare (g (2 * cur + 2)) (g (2 * cur + 1)) = true
    · refine ⟨2 * cur + 2, by rw [if_pos hless], by omega, hn2, hsecond, fun i hi hin hp => ?_⟩
      rcases hparent i hi hp with rfl | rfl
      · exact hless
      · exact ho.refl _
    · refine ⟨2 * cur + 1, by rw [if_neg hless], by omega, hn, hfirst, fun i hi hin hp => ?_⟩
      rcases hparent i hi hp with rfl | rfl
      · exact ho.refl _
      · exact (ho.total _ _).resolve_right hless
  · refine ⟨2 * cur + 1, rfl, by omega, hn, hfirst, fun i hi hin hp => ?_⟩
    rcases hparent i hi hp with rfl | rfl
    · exact ho.refl _
    · omega

/-- The way down ends with a heap of the same nodes. -/
theorem sinkLoop_spec (ho : Ordered compare) (k cur : Nat) (did : Bool) (h : CfsBinheap ι)
    (g : Nat → ι) (hh : Hole h g cur) (hg : g cur = e) (hk : h.nelements ≤ cur + k)
    (hdown : DownHole (compare · · = true) g h.nelements cur) :
    ∃ r h' g', sinkLoop compare e k cur did h = .ok (r, h') ∧ Moved h h' ∧ Cells h' g' ∧
      IsHeap (compare · · = true) g' h.nelements ∧
      content g' h.nelements = content g h.nelements := by
  induction k generalizing cur did h g with
  | zero =>
      obtain ⟨h', heq, hmoved, hcells⟩ := hh.done hg
      refine ⟨did, h', g, ?_, hmoved, hcells, hdown.last (by omega), rfl⟩
      unfold sinkLoop
      rw [heq, ok_bind]
  | succ k ih =>
      obtain ⟨h', heq, hmoved, hcells⟩ := hh.done hg
      unfold sinkLoop
      split
      · rename_i hn
        exact ⟨did, h', g, by rw [heq, ok_bind], hmoved, hcells, hdown.last hn, rfl⟩
      · rename_i hn
        obtain ⟨c, hchild, hpos, hcn, hparent, hleast⟩ := lesserChild_spec ho hh (by omega)
        have hlt : cur < c := hparent ▸ parentOf_lt hpos
        rw [hchild, ok_bind]
        dsimp only
        rw [check_true (hh.index c hcn (Nat.ne_of_gt hlt)), ok_bind]
        split
        · rename_i hstop
          refine ⟨did, h', g, by rw [heq, ok_bind], hmoved, hcells, ?_, rfl⟩
          exact hdown.done fun i hi hin hp =>
            hg ▸ ho.trans _ _ _ hstop (hleast i hi hin hp)
        · rename_i hgo
          obtain ⟨h₁, hmove, hmoved₁, hhole⟩ := hh.move hcn (Nat.ne_of_gt hlt)
          have hless : compare (g c) (g cur) = true := hg ▸ (ho.total _ e).resolve_right hgo
          have hstep := hmoved₁.nelements ▸ hdown.step hpos hcn hparent hless hleast
          obtain ⟨r, h'', g', heq', hmoved', hcells', hheap, hcontent⟩ :=
            ih c true h₁ _ hhole (by rw [swapCells_right, hg])
              (by rw [hmoved₁.nelements]; omega) hstep
          rw [hmoved₁.nelements] at hheap hcontent
          refine ⟨r, h'', g', by rw [hmove, ok_bind, heq'], hmoved₁.trans hmoved', hcells', hheap,
            hcontent.trans (content_swap g hh.lt hcn)⟩

/-! ### The calls -/

omit [DecidableEq ι] in
/-- The pointer to a node leads to it. -/
theorem Cells.cell_eq (hc : Cells h g) (hi : i < h.nelements) : h.cell i = .ok (some (g i)) := by
  unfold CfsBinheap.cell
  rw [hc.cell i hi]
  rfl

/-- `cfs_binheap_bubble` begins at the cell of its node. -/
theorem bubble_eq (hc : Cells h g) (hlt : c < h.nelements) (hg : g c = e) :
    h.cfsBinheapBubble compare e = bubbleLoop compare e c c false h := by
  have hindex : h.chnIndex e = c := hg ▸ hc.index c hlt
  unfold cfsBinheapBubble
  rw [hindex, hc.cell_eq hlt, ok_bind, check_true (congrArg some hg), ok_bind]

/-- `cfs_binheap_sink` begins at the cell of its node. -/
theorem sink_eq (hc : Cells h g) (hlt : c < h.nelements) (hg : g c = e) :
    h.cfsBinheapSink compare e = sinkLoop compare e h.nelements c false h := by
  have hindex : h.chnIndex e = c := hg ▸ hc.index c hlt
  unfold cfsBinheapSink
  rw [hindex, hc.cell_eq hlt, ok_bind, check_true (congrArg some hg), ok_bind]

/-- `cfs_binheap_relocate` brings a node to its place. -/
theorem relocate_spec (ho : Ordered compare) (hc : Cells h g) (hlt : c < h.nelements)
    (hg : g c = e) (hloose : Loose (compare · · = true) g h.nelements c) :
    ∃ h' g', h.cfsBinheapRelocate compare e = .ok h' ∧ Moved h h' ∧ Cells h' g' ∧
      IsHeap (compare · · = true) g' h.nelements ∧
      content g' h.nelements = content g h.nelements := by
  unfold cfsBinheapRelocate
  rw [bubble_eq hc hlt hg]
  by_cases hstop : c = 0 ∨ compare (g (parentOf c)) e = true
  · -- no way up, so the node goes down
    obtain ⟨h₁, heq, hmoved, hcells⟩ :=
      bubbleLoop_stop false (hc.hole hlt) hg (Nat.le_refl c) hstop
    have hdown := hloose.downHole fun hpos => hg ▸ hstop.resolve_left (Nat.ne_of_gt hpos)
    have hlt₁ : c < h₁.nelements := hmoved.nelements ▸ hlt
    obtain ⟨r, h', g', heq', hmoved', hcells', hheap, hcontent⟩ :=
      sinkLoop_spec ho h₁.nelements c false h₁ g (hcells.hole hlt₁) hg (Nat.le_add_left _ _)
        (hmoved.nelements ▸ hdown)
    rw [hmoved.nelements] at hheap hcontent
    refine ⟨h', g', ?_, hmoved.trans hmoved', hcells', hheap, hcontent⟩
    rw [heq, ok_bind]
    dsimp only
    rw [if_pos rfl, sink_eq hcells hlt₁ hg, heq', ok_bind]
  · -- the first turn goes up, so nothing is left for the way down
    obtain ⟨hne, hgo⟩ := not_or.mp hstop
    have hpos : 0 < c := Nat.pos_of_ne_zero hne
    have hless : compare (g c) (g (parentOf c)) = true := hg ▸ (ho.total e _).resolve_right hgo
    have hup := hloose.upHole ho.trans hpos hless
    obtain ⟨m, rfl⟩ : ∃ m, c = m + 1 := ⟨c - 1, by omega⟩
    obtain ⟨h₁, hmove, hmoved, hhole⟩ :=
      bubbleLoop_move (k := m) false (hc.hole hlt) hpos hgo
    have hstep := hup.step ho.trans hpos hlt hless
    have hparent := parentOf_lt hpos
    obtain ⟨r, h', g', heq, hr, hmoved', hcells, hheap, hcontent⟩ :=
      bubbleLoop_spec ho m _ true h₁ _ hhole (by rw [swapCells_right, hg]) (by omega)
        (hmoved.nelements ▸ hstep)
    rw [hmoved.nelements] at hheap hcontent
    refine ⟨h', g', ?_, hmoved.trans hmoved', hcells, hheap,
      hcontent.trans (content_swap g hlt (Nat.lt_trans hparent hlt))⟩
    rw [hmove, heq, ok_bind]
    dsimp only
    rw [if_neg (by rw [hr rfl]; decide)]

/-- The heap of `h` is right: its pages, its cells `g` and their order. -/
structure WF (compare : ι → ι → Bool) (h : CfsBinheap ι) (g : Nat → ι) : Prop where
  shape : Shape h
  room : h.nelements ≤ h.hwm
  cells : Cells h g
  heap : IsHeap (compare · · = true) g h.nelements

omit [DecidableEq ι] in
/-- `cfs_binheap_find` finds the nodes. -/
theorem WF.find_eq (hwf : WF compare h g) (hi : i < h.nelements) :
    h.cfsBinheapFind i = .ok (some (g i)) := by
  unfold cfsBinheapFind
  rw [if_neg (Nat.not_le.mpr hi), hwf.cells.cell_eq hi]

/-- There is a cell for another node, or `cfs_binheap_grow` makes one. -/
def HasRoom (h : CfsBinheap ι) (alloc : Nat → Bool) : Prop :=
  h.nelements < h.hwm ∨ CanGrow h.hwm alloc

/-- Without room `cfs_binheap_insert` changes nothing. -/
theorem insert_fail (hwf : WF compare h g) (hroom : ¬ HasRoom h alloc) (e : ι) :
    h.cfsBinheapInsert compare alloc e = .ok (enomem, h) := by
  obtain ⟨hfull, hgrow⟩ := not_or.mp hroom
  have heq : h.nelements = h.hwm := Nat.le_antisymm hwf.room (Nat.not_lt.mp hfull)
  unfold cfsBinheapInsert
  dsimp only
  rw [if_pos heq, grow_fail hwf.shape hgrow, ok_bind, if_pos (show enomem ≠ 0 by decide)]

/-- A new node takes the first free cell and goes up. -/
theorem insert_room (ho : Ordered compare) (hwf : WF compare h g) (hroom : h.nelements < h.hwm)
    (hfresh : ∀ i, i < h.nelements → g i ≠ e) :
    ∃ h' g', (({ h with nelements := h.nelements + 1 }.seat e h.nelements).bind fun h =>
        (h.cfsBinheapBubble compare e).bind fun r => .ok ((0 : Int), r.2)) = .ok (0, h') ∧
      WF compare h' g' ∧ h'.nelements = h.nelements + 1 ∧
      content g' h'.nelements = e ::ₘ content g h.nelements := by
  have hold : ∀ i, i < h.nelements → Function.update g h.nelements e i = g i := fun i hi =>
    Function.update_of_ne (Nat.ne_of_lt hi) _ _
  have hnew : Function.update g h.nelements e h.nelements = e := Function.update_self ..
  have hhole : Hole { h with nelements := h.nelements + 1 } (Function.update g h.nelements e)
      h.nelements := by
    refine ⟨Nat.lt_succ_self _, hwf.shape.exists_load hroom, fun i hi hne => ?_,
      fun i hi hne => ?_, fun i j hi hj hij => ?_⟩
    · have hlt := Nat.lt_of_le_of_ne (Nat.le_of_lt_succ hi) hne
      rw [hold i hlt]
      exact hwf.cells.cell i hlt
    · have hlt := Nat.lt_of_le_of_ne (Nat.le_of_lt_succ hi) hne
      rw [hold i hlt]
      exact hwf.cells.index i hlt
    · rcases Nat.lt_or_eq_of_le (Nat.le_of_lt_succ hi) with hi | rfl
      · rcases Nat.lt_or_eq_of_le (Nat.le_of_lt_succ hj) with hj | rfl
        · rw [hold i hi, hold j hj] at hij
          exact hwf.cells.inj i j hi hj hij
        · rw [hold i hi, hnew] at hij
          exact absurd hij (hfresh i hi)
      · rcases Nat.lt_or_eq_of_le (Nat.le_of_lt_succ hj) with hj | rfl
        · rw [hold j hj, hnew] at hij
          exact absurd hij.symm (hfresh j hj)
        · rfl
  obtain ⟨h₁, hseat, hmoved, hcells⟩ := hhole.done hnew
  have hn₁ : h₁.nelements = h.nelements + 1 := hmoved.nelements
  have hlt : h.nelements < h₁.nelements := by omega
  have hheap : IsHeap (compare · · = true) (Function.update g h.nelements e) h.nelements := by
    intro i hpos hi
    rw [hold i hi, hold _ (Nat.lt_trans (parentOf_lt hpos) hi)]
    exact hwf.heap i hpos hi
  obtain ⟨r, h', g', hbubble, -, hmoved', hcells', hheap', hcontent⟩ :=
    bubbleLoop_spec ho h.nelements h.nelements false h₁ _ (hcells.hole hlt) hnew (Nat.le_refl _)
      (hn₁ ▸ hheap.upHole)
  have hm := hmoved.trans hmoved'
  have hn' : h'.nelements = h.nelements + 1 := hm.nelements
  rw [hn₁] at hheap' hcontent
  refine ⟨h', g', ?_, ⟨?_, ?_, hcells', hn' ▸ hheap'⟩, hn', ?_⟩
  · rw [hseat, ok_bind, bubble_eq hcells hlt hnew, hbubble, ok_bind]
  · have hs : Shape { h with nelements := h.nelements + 1 } :=
      ⟨hwf.shape.aligned, hwf.shape.cap, hwf.shape.has, hwf.shape.pages⟩
    exact hs.moved hm
  · rw [hn', hm.hwm]
    exact hroom
  · rw [hn', hcontent, content_succ, hnew, content_congr hold]

omit [DecidableEq ι] in
/-- The nodes stay where they are when a page is added. -/
theorem WF.grow (hwf : WF compare h g) (hcap : h.hwm < cbhCapacity)
    (hgrown : Grown h h' (newPages h.hwm)) :
    WF compare { h' with hwm := h.hwm + cbhSize } g := by
  have hn := hgrown.nelements
  refine ⟨hwf.shape.grow hcap hgrown, ?_, ⟨fun i hi => ?_, fun i hi => ?_⟩, ?_⟩
  · show h'.nelements ≤ h.hwm + cbhSize
    rw [hn]
    exact Nat.le_add_right_of_le hwf.room
  · exact hgrown.load i _ (hwf.cells.cell i (hn ▸ hi))
  · show h'.chnIndex (g i) = i
    rw [hgrown.chnIndex]
    exact hwf.cells.index i (hn ▸ hi)
  · show IsHeap _ g h'.nelements
    rw [hn]
    exact hwf.heap

/-- `cfs_binheap_insert` adds a node when there is room. -/
theorem insert_ok (ho : Ordered compare) (hwf : WF compare h g) (hroom : HasRoom h alloc)
    (hfresh : ∀ i, i < h.nelements → g i ≠ e) :
    ∃ h' g', h.cfsBinheapInsert compare alloc e = .ok (0, h') ∧ WF compare h' g' ∧
      h'.nelements = h.nelements + 1 ∧
      content g' h'.nelements = e ::ₘ content g h.nelements := by
  unfold cfsBinheapInsert
  dsimp only
  split
  · rename_i hfull
    have hgrow : CanGrow h.hwm alloc := hroom.resolve_left (by omega)
    obtain ⟨h₁, heq, hgrown⟩ := grow_ok hwf.shape hgrow
    have hn := hgrown.nelements
    have hlt : h₁.nelements < h.hwm + cbhSize := by
      rw [hn, hfull]
      exact Nat.lt_add_of_pos_right (by decide)
    obtain ⟨h', g', hinsert, hwf', hn', hcontent⟩ :=
      insert_room ho (hwf.grow hgrow.1 hgrown) hlt fun i hi => hfresh i (hn ▸ hi)
    refine ⟨h', g', ?_, hwf', ?_, ?_⟩
    · rw [heq, ok_bind, if_neg (fun hne => hne rfl), ← hn]
      exact hinsert
    · rw [hn', ← hn]
    · rw [hcontent, ← hn]
  · rename_i hfull
    rw [ok_bind, if_neg (fun hne => hne rfl)]
    exact insert_room ho hwf (Nat.lt_of_le_of_ne hwf.room hfull) hfresh

/-- `cfs_binheap_remove` takes a node out. -/
theorem remove_spec (ho : Ordered compare) (hs : Shape h) (hroom : h.nelements ≤ h.hwm)
    (hc : Cells h g) (hlt : c < h.nelements) (hg : g c = e)
    (hloose : Loose (compare · · = true) g h.nelements c) :
    ∃ h' g', h.cfsBinheapRemove compare e = .ok h' ∧ WF compare h' g' ∧
      h'.nelements + 1 = h.nelements ∧
      e ::ₘ content g' h'.nelements = content g h.nelements := by
  obtain ⟨m, hm⟩ : ∃ m, h.nelements = m + 1 := ⟨h.nelements - 1, by omega⟩
  have hindex : h.chnIndex e = c := hg ▸ hc.index c hlt
  have hpoison : c ≠ cbhPoison := by
    have hcap := hs.cap
    have : cbhCapacity < cbhPoison := by decide
    omega
  unfold cfsBinheapRemove
  dsimp only
  have hpos : h.nelements - 1 < h.nelements := by omega
  rw [hindex, check_true hpoison, ok_bind, check_true hlt, ok_bind, hc.cell_eq hlt, ok_bind,
    check_true (congrArg some hg), ok_bind, hc.cell_eq hpos, ok_bind]
  have hs' : Shape { h with nelements := m } := ⟨hs.aligned, hs.cap, hs.has, hs.pages⟩
  have hpred : h.nelements - 1 = m := by omega
  rw [hpred]
  split
  · rename_i hlast
    have hcm : m = c := hc.inj m c (by omega) hlt ((Option.some.inj hlast).trans hg.symm)
    refine ⟨{ h with nelements := m }, g, rfl, ⟨hs', by show m ≤ h.hwm; omega, ?_, ?_⟩, hm.symm, ?_⟩
    · exact ⟨fun i hi => hc.cell i (Nat.lt_of_lt_of_le hi (by show m ≤ _; omega)),
        fun i hi => hc.index i (Nat.lt_of_lt_of_le hi (by show m ≤ _; omega))⟩
    · rw [hm, ← hcm] at hloose
      exact hloose.pop
    · show e ::ₘ content g m = _
      rw [hm, content_succ, ← hg, hcm]
  · rename_i hlast
    have hcm : c < m := Nat.lt_of_le_of_ne (by omega) fun hcm => hlast (by rw [← hcm, hg])
    have hself : Function.update g c (g m) c = g m := Function.update_self ..
    have hold : ∀ i, i ≠ c → Function.update g c (g m) i = g i := fun i hi =>
      Function.update_of_ne hi _ _
    have hhole : Hole { h with nelements := m } (Function.update g c (g m)) c := by
      refine ⟨hcm, ⟨_, hc.cell c hlt⟩, fun i hi hne => ?_, fun i hi hne => ?_,
        fun i j hi hj hij => ?_⟩
      · rw [hold i hne]
        exact hc.cell i (hm ▸ Nat.lt_succ_of_lt hi)
      · rw [hold i hne]
        exact hc.index i (hm ▸ Nat.lt_succ_of_lt hi)
      · have hi : i < m := hi
        have hj : j < m := hj
        by_cases hic : i = c
        · by_cases hjc : j = c
          · rw [hic, hjc]
          · rw [hic, hself, hold j hjc] at hij
            have := hc.inj m j (by omega) (by omega) hij
            omega
        · rw [hold i hic] at hij
          by_cases hjc : j = c
          · rw [hjc, hself] at hij
            have := hc.inj i m (by omega) (by omega) hij
            omega
          · rw [hold j hjc] at hij
            exact hc.inj i j (by omega) (by omega) hij
    obtain ⟨h₁, hseat, hmoved, hcells⟩ := hhole.done hself
    have hn₁ : h₁.nelements = m := hmoved.nelements
    obtain ⟨h₂, g₂, hrelocate, hmoved₂, hcells₂, hheap₂, hcontent₂⟩ :=
      relocate_spec ho hcells (hn₁ ▸ hcm) hself
        (hloose.congr (by omega) fun i _ hi => hold i hi)
    have hm' := hmoved.trans hmoved₂
    have hn₂ : h₂.nelements = m := hm'.nelements
    have hcontent : e ::ₘ content g₂ m = content g h.nelements := by
      rw [hn₁] at hcontent₂
      rw [hcontent₂, hm, ← hg]
      exact content_update_last hcm
    have hgone : ∀ i, i < m → g₂ i ≠ e := by
      intro i hi heq
      have hnodup : (e ::ₘ content g₂ m).Nodup := hcontent ▸ nodup_content hc.inj
      exact (Multiset.nodup_cons.mp hnodup).1 (mem_content.mpr ⟨i, hi, heq⟩)
    refine ⟨h₂.setIndex e cbhPoison, g₂, ?_, ⟨?_, ?_, ⟨fun i hi => ?_, fun i hi => ?_⟩, ?_⟩, ?_, ?_⟩
    · show ((.ok (g m) : Except Fault ι).bind fun last => _) = _
      rw [ok_bind, hseat, ok_bind, hrelocate, ok_bind]
    · have hs₂ := hs'.moved hm'
      exact ⟨hs₂.aligned, hs₂.cap, hs₂.has, hs₂.pages⟩
    · show h₂.nelements ≤ h₂.hwm
      rw [hn₂, hm'.hwm]
      show m ≤ h.hwm
      omega
    · exact hcells₂.cell i hi
    · show (if g₂ i = e then cbhPoison else h₂.chnIndex (g₂ i)) = i
      rw [if_neg (hgone i (hn₂ ▸ hi))]
      exact hcells₂.index i hi
    · show IsHeap _ g₂ h₂.nelements
      rw [hn₂, ← hn₁]
      exact hheap₂
    · show h₂.nelements + 1 = h.nelements
      rw [hn₂, hm]
    · show e ::ₘ content g₂ h₂.nelements = _
      rw [hn₂]
      exact hcontent

/-- `cfs_binheap_remove` of a node that is not in the heap stops at an assertion. -/
theorem remove_absent (hc : Cells h g) (habsent : ∀ i, i < h.nelements → g i ≠ e) :
    h.cfsBinheapRemove compare e = .error .lassert := by
  unfold cfsBinheapRemove
  dsimp only
  by_cases hpoison : h.chnIndex e ≠ cbhPoison
  · rw [check_true hpoison, ok_bind]
    by_cases hlt : h.chnIndex e < h.nelements
    · rw [check_true hlt, ok_bind, hc.cell_eq hlt, ok_bind,
        check_eq_error.mpr ⟨fun heq => habsent _ hlt (Option.some.inj heq), rfl⟩]
      rfl
    · rw [check_eq_error.mpr ⟨hlt, rfl⟩]
      rfl
  · rw [check_eq_error.mpr ⟨hpoison, rfl⟩]
    rfl

end LustreSimulator.CfsBinheap
