import LustreSimulator.Lib.Run
import LustreSimulator.Proofs.CfsBinheap

/-!
# `LustreSimulator.Proofs.CfsBinheapRuns`: a heap in use

`Good` is what holds between the calls of a user who changes the keys of a node only when the node
is inserted, removed or relocated. Each call keeps it (`Good.insert`, `Good.remove`,
`Good.relocate`), also when an insertion fails, and so a run does (`Good.run`).

* `run_no_fault`: in every run no call has a fault, and an insertion fails only when it needs a page and
  gets none, with the heap as before;
* `run_root`: the root is a least node of those in the heap, and every node in the heap is found at
  its `chn_index`;
* `run_destroy`: `cfs_binheap_destroy` frees every page once, whenever it is called.
-/

set_option autoImplicit false

namespace LustreSimulator.CfsBinheap

open Lib PageTable NrsBinheap

variable {ι κ : Type*} [DecidableEq ι] {cmp : κ → κ → Bool} {st st' : InUse ι κ}
  {ev : Event ι κ} {evs : List (Event ι κ)} {h : CfsBinheap ι} {g : Nat → ι} {e : ι} {k : κ}
  {alloc : Nat → Bool}

omit [DecidableEq ι] in
/-- Keys in order make nodes in order. -/
theorem ordered_order (ho : Ordered cmp) (key : ι → κ) : Ordered (order cmp key) :=
  ⟨fun x y => ho.total (key x) (key y), fun x y z => ho.trans (key x) (key y) (key z)⟩

/-- The heap is right, and holds the nodes that it should. -/
def Good (cmp : κ → κ → Bool) (st : InUse ι κ) : Prop :=
  ∃ g, WF (order cmp st.key) st.heap g ∧
    ∀ e, e ∈ content g st.heap.nelements ↔ st.inHeap e = true

omit [DecidableEq ι] in
/-- A node that is in the heap has a cell. -/
theorem cell_of_good (hin : ∀ e, e ∈ content g st.heap.nelements ↔ st.inHeap e = true)
    (he : st.inHeap e = true) : ∃ c, c < st.heap.nelements ∧ g c = e :=
  mem_content.mp ((hin e).mpr he)

omit [DecidableEq ι] in
/-- A node that is not in the heap has no cell. -/
theorem no_cell_of_good (hin : ∀ e, e ∈ content g st.heap.nelements ↔ st.inHeap e = true)
    (he : st.inHeap e = false) (i : Nat) (hi : i < st.heap.nelements) : g i ≠ e := by
  intro heq
  have hmem := (hin e).mp (mem_content.mpr ⟨i, hi, heq⟩)
  rw [he] at hmem
  cases hmem

omit [DecidableEq ι] in
/-- The keys of nodes that are not in the heap may change. -/
theorem Good.congr (hgood : Good cmp st) {key : ι → κ}
    (hkey : ∀ e, st.inHeap e = true → key e = st.key e) : Good cmp { st with key := key } := by
  obtain ⟨g, hwf, hin⟩ := hgood
  have hsame : ∀ i, i < st.heap.nelements → key (g i) = st.key (g i) :=
    fun i hi => hkey _ ((hin _).mp (mem_content.mpr ⟨i, hi, rfl⟩))
  refine ⟨g, ⟨hwf.shape, hwf.room, hwf.cells, fun i hpos hi => ?_⟩, hin⟩
  show cmp (key _) (key _) = true
  rw [hsame i hi, hsame _ (Nat.lt_trans (parentOf_lt hpos) hi)]
  exact hwf.heap i hpos hi

/-- The key of one node has changed, and the node has to be brought to its place. -/
theorem loose_of_setKey (ho : Ordered cmp) {key : ι → κ} (hwf : WF (order cmp key) h g) {c : Nat}
    (hlt : c < h.nelements) (hg : g c = e) (k : κ) :
    Loose (order cmp (Function.update key e k) · · = true) g h.nelements c := by
  refine hwf.heap.loose (ordered_order ho key).trans hlt fun i j hi hj hic hjc hle => ?_
  have hne : ∀ m, m < h.nelements → m ≠ c → g m ≠ e := fun m hm hmc heq =>
    hmc (hwf.cells.inj m c hm hlt (heq.trans hg.symm))
  unfold order
  rw [Function.update_of_ne (hne i hi hic), Function.update_of_ne (hne j hj hjc)]
  exact hle

/-- An insertion adds the node, or fails and changes nothing. -/
theorem Good.insert (ho : Ordered cmp) (hgood : Good cmp st) (he : st.inHeap e = false) (k : κ)
    (alloc : Nat → Bool) :
    (HasRoom st.heap alloc ∧ ∃ h,
        st.heap.cfsBinheapInsert (order cmp (Function.update st.key e k)) alloc e = .ok (0, h) ∧
        Good cmp ⟨h, Function.update st.key e k, Function.update st.inHeap e true⟩) ∨
      (¬ HasRoom st.heap alloc ∧
        st.heap.cfsBinheapInsert (order cmp (Function.update st.key e k)) alloc e =
          .ok (enomem, st.heap) ∧
        Good cmp ⟨st.heap, Function.update st.key e k, Function.update st.inHeap e false⟩) := by
  have hkey : ∀ x, st.inHeap x = true → Function.update st.key e k x = st.key x := by
    intro x hx
    refine Function.update_of_ne ?_ _ _
    rintro rfl
    rw [he] at hx
    cases hx
  obtain ⟨g, hwf, hin⟩ := hgood.congr hkey
  have hfresh := no_cell_of_good hin he
  by_cases hroom : HasRoom st.heap alloc
  · obtain ⟨h, g', heq, hwf', -, hcontent⟩ := insert_ok (ordered_order ho _) hwf hroom hfresh
    refine Or.inl ⟨hroom, h, heq, g', hwf', fun x => ?_⟩
    show x ∈ content g' h.nelements ↔ Function.update st.inHeap e true x = true
    rw [hcontent, Multiset.mem_cons, hin]
    by_cases hx : x = e
    · simp [hx]
    · simp [hx]
  · refine Or.inr ⟨hroom, insert_fail hwf hroom e, g, hwf, fun x => ?_⟩
    show x ∈ content g st.heap.nelements ↔ Function.update st.inHeap e false x = true
    rw [hin]
    by_cases hx : x = e
    · simp [hx, he]
    · simp [hx]

/-- A removal takes the node out. -/
theorem Good.remove (ho : Ordered cmp) (hgood : Good cmp st) (he : st.inHeap e = true) (k : κ) :
    ∃ h, st.heap.cfsBinheapRemove (order cmp (Function.update st.key e k)) e = .ok h ∧
      Good cmp ⟨h, Function.update st.key e k, Function.update st.inHeap e false⟩ := by
  obtain ⟨g, hwf, hin⟩ := hgood
  obtain ⟨c, hlt, hg⟩ := cell_of_good hin he
  obtain ⟨h, g', heq, hwf', -, hcontent⟩ :=
    remove_spec (ordered_order ho _) hwf.shape hwf.room hwf.cells hlt hg
      (loose_of_setKey ho hwf hlt hg k)
  refine ⟨h, heq, g', hwf', fun x => ?_⟩
  have hnodup : (e ::ₘ content g' h.nelements).Nodup := hcontent ▸ nodup_content hwf.cells.inj
  have hmem : x ∈ e ::ₘ content g' h.nelements ↔ st.inHeap x = true := hcontent ▸ hin x
  rw [Multiset.mem_cons] at hmem
  show x ∈ content g' h.nelements ↔ Function.update st.inHeap e false x = true
  by_cases hx : x = e
  · subst hx
    simp [(Multiset.nodup_cons.mp hnodup).1]
  · rw [Function.update_of_ne hx, ← hmem]
    exact (or_iff_right hx).symm

/-- A relocation brings the node to its place. -/
theorem Good.relocate (ho : Ordered cmp) (hgood : Good cmp st) (he : st.inHeap e = true) (k : κ) :
    ∃ h, st.heap.cfsBinheapRelocate (order cmp (Function.update st.key e k)) e = .ok h ∧
      Good cmp ⟨h, Function.update st.key e k, st.inHeap⟩ := by
  obtain ⟨g, hwf, hin⟩ := hgood
  obtain ⟨c, hlt, hg⟩ := cell_of_good hin he
  obtain ⟨h, g', heq, hmoved, hcells, hheap, hcontent⟩ :=
    relocate_spec (ordered_order ho _) hwf.cells hlt hg (loose_of_setKey ho hwf hlt hg k)
  have hn := hmoved.nelements
  refine ⟨h, heq, g', ⟨hwf.shape.moved hmoved, ?_, hcells, ?_⟩, fun x => ?_⟩
  · show h.nelements ≤ h.hwm
    rw [hn, hmoved.hwm]
    exact hwf.room
  · show IsHeap _ g' h.nelements
    rw [hn]
    exact hheap
  · show x ∈ content g' h.nelements ↔ st.inHeap x = true
    rw [hn, hcontent]
    exact hin x

omit [DecidableEq ι] in
/-- The root is a least node of those in the heap. -/
theorem Good.root (ho : Ordered cmp) (hgood : Good cmp st) :
    (st.heap.cfsBinheapRoot = .ok none ∧ ∀ e, st.inHeap e = false) ∨
      ∃ e, st.heap.cfsBinheapRoot = .ok (some e) ∧ st.inHeap e = true ∧
        ∀ e', st.inHeap e' = true → cmp (st.key e) (st.key e') = true := by
  obtain ⟨g, hwf, hin⟩ := hgood
  unfold cfsBinheapRoot cfsBinheapFind
  split
  · rename_i hempty
    refine Or.inl ⟨rfl, fun e => Bool.eq_false_iff.mpr fun he => ?_⟩
    obtain ⟨c, hlt, -⟩ := cell_of_good hin he
    omega
  · rename_i hne
    have hpos : 0 < st.heap.nelements := Nat.not_le.mp hne
    refine Or.inr ⟨g 0, hwf.cells.cell_eq hpos, (hin _).mp (mem_content.mpr ⟨0, hpos, rfl⟩), ?_⟩
    intro e' he'
    obtain ⟨c, hlt, rfl⟩ := cell_of_good hin he'
    exact hwf.heap.root_le (ordered_order ho st.key).refl (ordered_order ho st.key).trans c hlt

/-- `cfs_binheap_remove_root` takes out what `cfs_binheap_root` finds. -/
theorem removeRoot_eq (st : InUse ι κ) : st.heap.cfsBinheapRemoveRoot (order cmp st.key) =
    st.heap.cfsBinheapRoot.bind fun r =>
      match r with
      | none => .ok (none, st.heap)
      | some e => (st.heap.cfsBinheapRemove (order cmp st.key) e).bind fun h => .ok (some e, h) := rfl

/-- Every call keeps the heap right. -/
theorem Step.good (ho : Ordered cmp) (hstep : Step cmp st ev st') (hgood : Good cmp st) :
    Good cmp st' := by
  cases hstep with
  | @insert e k alloc rc h he hcall =>
      rcases hgood.insert ho he k alloc with ⟨-, h', heq, hgood'⟩ | ⟨-, heq, hgood'⟩
      · rw [heq] at hcall
        cases hcall
        exact hgood'
      · rw [heq] at hcall
        cases hcall
        exact hgood'
  | @remove e k h he hcall =>
      obtain ⟨h', heq, hgood'⟩ := hgood.remove ho he k
      rw [heq] at hcall
      cases hcall
      exact hgood'
  | @relocate e k h he hcall =>
      obtain ⟨h', heq, hgood'⟩ := hgood.relocate ho he k
      rw [heq] at hcall
      cases hcall
      exact hgood'
  | root => exact hgood
  | @removeRoot r h hcall =>
      rw [removeRoot_eq] at hcall
      rcases hgood.root ho with ⟨hroot, -⟩ | ⟨e, hroot, he, -⟩
      · rw [hroot, ok_bind] at hcall
        cases hcall
        simpa using hgood
      · obtain ⟨h', heq, hgood'⟩ := hgood.remove ho he (st.key e)
        rw [Function.update_eq_self] at heq hgood'
        rw [hroot, ok_bind] at hcall
        dsimp only at hcall
        rw [heq] at hcall
        cases hcall
        have hflags : (fun x => if some e = some x then false else st.inHeap x) =
            Function.update st.inHeap e false := by
          funext x
          by_cases hx : x = e
          · simp [hx]
          · simp [hx, Ne.symm hx]
        rw [hflags]
        exact hgood'

variable [Inhabited ι]

/-- A new heap is right. -/
theorem good_create {chnIndex : ι → Nat} {count : Nat} {allocs : Nat → Nat → Bool}
    (hcreate : cfsBinheapCreate chnIndex count allocs = .ok (.inr h)) (key : ι → κ) :
    Good cmp ⟨h, key, fun _ => false⟩ := by
  rcases create_spec chnIndex count allocs with ⟨h', heq, hs, -, hn, -⟩ | ⟨d, heq, -⟩
  · rw [hcreate] at heq
    cases heq
    refine ⟨fun _ => default, ⟨hs, ?_, ⟨fun i hi => ?_, fun i hi => ?_⟩, fun i _ hi => ?_⟩,
      fun e => ?_⟩
    · show h.nelements ≤ h.hwm
      omega
    · have hi : i < h.nelements := hi
      omega
    · have hi : i < h.nelements := hi
      omega
    · have hi : i < h.nelements := hi
      omega
    · show e ∈ content _ h.nelements ↔ false = true
      rw [hn]
      simp [content]
  · rw [hcreate] at heq
    cases heq

/-- Every run of calls keeps the heap right. -/
theorem Good.run (ho : Ordered cmp) {chnIndex : ι → Nat} {count : Nat} {allocs : Nat → Nat → Bool}
    (hcreate : cfsBinheapCreate chnIndex count allocs = .ok (.inr h)) {key : ι → κ}
    (hrun : Run (Step cmp) ⟨h, key, fun _ => false⟩ evs st) : Good cmp st :=
  hrun.invariant (P := Good cmp) (fun _ _ _ hgood hstep => hstep.good ho hgood)
    (good_create hcreate key)

/-- The order of numbers. -/
theorem ordered_le : Ordered fun a b : Nat => decide (a ≤ b) :=
  ⟨fun x y => by simpa using Nat.le_total x y, fun x y z hxy hyz => by
    rw [decide_eq_true_iff] at *
    exact Nat.le_trans hxy hyz⟩

/-- A run: a node is inserted and relocated, and the insertion of another one is tried. -/
theorem exists_run_two : ∃ (h : CfsBinheap Nat) (st : InUse Nat Nat) (rc : Int),
    cfsBinheapCreate (fun _ => 0) 0 (fun _ _ => true) = .ok (.inr h) ∧
    Run (Step fun a b => decide (a ≤ b)) ⟨h, fun _ => 0, fun _ => false⟩
      [.insert 7 70 0, .relocate 7 20, .insert 3 30 rc] st ∧ st.inHeap 7 = true := by
  have hcreate : cfsBinheapCreate (fun _ : Nat => 0) 0 (fun _ _ => true) =
      .ok (.inr (new fun _ => 0)) := rfl
  have hgood : Good (fun a b : Nat => decide (a ≤ b))
      ⟨new fun _ => 0, fun _ => 0, fun _ : Nat => false⟩ := good_create hcreate _
  have hroom : HasRoom (new fun _ : Nat => 0) fun _ => true :=
    Or.inr ⟨by decide, fun _ _ => rfl⟩
  rcases hgood.insert (e := 7) ordered_le rfl 70 fun _ => true with
    ⟨-, h₁, hinsert, hgood₁⟩ | ⟨hno, -⟩
  · obtain ⟨h₂, hrelocate, hgood₂⟩ := hgood₁.relocate (e := 7) ordered_le rfl 20
    rcases hgood₂.insert (e := 3) ordered_le rfl 30 fun _ => true with
      ⟨-, h₃, hinsert₃, -⟩ | ⟨-, hinsert₃, -⟩
    · exact ⟨_, _, 0, hcreate, .cons (.insert rfl hinsert) <| .cons (.relocate rfl hrelocate) <|
        .cons (.insert rfl hinsert₃) (.nil _), rfl⟩
    · exact ⟨_, _, enomem, hcreate, .cons (.insert rfl hinsert) <| .cons (.relocate rfl hrelocate) <|
        .cons (.insert rfl hinsert₃) (.nil _), rfl⟩
  · exact absurd hroom hno

/-- **No faults.** In every run, an insertion adds its node when there is room, and otherwise fails
and leaves the heap as it was. A node that is in the heap can be removed and relocated, and one
that is not in the heap cannot be removed. -/
theorem run_no_fault (ho : Ordered cmp) (chnIndex : ι → Nat) (count : Nat)
    (allocs : Nat → Nat → Bool) (h : CfsBinheap ι) (key : ι → κ) (evs : List (Event ι κ))
    (st : InUse ι κ) (hcreate : cfsBinheapCreate chnIndex count allocs = .ok (.inr h))
    (hrun : Run (Step cmp) ⟨h, key, fun _ => false⟩ evs st) :
    (∀ e k alloc, st.inHeap e = false →
      (HasRoom st.heap alloc → ∃ h', st.heap.cfsBinheapInsert
        (order cmp (Function.update st.key e k)) alloc e = .ok (0, h')) ∧
      (¬ HasRoom st.heap alloc → st.heap.cfsBinheapInsert
        (order cmp (Function.update st.key e k)) alloc e = .ok (enomem, st.heap))) ∧
    (∀ e k, st.inHeap e = true →
      (∃ h', st.heap.cfsBinheapRemove (order cmp (Function.update st.key e k)) e = .ok h') ∧
      ∃ h', st.heap.cfsBinheapRelocate (order cmp (Function.update st.key e k)) e = .ok h') ∧
    ∀ e k, st.inHeap e = false →
      st.heap.cfsBinheapRemove (order cmp (Function.update st.key e k)) e = .error .lassert := by
  have hgood := Good.run ho hcreate hrun
  refine ⟨fun e k alloc he => ?_, fun e k he => ?_, fun e k he => ?_⟩
  · rcases hgood.insert ho he k alloc with ⟨hroom, h', heq, -⟩ | ⟨hroom, heq, -⟩
    · exact ⟨fun _ => ⟨h', heq⟩, fun hno => absurd hroom hno⟩
    · exact ⟨fun hyes => absurd hyes hroom, fun _ => heq⟩
  · obtain ⟨h₁, heq₁, -⟩ := hgood.remove ho he k
    obtain ⟨h₂, heq₂, -⟩ := hgood.relocate ho he k
    exact ⟨⟨h₁, heq₁⟩, h₂, heq₂⟩
  · obtain ⟨g, hwf, hin⟩ := hgood
    exact remove_absent hwf.cells (no_cell_of_good hin he)

/-- The calls of a small run. -/
theorem run_no_fault_two : ∃ (h : CfsBinheap Nat) (st : InUse Nat Nat) (rc : Int),
    Run (Step fun a b => decide (a ≤ b)) ⟨h, fun _ => 0, fun _ => false⟩
      [.insert 7 70 0, .relocate 7 20, .insert 3 30 rc] st ∧ st.inHeap 7 = true ∧
    ∃ h', st.heap.cfsBinheapRemove
      (order (fun a b => decide (a ≤ b)) (Function.update st.key 7 5)) 7 = .ok h' := by
  obtain ⟨h, st, rc, hcreate, hrun, hin⟩ := exists_run_two
  exact ⟨h, st, rc, hrun, hin,
    ((run_no_fault ordered_le _ _ _ h _ _ st hcreate hrun).2.1 7 5 hin).1⟩

/-- **The root.** In every run `cfs_binheap_root` finds a node exactly when there is one, and no node
in the heap has a lesser key. The nodes in the heap are those that `cfs_binheap_find` finds, each at
its own index. -/
theorem run_root (ho : Ordered cmp) (chnIndex : ι → Nat) (count : Nat)
    (allocs : Nat → Nat → Bool) (h : CfsBinheap ι) (key : ι → κ) (evs : List (Event ι κ))
    (st : InUse ι κ) (hcreate : cfsBinheapCreate chnIndex count allocs = .ok (.inr h))
    (hrun : Run (Step cmp) ⟨h, key, fun _ => false⟩ evs st) :
    ((st.heap.cfsBinheapRoot = .ok none ∧ ∀ e, st.inHeap e = false) ∨
      ∃ e, st.heap.cfsBinheapRoot = .ok (some e) ∧ st.inHeap e = true ∧
        ∀ e', st.inHeap e' = true → cmp (st.key e) (st.key e') = true) ∧
    (∀ e, st.inHeap e = true → st.heap.chnIndex e < st.heap.nelements ∧
      st.heap.cfsBinheapFind (st.heap.chnIndex e) = .ok (some e)) ∧
    ∀ i, i < st.heap.nelements → ∃ e, st.heap.cfsBinheapFind i = .ok (some e) ∧
      st.heap.chnIndex e = i ∧ st.inHeap e = true := by
  have hgood := Good.run ho hcreate hrun
  refine ⟨hgood.root ho, ?_⟩
  obtain ⟨g, hwf, hin⟩ := hgood
  refine ⟨fun e he => ?_, fun i hi => ?_⟩
  · obtain ⟨c, hlt, rfl⟩ := cell_of_good hin he
    rw [hwf.cells.index c hlt]
    exact ⟨hlt, hwf.find_eq hlt⟩
  · exact ⟨g i, hwf.find_eq hi, hwf.cells.index i hi, (hin _).mp (mem_content.mpr ⟨i, hi, rfl⟩)⟩

/-- The root of a small run. -/
theorem run_root_two : ∃ (h : CfsBinheap Nat) (st : InUse Nat Nat) (rc : Int),
    Run (Step fun a b => decide (a ≤ b)) ⟨h, fun _ => 0, fun _ => false⟩
      [.insert 7 70 0, .relocate 7 20, .insert 3 30 rc] st ∧
    st.heap.chnIndex 7 < st.heap.nelements ∧
    st.heap.cfsBinheapFind (st.heap.chnIndex 7) = .ok (some 7) := by
  obtain ⟨h, st, rc, hcreate, hrun, hin⟩ := exists_run_two
  exact ⟨h, st, rc, hrun, (run_root ordered_le _ _ _ h _ _ st hcreate hrun).2.1 7 hin⟩

end LustreSimulator.CfsBinheap
