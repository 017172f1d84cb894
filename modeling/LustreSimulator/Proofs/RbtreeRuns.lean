import LustreSimulator.Proofs.RbtreeUpdate

/-!
# `LustreSimulator.Proofs.RbtreeRuns`: the red-black tree as an ordered multiset

A client inserts nodes that are not in the tree and erases nodes that are. `present` has the nodes
that are in the tree after that, each with its key.

* `OrdersBy compare R keys`: the comparator goes by the total preorder `R`. Of two keys that are
  equal in `R` it may put either one first, as the comparators of the program that return -1 do.
* `Holds R s present T`: the memory of `s` holds the red-black tree `T` of the present nodes, and
  they are in the order of `R`.
* `holds_insert` and `holds_erase` are one call, and `holds_run` is a run.
* `run_orderedMultiset`: after every run from an empty tree the memory holds such a tree, and the
  walks follow it.
-/

set_option autoImplicit false

namespace LustreSimulator.LinkedRbtree

open Lib

variable {α : Type}

/-! ### The multiset -/

/-- `R` orders these keys by a total preorder, and `compare` goes by it. -/
structure OrdersBy (compare : α → α → Int) (R : α → α → Prop) (keys : List α) : Prop where
  total : ∀ a ∈ keys, ∀ b ∈ keys, R a b ∨ R b a
  trans : ∀ a ∈ keys, ∀ b ∈ keys, ∀ c ∈ keys, R a b → R b c → R a c
  left : ∀ a ∈ keys, ∀ b ∈ keys, compare a b < 0 → R a b
  right : ∀ a ∈ keys, ∀ b ∈ keys, ¬compare a b < 0 → R b a

/-- A client inserts absent nodes and erases present ones. -/
def Op.Allowed (compare : α → α → Int) (R : α → α → Prop) (present : List (RbPtr × α)) :
    Op α → Prop
  | .insert node entry => node ≠ 0 ∧ node ∉ present.map Prod.fst ∧
      OrdersBy compare R (entry :: present.map Prod.snd)
  | .erase node => node ∈ present.map Prod.fst

/-- The nodes that are present after a call. -/
def Op.apply (present : List (RbPtr × α)) : Op α → List (RbPtr × α)
  | .insert node entry => (node, entry) :: present
  | .erase node => present.filter fun n => n.1 ≠ node

/-- All calls of a run are allowed when they are made. -/
def Allowed (compare : α → α → Int) (R : α → α → Prop) :
    List (RbPtr × α) → List (Op α) → Prop
  | _, [] => True
  | present, op :: ops => op.Allowed compare R present ∧ Allowed compare R (op.apply present) ops

/-- The memory holds the red-black tree `T`, which has the present nodes in order. -/
structure Holds (R : α → α → Prop) (s : LinkedRbtree α) (present : List (RbPtr × α))
    (T : RbTree RbPtr) : Prop where
  linked : Linked s.heap T
  redBlack : IsRedBlack T
  nodes : (T.toList.map fun a => (a, (s.mem a).rbEntry)).Perm present
  sorted : T.toList.Pairwise fun a b => R (s.mem a).rbEntry (s.mem b).rbEntry

variable {compare : α → α → Int} {R : α → α → Prop} {s : LinkedRbtree α} {present : List (RbPtr × α)}
  {T : RbTree RbPtr} {fuel : Nat} {node : RbPtr} {entry : α}

namespace Holds

/-- Nothing is in an empty tree. -/
theorem new (R : α → α → Prop) (mem : RbPtr → RbNode α) :
    Holds R (new mem) [] .nil :=
  ⟨⟨trivial, trivial, rfl, by simp [nodesAround]⟩, isRedBlack_nil, .refl _, .nil⟩

theorem mem_iff (h : Holds R s present T) (a : RbPtr) :
    a ∈ T.toList ↔ a ∈ present.map Prod.fst := by
  rw [← (h.nodes.map Prod.fst).mem_iff, List.map_map]
  simp

theorem length_eq (h : Holds R s present T) : T.toList.length = present.length := by
  rw [← h.nodes.length_eq, List.length_map]

theorem entry_mem (h : Holds R s present T) {a : RbPtr} (ha : a ∈ T.toList) :
    (s.mem a).rbEntry ∈ present.map Prod.snd := by
  rw [← (h.nodes.map Prod.snd).mem_iff, List.map_map]
  exact List.mem_map_of_mem (f := fun a => (s.mem a).rbEntry) ha

theorem nodup (h : Holds R s present T) : T.toList.Nodup := by
  have hall := (List.nodup_cons.mp h.linked.nodup).2
  rwa [nodesAround, List.append_nil] at hall

end Holds

/-! ### One call -/

/-- A client sets `rb_entry` of a node. -/
def setEntry (s : LinkedRbtree α) (node : RbPtr) (entry : α) : LinkedRbtree α :=
  { s with mem := Function.update s.mem node { s.mem node with rbEntry := entry } }

theorem rbEntry_setEntry_self (s : LinkedRbtree α) (node : RbPtr) (entry : α) :
    ((s.setEntry node entry).mem node).rbEntry = entry := by
  show (Function.update s.mem node _ node).rbEntry = entry
  rw [Function.update_self]

theorem rbEntry_setEntry_of_ne (s : LinkedRbtree α) (entry : α) {a : RbPtr} (hne : a ≠ node) :
    ((s.setEntry node entry).mem a).rbEntry = (s.mem a).rbEntry := by
  show (Function.update s.mem node _ a).rbEntry = _
  rw [Function.update_of_ne hne]

/-- The key of a node is not one of its links. -/
theorem heap_setEntry (s : LinkedRbtree α) (node : RbPtr) (entry : α) :
    (s.setEntry node entry).heap = s.heap := by
  show LinkHeap.mk _ _ = LinkHeap.mk _ _
  congr 1
  funext a
  show (Function.update s.mem node _ a).links = (s.mem a).links
  rcases eq_or_ne a node with rfl | hne
  · rw [Function.update_self]
    rfl
  · rw [Function.update_of_ne hne]

/-- A tree with the same entries. -/
theorem Holds.congr {s' : LinkedRbtree α} {T' : RbTree RbPtr} {rest : List (RbPtr × α)}
    (hT : Holds R s present T) (hlinked : Linked s'.heap T') (hrb : IsRedBlack T')
    (hsub : T'.toList.Sublist T.toList)
    (hsame : ∀ a ∈ T'.toList, (s'.mem a).rbEntry = (s.mem a).rbEntry)
    (hnodes : (T'.toList.map fun a => (a, (s.mem a).rbEntry)).Perm rest) :
    Holds R s' rest T' := by
  refine ⟨hlinked, hrb, ?_, ?_⟩
  · rwa [List.map_congr_left fun a ha => by rw [hsame a ha]]
  · refine (hT.sorted.sublist hsub).imp_of_mem fun {a b} ha hb h => ?_
    rwa [hsame a ha, hsame b hb]

/-- The key of a node that is not in the tree may change. -/
theorem Holds.setEntry (hT : Holds R s present T) (hnode : node ∉ T.toList) (entry : α) :
    Holds R (s.setEntry node entry) present T := by
  refine hT.congr ?_ hT.redBlack (.refl _) (fun a ha => ?_) hT.nodes
  · rw [heap_setEntry]
    exact hT.linked
  · exact rbEntry_setEntry_of_ne s entry (ne_of_mem_of_not_mem ha hnode)

/-- The descent puts a key after those that it may follow and before those that may follow it. -/
theorem insertPath_split (hT : Holds R s present T)
    (hkeys : OrdersBy compare R ((s.mem node).rbEntry :: present.map Prod.snd)) :
    (∀ a ∈ before (s.insertPath compare node T), R (s.mem a).rbEntry (s.mem node).rbEntry) ∧
    (∀ a ∈ after (s.insertPath compare node T), R (s.mem node).rbEntry (s.mem a).rbEntry) := by
  have hstored : ∀ a ∈ T.toList, (s.mem a).rbEntry ∈
      (s.mem node).rbEntry :: present.map Prod.snd := fun a ha =>
    List.mem_cons_of_mem _ (hT.entry_mem ha)
  have hright : ∀ a ∈ T.toList, 0 < s.keyOrder compare node a →
      R (s.mem a).rbEntry (s.mem node).rbEntry := by
    intro a ha hpos
    refine hkeys.right _ List.mem_cons_self _ (hstored a ha) fun hlt => ?_
    rw [keyOrder, if_pos hlt] at hpos
    omega
  have hleft : ∀ a ∈ T.toList, s.keyOrder compare node a < 0 →
      R (s.mem node).rbEntry (s.mem a).rbEntry := by
    intro a ha hneg
    refine hkeys.left _ List.mem_cons_self _ (hstored a ha) ?_
    by_contra hnot
    rw [keyOrder, if_neg hnot] at hneg
    omega
  refine Rbtree.descend_between _ T [] 1 hright hleft ?_ nofun nofun
  refine hT.sorted.imp_of_mem fun {a b} ha hb hab => ⟨fun hpos => ?_, fun hneg => ?_⟩
  · exact hkeys.trans _ (hstored a ha) _ (hstored b hb) _ List.mem_cons_self hab (hright b hb hpos)
  · exact hkeys.trans _ List.mem_cons_self _ (hstored a ha) _ (hstored b hb) (hleft a ha hneg) hab

/-- **Insertion.** -/
theorem holds_insert (hT : Holds R s present T)
    (hop : (Op.insert node entry).Allowed compare R present) (hfuel : present.length < fuel) :
    ∃ s' T', step compare fuel s (.insert node entry) = some s' ∧
      Holds R s' ((Op.insert node entry).apply present) T' := by
  obtain ⟨hne, hnot, hkeys⟩ := hop
  have hnode : node ∉ T.toList := fun h => hnot ((hT.mem_iff node).mp h)
  have hstep : step compare fuel s (.insert node entry) =
      rbInsert compare fuel (s.setEntry node entry) node := by
    rw [step, modify, if_neg hne]
    rfl
  replace hT := hT.setEntry hnode entry
  have hentry := rbEntry_setEntry_self s node entry
  rw [hstep]
  -- from here on the key of the new node is in memory
  generalize s.setEntry node entry = s at hT hentry
  rw [← hentry] at hkeys
  obtain ⟨hbefore, hafter⟩ := insertPath_split hT hkeys
  obtain ⟨T', hT', hrb, hlist⟩ :=
    Rbtree.rbLink_spec node hT.redBlack (s.zip_insertPath compare node T)
  have hzip := toList_zip .nil (s.insertPath compare node T)
  rw [zip_insertPath, RbTree.toList_nil, List.append_nil] at hzip
  have hroom : T.toList.length < fuel := hT.length_eq ▸ hfuel
  obtain ⟨s', hs', hlinked, hsame, -⟩ := rbInsert_eq hT.linked
    (List.not_mem_cons_of_ne_of_not_mem hne hnode) hroom hT'
  refine ⟨s', T', hs', hlinked, hrb, ?_, ?_⟩
  · have hperm : T'.toList.Perm (node :: T.toList) := by
      rw [hlist, hzip]
      exact List.perm_middle
    simp only [hsame]
    refine (hperm.map _).trans ?_
    rw [List.map_cons, hentry]
    exact hT.nodes.cons _
  · have hsorted := hT.sorted
    rw [hzip, List.pairwise_append] at hsorted
    obtain ⟨hb, ha, hba⟩ := hsorted
    simp only [hsame]
    rw [hlist, List.pairwise_append, List.pairwise_cons]
    refine ⟨hb, ⟨hafter, ha⟩, fun a hmem b hmem' => ?_⟩
    rcases List.mem_cons.mp hmem' with rfl | hmem'
    · exact hbefore a hmem
    · exact hba a hmem b hmem'

/-- **Erasure.** -/
theorem holds_erase (hT : Holds R s present T)
    (hop : (Op.erase node : Op α).Allowed compare R present) (hfuel : present.length < fuel) :
    ∃ s' T', step compare fuel s (.erase node) = some s' ∧
      Holds R s' ((Op.erase node).apply present) T' := by
  obtain ⟨p, rfl, rfl⟩ := exists_pos ((hT.mem_iff node).mpr hop)
  obtain ⟨T', hT', hrb, hlist⟩ := Rbtree.rbErase_spec p hT.redBlack
  have hat : LinkedAt s.heap p.subtree p.path := (linkedAt_iff _ _ _).mpr hT.linked
  obtain ⟨s', hs', hlinked, hsame, -⟩ := rbErase_eq hat (hT.length_eq ▸ hfuel) hT'
  have hsub : T'.toList.Sublist p.tree.toList := by
    rw [hlist, p.toList_tree]
    exact (List.sublist_cons_self _ _).append_left _
  refine ⟨s', T', hs', hT.congr hlinked hrb hsub (fun a _ => hsame a) ?_⟩
  -- the other nodes are not `node`, since no node stands twice in the list
  have hnodup := hT.nodup
  rw [p.toList_tree] at hnodup
  have hnot := (List.nodup_cons.mp (List.nodup_middle.mp hnodup)).1
  have hrest : (p.tree.toList.map fun a => (a, (s.mem a).rbEntry)).filter
      (fun n => n.1 ≠ p.entry) = T'.toList.map fun a => (a, (s.mem a).rbEntry) := by
    rw [List.filter_map, p.toList_tree, hlist]
    congr 1
    rw [List.filter_append, List.filter_cons_of_neg (by simp), ← List.filter_append]
    exact List.filter_eq_self.mpr fun a ha => by simpa using ne_of_mem_of_not_mem ha hnot
  rw [← hrest]
  exact hT.nodes.filter _

/-- One call keeps the tree. -/
theorem holds_step {op : Op α} (hT : Holds R s present T)
    (hop : op.Allowed compare R present) (hfuel : present.length < fuel) :
    ∃ s' T', step compare fuel s op = some s' ∧ Holds R s' (op.apply present) T' := by
  cases op with
  | insert node entry => exact holds_insert hT hop hfuel
  | erase node => exact holds_erase hT hop hfuel

/-! ### Runs -/

/-- A call adds one node at most. -/
theorem Op.length_apply_le (op : Op α) (present : List (RbPtr × α)) :
    (op.apply present).length ≤ present.length + 1 := by
  cases op with
  | insert node entry => exact Nat.le_refl _
  | erase node => exact Nat.le_succ_of_le (List.length_filter_le _ _)

/-- A run keeps the tree. -/
theorem holds_run {ops : List (Op α)} (hT : Holds R s present T)
    (hops : Allowed compare R present ops) (hfuel : present.length + ops.length < fuel) :
    ∃ s' T', run compare fuel s ops = some s' ∧
      Holds R s' (ops.foldl Op.apply present) T' ∧ T'.toList.length < fuel := by
  -- each call uses up one unit of the room that the fuel leaves
  induction ops generalizing s present T with
  | nil => exact ⟨s, T, rfl, hT, hT.length_eq ▸ hfuel⟩
  | cons op ops ih =>
      obtain ⟨hop, hops⟩ := hops
      rw [List.length_cons] at hfuel
      have hroom : present.length < fuel := by omega
      obtain ⟨s₁, T₁, hs₁, h₁⟩ := holds_step hT hop hroom
      have hlength := op.length_apply_le present
      obtain ⟨s₂, T₂, hs₂, h₂⟩ := ih h₁ hops (by omega)
      refine ⟨s₂, T₂, ?_, h₂⟩
      rw [run, List.foldlM_cons, hs₁]
      exact hs₂

/-- **The red-black tree is an ordered multiset.** After a run of allowed calls, the memory holds a
red-black tree of the present nodes in order, and the walks follow it. -/
theorem run_orderedMultiset (compare : α → α → Int) (R : α → α → Prop) (mem : RbPtr → RbNode α)
    (ops : List (Op α)) (hops : Allowed compare R [] ops) (fuel : Nat)
    (hfuel : ops.length < fuel) :
    ∃ s T, run compare fuel (new mem) ops = some s ∧
      Holds R s (ops.foldl Op.apply []) T ∧
      s.rbFirst fuel = some (T.toList.head?.getD 0) ∧
      s.rbLast fuel = some (T.toList.getLast?.getD 0) ∧
      ∀ before node after, T.toList = before ++ node :: after →
        s.rbNext fuel node = some (after.head?.getD 0) ∧
        s.rbPrev fuel node = some (before.getLast?.getD 0) := by
  obtain ⟨s, T, hs, hT, hroom⟩ := holds_run (.new R mem) hops (by simpa using hfuel)
  obtain ⟨hfirst, hlast⟩ := rbFirst_rbLast hT.linked hroom
  exact ⟨s, T, hs, hT, hfirst, hlast, fun _ _ _ hlist => rbNext_rbPrev hT.linked hroom hlist⟩

/-- A run with a comparator that returns -1 for equal keys, as `RunTimeCompare` does: four nodes are
inserted, two of them with the same key, and the first of them is erased. -/
theorem run_orderedMultiset_three : ∃ s T,
    run (fun a b : Int => if a > b then 1 else -1) 6 (new fun _ => ⟨0, 0, 0, 0⟩)
      [.insert ⟨16, rfl⟩ 5, .insert ⟨32, rfl⟩ 3, .insert ⟨48, rfl⟩ 4, .insert ⟨64, rfl⟩ 3,
        .erase ⟨16, rfl⟩] = some s ∧
    Holds (fun a b => a ≤ b) s [(⟨64, rfl⟩, 3), (⟨48, rfl⟩, 4), (⟨32, rfl⟩, 3)] T := by
  have horder : ∀ keys, OrdersBy (fun a b : Int => if a > b then 1 else -1)
      (fun a b => a ≤ b) keys := fun keys =>
    ⟨fun a _ b _ => Int.le_total a b, fun _ _ _ _ _ _ => Int.le_trans,
      fun a _ b _ => by split <;> omega, fun a _ b _ => by split <;> omega⟩
  obtain ⟨s, T, hs, hT, -⟩ := run_orderedMultiset (fun a b : Int => if a > b then 1 else -1)
    (fun a b => a ≤ b) (fun _ => ⟨0, 0, 0, 0⟩)
    [.insert ⟨16, rfl⟩ 5, .insert ⟨32, rfl⟩ 3, .insert ⟨48, rfl⟩ 4, .insert ⟨64, rfl⟩ 3,
      .erase ⟨16, rfl⟩]
    ⟨⟨by decide, by decide, horder _⟩, ⟨by decide, by decide, horder _⟩,
      ⟨by decide, by decide, horder _⟩, ⟨by decide, by decide, horder _⟩,
      by simp [Op.Allowed, Op.apply], trivial⟩ 6 (by decide)
  exact ⟨s, T, hs, hT⟩

end LustreSimulator.LinkedRbtree
