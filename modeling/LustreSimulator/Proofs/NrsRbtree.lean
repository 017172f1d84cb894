import LustreSimulator.NrsRbtree
import LustreSimulator.Proofs.Rbtree

/-!
# `LustreSimulator.Proofs.NrsRbtree`: the red-black tree as a scheduler keeps an order

`entries` are the entries in the order of the tree. Every operation succeeds on a red-black tree.
`enqueue_spec` inserts at some place, `erase_spec` removes one entry, and `dequeue_spec` takes the
first. When the comparison orders the entries, `enqueue_sorted` says that they stay in order.
-/

set_option autoImplicit false

namespace LustreSimulator.NrsRbtree

open Lib

variable {α : Type*} {compare : α → α → Int} {q : NrsRbtree α} {e : α}

/-- The entries in the order of the tree. -/
def entries (q : NrsRbtree α) : List α := q.tree.toList

/-- The tree is red-black, and the counter is right. -/
structure WF (q : NrsRbtree α) : Prop where
  redBlack : IsRedBlack q.tree
  size : q.size = q.entries.length

/-- A new scheduler is empty. -/
theorem wf_new : WF (new : NrsRbtree α) := ⟨isRedBlack_nil, rfl⟩

/-- `Enqueue` succeeds and puts the entry between two parts of the list, and it compares the entry
with the first one of the second part. Before the place the entry does not compare negative and
behind it it does, when this splits the list at all. -/
theorem enqueue_spec (h : WF q) : ∃ q' l m, q.enqueue compare e = some q' ∧ WF q' ∧
    q.entries = l ++ m ∧ q'.entries = l ++ e :: m ∧
    (∀ x ∈ m.head?, x ∈ q.compared compare e) ∧
    (q.entries.Pairwise (fun x y => compare e x < 0 → compare e y < 0) →
      (∀ x ∈ l, ¬ compare e x < 0) ∧ ∀ x ∈ m, compare e x < 0) := by
  let f : α → Int := fun y => if compare e y < 0 then -1 else 1
  have hne : ∀ y, f y ≠ 0 := by
    intro y
    show (if compare e y < 0 then (-1 : Int) else 1) ≠ 0
    split <;> decide
  have hneg : ∀ y, f y < 0 ↔ compare e y < 0 := by
    intro y
    show (if compare e y < 0 then (-1 : Int) else 1) < 0 ↔ _
    split
    · rename_i hlt
      exact iff_of_true (by decide) hlt
    · rename_i hlt
      exact iff_of_false (by decide) hlt
  -- the comparison is never zero, so the descent ends at an empty place
  have hfocus : (Rbtree.descend f q.tree [] 1).focus = .nil := by
    obtain ⟨hzero, hnil⟩ := Rbtree.descend_focus f q.tree [] 1 (by decide)
    apply hnil
    intro hrc
    obtain ⟨-, -, x, -, -, hx⟩ := hzero hrc
    exact hne x hx
  have hzip := Rbtree.descend_zip_root f q.tree 1
  rw [hfocus] at hzip
  obtain ⟨t, hlink, hrb, hlist⟩ := Rbtree.rbLink_spec e h.redBlack hzip
  have hbefore : q.entries = before (Rbtree.descend f q.tree [] 1).path ++
      after (Rbtree.descend f q.tree [] 1).path := by
    show q.tree.toList = _
    generalize (Rbtree.descend f q.tree [] 1).path = path at hzip
    rw [← hzip, toList_zip, RbTree.toList_nil, List.append_nil]
  refine ⟨⟨t, q.size + 1⟩, _, _, ?_, ⟨hrb, ?_⟩, hbefore, hlist, after_head_mem _, ?_⟩
  · show (Rbtree.rbLink e (Rbtree.descend f q.tree [] 1).path).map _ = _
    rw [hlink]
    rfl
  · show q.size + 1 = ((t.toList.length : Nat) : Int)
    rw [hlist, h.size, hbefore, List.length_append, List.length_append, List.length_cons]
    omega
  · intro hsplit
    have hs : Rbtree.Splits f q.tree.toList := by
      refine hsplit.imp ?_
      intro x y hxy hx
      have hfx := hne x
      exact (hneg y).mpr (hxy ((hneg x).mp (by omega)))
    obtain ⟨hl, hm⟩ := Rbtree.descend_split f q.tree [] 1 hs (fun _ hx => nomatch hx)
      (fun _ hx => nomatch hx)
    constructor
    · intro x hx hlt
      have hpos := hl x hx
      have := (hneg x).mpr hlt
      omega
    · intro x hx
      exact (hneg x).mp (hm x hx)

/-- `Enqueue` compares with entries of the tree only. -/
theorem compared_mem {x : α} (hx : x ∈ q.compared compare e) : x ∈ q.entries := by
  have hzip := Rbtree.descend_zip_root (fun y => if compare e y < 0 then -1 else 1) q.tree 1
  show x ∈ q.tree.toList
  rw [← hzip, toList_zip]
  rcases path_mem _ x hx with hin | hin
  · exact List.mem_append_left _ (List.mem_append_left _ hin)
  · exact List.mem_append_right _ hin

/-- `Enqueue` keeps a sorted list sorted. The order must agree with the comparison. -/
theorem enqueue_sorted {le : α → α → Prop} (h : WF q) (hsorted : q.entries.Pairwise le)
    (hneg : ∀ x ∈ q.entries, compare e x < 0 → le e x)
    (hpos : ∀ x ∈ q.entries, ¬ compare e x < 0 → le x e)
    (htrans : ∀ x ∈ q.entries, ∀ y ∈ q.entries, le x y → compare e x < 0 → compare e y < 0) :
    ∃ q', q.enqueue compare e = some q' ∧ WF q' ∧ q'.entries.Pairwise le ∧
      q'.entries.Perm (e :: q.entries) := by
  obtain ⟨q', l, m, henq, hwf, hlist, hlist', -, hsplit⟩ := @enqueue_spec α compare q e h
  have hpair : q.entries.Pairwise fun x y => compare e x < 0 → compare e y < 0 :=
    hsorted.imp_of_mem fun hx hy hxy => htrans _ hx _ hy hxy
  obtain ⟨hl, hm⟩ := hsplit hpair
  have hmemL : ∀ x ∈ l, x ∈ q.entries := fun x hx => by rw [hlist]; exact List.mem_append_left m hx
  have hmemM : ∀ x ∈ m, x ∈ q.entries := fun x hx => by rw [hlist]; exact List.mem_append_right l hx
  refine ⟨q', henq, hwf, ?_, ?_⟩
  · rw [hlist']
    rw [hlist, List.pairwise_append] at hsorted
    obtain ⟨hsortedL, hsortedM, hcross⟩ := hsorted
    rw [List.pairwise_append, List.pairwise_cons]
    refine ⟨hsortedL, ⟨fun x hx => hneg x (hmemM x hx) (hm x hx), hsortedM⟩, ?_⟩
    intro x hx y hy
    rcases List.mem_cons.mp hy with rfl | hy
    · exact hpos x (hmemL x hx) (hl x hx)
    · exact hcross x hx y hy
  · rw [hlist', hlist]
    exact List.perm_middle

/-- `Erase` of an entry succeeds and removes it. -/
theorem erase_spec [DecidableEq α] (h : WF q) (hmem : e ∈ q.entries) :
    ∃ q' l m, q.erase e = some q' ∧ WF q' ∧ q.entries = l ++ e :: m ∧ q'.entries = l ++ m := by
  obtain ⟨node, hnode⟩ := exists_findPos (p := fun i => decide (i = e)) hmem (decide_eq_true rfl)
  obtain ⟨htree, hentry⟩ := findPos_some hnode
  rw [zip_nil] at htree
  have hentry : node.entry = e := of_decide_eq_true hentry
  obtain ⟨t, herase, hrb, hlist⟩ := Rbtree.rbErase_spec node (htree ▸ h.redBlack)
  have hentries : q.entries = node.prefixList ++ e :: node.suffixList := by
    rw [← hentry, ← Pos.toList_tree, htree]
    rfl
  refine ⟨⟨t, q.size - 1⟩, node.prefixList, node.suffixList, ?_, ⟨hrb, ?_⟩, hentries, hlist⟩
  · unfold erase
    rw [hnode]
    show (Rbtree.rbErase node).map _ = _
    rw [herase]
    rfl
  · show q.size - 1 = ((t.toList.length : Nat) : Int)
    rw [hlist, h.size, hentries, List.length_append, List.length_append, List.length_cons]
    omega

/-- `Dequeue` succeeds. It finds the tree empty, or takes the first entry. -/
theorem dequeue_spec (h : WF q) :
    (q.entries = [] ∧ q.dequeue = some (none, q)) ∨
    ∃ e rest q', q.entries = e :: rest ∧ q.dequeue = some (some e, q') ∧ WF q' ∧
      q'.entries = rest := by
  unfold dequeue
  cases hfirst : Rbtree.rbFirst q.tree with
  | none =>
      left
      refine ⟨?_, rfl⟩
      show q.tree.toList = []
      rw [Rbtree.rbFirst_none hfirst]
      rfl
  | some node =>
      right
      obtain ⟨htree, hpre⟩ := Rbtree.rbFirst_some hfirst
      obtain ⟨t, herase, hrb, hlist⟩ := Rbtree.rbErase_spec node (htree ▸ h.redBlack)
      have hentries : q.entries = node.entry :: node.suffixList := by
        show q.tree.toList = _
        rw [← htree, Pos.toList_tree, hpre]
        rfl
      rw [hpre, List.nil_append] at hlist
      refine ⟨node.entry, node.suffixList, ⟨t, q.size - 1⟩, hentries, ?_, ⟨hrb, ?_⟩, hlist⟩
      · dsimp only
        rw [herase]
        rfl
      · show q.size - 1 = ((t.toList.length : Nat) : Int)
        rw [hlist, h.size, hentries, List.length_cons]
        omega

/-- `First` returns the first entry. -/
theorem first_eq_head (q : NrsRbtree α) : q.first = q.entries.head? := by
  unfold first entries
  cases hfirst : Rbtree.rbFirst q.tree with
  | none =>
      rw [Rbtree.rbFirst_none hfirst]
      rfl
  | some node =>
      obtain ⟨htree, hpre⟩ := Rbtree.rbFirst_some hfirst
      rw [← htree, Pos.toList_tree, hpre]
      rfl

/-- An `Enqueue` that succeeds adds one entry. -/
theorem WF.enqueue {q' : NrsRbtree α} (h : WF q) (hok : q.enqueue compare e = some q') :
    WF q' ∧ q'.entries.length = q.entries.length + 1 := by
  obtain ⟨q'', l, m, heq, hwf, hlist, hlist', -, -⟩ := @enqueue_spec α compare q e h
  cases heq.symm.trans hok
  refine ⟨hwf, ?_⟩
  rw [hlist', hlist, List.length_append, List.length_append, List.length_cons]
  omega

/-- An `Erase` that succeeds takes the entry out of its place. -/
theorem WF.erase_split [DecidableEq α] {q' : NrsRbtree α} (h : WF q) (hok : q.erase e = some q') :
    WF q' ∧ ∃ l m, q.entries = l ++ e :: m ∧ q'.entries = l ++ m := by
  have hmem : e ∈ q.entries := by
    by_contra hnot
    unfold NrsRbtree.erase at hok
    cases hfind : findPos (fun i => decide (i = e)) q.tree [] with
    | none =>
        rw [hfind] at hok
        cases hok
    | some node =>
        obtain ⟨htree, hentry⟩ := findPos_some hfind
        have hin := Pos.entry_mem node
        rw [htree, zip_nil, of_decide_eq_true hentry] at hin
        exact hnot hin
  obtain ⟨q'', l, m, heq, hwf, hlist, hlist'⟩ := erase_spec h hmem
  cases heq.symm.trans hok
  exact ⟨hwf, l, m, hlist, hlist'⟩

/-- An `Erase` that succeeds takes away one entry. -/
theorem WF.erase [DecidableEq α] {q' : NrsRbtree α} (h : WF q) (hok : q.erase e = some q') :
    WF q' ∧ q'.entries.length + 1 = q.entries.length := by
  obtain ⟨hwf, l, m, hlist, hlist'⟩ := h.erase_split hok
  refine ⟨hwf, ?_⟩
  rw [hlist', hlist, List.length_append, List.length_append, List.length_cons]
  omega

/-- A `Dequeue` that succeeds with an entry takes away one entry. -/
theorem WF.dequeue {q' : NrsRbtree α} (h : WF q) (hok : q.dequeue = some (some e, q')) :
    WF q' ∧ q'.entries.length + 1 = q.entries.length := by
  rcases dequeue_spec h with ⟨-, heq⟩ | ⟨x, rest, q'', hlist, heq, hwf, hrest⟩
  · cases heq.symm.trans hok
  · cases heq.symm.trans hok
    refine ⟨hwf, ?_⟩
    rw [hrest, hlist, List.length_cons]

end LustreSimulator.NrsRbtree
