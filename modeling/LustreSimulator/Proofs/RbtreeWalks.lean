import LustreSimulator.Proofs.LinkedRbtree

/-!
# `LustreSimulator.Proofs.RbtreeWalks`: the walks in memory

`rb_first`, `rb_last`, `rb_next` and `rb_prev` follow pointers, and they follow the in-order list of
the tree that the memory holds.

* `outermost_eq` and `climb_eq` are the loops, which do what `Rbtree.leftmost`, `Rbtree.climbNext`
  and their mirror images do on a tree.
* `rbFirst_rbLast` and `rbNext_rbPrev` are the walks. They rest on the theorems about the list in
  `LustreSimulator.Proofs.Rbtree`.
-/

set_option autoImplicit false

namespace LustreSimulator.LinkedRbtree

open Lib

variable {α : Type} {s : LinkedRbtree α} {t l r : RbTree RbPtr} {c : Color} {x z : RbPtr}
  {path : List (Frame RbPtr)} {fuel : Nat}

/-! ### The loops -/

/-- The links of a node with both children. -/
theorem rbLeft_eq (hat : LinkedAt s.heap (.node c l x r) path) : (s.mem x).rbLeft = ptr l :=
  congrArg TreeLinks.left hat.below.1

theorem rbRight_eq (hat : LinkedAt s.heap (.node c l x r) path) : (s.mem x).rbRight = ptr r :=
  congrArg TreeLinks.right hat.below.1

/-- The node at the end of one side. -/
def outerPos (side : Side) (c : Color) (l : RbTree RbPtr) (x : RbPtr) (r : RbTree RbPtr)
    (path : List (Frame RbPtr)) : Pos RbPtr :=
  match side with
  | .left => Rbtree.leftmost c l x r path
  | .right => Rbtree.rightmost c l x r path

/-- The loop goes down to the end of one side. -/
theorem outermost_eq (side : Side) (hat : LinkedAt s.heap (.node c l x r) path)
    (hfuel : (RbTree.node c l x r).toList.length ≤ fuel) :
    s.outermost side fuel x = some (outerPos side c l x r path).entry := by
  induction fuel generalizing c l x r path with
  | zero => simp at hfuel
  | succ fuel ih =>
      have hread : s.node? x = some (s.mem x) := node?_ptr hat nofun
      have hchild : (s.mem x).child side = ptr (match side with | .left => l | .right => r) := by
        cases side with
        | left => exact rbLeft_eq hat
        | right => exact rbRight_eq hat
      simp only [RbTree.toList_node, List.length_append, List.length_cons] at hfuel
      rw [outermost, hread, Option.bind_eq_bind, Option.bind_some, hchild]
      cases side with
      | left =>
          cases l with
          | nil => rfl
          | node lc ll lx lr =>
              have hl : LinkedAt s.heap (.node lc ll lx lr) (⟨.left, c, x, r⟩ :: path) :=
                (linkedAt_cons _ _ _ _).mpr hat
              have hne : ¬ptr (RbTree.node lc ll lx lr) = 0 := hl.ptr_ne_zero nofun
              rw [if_neg hne]
              show s.outermost .left fuel lx =
                some (outerPos .left lc ll lx lr (⟨.left, c, x, r⟩ :: path)).entry
              exact ih hl (by omega)
      | right =>
          cases r with
          | nil => rfl
          | node rc rl rx rr =>
              have hr : LinkedAt s.heap (.node rc rl rx rr) (⟨.right, c, x, l⟩ :: path) :=
                (linkedAt_cons _ _ _ _).mpr hat
              have hne : ¬ptr (RbTree.node rc rl rx rr) = 0 := hr.ptr_ne_zero nofun
              rw [if_neg hne]
              show s.outermost .right fuel rx =
                some (outerPos .right rc rl rx rr (⟨.right, c, x, l⟩ :: path)).entry
              exact ih hr (by omega)

/-- The climb on a tree. -/
def climbPos (side : Side) (t : RbTree RbPtr) (path : List (Frame RbPtr)) : Option (Pos RbPtr) :=
  match side with
  | .left => Rbtree.climbPrev t path
  | .right => Rbtree.climbNext t path

/-- A pointer to a place, or `NULL`. -/
def address (p : Option (Pos RbPtr)) : RbPtr := p.elim 0 Pos.entry

/-- The loop climbs to the first node that is entered from the other side. -/
theorem climb_eq (side : Side) (hat : LinkedAt s.heap t path) (hne : t ≠ .nil)
    (hfuel : path.length < fuel) :
    s.climb side fuel (ptr t) = some (address (climbPos side t path)) := by
  obtain ⟨fuel, rfl⟩ : ∃ n, fuel = n + 1 := ⟨fuel - 1, by omega⟩
  induction path generalizing t fuel with
  | nil =>
      rw [climb, node?_ptr hat hne, Option.bind_eq_bind, Option.bind_some, rbParent_ptr hat hne]
      cases side <;> rfl
  | cons F fs ih =>
      have hF := (linkedAt_cons _ _ _ _).mp hat
      have hparent : (s.mem (ptr t)).rbParent = F.entry := rbParent_ptr hat hne
      rw [climb, node?_ptr hat hne, Option.bind_eq_bind, Option.bind_some, hparent,
        if_neg (ne_zero hF), node?_eq hF, Option.bind_some]
      rw [List.length_cons] at hfuel
      obtain ⟨fuel, rfl⟩ : ∃ n, fuel = n + 1 := ⟨fuel - 1, by omega⟩
      by_cases hside : F.side = side
      · -- the node is the child on this side, and the loop goes on
        rw [← hside, child_eq hF, if_pos rfl]
        have hgo := ih hF (plug_ne_nil F t) fuel (by omega)
        rw [ptr_plug] at hgo
        rw [hside, hgo]
        obtain ⟨fside, c, x, u⟩ := F
        obtain rfl : fside = side := hside
        cases fside <;> rfl
      · obtain rfl : side = F.side.flip := by
          revert hside
          cases side <;> cases F.side <;> simp [Side.flip]
        -- the child on this side is another one, since the two are not both empty
        have hother : ¬ptr t = ptr F.sibling := fun h => hne (hat.eq_nil_of_ptr_eq h).1
        rw [child_flip_eq hF, if_neg hother]
        obtain ⟨fside, c, x, u⟩ := F
        cases fside <;> rfl

/-! ### Steps -/

/-- A step of a walk on a tree. -/
def stepPos (side : Side) (p : Pos RbPtr) : Option (Pos RbPtr) :=
  match side with
  | .left => Rbtree.rbPrev p
  | .right => Rbtree.rbNext p

/-- The walks step as they do on a tree. -/
theorem rbStep_eq (side : Side) {p : Pos RbPtr} (hat : LinkedAt s.heap p.subtree p.path)
    (hfuel : p.tree.toList.length < fuel) :
    s.rbStep side fuel p.entry = some (address (stepPos side p)) := by
  obtain ⟨c, l, x, r, path⟩ := p
  have hlength := length_add_le (RbTree.node c l x r) path
  have htree : (zip (RbTree.node c l x r) path).toList.length < fuel := hfuel
  have hread : s.node? x = some (s.mem x) := node?_ptr hat nofun
  have hparent : (s.mem x).rbParent = top path := rbParent_ptr hat nofun
  have hpath : path.length < fuel := by omega
  have hclimb : s.climb side fuel x = some (address (climbPos side (.node c l x r) path)) :=
    climb_eq side hat nofun hpath
  have hself : ¬top path = x := hat.top_ne_ptr nofun
  have hleft : (s.mem x).rbLeft = ptr l := rbLeft_eq hat
  have hright : (s.mem x).rbRight = ptr r := rbRight_eq hat
  simp only [RbTree.toList_node, List.length_append, List.length_cons] at hlength
  -- a cleared node points to itself, and a node of the tree does not
  rw [rbStep, hread, Option.bind_eq_bind, Option.bind_some, hparent, if_neg hself]
  cases side with
  | left =>
      show (if (s.mem x).rbLeft ≠ 0 then s.outermost .right fuel (s.mem x).rbLeft else _) = _
      rw [hleft]
      cases l with
      | nil => exact hclimb
      | node lc ll lx lr =>
          have hl : LinkedAt s.heap (.node lc ll lx lr) (⟨.left, c, x, r⟩ :: path) :=
            (linkedAt_cons _ _ _ _).mpr hat
          have hroom : (RbTree.node lc ll lx lr).toList.length ≤ fuel := by omega
          rw [if_pos (hl.ptr_ne_zero nofun)]
          exact outermost_eq .right hl hroom
  | right =>
      show (if (s.mem x).rbRight ≠ 0 then s.outermost .left fuel (s.mem x).rbRight else _) = _
      rw [hright]
      cases r with
      | nil => exact hclimb
      | node rc rl rx rr =>
          have hr : LinkedAt s.heap (.node rc rl rx rr) (⟨.right, c, x, l⟩ :: path) :=
            (linkedAt_cons _ _ _ _).mpr hat
          have hroom : (RbTree.node rc rl rx rr).toList.length ≤ fuel := by omega
          rw [if_pos (hr.ptr_ne_zero nofun)]
          exact outermost_eq .left hr hroom

/-! ### The list -/

/-- A node of the tree has a place. -/
theorem exists_pos {T : RbTree RbPtr} (hx : x ∈ T.toList) :
    ∃ p : Pos RbPtr, p.tree = T ∧ p.entry = x := by
  obtain ⟨p, hp⟩ := exists_findPos (p := fun y => decide (y = x)) hx (decide_eq_true rfl)
  obtain ⟨htree, hentry⟩ := findPos_some hp
  exact ⟨p, htree, of_decide_eq_true hentry⟩

/-- The nodes on the two sides of a place. -/
theorem sides_of_pos {p : Pos RbPtr} {before after : List RbPtr} (hnodup : p.tree.toList.Nodup)
    (hlist : p.tree.toList = before ++ p.entry :: after) :
    before = p.prefixList ∧ after = p.suffixList := by
  rw [p.toList_tree] at hlist hnodup
  have hmid := List.nodup_middle.mp hnodup
  have hnot := (List.nodup_cons.mp hmid).1
  rw [List.mem_append, not_or] at hnot
  obtain ⟨hb, -, ha⟩ := (List.append_cons_inj_of_notMem hnot.1 hnot.2).mp hlist
  exact ⟨hb.symm, ha.symm⟩

/-- `rb_next` goes to the next node in order, and `rb_prev` to the one before. -/
theorem rbNext_rbPrev {T : RbTree RbPtr} {before after : List RbPtr} (hT : Linked s.heap T)
    (hfuel : T.toList.length < fuel) (hlist : T.toList = before ++ x :: after) :
    s.rbNext fuel x = some (after.head?.getD 0) ∧
      s.rbPrev fuel x = some (before.getLast?.getD 0) := by
  obtain ⟨p, rfl, rfl⟩ := exists_pos (x := x) (T := T) (by simp [hlist])
  have hat : LinkedAt s.heap p.subtree p.path := (linkedAt_iff _ _ _).mpr hT
  have hnodup : p.tree.toList.Nodup := by
    have hall := (List.nodup_cons.mp hT.nodup).2
    rwa [nodesAround, List.append_nil] at hall
  obtain ⟨rfl, rfl⟩ := sides_of_pos hnodup hlist
  constructor
  · rw [rbNext, rbStep_eq .right hat hfuel]
    show some (address (Rbtree.rbNext p)) = _
    cases hnext : Rbtree.rbNext p with
    | none =>
        rw [Rbtree.rbNext_none hnext]
        rfl
    | some q =>
        rw [(Rbtree.rbNext_some hnext).2.2]
        rfl
  · rw [rbPrev, rbStep_eq .left hat hfuel]
    show some (address (Rbtree.rbPrev p)) = _
    cases hprev : Rbtree.rbPrev p with
    | none =>
        rw [Rbtree.rbPrev_none hprev]
        rfl
    | some q =>
        rw [(Rbtree.rbPrev_some hprev).2.1, List.getLast?_append]
        rfl

/-- `rb_first` and `rb_last` find the ends. -/
theorem rbFirst_rbLast {T : RbTree RbPtr} (hT : Linked s.heap T)
    (hfuel : T.toList.length < fuel) :
    s.rbFirst fuel = some (T.toList.head?.getD 0) ∧
      s.rbLast fuel = some (T.toList.getLast?.getD 0) := by
  have hroot : s.root = ptr T := hT.root
  cases T with
  | nil =>
      have h0 : s.root = 0 := hroot
      unfold rbFirst rbLast rbEnd
      rw [if_pos h0, if_pos h0]
      exact ⟨rfl, rfl⟩
  | node c l x r =>
      have hne : ¬s.root = 0 := hroot ▸ LinkedAt.ptr_ne_zero hT nofun
      unfold rbFirst rbLast rbEnd
      rw [if_neg hne, if_neg hne, hroot]
      constructor
      · refine (outermost_eq .left hT (Nat.le_of_lt hfuel)).trans (congrArg some ?_)
        obtain ⟨hleft, htree, hbefore⟩ := Rbtree.leftmost_spec c l x r []
        have hlist : (RbTree.node c l x r).toList = _ := htree ▸ Pos.toList_tree _
        rw [hlist, Pos.prefixList, hleft, hbefore]
        rfl
      · refine (outermost_eq .right hT (Nat.le_of_lt hfuel)).trans (congrArg some ?_)
        obtain ⟨hright, htree, hafter⟩ := Rbtree.rightmost_spec c l x r []
        have hlist : (RbTree.node c l x r).toList = _ := htree ▸ Pos.toList_tree _
        rw [hlist, Pos.suffixList, hright, hafter, List.getLast?_append]
        rfl

end LustreSimulator.LinkedRbtree
