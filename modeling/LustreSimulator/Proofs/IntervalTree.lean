import LustreSimulator.IntervalTree
import LustreSimulator.Proofs.Rbtree

/-!
# `LustreSimulator.Proofs.IntervalTree`: what the interval tree operations do

`IntervalNode.key` forgets `in_max_high`. Up to `key` the rebalancing of the interval tree is the
one of `rbtree.cpp` (`insertColor_key`, `eraseColor_key`, `erase_key`), so the red-black
conditions and the in-order list are the ones that `Rbtree.rbLink_spec` and
`Rbtree.rbErase_spec` give.

`Bounded` is what the pruning needs of `in_max_high`: it bounds the ends of the extents of the
subtree. It is kept by every operation, although `interval_erase` leaves it too large where the
erased node has no child (`update_maxhigh` does nothing then).

The results are one for each operation on a well-formed tree `WF`:

* `insert_spec` and `erase_spec` say that the tree stays well formed and how its nodes change;
* `search_eq` says that `interval_search` calls its function on the nodes that overlap the
  extent, one after the other, and on no other node, and `isOverlapped_iff` that
  `interval_is_overlapped` finds one when there is one.
-/

set_option autoImplicit false

namespace LustreSimulator

open Lib

/-- A node without its `in_max_high`. -/
def IntervalNode.key (x : IntervalNode) : Nat × IntervalExtent := (x.addr, x.extent)

namespace IntervalTree

/-! ### The rebalancing is the one of `rbtree.cpp` -/

@[simp]
theorem key_recompute (x : IntervalNode) (a b : Nat) : (recompute x a b).key = x.key := rfl

@[simp]
theorem key_setMaxHigh (x : IntervalNode) (m : Nat) :
    ({ x with maxHigh := m } : IntervalNode).key = x.key := rfl

@[simp]
theorem rotateLeft_key (t : IntervalTree) :
    Rbtree.rbRotateLeft (t.map IntervalNode.key) =
      (rotateLeft t).map (RbTree.map IntervalNode.key) := by
  cases t with
  | nil => rfl
  | node c l x r => cases r <;> simp [rotateLeft, Rbtree.rbRotateLeft]

@[simp]
theorem rotateRight_key (t : IntervalTree) :
    Rbtree.rbRotateRight (t.map IntervalNode.key) =
      (rotateRight t).map (RbTree.map IntervalNode.key) := by
  cases t with
  | nil => rfl
  | node c l x r => cases l <;> simp [rotateRight, Rbtree.rbRotateRight]

/-- A case of a rotation commutes with forgetting when its rotation does. -/
theorem insertRotate_key (node : IntervalTree) (parent gparent : Frame IntervalNode) :
    Rbtree.rbInsertRotate (node.map IntervalNode.key) (parent.map IntervalNode.key)
        (gparent.map IntervalNode.key) =
      (insertRotate node parent gparent).map (RbTree.map IntervalNode.key) := by
  unfold Rbtree.rbInsertRotate insertRotate
  rw [Frame.side_map]
  cases gparent.side with
  | left =>
      have hsub : (if (parent.map IntervalNode.key).side = .right then
            Rbtree.rbRotateLeft ((parent.map IntervalNode.key).plug (node.map IntervalNode.key))
          else some ((parent.map IntervalNode.key).plug (node.map IntervalNode.key))) =
          (if parent.side = .right then rotateLeft (parent.plug node)
            else some (parent.plug node)).map (RbTree.map IntervalNode.key) := by
        simp only [Frame.plug_map, Frame.side_map, rotateLeft_key]
        split <;> rfl
      simp only [hsub, Option.map_bind, Option.bind_map, RbTree.setBlack_map, Function.comp_def]
      exact Option.bind_congr fun sub _ => rotateRight_key (.node .red sub.setBlack _ _)
  | right =>
      have hsub : (if (parent.map IntervalNode.key).side = .left then
            Rbtree.rbRotateRight ((parent.map IntervalNode.key).plug (node.map IntervalNode.key))
          else some ((parent.map IntervalNode.key).plug (node.map IntervalNode.key))) =
          (if parent.side = .left then rotateRight (parent.plug node)
            else some (parent.plug node)).map (RbTree.map IntervalNode.key) := by
        simp only [Frame.plug_map, Frame.side_map, rotateRight_key]
        split <;> rfl
      simp only [hsub, Option.map_bind, Option.bind_map, RbTree.setBlack_map, Function.comp_def]
      exact Option.bind_congr fun sub _ => rotateLeft_key (.node .red _ _ sub.setBlack)

theorem insertColor_key (node : IntervalTree) (path : List (Frame IntervalNode)) :
    Rbtree.rbInsertColor (node.map IntervalNode.key) (path.map (Frame.map IntervalNode.key)) =
      (insertColor node path).map (RbTree.map IntervalNode.key) := by
  fun_induction insertColor node path with
  | case1 node => simp [Rbtree.rbInsertColor]
  | case2 node parent h => simp [Rbtree.rbInsertColor, h]
  | case3 node parent h => simp [Rbtree.rbInsertColor, h]
  | case4 node parent gparent rest hred huncle ih =>
      simp only [Rbtree.rbInsertColor, List.map_cons, Frame.color_map, hred, if_true,
        Frame.sibling_map, RbTree.isRed_map, huncle]
      rw [← ih, ← Frame.plug_map, ← Frame.plug_map]
      simp [Frame.map]
  | case5 node parent gparent rest hred huncle =>
      simp only [Rbtree.rbInsertColor, List.map_cons, Frame.color_map, hred, if_true,
        Frame.sibling_map, RbTree.isRed_map, huncle, insertRotate_key]
      cases insertRotate node parent gparent <;> simp
  | case6 node parent gparent rest hred =>
      simp [Rbtree.rbInsertColor, hred]

theorem eraseStep_key (node : IntervalTree) (parent : Frame IntervalNode) :
    Rbtree.rbEraseStep (node.map IntervalNode.key) (parent.map IntervalNode.key) =
      (eraseStep node parent).map fun r => (r.1.map IntervalNode.key, r.2) := by
  obtain ⟨side, c, x, s⟩ := parent
  cases s with
  | nil => rfl
  | node oc ol ox orr =>
      unfold Rbtree.rbEraseStep eraseStep
      simp only [Frame.map, RbTree.map_node, RbTree.isRed_map]
      split
      · cases side <;> rfl
      · cases side with
        | left =>
            have hsub : (if orr.isRed then some (.node oc (ol.map IntervalNode.key) ox.key
                  (orr.map IntervalNode.key))
                else Rbtree.rbRotateRight (.node .red (ol.map IntervalNode.key).setBlack ox.key
                  (orr.map IntervalNode.key))) =
                (if orr.isRed then some (.node oc ol ox orr)
                  else rotateRight (.node .red ol.setBlack ox orr)).map
                    (RbTree.map IntervalNode.key) := by
              split
              · rfl
              · rw [RbTree.setBlack_map, ← rotateRight_key]
                rfl
            simp only [hsub, Option.map_bind, Option.bind_map, Function.comp_def]
            refine Option.bind_congr fun sub _ => ?_
            cases sub with
            | nil => rfl
            | node _ l y r =>
                have htop := rotateLeft_key (.node .black node x (.node c l y r.setBlack))
                simp only [RbTree.map_node] at htop
                simp only [RbTree.map_node, RbTree.setBlack_map, htop, Option.bind_map, Option.map_bind]
                rfl
        | right =>
            have hsub : (if ol.isRed then some (.node oc (ol.map IntervalNode.key) ox.key
                  (orr.map IntervalNode.key))
                else Rbtree.rbRotateLeft (.node .red (ol.map IntervalNode.key) ox.key
                  (orr.map IntervalNode.key).setBlack)) =
                (if ol.isRed then some (.node oc ol ox orr)
                  else rotateLeft (.node .red ol ox orr.setBlack)).map
                    (RbTree.map IntervalNode.key) := by
              split
              · rfl
              · rw [RbTree.setBlack_map, ← rotateLeft_key]
                rfl
            simp only [hsub, Option.map_bind, Option.bind_map, Function.comp_def]
            refine Option.bind_congr fun sub _ => ?_
            cases sub with
            | nil => rfl
            | node _ l y r =>
                have htop := rotateRight_key (.node .black (.node c l.setBlack y r) x node)
                simp only [RbTree.map_node] at htop
                simp only [RbTree.map_node, RbTree.setBlack_map, htop, Option.bind_map, Option.map_bind]
                rfl

@[simp]
theorem rotateSibling_key (node : IntervalTree) (parent : Frame IntervalNode)
    (ol : IntervalTree) (ox : IntervalNode) (orr : IntervalTree) :
    Rbtree.rbRotateSibling (parent.map IntervalNode.key) (ol.map IntervalNode.key) ox.key
        (orr.map IntervalNode.key) =
      ((rotateSibling node parent ol ox orr).1.map IntervalNode.key,
        (rotateSibling node parent ol ox orr).2.map IntervalNode.key) := by
  obtain ⟨side, c, x, s⟩ := parent
  cases side <;> rfl

theorem eraseColor_key (node : IntervalTree) (path : List (Frame IntervalNode)) :
    Rbtree.rbEraseColor (node.map IntervalNode.key) (path.map (Frame.map IntervalNode.key)) =
      (eraseColor node path).map (RbTree.map IntervalNode.key) := by
  induction path generalizing node with
  | nil => simp [Rbtree.rbEraseColor, eraseColor]
  | cons parent rest ih =>
      rw [List.map_cons, Rbtree.rbEraseColor, eraseColor]
      by_cases hred : node.isRed = true
      · simp [hred]
      · cases hs : parent.sibling with
        | nil => simp [hred, hs, Rbtree.rbEraseStep, eraseStep]
        | node sc ol ox orr =>
            cases sc with
            | red =>
                -- the sibling is red, and the loop ends below the parent
                simp only [RbTree.isRed_map, hred, Bool.false_eq_true, if_false,
                  Frame.sibling_map, hs, RbTree.map_node, rotateSibling_key node parent ol ox orr,
                  eraseStep_key, Option.bind_map, Option.map_bind, Function.comp_def]
                refine Option.bind_congr fun r _ => ?_
                cases r.2 <;> simp [← List.map_cons]
            | black =>
                simp only [RbTree.isRed_map, hred, Bool.false_eq_true, if_false,
                  Frame.sibling_map, hs, RbTree.map_node, eraseStep_key, Option.bind_map,
                  Option.map_bind, Function.comp_def]
                refine Option.bind_congr fun r _ => ?_
                cases r.2 <;> simp [ih]

/-- The climb of `update_maxhigh` changes nothing but `in_max_high`. -/
@[simp]
theorem climbMaxhigh_key (old m : Nat) (path : List (Frame IntervalNode)) :
    (climbMaxhigh old m path).map (Frame.map IntervalNode.key) =
      path.map (Frame.map IntervalNode.key) := by
  induction path generalizing m with
  | nil => rfl
  | cons f fs ih =>
      rw [climbMaxhigh]
      split <;> simp [ih, Frame.map]

/-- `update_maxhigh` changes nothing but `in_max_high`. -/
@[simp]
theorem updateMaxhigh_key (old : Nat) (t : IntervalTree) (path : List (Frame IntervalNode)) :
    (updateMaxhigh old t path).1.map IntervalNode.key = t.map IntervalNode.key ∧
    (updateMaxhigh old t path).2.map (Frame.map IntervalNode.key) =
      path.map (Frame.map IntervalNode.key) := by
  cases t with
  | nil => exact ⟨rfl, rfl⟩
  | node c l x r =>
      rw [updateMaxhigh]
      split <;> simp

theorem leftmost_key (c : Color) (l : IntervalTree) (x : IntervalNode) (r : IntervalTree)
    (path : List (Frame IntervalNode)) :
    Rbtree.leftmost c (l.map IntervalNode.key) x.key (r.map IntervalNode.key)
        (path.map (Frame.map IntervalNode.key)) =
      (leftmost c l x r path).map IntervalNode.key := by
  induction l generalizing c x r path with
  | nil => rfl
  | node c' l' x' r' ihl _ => exact ihl c' x' r' (⟨.left, c, x, r⟩ :: path)

theorem unlink_key (color : Color) (child : IntervalTree) (path : List (Frame IntervalNode)) :
    Rbtree.rbUnlink color (child.map IntervalNode.key) (path.map (Frame.map IntervalNode.key)) =
      (unlink color child path).map (RbTree.map IntervalNode.key) := by
  unfold Rbtree.rbUnlink unlink
  split
  · exact eraseColor_key child path
  · simp

/-- Up to `in_max_high` the interval tree erases a node as `rb_erase` does. -/
theorem erase_key (p : Pos IntervalNode) :
    Rbtree.rbErase (p.map IntervalNode.key) =
      (erase p).map (RbTree.map IntervalNode.key) := by
  obtain ⟨color, l, x, r, path⟩ := p
  cases l with
  | nil =>
      obtain ⟨htree, hpath⟩ := updateMaxhigh_key x.maxHigh r path
      rw [erase, ← unlink_key, htree, hpath]
      rfl
  | node lc ll lx lr =>
      cases r with
      | nil =>
          obtain ⟨htree, hpath⟩ := updateMaxhigh_key x.maxHigh (.node lc ll lx lr) path
          rw [erase, ← unlink_key, htree, hpath]
          rfl
      | node rc rl rx rr =>
          -- the successor takes the place of the node, and the path splits there
          rw [erase]
          dsimp only
          set succ := leftmost rc rl rx rr [] with hsucc
          set child := updateMaxhigh succ.entry.maxHigh succ.right
            (succ.path ++ ⟨.right, color, succ.entry, .node lc ll lx lr⟩ :: path) with hchild
          have hkey := leftmost_key rc rl rx rr []
          rw [← hsucc, List.map_nil] at hkey
          obtain ⟨htree, hpath⟩ := updateMaxhigh_key succ.entry.maxHigh succ.right
            (succ.path ++ ⟨.right, color, succ.entry, .node lc ll lx lr⟩ :: path)
          rw [← hchild] at htree hpath
          have hbelow : (child.2.take succ.path.length).map (Frame.map IntervalNode.key) =
              succ.path.map (Frame.map IntervalNode.key) := by
            rw [List.map_take, hpath, List.map_append, List.take_left' (List.length_map _)]
          have habove : (child.2.drop succ.path.length).map (Frame.map IntervalNode.key) =
              (⟨.right, color, succ.entry, .node lc ll lx lr⟩ :: path).map
                (Frame.map IntervalNode.key) := by
            rw [List.map_drop, hpath, List.map_append, List.drop_left' (List.length_map _)]
          cases hdrop : child.2.drop succ.path.length with
          | nil =>
              rw [hdrop] at habove
              cases habove
          | cons f above =>
              rw [hdrop, List.map_cons, List.map_cons, List.cons_eq_cons] at habove
              obtain ⟨hf, habove⟩ := habove
              dsimp only
              have hclimb : ∀ m, (if m ≥ x.maxHigh then above
                  else climbMaxhigh x.maxHigh m above).map (Frame.map IntervalNode.key) =
                    path.map (Frame.map IntervalNode.key) := by
                intro m
                split <;> simp [habove]
              have hnode : ∀ m, Frame.map IntervalNode.key
                  { f with entry := recompute f.entry (maxHigh (.node lc ll lx lr)) m } =
                    Frame.map IntervalNode.key
                      ⟨.right, color, succ.entry, .node lc ll lx lr⟩ := fun _ => hf
              rw [← unlink_key, htree, List.map_append, hbelow, List.map_cons, hnode, hclimb]
              show Rbtree.rbUnlink (Rbtree.leftmost _ _ _ _ []).color
                (Rbtree.leftmost _ _ _ _ []).right
                ((Rbtree.leftmost _ _ _ _ []).path ++
                  ⟨_, _, (Rbtree.leftmost _ _ _ _ []).entry, _⟩ :: _) = _
              rw [hkey]
              rfl

/-! ### The bound of the ends -/

/-- `in_max_high` is at least the end of every extent of the subtree. -/
def Bounded : IntervalTree → Prop
  | .nil => True
  | .node _ l x r =>
      high x ≤ x.maxHigh ∧ maxHigh l ≤ x.maxHigh ∧ maxHigh r ≤ x.maxHigh ∧ Bounded l ∧ Bounded r

/-- The same of the nodes of a path whose hole takes a subtree with the bound `m`. -/
def Under : Nat → List (Frame IntervalNode) → Prop
  | _, [] => True
  | m, f :: fs =>
      high f.entry ≤ f.entry.maxHigh ∧ m ≤ f.entry.maxHigh ∧
        maxHigh f.sibling ≤ f.entry.maxHigh ∧ Bounded f.sibling ∧ Under f.entry.maxHigh fs

@[simp]
theorem bounded_nil : Bounded (.nil : IntervalTree) := trivial

@[simp]
theorem bounded_node (c : Color) (l : IntervalTree) (x : IntervalNode) (r : IntervalTree) :
    Bounded (.node c l x r) ↔ high x ≤ x.maxHigh ∧ maxHigh l ≤ x.maxHigh ∧
      maxHigh r ≤ x.maxHigh ∧ Bounded l ∧ Bounded r := Iff.rfl

@[simp]
theorem under_nil (m : Nat) : Under m [] := trivial

@[simp]
theorem under_cons (m : Nat) (f : Frame IntervalNode) (fs : List (Frame IntervalNode)) :
    Under m (f :: fs) ↔ high f.entry ≤ f.entry.maxHigh ∧ m ≤ f.entry.maxHigh ∧
      maxHigh f.sibling ≤ f.entry.maxHigh ∧ Bounded f.sibling ∧
      Under f.entry.maxHigh fs := Iff.rfl

@[simp]
theorem maxHigh_nil : maxHigh (.nil : IntervalTree) = 0 := rfl

@[simp]
theorem maxHigh_node (c : Color) (l : IntervalTree) (x : IntervalNode) (r : IntervalTree) :
    maxHigh (.node c l x r) = x.maxHigh := rfl

@[simp]
theorem high_setMaxHigh (x : IntervalNode) (m : Nat) :
    high { x with maxHigh := m } = high x := rfl

@[simp]
theorem high_recompute (x : IntervalNode) (a b : Nat) : high (recompute x a b) = high x := rfl

@[simp]
theorem maxHigh_recompute (x : IntervalNode) (a b : Nat) :
    (recompute x a b).maxHigh = max (high x) (max a b) := rfl

@[simp]
theorem maxHigh_setBlack (t : IntervalTree) : maxHigh (RbTree.setBlack t) = maxHigh t := by
  cases t <;> rfl

@[simp]
theorem bounded_setBlack (t : IntervalTree) : Bounded (RbTree.setBlack t) ↔ Bounded t := by
  cases t <;> rfl

@[simp]
theorem maxHigh_plug (f : Frame IntervalNode) (t : IntervalTree) :
    maxHigh (f.plug t) = f.entry.maxHigh := by
  obtain ⟨side, c, x, s⟩ := f
  cases side <;> rfl

/-- A smaller bound fits under the same path. -/
theorem Under.mono {m m' : Nat} {path : List (Frame IntervalNode)} (h : Under m' path)
    (hle : m ≤ m') : Under m path := by
  cases path with
  | nil => trivial
  | cons f fs => exact ⟨h.1, Nat.le_trans hle h.2.1, h.2.2⟩

/-- Filling a frame. -/
theorem bounded_plug (f : Frame IntervalNode) (t : IntervalTree) :
    Bounded (f.plug t) ↔ Bounded t ∧ Under (maxHigh t) [f] := by
  obtain ⟨side, c, x, s⟩ := f
  cases side <;> simp [Frame.plug] <;> tauto

/-- A tree is bounded when every subtree of it and the path above are. -/
theorem bounded_zip (t : IntervalTree) (path : List (Frame IntervalNode)) :
    Bounded (zip t path) ↔ Bounded t ∧ Under (maxHigh t) path := by
  induction path generalizing t with
  | nil => simp
  | cons f fs ih =>
      rw [zip_cons, ih, bounded_plug, maxHigh_plug]
      simp
      tauto

/-! ### Rebalancing

A rotation recomputes the lower of its two nodes, and hands the value of the upper one over. So it
keeps a bound, and it keeps the exact value. `Tracks P` is the bound, and the exact value where
`P` holds. -/

section Tracks

variable {P : Prop}

/-- `in_max_high` is at least what `update_maxhigh` would compute, and is this where `P` holds. -/
def Tracks (P : Prop) : IntervalTree → Prop
  | .nil => True
  | .node _ l x r =>
      (max (high x) (max (maxHigh l) (maxHigh r)) ≤ x.maxHigh ∧
        (P → x.maxHigh ≤ max (high x) (max (maxHigh l) (maxHigh r)))) ∧ Tracks P l ∧ Tracks P r

/-- The same of the nodes of a path whose hole takes a subtree with the value `m`. -/
def Above (P : Prop) : Nat → List (Frame IntervalNode) → Prop
  | _, [] => True
  | m, f :: fs =>
      (max (high f.entry) (max m (maxHigh f.sibling)) ≤ f.entry.maxHigh ∧
        (P → f.entry.maxHigh ≤ max (high f.entry) (max m (maxHigh f.sibling)))) ∧
      Tracks P f.sibling ∧ Above P f.entry.maxHigh fs

@[simp]
theorem tracks_nil : Tracks P (.nil : IntervalTree) := trivial

@[simp]
theorem tracks_node (c : Color) (l : IntervalTree) (x : IntervalNode) (r : IntervalTree) :
    Tracks P (.node c l x r) ↔ (max (high x) (max (maxHigh l) (maxHigh r)) ≤ x.maxHigh ∧
      (P → x.maxHigh ≤ max (high x) (max (maxHigh l) (maxHigh r)))) ∧
      Tracks P l ∧ Tracks P r := Iff.rfl

@[simp]
theorem above_nil (m : Nat) : Above P m [] := trivial

@[simp]
theorem above_cons (m : Nat) (f : Frame IntervalNode) (fs : List (Frame IntervalNode)) :
    Above P m (f :: fs) ↔ (max (high f.entry) (max m (maxHigh f.sibling)) ≤ f.entry.maxHigh ∧
      (P → f.entry.maxHigh ≤ max (high f.entry) (max m (maxHigh f.sibling)))) ∧
      Tracks P f.sibling ∧ Above P f.entry.maxHigh fs := Iff.rfl

@[simp]
theorem tracks_setBlack (t : IntervalTree) : Tracks P (RbTree.setBlack t) ↔ Tracks P t := by
  cases t <;> rfl

/-- The bound alone. -/
theorem tracks_false (t : IntervalTree) : Tracks False t ↔ Bounded t := by
  induction t with
  | nil => exact Iff.rfl
  | node c l x r ihl ihr =>
      rw [tracks_node, bounded_node, ihl, ihr]
      simp only [Nat.max_le, false_imp_iff, and_true, and_assoc]

/-- Exact values are bounds. -/
theorem tracks_bound {t : IntervalTree} (h : Tracks P t) : Tracks False t := by
  induction t with
  | nil => trivial
  | node c l x r ihl ihr => exact ⟨⟨h.1.1, False.elim⟩, ihl h.2.1, ihr h.2.2⟩

/-- The bound alone, above a hole. -/
theorem above_false (m : Nat) (path : List (Frame IntervalNode)) :
    Above False m path ↔ Under m path := by
  induction path generalizing m with
  | nil => exact Iff.rfl
  | cons f fs ih =>
      rw [above_cons, under_cons, ih, tracks_false]
      simp only [Nat.max_le, false_imp_iff, and_true, and_assoc]

/-- Filling a frame. -/
theorem tracks_plug (f : Frame IntervalNode) (t : IntervalTree) :
    Tracks P (f.plug t) ↔ Tracks P t ∧ Above P (maxHigh t) [f] := by
  obtain ⟨side, c, x, s⟩ := f
  cases side with
  | left =>
      simp only [Frame.plug, tracks_node, above_cons, above_nil, and_true]
      tauto
  | right =>
      simp only [Frame.plug, tracks_node, above_cons, above_nil, and_true,
        Nat.max_comm (maxHigh s)]
      tauto

/-- A tree tracks the ends when every subtree of it and the path above do. -/
theorem tracks_zip (t : IntervalTree) (path : List (Frame IntervalNode)) :
    Tracks P (zip t path) ↔ Tracks P t ∧ Above P (maxHigh t) path := by
  induction path generalizing t with
  | nil => simp
  | cons f fs ih =>
      rw [zip_cons, ih, tracks_plug, maxHigh_plug]
      simp only [above_cons, above_nil, and_true]
      tauto

/-- A left rotation keeps the values, and the one at its root. -/
theorem tracks_rotateLeft {t t' : IntervalTree} (h : rotateLeft t = some t') (hb : Tracks P t) :
    Tracks P t' ∧ maxHigh t' = maxHigh t := by
  revert h
  fun_cases rotateLeft t <;> intro h
  · cases h
    simp only [tracks_node, maxHigh_node, high_setMaxHigh, high_recompute,
      maxHigh_recompute] at hb ⊢
    grind
  · cases h

/-- A right rotation keeps the values, and the one at its root. -/
theorem tracks_rotateRight {t t' : IntervalTree} (h : rotateRight t = some t')
    (hb : Tracks P t) : Tracks P t' ∧ maxHigh t' = maxHigh t := by
  revert h
  fun_cases rotateRight t <;> intro h
  · cases h
    simp only [tracks_node, maxHigh_node, high_setMaxHigh, high_recompute,
      maxHigh_recompute] at hb ⊢
    grind
  · cases h

/-- A subtree with the same value at its root takes the place of another one. -/
theorem tracks_zip_of_eq {t t' : IntervalTree} {path : List (Frame IntervalNode)}
    (h : Tracks P (zip t path)) (ht' : Tracks P t → Tracks P t') (heq : maxHigh t' = maxHigh t) :
    Tracks P (zip t' path) := by
  obtain ⟨ht, hpath⟩ := (tracks_zip t path).mp h
  exact (tracks_zip t' path).mpr ⟨ht' ht, heq ▸ hpath⟩

/-- The rotations of an insertion keep the values. -/
theorem tracks_insertRotate {node top : IntervalTree} {parent gparent : Frame IntervalNode}
    (h : insertRotate node parent gparent = some top)
    (hb : Tracks P (gparent.plug (parent.plug node))) :
    Tracks P top ∧ maxHigh top = gparent.entry.maxHigh := by
  obtain ⟨hsub, hg⟩ := (tracks_plug _ _).mp hb
  unfold insertRotate at h
  split at h
  · obtain ⟨sub, hs, htop⟩ := Option.bind_eq_some_iff.mp h
    have hb' : Tracks P sub ∧ maxHigh sub = maxHigh (parent.plug node) := by
      split at hs
      · exact tracks_rotateLeft hs hsub
      · cases hs
        exact ⟨hsub, rfl⟩
    refine tracks_rotateRight htop ?_
    simp only [above_cons, above_nil, tracks_node, tracks_setBlack, maxHigh_setBlack] at hg ⊢
    grind
  · obtain ⟨sub, hs, htop⟩ := Option.bind_eq_some_iff.mp h
    have hb' : Tracks P sub ∧ maxHigh sub = maxHigh (parent.plug node) := by
      split at hs
      · exact tracks_rotateRight hs hsub
      · cases hs
        exact ⟨hsub, rfl⟩
    refine tracks_rotateLeft htop ?_
    simp only [above_cons, above_nil, tracks_node, tracks_setBlack, maxHigh_setBlack] at hg ⊢
    grind

/-- Rebalancing after an insertion keeps the values. -/
theorem tracks_insertColor {node t : IntervalTree} {path : List (Frame IntervalNode)}
    (h : insertColor node path = some t) (hb : Tracks P (zip node path)) : Tracks P t := by
  fun_induction insertColor node path with
  | case1 node =>
      cases h
      simpa using hb
  | case2 node parent hred => cases h
  | case3 node parent hred =>
      cases h
      simpa using hb
  | case4 node parent gparent rest hred huncle ih =>
      refine ih h (tracks_zip_of_eq hb ?_ ?_)
      · -- the colours do not matter
        simp only [tracks_plug, above_cons, above_nil, maxHigh_plug, maxHigh_setBlack,
          tracks_setBlack]
        exact id
      · simp
  | case5 node parent gparent rest hred huncle =>
      obtain ⟨top, htop, ht⟩ := Option.bind_eq_some_iff.mp h
      cases ht
      rw [tracks_setBlack]
      rw [zip_cons, zip_cons] at hb
      refine tracks_zip_of_eq hb (fun h => (tracks_insertRotate htop h).1) ?_
      exact (tracks_insertRotate htop ((tracks_zip _ _).mp hb).1).2.trans (maxHigh_plug _ _).symm
  | case6 node parent gparent rest hred =>
      cases h
      simpa using hb

/-- The rotation below the parent, of the sibling of a left child. -/
theorem tracks_innerLeft {oc : Color} {ol orr tmp : IntervalTree} {ox : IntervalNode}
    (h : (if orr.isRed then some (RbTree.node oc ol ox orr)
      else rotateRight (.node .red ol.setBlack ox orr)) = some tmp)
    (hb : Tracks P (.node oc ol ox orr)) : Tracks P tmp ∧ maxHigh tmp = ox.maxHigh := by
  split at h
  · cases h
    exact ⟨hb, rfl⟩
  · refine tracks_rotateRight h ?_
    rw [tracks_node] at hb ⊢
    rwa [maxHigh_setBlack, tracks_setBlack]

/-- The rotation below the parent, of the sibling of a right child. -/
theorem tracks_innerRight {oc : Color} {ol orr tmp : IntervalTree} {ox : IntervalNode}
    (h : (if ol.isRed then some (RbTree.node oc ol ox orr)
      else rotateLeft (.node .red ol ox orr.setBlack)) = some tmp)
    (hb : Tracks P (.node oc ol ox orr)) : Tracks P tmp ∧ maxHigh tmp = ox.maxHigh := by
  split at h
  · cases h
    exact ⟨hb, rfl⟩
  · refine tracks_rotateLeft h ?_
    rw [tracks_node] at hb ⊢
    rwa [maxHigh_setBlack, tracks_setBlack]

/-- A turn of the loop of an erasure keeps the values. -/
theorem tracks_eraseStep {node : IntervalTree} {parent : Frame IntervalNode}
    {r : IntervalTree × Bool} (h : eraseStep node parent = some r)
    (hb : Tracks P (parent.plug node)) : Tracks P r.1 ∧ maxHigh r.1 = parent.entry.maxHigh := by
  obtain ⟨side, c, x, s⟩ := parent
  obtain ⟨hnode, hf⟩ := (tracks_plug _ _).mp hb
  cases s with
  | nil => cases h
  | node oc ol ox orr =>
      unfold eraseStep at h
      dsimp only at h
      simp only [above_cons, above_nil, maxHigh_node] at hf
      split at h
      · cases h
        refine ⟨(tracks_plug _ _).mpr ⟨hnode, ?_⟩, by simp⟩
        simp only [above_cons, above_nil, maxHigh_node]
        exact hf
      · cases side with
        | left =>
            obtain ⟨tmp, htmp, h⟩ := Option.bind_eq_some_iff.mp h
            obtain ⟨hb', hmax⟩ := tracks_innerLeft htmp hf.2.1
            cases tmp with
            | nil => cases h
            | node tc tl tx tr =>
                obtain ⟨top, htop, h⟩ := Option.bind_eq_some_iff.mp h
                cases h
                refine tracks_rotateLeft htop ?_
                simp only [tracks_node, maxHigh_node, maxHigh_setBlack,
                  tracks_setBlack] at hb' hmax ⊢
                grind
        | right =>
            obtain ⟨tmp, htmp, h⟩ := Option.bind_eq_some_iff.mp h
            obtain ⟨hb', hmax⟩ := tracks_innerRight htmp hf.2.1
            cases tmp with
            | nil => cases h
            | node tc tl tx tr =>
                obtain ⟨top, htop, h⟩ := Option.bind_eq_some_iff.mp h
                cases h
                refine tracks_rotateRight htop ?_
                simp only [tracks_node, maxHigh_node, maxHigh_setBlack,
                  tracks_setBlack] at hb' hmax ⊢
                grind

/-- Rotating a red sibling over the parent keeps the values. -/
theorem tracks_rotateSibling {node : IntervalTree} {parent : Frame IntervalNode}
    {rest : List (Frame IntervalNode)} {ol orr : IntervalTree} {ox : IntervalNode}
    (hs : parent.sibling = .node .red ol ox orr) (hb : Tracks P (zip node (parent :: rest))) :
    Tracks P (zip node ((rotateSibling node parent ol ox orr).1 ::
      (rotateSibling node parent ol ox orr).2 :: rest)) := by
  obtain ⟨side, c, x, s⟩ := parent
  obtain rfl : s = _ := hs
  rw [tracks_zip] at hb ⊢
  cases side <;>
    simp only [rotateSibling, above_cons, tracks_node, maxHigh_node, high_recompute,
      maxHigh_recompute, high_setMaxHigh] at hb ⊢ <;>
    grind

/-- Rebalancing after an erasure keeps the values. -/
theorem tracks_eraseColor {node t : IntervalTree} {path : List (Frame IntervalNode)}
    (h : eraseColor node path = some t) (hb : Tracks P (zip node path)) : Tracks P t := by
  induction path generalizing node with
  | nil =>
      cases h
      simpa using hb
  | cons parent rest ih =>
      rw [eraseColor] at h
      split at h
      · cases h
        exact tracks_zip_of_eq hb (by simp) (by simp)
      · split at h
        · rename_i ol ox orr hs
          obtain ⟨r, hr, h⟩ := Option.bind_eq_some_iff.mp h
          have hb' := tracks_rotateSibling hs hb
          rw [zip_cons] at hb'
          have hstep : Tracks P (zip r.1 ((rotateSibling node parent ol ox orr).2 :: rest)) := by
            refine tracks_zip_of_eq hb' (fun h => (tracks_eraseStep hr h).1) ?_
            rw [(tracks_eraseStep hr ((tracks_zip _ _).mp hb').1).2, maxHigh_plug]
          split at h
          · cases h
            exact tracks_zip_of_eq hstep (by simp) (by simp)
          · cases h
            simpa using hstep
        · obtain ⟨r, hr, h⟩ := Option.bind_eq_some_iff.mp h
          rw [zip_cons] at hb
          have hstep : Tracks P (zip r.1 rest) := by
            refine tracks_zip_of_eq hb (fun h => (tracks_eraseStep hr h).1) ?_
            rw [(tracks_eraseStep hr ((tracks_zip _ _).mp hb).1).2, maxHigh_plug]
          split at h
          · exact ih h hstep
          · cases h
            simpa using hstep

/-- The end of an erasure keeps the values. -/
theorem tracks_unlink {color : Color} {child t : IntervalTree}
    {path : List (Frame IntervalNode)} (h : unlink color child path = some t)
    (hb : Tracks P (zip child path)) : Tracks P t := by
  unfold unlink at h
  split at h
  · exact tracks_eraseColor h hb
  · cases h
    exact hb

end Tracks

/-! ### The bounds in the operations -/

/-- A bounded subtree with a bound that is not larger takes the place of another one. -/
theorem bounded_zip_of_le {t t' : IntervalTree} {path : List (Frame IntervalNode)}
    (h : Bounded (zip t path)) (hb : Bounded t → Bounded t') (hle : maxHigh t' ≤ maxHigh t) :
    Bounded (zip t' path) := by
  obtain ⟨ht, hpath⟩ := (bounded_zip t path).mp h
  exact (bounded_zip t' path).mpr ⟨hb ht, hpath.mono hle⟩

/-- Rebalancing after an insertion keeps the bounds. -/
theorem bounded_insertColor {node t : IntervalTree} {path : List (Frame IntervalNode)}
    (h : insertColor node path = some t) (hb : Bounded (zip node path)) : Bounded t :=
  (tracks_false t).mp (tracks_insertColor h ((tracks_false _).mpr hb))

/-- The end of an erasure keeps the bounds. -/
theorem bounded_unlink {color : Color} {child t : IntervalTree}
    {path : List (Frame IntervalNode)} (h : unlink color child path = some t)
    (hb : Bounded (zip child path)) : Bounded t :=
  (tracks_false t).mp (tracks_unlink h ((tracks_false _).mpr hb))

/-- The climb of `update_maxhigh` keeps the bounds. -/
theorem under_climbMaxhigh {old m : Nat} {path : List (Frame IntervalNode)} (h : Under m path) :
    Under m (climbMaxhigh old m path) := by
  induction path generalizing m with
  | nil => trivial
  | cons f fs ih =>
      obtain ⟨hhigh, hm, hsib, hbounded, hfs⟩ := h
      have hle : max (high f.entry) (max m (maxHigh f.sibling)) ≤ f.entry.maxHigh := by omega
      rw [climbMaxhigh]
      split
      · simp only [under_cons, high_recompute, maxHigh_recompute]
        exact ⟨by omega, by omega, by omega, hbounded, hfs.mono hle⟩
      · simp only [under_cons, high_recompute, maxHigh_recompute]
        exact ⟨by omega, by omega, by omega, hbounded, ih (hfs.mono hle)⟩

/-- `update_maxhigh` keeps the bounds. -/
theorem bounded_updateMaxhigh {old : Nat} {t : IntervalTree} {path : List (Frame IntervalNode)}
    (h : Bounded (zip t path)) :
    Bounded (zip (updateMaxhigh old t path).1 (updateMaxhigh old t path).2) := by
  cases t with
  | nil => exact h
  | node c l x r =>
      rw [bounded_zip, bounded_node] at h
      obtain ⟨⟨hhigh, hl, hr, hbl, hbr⟩, hpath⟩ := h
      have hle : (recompute x (maxHigh l) (maxHigh r)).maxHigh ≤ x.maxHigh := by
        rw [maxHigh_recompute]
        omega
      rw [bounded_zip, updateMaxhigh]
      dsimp only
      refine ⟨?_, ?_⟩
      · simp only [bounded_node, high_recompute, maxHigh_recompute]
        exact ⟨by omega, by omega, by omega, hbl, hbr⟩
      rw [maxHigh_node]
      split
      · exact hpath.mono hle
      · exact under_climbMaxhigh (hpath.mono hle)

/-- The bound at the root of a tree grows with the one of its subtrees. -/
theorem maxHigh_zip_le {t t' : IntervalTree} (path : List (Frame IntervalNode))
    (h : maxHigh t' ≤ maxHigh t) : maxHigh (zip t' path) ≤ maxHigh (zip t path) := by
  induction path generalizing t t' with
  | nil => exact h
  | cons f fs ih => exact ih (by simp)

/-- The climb of `update_maxhigh` up to a frame `f` and beyond: what lies below `f` stays bounded,
and the nodes above `f` stay as they are unless the climb recomputes `f` and goes on there. -/
theorem climbMaxhigh_append (old : Nat) (t : IntervalTree) (fs : List (Frame IntervalNode))
    (f : Frame IntervalNode) (gs : List (Frame IntervalNode)) (hb : Bounded (zip t fs)) :
    ∃ fs' f' gs', climbMaxhigh old (maxHigh t) (fs ++ f :: gs) = fs' ++ f' :: gs' ∧
      fs'.length = fs.length ∧ Bounded (zip t fs') ∧ maxHigh (zip t fs') ≤ maxHigh (zip t fs) ∧
      f'.sibling = f.sibling ∧ high f'.entry = high f.entry ∧
      (gs' = gs ∨
        gs' = climbMaxhigh old (max (high f.entry) (max (maxHigh (zip t fs')) (maxHigh f.sibling)))
          gs) := by
  induction fs generalizing t with
  | nil =>
      rw [List.nil_append, climbMaxhigh]
      split
      · exact ⟨[], _, _, rfl, rfl, hb, Nat.le_refl _, rfl, rfl, .inl rfl⟩
      · exact ⟨[], _, _, rfl, rfl, hb, Nat.le_refl _, rfl, rfl, .inr rfl⟩
  | cons g fs ih =>
      obtain ⟨ht, hhigh, hm, hsib, hbounded, hfs⟩ := (bounded_zip _ _).mp hb
      set x := recompute g.entry (maxHigh t) (maxHigh g.sibling) with hx
      set g' : Frame IntervalNode := { g with entry := x } with hg'
      have hle : x.maxHigh ≤ g.entry.maxHigh := by
        rw [hx, maxHigh_recompute]
        omega
      have hplug : Bounded (g'.plug t) := by
        refine (bounded_plug _ _).mpr ⟨ht, ?_⟩
        simp only [under_cons, under_nil, hg', hx, high_recompute, maxHigh_recompute]
        exact ⟨by omega, by omega, by omega, hbounded, trivial⟩
      have hzip : Bounded (zip (g'.plug t) fs) := by
        rw [bounded_zip, maxHigh_plug]
        exact ⟨hplug, hfs.mono hle⟩
      have hroot : maxHigh (zip (g'.plug t) fs) ≤ maxHigh (zip (g.plug t) fs) :=
        maxHigh_zip_le fs (by rwa [maxHigh_plug, maxHigh_plug])
      rw [List.cons_append, climbMaxhigh]
      split
      · -- the climb ends below `f`
        exact ⟨g' :: fs, f, gs, rfl, rfl, hzip, hroot, rfl, rfl, .inl rfl⟩
      · obtain ⟨fs', f', gs', heq, hlen, hb', hle', hsib', hhigh', hgs⟩ := ih (g'.plug t) hzip
        rw [maxHigh_plug] at heq
        exact ⟨g' :: fs', f', gs', congrArg (g' :: ·) heq,
          by rw [List.length_cons, hlen, List.length_cons], hb', Nat.le_trans hle' hroot,
          hsib', hhigh', hgs⟩

/-- The bound at the root of a bounded tree is one for its subtrees. -/
theorem maxHigh_le_zip {t : IntervalTree} {path : List (Frame IntervalNode)}
    (h : Bounded (zip t path)) : maxHigh t ≤ maxHigh (zip t path) := by
  induction path generalizing t with
  | nil => exact Nat.le_refl _
  | cons f fs ih =>
      obtain ⟨-, -, hm, -⟩ := (bounded_zip _ _).mp h
      have hle := ih h
      rw [maxHigh_plug] at hle
      exact Nat.le_trans hm hle

/-- `update_maxhigh` from a node below a frame `f`. -/
theorem updateMaxhigh_append (old : Nat) (t : IntervalTree) (fs : List (Frame IntervalNode))
    (f : Frame IntervalNode) (gs : List (Frame IntervalNode)) (hb : Bounded (zip t fs)) :
    ∃ fs' f' gs', (updateMaxhigh old t (fs ++ f :: gs)).2 = fs' ++ f' :: gs' ∧
      fs'.length = fs.length ∧ Bounded (zip (updateMaxhigh old t (fs ++ f :: gs)).1 fs') ∧
      maxHigh (zip (updateMaxhigh old t (fs ++ f :: gs)).1 fs') ≤ maxHigh (zip t fs) ∧
      f'.sibling = f.sibling ∧ high f'.entry = high f.entry ∧
      (gs' = gs ∨
        gs' = climbMaxhigh old (max (high f.entry)
          (max (maxHigh (zip (updateMaxhigh old t (fs ++ f :: gs)).1 fs')) (maxHigh f.sibling)))
          gs) := by
  cases t with
  | nil => exact ⟨fs, f, gs, rfl, rfl, hb, Nat.le_refl _, rfl, rfl, .inl rfl⟩
  | node c l x r =>
      obtain ⟨⟨hhigh, hl, hr, hbl, hbr⟩, hpath⟩ := (bounded_zip _ _).mp hb
      set t' : IntervalTree := .node c l (recompute x (maxHigh l) (maxHigh r)) r with ht'
      have hle : maxHigh t' ≤ maxHigh (.node c l x r) := by
        rw [ht', maxHigh_node, maxHigh_recompute, maxHigh_node]
        omega
      have hb' : Bounded (zip t' fs) := by
        refine bounded_zip_of_le hb (fun _ => ?_) hle
        simp only [ht', bounded_node, high_recompute, maxHigh_recompute]
        exact ⟨by omega, by omega, by omega, hbl, hbr⟩
      have hroot := maxHigh_zip_le fs hle
      rw [updateMaxhigh]
      dsimp only
      rw [← ht']
      split
      · exact ⟨fs, f, gs, rfl, rfl, hb', hroot, rfl, rfl, .inl rfl⟩
      · obtain ⟨fs', f', gs', heq, hlen, hb'', hle', hrest⟩ :=
          climbMaxhigh_append old t' fs f gs hb'
        exact ⟨fs', f', gs', heq, hlen, hb'', Nat.le_trans hle' hroot, hrest⟩

/-- The leftmost node of a subtree has no left child, and it is in the same tree. -/
theorem leftmost_spec (c : Color) (l : IntervalTree) (x : IntervalNode) (r : IntervalTree)
    (path : List (Frame IntervalNode)) :
    (leftmost c l x r path).left = .nil ∧
    (leftmost c l x r path).tree = zip (.node c l x r) path := by
  induction l generalizing c x r path with
  | nil => exact ⟨rfl, rfl⟩
  | node c' l' x' r' ihl _ => exact ihl c' x' r' (⟨.left, c, x, r⟩ :: path)

/-- Erasing a node keeps the bounds. -/
theorem bounded_erase {p : Pos IntervalNode} {t : IntervalTree} (h : erase p = some t)
    (hb : Bounded p.tree) : Bounded t := by
  obtain ⟨color, l, x, r, path⟩ := p
  have hzip : Bounded (zip (.node color l x r) path) := hb
  cases l with
  | nil =>
      refine bounded_unlink h (bounded_updateMaxhigh (bounded_zip_of_le hzip ?_ ?_))
      · exact fun h => h.2.2.2.2
      · exact ((bounded_zip _ _).mp hzip).1.2.2.1
  | node lc ll lx lr =>
      cases r with
      | nil =>
          refine bounded_unlink h (bounded_updateMaxhigh (bounded_zip_of_le hzip ?_ ?_))
          · exact fun h => h.2.2.2.1
          · exact ((bounded_zip _ _).mp hzip).1.2.1
      | node rc rl rx rr =>
          obtain ⟨⟨hhigh, hl, hr, hbl, hbr⟩, hpath⟩ := (bounded_zip _ _).mp hzip
          rw [erase] at h
          dsimp only at h
          obtain ⟨hleft, htree⟩ := leftmost_spec rc rl rx rr []
          set succ := leftmost rc rl rx rr [] with hsucc
          rw [Pos.tree, Pos.subtree, hleft, zip_nil] at htree
          -- the successor and what is left of the right subtree stay below the bound of `x`
          have hright := hbr
          rw [← htree] at hright
          have hsub := ((bounded_zip _ _).mp hright).1
          have hbelow : Bounded (zip succ.right succ.path) :=
            bounded_zip_of_le hright (fun h => h.2.2.2.2) hsub.2.2.1
          have hrootle : maxHigh (zip succ.right succ.path) ≤ x.maxHigh := by
            have hle := maxHigh_zip_le (t := .node succ.color .nil succ.entry succ.right)
              succ.path hsub.2.2.1
            rw [htree] at hle
            exact Nat.le_trans hle hr
          have hsuccle : high succ.entry ≤ x.maxHigh := by
            have hle := maxHigh_le_zip hright
            rw [htree] at hle
            exact Nat.le_trans hsub.1 (Nat.le_trans hle hr)
          obtain ⟨fs, f, gs, hchild, hlen, hfs, hfsle, hsib, hfhigh, hgs⟩ :=
            updateMaxhigh_append succ.entry.maxHigh succ.right succ.path
              ⟨.right, color, succ.entry, .node lc ll lx lr⟩ path hbelow
          set child := updateMaxhigh succ.entry.maxHigh succ.right
            (succ.path ++ ⟨.right, color, succ.entry, .node lc ll lx lr⟩ :: path)
          rw [hchild, List.take_left' hlen, List.drop_left' hlen] at h
          dsimp only at h
          refine bounded_unlink h ?_
          rw [zip_append, bounded_zip]
          dsimp only at hsib hfhigh hgs
          -- the bound of the successor at its new place
          have hM : (recompute f.entry (maxHigh (.node lc ll lx lr))
                (maxHigh (zip child.1 fs))).maxHigh
              = max (high succ.entry)
                (max (maxHigh (zip child.1 fs)) (maxHigh (.node lc ll lx lr))) := by
            rw [maxHigh_recompute, hfhigh, Nat.max_comm (maxHigh (zip child.1 fs))]
          generalize hm : (recompute f.entry (maxHigh (.node lc ll lx lr))
            (maxHigh (zip child.1 fs))).maxHigh = m at hM
          have hmle : m ≤ x.maxHigh := by omega
          have hgs' : Under m gs := by
            rcases hgs with rfl | rfl
            · exact hpath.mono hmle
            · rw [← hM]
              exact under_climbMaxhigh (hpath.mono hmle)
          refine ⟨hfs, ?_⟩
          rw [under_cons]
          dsimp only
          rw [high_recompute, hm, hsib, hfhigh]
          refine ⟨by omega, by omega, by omega, hbl, ?_⟩
          split
          · exact hgs'
          · exact under_climbMaxhigh hgs'

/-! ### The order of the extents -/

theorem compare_eq_zero (e₁ e₂ : IntervalExtent) : e₁.compare e₂ = 0 ↔ e₁ = e₂ := by
  obtain ⟨s₁, f₁⟩ := e₁
  obtain ⟨s₂, f₂⟩ := e₂
  simp only [IntervalExtent.compare, IntervalExtent.mk.injEq]
  split_ifs <;> grind

theorem compare_neg_iff (e₁ e₂ : IntervalExtent) :
    e₁.compare e₂ < 0 ↔ e₁.start < e₂.start ∨ e₁.start = e₂.start ∧ e₁.end_ < e₂.end_ := by
  simp only [IntervalExtent.compare]
  split_ifs <;> omega

theorem compare_pos_iff (e₁ e₂ : IntervalExtent) : 0 < e₁.compare e₂ ↔ e₂.compare e₁ < 0 := by
  simp only [IntervalExtent.compare]
  split_ifs <;> omega

/-- The nodes of the tree in order, without `in_max_high`. -/
def keys (t : IntervalTree) : List (Nat × IntervalExtent) := t.toList.map IntervalNode.key

/-- Keys in the order of their extents, with no extent twice. -/
def Sorted (l : List (Nat × IntervalExtent)) : Prop :=
  l.Pairwise fun a b => a.2.compare b.2 < 0

/-- A red-black tree that is sorted by the extents, and whose bounds hold. -/
structure WF (t : IntervalTree) : Prop where
  redBlack : IsRedBlack (t.map IntervalNode.key)
  sorted : Sorted (keys t)
  bounded : Bounded t

theorem keys_eq (t : IntervalTree) : keys t = (t.map IntervalNode.key).toList := by
  rw [keys, RbTree.toList_map]

theorem wf_nil : WF (.nil : IntervalTree) :=
  ⟨isRedBlack_nil, List.Pairwise.nil, trivial⟩

/-- No key is there twice. -/
theorem Sorted.nodup {l : List (Nat × IntervalExtent)} (h : Sorted l) : l.Nodup := by
  refine List.Pairwise.imp ?_ h
  rintro a b hab rfl
  rw [(compare_eq_zero a.2 a.2).mpr rfl] at hab
  exact Int.lt_irrefl 0 hab

/-- A sorted list splits at every extent. -/
theorem Sorted.splits {l : List (Nat × IntervalExtent)} (h : Sorted l) (e : IntervalExtent) :
    Rbtree.Splits (fun k => e.compare k.2) l := by
  refine h.imp fun {a b} hab hle => ?_
  have hne : e.compare a.2 = 0 → e = a.2 := (compare_eq_zero e a.2).mp
  rcases Int.lt_or_eq_of_le hle with hlt | heq
  · rw [compare_neg_iff] at hab hlt ⊢
    omega
  · rw [hne heq]
    exact hab

/-- The walk of an insertion is the descent of the red-black tree that compares the extents. -/
theorem insertWalk_key (node : IntervalNode) (t : IntervalTree)
    (path : List (Frame IntervalNode)) (rc : Int) :
    (Rbtree.descend (fun k : Nat × IntervalExtent => node.extent.compare k.2)
        (t.map IntervalNode.key) (path.map (Frame.map IntervalNode.key)) rc).focus =
      (insertWalk node t path).1.map IntervalNode.key ∧
    (Rbtree.descend (fun k : Nat × IntervalExtent => node.extent.compare k.2)
        (t.map IntervalNode.key) (path.map (Frame.map IntervalNode.key)) rc).path =
      (insertWalk node t path).2.map (Frame.map IntervalNode.key) := by
  induction t generalizing path rc with
  | nil => exact ⟨rfl, rfl⟩
  | node c l x r ihl ihr =>
      rw [RbTree.map_node, Rbtree.descend, insertWalk]
      by_cases heq : x.extent = node.extent
      · have hzero : node.extent.compare x.key.2 = 0 := (compare_eq_zero _ _).mpr heq.symm
        simp [heq, hzero]
      · have hne : node.extent.compare x.key.2 ≠ 0 := by
          rw [Ne, compare_eq_zero]
          exact fun h => heq h.symm
        rw [if_neg heq]
        -- raising `in_max_high` does not change the key
        have hkey : (if x.maxHigh < high node then { x with maxHigh := high node } else x).key
            = x.key := by
          split <;> rfl
        have hextent : (if x.maxHigh < high node then { x with maxHigh := high node }
            else x).extent = x.key.2 := by
          split <;> rfl
        dsimp only
        rw [hextent]
        split
        · simpa [Frame.map, hkey] using ihl (⟨.left, c, if x.maxHigh < high node then
            { x with maxHigh := high node } else x, r⟩ :: path) (node.extent.compare x.key.2)
        · rw [if_pos (by omega)]
          simpa [Frame.map, hkey] using ihr (⟨.right, c, if x.maxHigh < high node then
            { x with maxHigh := high node } else x, l⟩ :: path) (node.extent.compare x.key.2)

/-- The walk of an insertion leaves a place where a node with the end of `node` may be hung. -/
theorem tracks_insertWalk {P : Prop} {node : IntervalNode} {t : IntervalTree}
    {path : List (Frame IntervalNode)} (ht : Tracks P t)
    (hpath : Above P (max (maxHigh t) (high node)) path) :
    Tracks P (insertWalk node t path).1 ∧
    Above P (max (maxHigh (insertWalk node t path).1) (high node)) (insertWalk node t path).2 := by
  induction t generalizing path with
  | nil => exact ⟨trivial, hpath⟩
  | node c l x r ihl ihr =>
      rw [insertWalk]
      split
      · exact ⟨ht, hpath⟩
      · obtain ⟨⟨hle, hge⟩, hl, hr⟩ := ht
        set y := if x.maxHigh < high node then { x with maxHigh := high node } else x with hy
        have hymax : y.maxHigh = max x.maxHigh (high node) := by
          rw [hy]
          split
          · show high node = max x.maxHigh (high node)
            omega
          · omega
        have hyhigh : high y = high x := by
          rw [hy]
          split <;> rfl
        dsimp only
        split
        · refine ihl hl ?_
          rw [above_cons]
          dsimp only
          rw [hymax, hyhigh]
          exact ⟨⟨by omega, fun hP => by have := hge hP; omega⟩, hr, hpath⟩
        · refine ihr hr ?_
          rw [above_cons]
          dsimp only
          rw [hymax, hyhigh]
          exact ⟨⟨by omega, fun hP => by have := hge hP; omega⟩, hl, hpath⟩

/-- The walk of an insertion in a bounded tree. -/
theorem bounded_insertWalk {node : IntervalNode} {t : IntervalTree} (ht : Bounded t) :
    Bounded (insertWalk node t []).1 ∧
    Under (max (maxHigh (insertWalk node t []).1) (high node)) (insertWalk node t []).2 := by
  obtain ⟨hfocus, hpath⟩ := @tracks_insertWalk False node t [] ((tracks_false t).mpr ht) trivial
  exact ⟨(tracks_false _).mp hfocus, (above_false _ _).mp hpath⟩

/-- **Insertion.** `interval_insert` succeeds. It finds the node with the same extent, and changes
no more than bounds, or it puts the node at its place. -/
theorem insert_spec {t : IntervalTree} {node : IntervalNode} (h : WF t)
    (hnode : node.maxHigh = high node) :
    (∃ x t', insert node t = some (some x, t') ∧ x.key ∈ keys t ∧ x.extent = node.extent ∧
      WF t' ∧ keys t' = keys t) ∨
    (∃ t' l m, insert node t = some (none, t') ∧ WF t' ∧ keys t = l ++ m ∧
      keys t' = l ++ node.key :: m) := by
  have hsplits := h.sorted.splits node.extent
  rw [keys_eq] at hsplits
  obtain ⟨hfocus, hpath⟩ := insertWalk_key node t [] 1
  rw [List.map_nil] at hfocus hpath
  have hzip := Rbtree.descend_zip_root (fun k : Nat × IntervalExtent => node.extent.compare k.2)
    (t.map IntervalNode.key) 1
  have hstop := Rbtree.descend_focus (fun k : Nat × IntervalExtent => node.extent.compare k.2)
    (t.map IntervalNode.key) [] 1 (by decide)
  have hsplit := Rbtree.descend_split (fun k : Nat × IntervalExtent => node.extent.compare k.2)
    (t.map IntervalNode.key) [] 1 hsplits (fun x hx => nomatch hx) (fun x hx => nomatch hx)
  obtain ⟨hbfocus, hbpath⟩ := @bounded_insertWalk node t h.bounded
  rw [hfocus, hpath, zip_map] at hzip
  rw [hfocus] at hstop
  rw [hpath] at hsplit
  unfold insert
  generalize insertWalk node t [] = w at *
  obtain ⟨focus, path⟩ := w
  dsimp only at *
  cases focus with
  | node c l x r =>
      -- the walk has stopped at a node with the same extent
      left
      have hkeys : (zip (.node c l x r) path).map IntervalNode.key = t.map IntervalNode.key := hzip
      have hx : x.extent = node.extent := by
        by_contra hne
        have hrc : (Rbtree.descend (fun k : Nat × IntervalExtent => node.extent.compare k.2)
            (t.map IntervalNode.key) [] 1).rc = 0 := by
          by_contra hrc
          cases hstop.2 hrc
        obtain ⟨c', l', y, r', hy, hcompare⟩ := hstop.1 hrc
        cases hy
        exact hne ((compare_eq_zero _ _).mp hcompare).symm
      have hkeys' : keys (zip (.node c l x r) path) = keys t := by
        rw [keys_eq, hkeys, ← keys_eq]
      refine ⟨x, zip (.node c l x r) path, rfl, ?_, hx, ⟨hkeys ▸ h.redBlack, hkeys' ▸ h.sorted,
        (bounded_zip _ _).mpr ⟨hbfocus, hbpath.mono (Nat.le_max_left _ _)⟩⟩, hkeys'⟩
      rw [← hkeys', keys, toList_zip]
      exact List.mem_map_of_mem (by simp)
  | nil =>
      right
      have hzip' : zip .nil (path.map (Frame.map IntervalNode.key)) = t.map IntervalNode.key :=
        (zip_map IntervalNode.key .nil path).trans hzip
      obtain ⟨u, hu, hrb, hlist⟩ := Rbtree.rbLink_spec node.key h.redBlack hzip'
      have hcolor := insertColor_key (.node .red .nil node .nil) path
      rw [RbTree.map_node, RbTree.map_nil, show Rbtree.rbInsertColor _ _ = _ from hu] at hcolor
      obtain ⟨t', ht', hmap⟩ := Option.map_eq_some_iff.mp hcolor.symm
      have hkeys : keys t = before (path.map (Frame.map IntervalNode.key)) ++
          after (path.map (Frame.map IntervalNode.key)) := by
        rw [keys_eq, ← hzip', toList_zip]
        simp
      have hkeys' : keys t' = before (path.map (Frame.map IntervalNode.key)) ++
          node.key :: after (path.map (Frame.map IntervalNode.key)) := by
        rw [keys_eq, hmap, hlist]
      refine ⟨t', _, _, by simp [ht'], ⟨hmap ▸ hrb, ?_, ?_⟩, hkeys, hkeys'⟩
      · have hsorted := h.sorted
        rw [hkeys, Sorted, List.pairwise_append] at hsorted
        rw [hkeys', Sorted, List.pairwise_append, List.pairwise_cons]
        refine ⟨hsorted.1, ⟨fun b hb => hsplit.2 b hb, hsorted.2.1⟩, fun a ha b hb => ?_⟩
        rcases List.mem_cons.mp hb with rfl | hb
        · exact (compare_pos_iff _ _).mp (hsplit.1 a ha)
        · exact hsorted.2.2 a ha b hb
      · refine bounded_insertColor ht' ((bounded_zip _ _).mpr ⟨?_, ?_⟩)
        · simp [hnode]
        · rw [maxHigh_node, hnode]
          exact hbpath.mono (Nat.le_max_right _ _)

/-- **Erasure.** `interval_erase` succeeds and takes the node away. -/
theorem erase_spec {p : Pos IntervalNode} (h : WF p.tree) :
    ∃ t l m, erase p = some t ∧ WF t ∧ keys p.tree = l ++ p.entry.key :: m ∧ keys t = l ++ m := by
  have hrb := h.redBlack
  rw [← Pos.tree_map] at hrb
  obtain ⟨u, hu, hurb, hlist⟩ := Rbtree.rbErase_spec _ hrb
  have hkey := erase_key p
  rw [hu] at hkey
  obtain ⟨t, ht, hmap⟩ := Option.map_eq_some_iff.mp hkey.symm
  have hkeys : keys p.tree = (p.map IntervalNode.key).prefixList ++
      p.entry.key :: (p.map IntervalNode.key).suffixList := by
    rw [keys_eq, ← Pos.tree_map, Pos.toList_tree]
    rfl
  have hkeys' : keys t = (p.map IntervalNode.key).prefixList ++
      (p.map IntervalNode.key).suffixList := by
    rw [keys_eq, hmap, hlist]
  refine ⟨t, _, _, ht, ⟨hmap ▸ hurb, ?_, bounded_erase ht h.bounded⟩, hkeys, hkeys'⟩
  have hsorted := h.sorted
  rw [hkeys] at hsorted
  rw [hkeys']
  exact hsorted.sublist (List.Sublist.append_left (List.sublist_cons_self _ _) _)

/-! ### Queries -/

/-- The nodes of the tree, each before the ones below it. -/
def preorder : IntervalTree → List IntervalNode
  | .nil => []
  | .node _ l x r => x :: (preorder l ++ preorder r)

/-- The nodes that overlap an extent, in the order in which `interval_search` finds them. -/
def overlapping (ext : IntervalExtent) (t : IntervalTree) : List IntervalNode :=
  (preorder t).filter fun x => ext.overlapped x.extent

theorem mem_preorder {t : IntervalTree} {x : IntervalNode} : x ∈ preorder t ↔ x ∈ t.toList := by
  induction t with
  | nil => rfl
  | node c l y r ihl ihr => simp [preorder, ihl, ihr, or_left_comm]

theorem mem_overlapping {t : IntervalTree} {x : IntervalNode} {ext : IntervalExtent} :
    x ∈ overlapping ext t ↔ x ∈ t.toList ∧ ext.overlapped x.extent = true := by
  rw [overlapping, List.mem_filter, mem_preorder]

/-- No extent of a bounded tree ends above the bound at the root. -/
theorem high_le_maxHigh {t : IntervalTree} (h : Bounded t) :
    ∀ x ∈ t.toList, high x ≤ maxHigh t := by
  induction t with
  | nil => exact fun x hx => nomatch hx
  | node c l y r ihl ihr =>
      obtain ⟨hhigh, hl, hr, hbl, hbr⟩ := h
      intro x hx
      rw [RbTree.toList_node, List.mem_append, List.mem_cons] at hx
      rcases hx with hx | rfl | hx
      · exact Nat.le_trans (ihl hbl x hx) hl
      · exact hhigh
      · exact Nat.le_trans (ihr hbr x hx) hr

section Search

variable {σ ε : Type*} {func : IntervalNode → σ → Except ε (σ × Bool)} {ext : IntervalExtent}

/-- A walk over two lists goes on to the second one unless it has been stopped. -/
theorem walk_append (xs ys : List IntervalNode) (s : σ) :
    walk func (xs ++ ys) s =
      (walk func xs s).bind fun v => if v.2 then .ok v else walk func ys v.1 := by
  induction xs generalizing s with
  | nil => rfl
  | cons x xs ih =>
      rw [List.cons_append, walk, walk]
      cases func x s with
      | error e => rfl
      | ok v =>
          simp only [ok_bind]
          split
          · rename_i h
            simp [h]
          · exact ih v.1

/-- A walk over one node. -/
theorem walk_singleton (x : IntervalNode) (s : σ) : walk func [x] s = func x s := by
  rw [walk]
  cases func x s with
  | error e => rfl
  | ok v =>
      obtain ⟨s', stop⟩ := v
      cases stop <;> rfl

/-- No node overlaps an extent that ends before every node starts. -/
theorem overlapping_eq_nil_of_low {t : IntervalTree} (h : ∀ x ∈ t.toList, ext.end_ < low x) :
    overlapping ext t = [] := by
  refine List.filter_eq_nil_iff.mpr fun x hx hover => ?_
  have hlt := h x (mem_preorder.mp hx)
  simp only [IntervalExtent.overlapped, Bool.and_eq_true, decide_eq_true_eq] at hover
  have : low x = x.extent.start := rfl
  omega

/-- No node overlaps an extent that starts after every node ends. -/
theorem overlapping_eq_nil_of_high {t : IntervalTree}
    (h : ∀ x ∈ t.toList, high x < ext.start) : overlapping ext t = [] := by
  refine List.filter_eq_nil_iff.mpr fun x hx hover => ?_
  have hlt := h x (mem_preorder.mp hx)
  simp only [IntervalExtent.overlapped, Bool.and_eq_true, decide_eq_true_eq] at hover
  have : high x = x.extent.end_ := rfl
  omega

/-- The starts follow the order of the keys. -/
theorem low_le_of_compare {x y : IntervalNode} (h : x.key.2.compare y.key.2 < 0) :
    low x ≤ low y := by
  rw [compare_neg_iff] at h
  have hx : low x = x.key.2.start := rfl
  have hy : low y = y.key.2.start := rfl
  omega

/-- The nodes that overlap, below a node. -/
theorem overlapping_node {c : Color} {l r : IntervalTree} {x : IntervalNode} :
    overlapping ext (.node c l x r) =
      (if ext.overlapped x.extent then [x] else []) ++
        (overlapping ext l ++ overlapping ext r) := by
  rw [overlapping, preorder, List.filter_cons, List.filter_append]
  split <;> rfl

/-- Below a node the search calls its function on the nodes that overlap the extent. It ends the
loop there when it has been stopped, or when it has seen that no later node overlaps. -/
theorem visit_eq {t : IntervalTree} (hsorted : Sorted (keys t)) (hb : Bounded t) (s : σ) :
    ∃ b, visit ext func t s =
        (walk func (overlapping ext t) s).map (fun v => (v.1, v.2 || b)) ∧
      (b = true → ∃ x ∈ t.toList, ext.end_ < low x) := by
  induction t generalizing s with
  | nil => exact ⟨false, rfl, fun h => nomatch h⟩
  | node c l x r ihl ihr =>
      have hhigh := high_le_maxHigh hb
      obtain ⟨-, -, -, hbl, hbr⟩ := hb
      rw [keys, RbTree.toList_node, List.map_append, List.map_cons, Sorted, List.pairwise_append,
        List.pairwise_cons] at hsorted
      obtain ⟨hsl, ⟨hxr, hsr⟩, hlx⟩ := hsorted
      have hover := @overlapping_node ext c l r x
      rw [visit]
      split
      · -- the extent ends before `x`, and so before everything right of `x`
        rename_i hlow
        have hr : overlapping ext r = [] := by
          refine overlapping_eq_nil_of_low fun y hy => Nat.lt_of_lt_of_le hlow ?_
          exact low_le_of_compare (hxr _ (List.mem_map_of_mem hy))
        have hx : ¬ ext.overlapped x.extent = true := by
          simp only [IntervalExtent.overlapped, Bool.and_eq_true, decide_eq_true_eq]
          have : low x = x.extent.start := rfl
          omega
        rw [hover, if_neg hx, hr, List.nil_append, List.append_nil]
        split
        · rename_i hnil
          rw [hnil]
          exact ⟨false, rfl, fun h => nomatch h⟩
        · obtain ⟨b, hvisit, -⟩ := ihl hsl hbl s
          refine ⟨b || decide (r ≠ .nil), ?_, fun _ => ⟨x, by simp, hlow⟩⟩
          rw [hvisit]
          cases walk func (overlapping ext l) s with
          | error e => rfl
          | ok v => simp [Except.map, Bool.or_assoc]
      · rename_i hlow
        split
        · have hx : (if ext.overlapped x.extent then func x s else .ok (s, false)) =
              walk func (if ext.overlapped x.extent then [x] else []) s := by
            split
            · exact (walk_singleton x s).symm
            · rfl
          rw [hover, walk_append, hx]
          cases walk func (if ext.overlapped x.extent then [x] else []) s with
          | error e => exact ⟨false, rfl, fun h => nomatch h⟩
          | ok v =>
              obtain ⟨s₁, stop⟩ := v
              cases stop with
              | true => exact ⟨false, rfl, fun h => nomatch h⟩
              | false =>
                  obtain ⟨b, hvisit, hb⟩ := ihl hsl hbl s₁
                  have hfalse : b = false := by
                    -- a node left of `x` does not start after the extent, as `x` does not
                    cases b with
                    | false => rfl
                    | true =>
                        obtain ⟨y, hy, hlt⟩ := hb rfl
                        have hle := low_le_of_compare (hlx _ (List.mem_map_of_mem hy) _
                          List.mem_cons_self)
                        omega
                  simp only [ok_bind, Bool.false_eq_true, if_false, hvisit, hfalse,
                    walk_append, Bool.or_false]
                  cases walk func (overlapping ext l) s₁ with
                  | error e => exact ⟨false, rfl, fun h => nomatch h⟩
                  | ok w =>
                      obtain ⟨s₂, stop⟩ := w
                      cases stop with
                      | true => exact ⟨false, rfl, fun h => nomatch h⟩
                      | false =>
                          obtain ⟨b', hvisit', hb'⟩ := ihr hsr hbr s₂
                          refine ⟨b', by simpa [Except.map] using hvisit', fun h => ?_⟩
                          obtain ⟨y, hy, hlt⟩ := hb' h
                          exact ⟨y, by simp [hy], hlt⟩
        · -- the extent starts after everything below `x`
          rename_i hmay
          have hnil : overlapping ext (.node c l x r) = [] := by
            refine overlapping_eq_nil_of_high fun y hy => ?_
            have hle := hhigh y hy
            simp only [mayOverlap, Bool.and_eq_true, decide_eq_true_eq, not_and_or] at hmay
            rw [maxHigh_node] at hle
            omega
          rw [hnil]
          exact ⟨false, rfl, fun h => nomatch h⟩

/-- **Search.** On a well-formed tree `interval_search` calls its function on the nodes that
overlap the extent, one after the other until it is stopped, and on no other node. -/
theorem search_eq {t : IntervalTree} (h : WF t) (s : σ) :
    search t ext func s = (walk func (overlapping ext t) s).map Prod.fst := by
  obtain ⟨b, hvisit, -⟩ := visit_eq h.sorted h.bounded s
  rw [search, hvisit]
  cases walk func (overlapping ext t) s <;> rfl

/-- `interval_is_overlapped` tells whether a node overlaps the extent. -/
theorem isOverlapped_iff {t : IntervalTree} (h : WF t) :
    isOverlapped t ext = true ↔ ∃ x ∈ t.toList, ext.overlapped x.extent = true := by
  rw [isOverlapped, search_eq h]
  cases hlist : overlapping ext t with
  | nil =>
      refine ⟨(fun h => nomatch h), ?_⟩
      rintro ⟨x, hx, hover⟩
      have hmem := mem_overlapping.mpr ⟨hx, hover⟩
      rw [hlist] at hmem
      cases hmem
  | cons x xs =>
      have hmem : x ∈ overlapping ext t := by
        rw [hlist]
        exact List.mem_cons_self
      exact ⟨fun _ => ⟨x, mem_overlapping.mp hmem⟩, fun _ => rfl⟩

/-- An extent that `interval_expand` returns has passed its assertion, and it starts where the
extent starts or before it. -/
theorem expand_ok {t : IntervalTree} {lassert : ε} {e limiter : IntervalExtent} (h : WF t)
    (hok : expand lassert t ext limiter = .ok e) :
    e.start ≤ ext.start ∧ ∀ x ∈ t.toList, e.overlapped x.extent = false := by
  rw [expand] at hok
  obtain ⟨_, -, hok⟩ := bind_eq_ok.mp hok
  obtain ⟨_, hcheck, hok⟩ := bind_eq_ok.mp hok
  cases hok
  rw [check_eq_ok] at hcheck
  refine ⟨?_, fun x hx => ?_⟩
  · dsimp only [expandLow]
    split_ifs <;> omega
  · by_contra hover
    rw [Bool.not_eq_false] at hover
    rw [(isOverlapped_iff h).mpr ⟨x, hx, hover⟩] at hcheck
    cases hcheck

end Search

end IntervalTree

end LustreSimulator
