import Mathlib.Tactic.Common
import Mathlib.Data.List.Basic

/-!
# `LustreSimulator.Lib.RedBlack`: coloured trees, paths and positions

A red-black tree with parent links is read here as a zipper. A `Frame` is one step from a
node up to its parent, a path is the list of frames up to the root, innermost first, and
`zip t path` puts the tree `t` back under its ancestors. A `Pos` is a node together with its
path: what a pointer to a node of an intrusive tree gives access to.

Two views of a tree are used by the proofs:

* the in-order list `RbTree.toList`. `toList_zip` splits it at a path into what lies before
  the hole, the hole and what lies after it, so a local change of the tree is a local change
  of the list;
* the red-black conditions. `Balanced t c n` is a tree of colour `c` and black height `n`,
  and `Fits path c n` is a path whose hole takes such a tree. `Balanced.zip` plugs one into
  the other and `Balanced.unzip` takes the tree apart again.
-/

set_option autoImplicit false

namespace LustreSimulator.Lib

/-- The colour of a node. -/
inductive Color where
  | red
  | black
  deriving DecidableEq, Repr

/-- A binary tree with coloured nodes. -/
inductive RbTree (α : Type*) where
  | nil
  | node (color : Color) (left : RbTree α) (entry : α) (right : RbTree α)
  deriving DecidableEq, Repr

/-- Which child of its parent a node is. -/
inductive Side where
  | left
  | right
  deriving DecidableEq, Repr

/-- One step up: the parent of a hole, without the subtree that fills the hole. -/
structure Frame (α : Type*) where
  side : Side
  color : Color
  entry : α
  sibling : RbTree α
  deriving Repr

/-- A node and the way from it to the root. -/
structure Pos (α : Type*) where
  color : Color
  left : RbTree α
  entry : α
  right : RbTree α
  path : List (Frame α)
  deriving Repr

variable {α : Type*}

namespace RbTree

/-- The entries in order. -/
def toList : RbTree α → List α
  | nil => []
  | node _ l x r => l.toList ++ x :: r.toList

/-- Whether the tree has a red root. The empty tree counts as black. -/
def isRed : RbTree α → Bool
  | node .red _ _ _ => true
  | _ => false

/-- The tree with a black root. -/
def setBlack : RbTree α → RbTree α
  | nil => nil
  | node _ l x r => node .black l x r

@[simp]
theorem toList_nil : (nil : RbTree α).toList = [] := rfl

@[simp]
theorem toList_node (c : Color) (l : RbTree α) (x : α) (r : RbTree α) :
    (node c l x r).toList = l.toList ++ x :: r.toList := rfl

@[simp]
theorem toList_setBlack (t : RbTree α) : t.setBlack.toList = t.toList := by
  cases t <;> rfl

@[simp]
theorem setBlack_nil : (nil : RbTree α).setBlack = nil := rfl

@[simp]
theorem setBlack_node (c : Color) (l : RbTree α) (x : α) (r : RbTree α) :
    (node c l x r).setBlack = node .black l x r := rfl

@[simp]
theorem isRed_nil : (nil : RbTree α).isRed = false := rfl

@[simp]
theorem isRed_red (l : RbTree α) (x : α) (r : RbTree α) : (node .red l x r).isRed = true := rfl

@[simp]
theorem isRed_black (l : RbTree α) (x : α) (r : RbTree α) :
    (node .black l x r).isRed = false := rfl

end RbTree

/-- Fill the hole of one frame. -/
def Frame.plug (f : Frame α) (t : RbTree α) : RbTree α :=
  match f.side with
  | .left => .node f.color t f.entry f.sibling
  | .right => .node f.color f.sibling f.entry t

/-- Put a subtree back under its ancestors. -/
def zip (t : RbTree α) : List (Frame α) → RbTree α
  | [] => t
  | f :: fs => zip (f.plug t) fs

@[simp]
theorem zip_nil (t : RbTree α) : zip t [] = t := rfl

@[simp]
theorem zip_cons (t : RbTree α) (f : Frame α) (fs : List (Frame α)) :
    zip t (f :: fs) = zip (f.plug t) fs := rfl

/-- A path made of two parts is zipped up part by part. -/
theorem zip_append (t : RbTree α) (fs gs : List (Frame α)) :
    zip t (fs ++ gs) = zip (zip t fs) gs := by
  induction fs generalizing t with
  | nil => rfl
  | cons f fs ih => exact ih (f.plug t)

/-! ### The in-order list around a hole -/

/-- The entries of the tree that lie before the hole of a path. -/
def before : List (Frame α) → List α
  | [] => []
  | f :: fs =>
      match f.side with
      | .left => before fs
      | .right => before fs ++ (f.sibling.toList ++ [f.entry])

/-- The entries of the tree that lie after the hole of a path. -/
def after : List (Frame α) → List α
  | [] => []
  | f :: fs =>
      match f.side with
      | .left => f.entry :: f.sibling.toList ++ after fs
      | .right => after fs

@[simp]
theorem before_nil : before ([] : List (Frame α)) = [] := rfl

@[simp]
theorem after_nil : after ([] : List (Frame α)) = [] := rfl

@[simp]
theorem before_left (c : Color) (x : α) (t : RbTree α) (fs : List (Frame α)) :
    before (⟨.left, c, x, t⟩ :: fs) = before fs := rfl

@[simp]
theorem before_right (c : Color) (x : α) (t : RbTree α) (fs : List (Frame α)) :
    before (⟨.right, c, x, t⟩ :: fs) = before fs ++ (t.toList ++ [x]) := rfl

@[simp]
theorem after_left (c : Color) (x : α) (t : RbTree α) (fs : List (Frame α)) :
    after (⟨.left, c, x, t⟩ :: fs) = x :: t.toList ++ after fs := rfl

@[simp]
theorem after_right (c : Color) (x : α) (t : RbTree α) (fs : List (Frame α)) :
    after (⟨.right, c, x, t⟩ :: fs) = after fs := rfl

/-- The first entry after the hole is an entry of the path. -/
theorem after_head_mem (fs : List (Frame α)) : ∀ x ∈ (after fs).head?, x ∈ fs.map Frame.entry := by
  induction fs with
  | nil => exact fun x hx => nomatch hx
  | cons f fs ih =>
      obtain ⟨side, c, y, s⟩ := f
      intro x hx
      cases side with
      | left =>
          obtain rfl : y = x := Option.some.inj hx
          exact List.mem_cons_self
      | right => exact List.mem_cons_of_mem _ (ih x hx)

/-- The entries of the path are around the hole. -/
theorem path_mem (fs : List (Frame α)) :
    ∀ x ∈ fs.map Frame.entry, x ∈ before fs ∨ x ∈ after fs := by
  induction fs with
  | nil => exact fun x hx => nomatch hx
  | cons f fs ih =>
      obtain ⟨side, c, y, s⟩ := f
      intro x hx
      cases side with
      | left =>
          rw [before_left, after_left]
          rcases List.mem_cons.mp hx with rfl | hx
          · exact .inr List.mem_cons_self
          · exact (ih x hx).imp_right fun h => List.mem_append_right _ h
      | right =>
          rw [before_right, after_right]
          rcases List.mem_cons.mp hx with rfl | hx
          · exact .inl (List.mem_append_right _ (List.mem_append_right _ List.mem_cons_self))
          · exact (ih x hx).imp_left fun h => List.mem_append_left _ h

/-- The hole splits the in-order list in three. -/
theorem toList_zip (t : RbTree α) (fs : List (Frame α)) :
    (zip t fs).toList = before fs ++ t.toList ++ after fs := by
  induction fs generalizing t with
  | nil => simp
  | cons f fs ih =>
      obtain ⟨side, c, x, s⟩ := f
      rw [zip_cons, ih]
      cases side with
      | left => simp [Frame.plug]
      | right => simp [Frame.plug]

/-- What lies before the hole of a path made of two parts. -/
theorem before_append (fs gs : List (Frame α)) :
    before (fs ++ gs) = before gs ++ before fs := by
  induction fs with
  | nil => simp
  | cons f fs ih =>
      obtain ⟨side, c, x, s⟩ := f
      cases side with
      | left => simpa using ih
      | right => simp [ih]

/-- What lies after the hole of a path made of two parts. -/
theorem after_append (fs gs : List (Frame α)) :
    after (fs ++ gs) = after fs ++ after gs := by
  induction fs with
  | nil => simp
  | cons f fs ih =>
      obtain ⟨side, c, x, s⟩ := f
      cases side with
      | left => simp [ih]
      | right => simpa using ih

/-! ### Positions -/

namespace Pos

/-- The subtree a position points to. -/
def subtree (p : Pos α) : RbTree α := .node p.color p.left p.entry p.right

/-- The whole tree around a position. -/
def tree (p : Pos α) : RbTree α := zip p.subtree p.path

/-- The entries before the position, in order. -/
def prefixList (p : Pos α) : List α := before p.path ++ p.left.toList

/-- The entries after the position, in order. -/
def suffixList (p : Pos α) : List α := p.right.toList ++ after p.path

/-- A position splits the in-order list at its entry. -/
theorem toList_tree (p : Pos α) : p.tree.toList = p.prefixList ++ p.entry :: p.suffixList := by
  simp [tree, subtree, prefixList, suffixList, toList_zip]

/-- The entry of a position is an entry of its tree. -/
theorem entry_mem (p : Pos α) : p.entry ∈ p.tree.toList := by
  rw [toList_tree]
  simp

end Pos

/-- The position of the first node in order whose entry satisfies `p`, below the path
`path`. -/
def findPos (p : α → Bool) : RbTree α → List (Frame α) → Option (Pos α)
  | .nil, _ => none
  | .node c l x r, path =>
      (findPos p l (⟨.left, c, x, r⟩ :: path)).or <|
        if p x then some ⟨c, l, x, r, path⟩
        else findPos p r (⟨.right, c, x, l⟩ :: path)

/-- `findPos` returns a position of the tree it searches, and its entry satisfies `p`. -/
theorem findPos_some {p : α → Bool} {t : RbTree α} {path : List (Frame α)} {q : Pos α}
    (h : findPos p t path = some q) : q.tree = zip t path ∧ p q.entry = true := by
  induction t generalizing path with
  | nil => cases h
  | node c l x r ihl ihr =>
      rw [findPos, Option.or_eq_some_iff] at h
      rcases h with h | ⟨-, h⟩
      · exact ihl h
      · split at h
        · rename_i hx
          cases h
          exact ⟨rfl, hx⟩
        · exact ihr h

/-- `findPos` fails only when no entry satisfies `p`. -/
theorem findPos_none {p : α → Bool} {t : RbTree α} {path : List (Frame α)}
    (h : findPos p t path = none) : ∀ x ∈ t.toList, p x = false := by
  induction t generalizing path with
  | nil => intro x hx; cases hx
  | node c l x r ihl ihr =>
      rw [findPos, Option.or_eq_none_iff] at h
      obtain ⟨hl, hr⟩ := h
      split at hr
      · cases hr
      · rename_i hx
        intro y hy
        simp only [RbTree.toList_node, List.mem_append, List.mem_cons] at hy
        rcases hy with hy | rfl | hy
        · exact ihl hl y hy
        · simpa using hx
        · exact ihr hr y hy

/-- An entry that satisfies `p` is found. -/
theorem exists_findPos {p : α → Bool} {t : RbTree α} {x : α} (hx : x ∈ t.toList)
    (hp : p x = true) : ∃ q, findPos p t [] = some q := by
  cases h : findPos p t [] with
  | some q => exact ⟨q, rfl⟩
  | none => simp [findPos_none h x hx] at hp

/-! ### Maps of the entries -/

section Map

variable {β : Type*} (g : α → β)

/-- The tree with other entries. -/
def RbTree.map : RbTree α → RbTree β
  | .nil => .nil
  | .node c l x r => .node c (RbTree.map l) (g x) (RbTree.map r)

/-- The frame with other entries. -/
def Frame.map (f : Frame α) : Frame β := ⟨f.side, f.color, g f.entry, f.sibling.map g⟩

/-- The position with other entries. -/
def Pos.map (p : Pos α) : Pos β :=
  ⟨p.color, p.left.map g, g p.entry, p.right.map g, p.path.map (Frame.map g)⟩

@[simp]
theorem RbTree.map_nil : (.nil : RbTree α).map g = .nil := rfl

@[simp]
theorem RbTree.map_node (c : Color) (l : RbTree α) (x : α) (r : RbTree α) :
    (RbTree.node c l x r).map g = .node c (l.map g) (g x) (r.map g) := rfl

@[simp]
theorem RbTree.isRed_map (t : RbTree α) : (t.map g).isRed = t.isRed := by
  cases t with
  | nil => rfl
  | node c l x r => cases c <;> rfl

@[simp]
theorem RbTree.setBlack_map (t : RbTree α) : (t.map g).setBlack = t.setBlack.map g := by
  cases t <;> rfl

@[simp]
theorem RbTree.toList_map (t : RbTree α) : (t.map g).toList = t.toList.map g := by
  induction t with
  | nil => rfl
  | node c l x r ihl ihr => simp [ihl, ihr]

@[simp]
theorem Frame.side_map (f : Frame α) : (f.map g).side = f.side := rfl

@[simp]
theorem Frame.color_map (f : Frame α) : (f.map g).color = f.color := rfl

@[simp]
theorem Frame.entry_map (f : Frame α) : (f.map g).entry = g f.entry := rfl

@[simp]
theorem Frame.sibling_map (f : Frame α) : (f.map g).sibling = f.sibling.map g := rfl

@[simp]
theorem Frame.plug_map (f : Frame α) (t : RbTree α) :
    (f.map g).plug (t.map g) = (f.plug t).map g := by
  obtain ⟨side, c, x, s⟩ := f
  cases side <;> rfl

/-- Filling a hole does not look at the entries. -/
@[simp]
theorem zip_map (t : RbTree α) (fs : List (Frame α)) :
    zip (t.map g) (fs.map (Frame.map g)) = (zip t fs).map g := by
  induction fs generalizing t with
  | nil => rfl
  | cons f fs ih => simp [ih]

/-- The tree of a position with other entries. -/
@[simp]
theorem Pos.tree_map (p : Pos α) : (p.map g).tree = p.tree.map g := by
  rw [Pos.tree, Pos.tree, ← zip_map]
  rfl

end Map

/-! ### The red-black conditions -/

/-- `Balanced t c n`: the tree `t` has colour `c`, every path down has `n` black nodes, and no
red node has a red child. -/
inductive Balanced : RbTree α → Color → Nat → Prop where
  | nil : Balanced .nil .black 0
  | red {l r : RbTree α} {x : α} {n : Nat} :
      Balanced l .black n → Balanced r .black n → Balanced (.node .red l x r) .red n
  | black {l r : RbTree α} {x : α} {cl cr : Color} {n : Nat} :
      Balanced l cl n → Balanced r cr n → Balanced (.node .black l x r) .black (n + 1)

/-- `Fits path c n`: filling the hole of `path` with a tree of colour `c` and black height `n`
gives a red-black tree. The root is black, so the empty path takes only black trees. -/
inductive Fits : List (Frame α) → Color → Nat → Prop where
  | nil (n : Nat) : Fits [] .black n
  | red {side : Side} {x : α} {s : RbTree α} {fs : List (Frame α)} {n : Nat} :
      Balanced s .black n → Fits fs .red n → Fits (⟨side, .red, x, s⟩ :: fs) .black n
  | black {side : Side} {x : α} {s : RbTree α} {fs : List (Frame α)} {c cs : Color} {n : Nat} :
      Balanced s cs n → Fits fs .black (n + 1) → Fits (⟨side, .black, x, s⟩ :: fs) c n

/-- A red-black tree: balanced, with a black root. -/
def IsRedBlack (t : RbTree α) : Prop := ∃ n, Balanced t .black n

/-- The empty tree is a red-black tree. -/
theorem isRedBlack_nil : IsRedBlack (.nil : RbTree α) := ⟨0, .nil⟩

/-- Blackening the root of a balanced tree gives a red-black tree. -/
theorem Balanced.isRedBlack_setBlack {t : RbTree α} {c : Color} {n : Nat}
    (h : Balanced t c n) : IsRedBlack t.setBlack := by
  cases h with
  | nil => exact ⟨0, .nil⟩
  | red hl hr => exact ⟨_, .black hl hr⟩
  | black hl hr => exact ⟨_, .black hl hr⟩

/-- A balanced tree is red exactly when its colour is. -/
theorem Balanced.isRed_iff {t : RbTree α} {c : Color} {n : Nat} (h : Balanced t c n) :
    t.isRed = true ↔ c = .red := by
  cases h <;> simp

/-- The colour of a balanced tree that is not red. -/
theorem Balanced.black_of_isRed {t : RbTree α} {c : Color} {n : Nat} (h : Balanced t c n)
    (hc : t.isRed = false) : Balanced t .black n := by
  cases h with
  | nil => exact .nil
  | red => cases hc
  | black hl hr => exact .black hl hr

/-- A balanced tree with a black node on every path is not empty. -/
theorem Balanced.exists_node {t : RbTree α} {n : Nat} (h : Balanced t .black (n + 1)) :
    ∃ l x r cl cr, t = .node .black l x r ∧ Balanced l cl n ∧ Balanced r cr n := by
  cases h with
  | black hl hr => exact ⟨_, _, _, _, _, rfl, hl, hr⟩

/-- A path whose hole takes a red tree also takes a black one. -/
theorem Fits.toBlack {fs : List (Frame α)} {c : Color} {n : Nat} (h : Fits fs c n) :
    Fits fs .black n := by
  cases h with
  | nil => exact .nil _
  | red hs hf => exact .red hs hf
  | black hs hf => exact .black hs hf

/-- Filling one frame. -/
theorem Balanced.plug {t : RbTree α} {c : Color} {n : Nat} {f : Frame α} {fs : List (Frame α)}
    (ht : Balanced t c n) (hf : Fits (f :: fs) c n) :
    ∃ c' n', Balanced (f.plug t) c' n' ∧ Fits fs c' n' := by
  cases hf with
  | @red side _ _ _ _ hs hfs =>
      refine ⟨.red, n, ?_, hfs⟩
      cases side with
      | left => exact .red ht hs
      | right => exact .red hs ht
  | @black side _ _ _ _ _ _ hs hfs =>
      refine ⟨.black, n + 1, ?_, hfs⟩
      cases side with
      | left => exact .black ht hs
      | right => exact .black hs ht

/-- Filling the hole of a path with a tree that fits gives a red-black tree. -/
theorem Balanced.zip {t : RbTree α} {c : Color} {n : Nat} {fs : List (Frame α)}
    (ht : Balanced t c n) (hf : Fits fs c n) : IsRedBlack (zip t fs) := by
  induction fs generalizing t c n with
  | nil =>
      cases hf with
      | nil => exact ⟨n, ht⟩
  | cons f fs ih =>
      obtain ⟨c', n', ht', hf'⟩ := ht.plug hf
      exact ih ht' hf'

/-- A node of the parent's colour over two black trees of the hole's height takes the place of
the parent. -/
theorem Fits.zip_node {f : Frame α} {fs : List (Frame α)} {n : Nat}
    (h : Fits (f :: fs) .black n) {l r : RbTree α} {x : α} (hl : Balanced l .black n)
    (hr : Balanced r .black n) : IsRedBlack (Lib.zip (.node f.color l x r) fs) := by
  cases h with
  | red _ hf => exact (Balanced.red hl hr).zip hf
  | black _ hf => exact (Balanced.black hl hr).zip hf

/-- Blackening a red balanced tree makes it one higher. -/
theorem Balanced.setBlack_of_red {t : RbTree α} {c : Color} {n : Nat} (h : Balanced t c n)
    (hred : t.isRed = true) : Balanced t.setBlack .black (n + 1) := by
  cases h with
  | nil => cases hred
  | red hl hr => exact .black hl hr
  | black => cases hred

/-- The red-black conditions do not look at the entries: one entry of a path may change. -/
theorem Fits.set_entry {fs gs : List (Frame α)} {side : Side} {cf c : Color} {x : α} (y : α)
    {s : RbTree α} {n : Nat} (h : Fits (fs ++ ⟨side, cf, x, s⟩ :: gs) c n) :
    Fits (fs ++ ⟨side, cf, y, s⟩ :: gs) c n := by
  induction fs generalizing c n with
  | nil =>
      cases h with
      | red hs hf => exact .red hs hf
      | black hs hf => exact .black hs hf
  | cons f fs ih =>
      cases h with
      | red hs hf => exact .red hs (ih hf)
      | black hs hf => exact .black hs (ih hf)

/-- Every subtree of a red-black tree is balanced, and the path above it takes it. -/
theorem IsRedBlack.unzip {t : RbTree α} {fs : List (Frame α)}
    (h : IsRedBlack (Lib.zip t fs)) : ∃ c n, Balanced t c n ∧ Fits fs c n := by
  induction fs generalizing t with
  | nil =>
      obtain ⟨n, h⟩ := h
      exact ⟨.black, n, h, .nil n⟩
  | cons f fs ih =>
      obtain ⟨c, n, hb, hf⟩ := ih h
      obtain ⟨side, cf, x, s⟩ := f
      cases side with
      | left =>
          cases hb with
          | red hl hr => exact ⟨_, _, hl, .red hr hf⟩
          | black hl hr => exact ⟨_, _, hl, .black hr hf⟩
      | right =>
          cases hb with
          | red hl hr => exact ⟨_, _, hr, .red hl hf⟩
          | black hl hr => exact ⟨_, _, hr, .black hl hf⟩

end LustreSimulator.Lib
