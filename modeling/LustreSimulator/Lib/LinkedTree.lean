import LustreSimulator.Lib.RedBlack
import Mathlib.Logic.Function.Basic
import Mathlib.Data.List.Nodup

/-!
# `LustreSimulator.Lib.LinkedTree`: trees with parent links in a heap

A heap keeps three links and a colour for each address, and has a pointer to a root. `Linked h t`
says that the heap holds the tree `t` of addresses: every node of `t` has the addresses of its
parent and of its children, and no address stands twice. The address 0 is the null pointer.

`LinkedAt h t path` is the same at a place of the tree: the subtree `t` below the nodes of `path`.
It is `Linked` of the tree that is zipped up (`linkedAt_iff`), so a place is changed by an equation
of `zip`. The rules say what an operation on the links does to the tree there:

* `LinkedAt.setColor`, `LinkedAt.rotate`, `LinkedAt.unlink`, `LinkedAt.substitute` and
  `LinkedAt.link`;
* `LinkedAt.links_plug` reads the links of a node.
-/

set_option autoImplicit false

namespace LustreSimulator.Lib

/-- The other side. -/
def Side.flip : Side → Side
  | .left => .right
  | .right => .left

@[simp]
theorem Side.flip_flip (side : Side) : side.flip.flip = side := by
  cases side <;> rfl

/-- The links of a node, and its colour. -/
structure TreeLinks (A : Type*) where
  parent : A
  left : A
  right : A
  color : Color
  deriving DecidableEq, Repr

/-- The links of all nodes, and the pointer to the root. -/
structure LinkHeap (A : Type*) where
  links : A → TreeLinks A
  root : A

variable {A : Type*}

namespace TreeLinks

/-- The link to a child. -/
def child (n : TreeLinks A) : Side → A
  | .left => n.left
  | .right => n.right

/-- The node with another child. -/
def setChild (n : TreeLinks A) (side : Side) (v : A) : TreeLinks A :=
  match side with
  | .left => { n with left := v }
  | .right => { n with right := v }

end TreeLinks

/-! ### The other side of a frame -/

/-- A node is a frame on either side. -/
theorem Frame.plug_flip (side : Side) (c : Color) (x : A) (s t : RbTree A) :
    (⟨side, c, x, s⟩ : Frame A).plug t = (⟨side.flip, c, x, t⟩ : Frame A).plug s := by
  cases side <;> rfl

/-- The root of a tree is a frame on a given side. -/
theorem exists_plug (side : Side) {t : RbTree A} (hne : t ≠ .nil) :
    ∃ c x s u, t = (⟨side, c, x, s⟩ : Frame A).plug u := by
  cases t with
  | nil => exact absurd rfl hne
  | node c l x r =>
      cases side with
      | left => exact ⟨c, x, r, l, rfl⟩
      | right => exact ⟨c, x, l, r, rfl⟩

/-- The colour of the root is the one of the frame. -/
theorem isRed_plug (f : Frame A) (t : RbTree A) : (f.plug t).isRed = (f.color == .red) := by
  obtain ⟨side, c, x, s⟩ := f
  cases side <;> cases c <;> rfl

theorem RbTree.ne_nil_of_isRed {t : RbTree A} (hred : t.isRed = true) : t ≠ .nil := by
  rintro rfl
  cases hred

@[simp]
theorem plug_ne_nil (f : Frame A) (t : RbTree A) : f.plug t ≠ .nil := by
  unfold Frame.plug
  cases f.side <;> simp

theorem zip_ne_nil {t : RbTree A} (hne : t ≠ .nil) (path : List (Frame A)) : zip t path ≠ .nil := by
  induction path generalizing t with
  | nil => exact hne
  | cons f fs ih => exact ih (plug_ne_nil f t)

/-- The nodes of a path with all that hangs beside it. -/
def nodesAround : List (Frame A) → List A
  | [] => []
  | f :: fs => f.entry :: (f.sibling.toList ++ nodesAround fs)

theorem entry_mem_nodesAround (fs : List (Frame A)) (f : Frame A) (gs : List (Frame A)) :
    f.entry ∈ nodesAround (fs ++ f :: gs) := by
  induction fs with
  | nil => exact List.mem_cons_self
  | cons g fs ih => exact List.mem_cons_of_mem _ (List.mem_append_right _ ih)

/-- The nodes below a node. -/
theorem toList_plug_perm (f : Frame A) (t : RbTree A) :
    (f.plug t).toList.Perm (f.entry :: (t.toList ++ f.sibling.toList)) := by
  obtain ⟨side, c, x, s⟩ := f
  cases side with
  | left => exact List.perm_middle
  | right => exact List.perm_middle.trans (.cons x List.perm_append_comm)

/-- The nodes of two frames in one another. -/
theorem rotate_perm (side : Side) (cx cy : Color) (x y : A) (a b u : RbTree A) (l : List A) :
    (((⟨side, cx, x, (⟨side, cy, y, u⟩ : Frame A).plug b⟩ : Frame A).plug a).toList ++ l).Perm
      (x :: y :: (a.toList ++ (b.toList ++ (u.toList ++ l)))) := by
  have hy := toList_plug_perm (⟨side, cy, y, u⟩ : Frame A) b
  have hx := toList_plug_perm (⟨side, cx, x, (⟨side, cy, y, u⟩ : Frame A).plug b⟩ : Frame A) a
  have hxy := hx.trans (.cons x ((hy.append_left a.toList).trans List.perm_middle))
  simpa [List.append_assoc] using hxy.append_right l

/-- The same nodes after a rotation. -/
theorem rotated_perm (side : Side) (cx cy : Color) (x y : A) (a b u : RbTree A) (l : List A) :
    (((⟨side, cy, y, u⟩ : Frame A).plug ((⟨side, cx, x, b⟩ : Frame A).plug a)).toList ++ l).Perm
      (x :: y :: (a.toList ++ (b.toList ++ (u.toList ++ l)))) := by
  have hx := toList_plug_perm (⟨side, cx, x, b⟩ : Frame A) a
  have hy := toList_plug_perm (⟨side, cy, y, u⟩ : Frame A) ((⟨side, cx, x, b⟩ : Frame A).plug a)
  have hxy := (hy.trans (.cons y (hx.append_right u.toList))).trans (.swap _ _ _)
  simpa [List.append_assoc] using hxy.append_right l

/-- The nodes of a tree, from a place of it. -/
theorem toList_zip_perm (t : RbTree A) (path : List (Frame A)) :
    (zip t path).toList.Perm (t.toList ++ nodesAround path) := by
  induction path generalizing t with
  | nil =>
      rw [nodesAround, List.append_nil]
      exact .refl _
  | cons f fs ih =>
      refine (ih (f.plug t)).trans (((toList_plug_perm f t).append_right (nodesAround fs)).trans ?_)
      rw [nodesAround, List.cons_append, List.append_assoc]
      exact List.perm_middle.symm

/-- A subtree and the path above it have room in the tree. -/
theorem length_add_le (t : RbTree A) (path : List (Frame A)) :
    t.toList.length + path.length ≤ (zip t path).toList.length := by
  have haround : path.length ≤ (nodesAround path).length := by
    induction path with
    | nil => exact Nat.le_refl 0
    | cons f fs ih =>
        simp only [nodesAround, List.length_cons, List.length_append]
        omega
  rw [(toList_zip_perm t path).length_eq, List.length_append]
  omega

/-- The tree with another colour at the root. -/
def RbTree.setColor (c : Color) : RbTree A → RbTree A
  | nil => nil
  | node _ l x r => node c l x r

@[simp]
theorem RbTree.setColor_plug (c : Color) (f : Frame A) (t : RbTree A) :
    (f.plug t).setColor c = ({ f with color := c } : Frame A).plug t := by
  obtain ⟨side, c', x, s⟩ := f
  cases side <;> rfl

theorem RbTree.setColor_black (t : RbTree A) : t.setColor .black = t.setBlack := by
  cases t <;> rfl

/-! ### Operations on the links -/

/-- The address of the root of the tree around a place. -/
def rootAt (hole : A) : List (Frame A) → A
  | [] => hole
  | f :: fs => rootAt f.entry fs

theorem rootAt_mem (f : Frame A) (fs : List (Frame A)) :
    rootAt f.entry fs ∈ nodesAround (f :: fs) := by
  induction fs generalizing f with
  | nil => exact List.mem_cons_self
  | cons g gs ih => exact List.mem_cons_of_mem _ (List.mem_append_right _ (ih g))

namespace LinkHeap

variable [DecidableEq A] {a b : A}

/-- A node with other links. -/
def set (h : LinkHeap A) (a : A) (n : TreeLinks A) : LinkHeap A :=
  { h with links := Function.update h.links a n }

/-- A node with another parent. -/
def setParent (h : LinkHeap A) (a p : A) : LinkHeap A := h.set a { h.links a with parent := p }

/-- A node with another child. -/
def setChild (h : LinkHeap A) (a : A) (side : Side) (v : A) : LinkHeap A :=
  h.set a ((h.links a).setChild side v)

/-- A node with another colour. -/
def setColor (h : LinkHeap A) (a : A) (c : Color) : LinkHeap A :=
  h.set a { h.links a with color := c }

/-- The place of a path gets another address. -/
def relink (h : LinkHeap A) (path : List (Frame A)) (v : A) : LinkHeap A :=
  match path with
  | [] => { h with root := v }
  | f :: _ => h.setChild f.entry f.side v

theorem set_links (h : LinkHeap A) (a : A) (n : TreeLinks A) (b : A) :
    (h.set a n).links b = if b = a then n else h.links b := Function.update_apply _ _ _ _

/-- The links of the other nodes do not change. -/
theorem set_links_of_ne (h : LinkHeap A) (n : TreeLinks A) (hne : b ≠ a) :
    (h.set a n).links b = h.links b := by
  rw [set_links, if_neg hne]

theorem set_links_self (h : LinkHeap A) (a : A) (n : TreeLinks A) : (h.set a n).links a = n := by
  rw [set_links, if_pos rfl]

/-- Only a node around the place changes. -/
theorem relink_links_of_notMem (h : LinkHeap A) {path : List (Frame A)} (v : A)
    (hb : b ∉ nodesAround path) :
    (h.relink path v).links b = h.links b := by
  cases path with
  | nil => rfl
  | cons f fs =>
      refine set_links_of_ne h _ ?_
      rintro rfl
      exact hb List.mem_cons_self

/-- The pointer to the root, when another address is put at a place. -/
theorem relink_root {h : LinkHeap A} {hole : A} {path : List (Frame A)}
    (hroot : h.root = rootAt hole path) (v : A) :
    (h.relink path v).root = rootAt v path := by
  cases path with
  | nil => rfl
  | cons f fs => exact hroot

end LinkHeap

/-! ### A tree in a heap -/

section Linked

variable [Zero A]

/-- The address of the root of a tree. -/
def ptr : RbTree A → A
  | .nil => 0
  | .node _ _ x _ => x

/-- The address of the node above a place. -/
def top : List (Frame A) → A
  | [] => 0
  | f :: _ => f.entry

/-- The links of the node of a frame, between a parent and a child. -/
def Frame.links (f : Frame A) (parent hole : A) : TreeLinks A :=
  match f.side with
  | .left => ⟨parent, hole, ptr f.sibling, f.color⟩
  | .right => ⟨parent, ptr f.sibling, hole, f.color⟩

/-- The nodes of a subtree below the parent `p` have their links. -/
def Below (links : A → TreeLinks A) (p : A) : RbTree A → Prop
  | .nil => True
  | .node c l x r => links x = ⟨p, ptr l, ptr r, c⟩ ∧ Below links x l ∧ Below links x r

/-- The nodes around a place have their links, where the address of the subtree is `hole`. -/
def Around (links : A → TreeLinks A) (hole : A) : List (Frame A) → Prop
  | [] => True
  | f :: fs => links f.entry = f.links (top fs) hole ∧ Below links f.entry f.sibling ∧
      Around links f.entry fs

/-- The heap holds the subtree `t` at its place. -/
structure LinkedAt (h : LinkHeap A) (t : RbTree A) (path : List (Frame A)) : Prop where
  below : Below h.links (top path) t
  around : Around h.links (ptr t) path
  root : h.root = rootAt (ptr t) path
  nodup : (0 :: (t.toList ++ nodesAround path)).Nodup

/-- The heap holds the tree. -/
def Linked (h : LinkHeap A) (t : RbTree A) : Prop := LinkedAt h t []

variable {h : LinkHeap A} {links links' : A → TreeLinks A} {t : RbTree A} {f : Frame A}
  {path : List (Frame A)} {p hole : A}

@[simp]
theorem ptr_nil : ptr (.nil : RbTree A) = 0 := rfl

@[simp]
theorem ptr_node (c : Color) (l : RbTree A) (x : A) (r : RbTree A) : ptr (.node c l x r) = x := rfl

@[simp]
theorem ptr_plug (f : Frame A) (t : RbTree A) : ptr (f.plug t) = f.entry := by
  obtain ⟨side, c, x, s⟩ := f
  cases side <;> rfl

/-- The address of a tree is the null pointer or one of its nodes. -/
theorem ptr_mem (t : RbTree A) : ptr t ∈ (0 : A) :: t.toList := by
  cases t with
  | nil => exact List.mem_cons_self
  | node c l x r => simp [ptr]

/-- The node of a frame and what hangs below it. -/
theorem below_plug : Below links p (f.plug t) ↔ links f.entry = f.links p (ptr t) ∧
    Below links f.entry t ∧ Below links f.entry f.sibling := by
  obtain ⟨side, c, x, s⟩ := f
  cases side with
  | left => exact Iff.rfl
  | right => exact and_congr_right fun _ => and_comm

@[simp]
theorem Frame.child_links (f : Frame A) (p hole : A) : (f.links p hole).child f.side = hole := by
  unfold Frame.links TreeLinks.child
  cases f.side <;> rfl

@[simp]
theorem Frame.child_flip_links (f : Frame A) (p hole : A) :
    (f.links p hole).child f.side.flip = ptr f.sibling := by
  unfold Frame.links TreeLinks.child
  cases f.side <;> rfl

@[simp]
theorem Frame.parent_links (f : Frame A) (p hole : A) : (f.links p hole).parent = p := by
  unfold Frame.links
  cases f.side <;> rfl

@[simp]
theorem Frame.color_links (f : Frame A) (p hole : A) : (f.links p hole).color = f.color := by
  unfold Frame.links
  cases f.side <;> rfl

/-- The links below a place depend on the nodes there. -/
theorem Below.congr (h : Below links p t) (heq : ∀ a ∈ t.toList, links' a = links a) :
    Below links' p t := by
  induction t generalizing p with
  | nil => trivial
  | node c l x r ihl ihr =>
      obtain ⟨hx, hl, hr⟩ := h
      exact ⟨(heq x (by simp)).trans hx, ihl hl fun a ha => heq a (by simp [ha]),
        ihr hr fun a ha => heq a (by simp [ha])⟩

/-- The links around a place depend on the nodes there. -/
theorem Around.congr (h : Around links hole path)
    (heq : ∀ a ∈ nodesAround path, links' a = links a) : Around links' hole path := by
  induction path generalizing hole with
  | nil => trivial
  | cons f fs ih =>
      obtain ⟨hf, hs, hfs⟩ := h
      refine ⟨(heq f.entry (by simp [nodesAround])).trans hf, hs.congr fun a ha => ?_,
        ih hfs fun a ha => ?_⟩
      · exact heq a (by simp [nodesAround, ha])
      · exact heq a (by simp [nodesAround, ha])

/-- One step up. -/
theorem linkedAt_cons (h : LinkHeap A) (t : RbTree A) (f : Frame A) (fs : List (Frame A)) :
    LinkedAt h t (f :: fs) ↔ LinkedAt h (f.plug t) fs := by
  have hperm : (0 :: (t.toList ++ nodesAround (f :: fs))).Perm
      (0 :: ((f.plug t).toList ++ nodesAround fs)) := by
    refine .cons 0 (.trans ?_ ((toList_plug_perm f t).symm.append_right _))
    rw [nodesAround, List.cons_append, List.append_assoc]
    exact List.perm_middle
  constructor
  · rintro ⟨hbelow, ⟨hf, hs, haround⟩, hroot, hnodup⟩
    refine ⟨below_plug.mpr ⟨hf, hbelow, hs⟩, ?_, ?_, hperm.nodup_iff.mp hnodup⟩
    · rwa [ptr_plug]
    · rw [ptr_plug]
      exact hroot
  · rintro ⟨hbelow, haround, hroot, hnodup⟩
    obtain ⟨hf, hbelow, hs⟩ := below_plug.mp hbelow
    rw [ptr_plug] at haround hroot
    exact ⟨hbelow, ⟨hf, hs, haround⟩, hroot, hperm.nodup_iff.mpr hnodup⟩

/-- A place does not matter to the heap. -/
theorem linkedAt_iff (h : LinkHeap A) (t : RbTree A) (path : List (Frame A)) :
    LinkedAt h t path ↔ Linked h (zip t path) := by
  induction path generalizing t with
  | nil => exact Iff.rfl
  | cons f fs ih => exact (linkedAt_cons h t f fs).trans (ih (f.plug t))

/-- From a subtree to the one beside it. -/
theorem linkedAt_flip (h : LinkHeap A) (side : Side) (c : Color) (x : A) (s t : RbTree A)
    (fs : List (Frame A)) :
    LinkedAt h t (⟨side, c, x, s⟩ :: fs) ↔ LinkedAt h s (⟨side.flip, c, x, t⟩ :: fs) := by
  rw [linkedAt_cons, linkedAt_cons, Frame.plug_flip]

/-- The links of a node. -/
theorem LinkedAt.links_plug (hat : LinkedAt h (f.plug t) path) :
    h.links f.entry = f.links (top path) (ptr t) :=
  (below_plug.mp hat.below).1

/-- A node with one child at most is not in what is left without it. -/
theorem LinkedAt.notMem_unlink {side : Side} {c : Color} {x : A}
    (hat : LinkedAt h ((⟨side, c, x, .nil⟩ : Frame A).plug t) path) :
    x ∉ (0 : A) :: (zip t path).toList := by
  have hperm := (List.Perm.append_right (nodesAround path)
    (toList_plug_perm (⟨side, c, x, .nil⟩ : Frame A) t)).cons 0
  have hnodup := hperm.nodup_iff.mp hat.nodup
  simp only [RbTree.toList_nil, List.append_nil, List.cons_append] at hnodup
  rw [((toList_zip_perm t path).cons 0).mem_iff]
  obtain ⟨h0, hx⟩ := List.nodup_cons.mp hnodup
  refine List.not_mem_cons_of_ne_of_not_mem ?_ (List.nodup_cons.mp hx).1
  rintro rfl
  exact h0 List.mem_cons_self

/-- The nodes of a path are different. -/
theorem LinkedAt.entry_ne {f g : Frame A} {fs gs : List (Frame A)}
    (hat : LinkedAt h t (g :: (gs ++ f :: fs))) : g.entry ≠ f.entry := by
  intro heq
  have hnodup := (List.nodup_append'.mp (List.nodup_cons.mp hat.nodup).2).2.1
  exact (List.nodup_cons.mp hnodup).1
    (heq ▸ List.mem_append_right _ (entry_mem_nodesAround gs f fs))

/-- No node of the tree is the null pointer. -/
theorem LinkedAt.ptr_ne_zero (hat : LinkedAt h t path) (hne : t ≠ .nil) : ptr t ≠ 0 := by
  intro h0
  refine (List.nodup_cons.mp hat.nodup).1 (List.mem_append_left _ ?_)
  cases t with
  | nil => exact absurd rfl hne
  | node c l x r =>
      obtain rfl : x = 0 := h0
      simp

/-- A node is not its own parent. -/
theorem LinkedAt.top_ne_ptr (hat : LinkedAt h t path) (hne : t ≠ .nil) : top path ≠ ptr t := by
  cases path with
  | nil => exact Ne.symm (hat.ptr_ne_zero hne)
  | cons f fs =>
      intro heq
      have hmem : ptr t ∈ t.toList :=
        (List.mem_cons.mp (ptr_mem t)).resolve_left (hat.ptr_ne_zero hne)
      have hdisj := (List.nodup_append'.mp (List.nodup_cons.mp hat.nodup).2).2.2
      refine hdisj hmem ?_
      rw [← heq]
      exact List.mem_cons_self

/-- Two subtrees that hang beside one another have different addresses, unless both are empty. -/
theorem LinkedAt.eq_nil_of_ptr_eq {fs : List (Frame A)} (hat : LinkedAt h t (f :: fs))
    (heq : ptr t = ptr f.sibling) : t = .nil ∧ f.sibling = .nil := by
  have hsib : LinkedAt h f.sibling (⟨f.side.flip, f.color, f.entry, t⟩ :: fs) :=
    (linkedAt_flip h f.side f.color f.entry f.sibling t fs).mp hat
  have hboth : t.toList.Disjoint f.sibling.toList := by
    have hdisj := (List.nodup_append'.mp (List.nodup_cons.mp hat.nodup).2).2.2
    exact fun a ha hs => hdisj ha (List.mem_cons_of_mem _ (List.mem_append_left _ hs))
  by_contra hcon
  rcases not_and_or.mp hcon with hne | hne
  · have h0 := hat.ptr_ne_zero hne
    exact hboth ((List.mem_cons.mp (ptr_mem t)).resolve_left h0)
      ((List.mem_cons.mp (heq ▸ ptr_mem f.sibling)).resolve_left h0)
  · have h0 := hsib.ptr_ne_zero hne
    exact hboth ((List.mem_cons.mp (heq ▸ ptr_mem t)).resolve_left h0)
      ((List.mem_cons.mp (ptr_mem f.sibling)).resolve_left h0)

/-- The root is not below another node. -/
theorem LinkedAt.ptr_ne_root {fs : List (Frame A)} (hat : LinkedAt h t (f :: fs)) :
    ptr t ≠ h.root := by
  rw [hat.root]
  intro heq
  have hmem : ptr t ∈ nodesAround (f :: fs) := heq ▸ rootAt_mem f fs
  obtain ⟨hnot, hnodup⟩ := List.nodup_cons.mp hat.nodup
  rcases List.mem_cons.mp (ptr_mem t) with h0 | ht
  · exact hnot (List.mem_append_right _ (h0 ▸ hmem))
  · exact (List.nodup_append'.mp hnodup).2.2 ht hmem

/-! ### Operations that look for null pointers -/

namespace LinkHeap

variable [DecidableEq A]

/-- The node `a`, when there is one, gets the parent `p`. -/
def adopt (h : LinkHeap A) (a p : A) : LinkHeap A := if a = 0 then h else h.setParent a p

/-- The parent `p`, or the pointer to the root when there is none, gets the child `new` in the
place of `old`. The child on the given side is looked at first. -/
def replaceChild (h : LinkHeap A) (side : Side) (p old new : A) : LinkHeap A :=
  if p = 0 then { h with root := new }
  else if (h.links p).child side = old then h.setChild p side new
  else h.setChild p side.flip new

/-- The first half of a rotation: the child `y` of `x` gets `x` for a child and `p` for a parent,
and `x` gets the child `inner` of `y`. -/
def turn (h : LinkHeap A) (side : Side) (x y inner p : A) : LinkHeap A :=
  (((h.setChild x side.flip inner).adopt inner x).setChild y side x).setParent y p

/-- The node `x` goes down to the given side, and its other child comes up. -/
def rotate (h : LinkHeap A) (side : Side) (x : A) : LinkHeap A :=
  let y := (h.links x).child side.flip
  let p := (h.links x).parent
  ((h.turn side x y ((h.links y).child side) p).replaceChild side p x y).setParent x y

/-- The node `z` takes the place of `x`. -/
def substitute (h : LinkHeap A) (x z : A) : LinkHeap A :=
  (((h.set z (h.links x)).replaceChild .left (h.links x).parent x z).adopt (h.links x).left z).adopt
    (h.links x).right z

variable {a b v : A} {side : Side}

@[simp]
theorem adopt_root (h : LinkHeap A) (a p : A) : (h.adopt a p).root = h.root := by
  unfold adopt
  split <;> rfl

/-- Only the parent is written. -/
theorem replaceChild_links_of_ne (h : LinkHeap A) {p : A} (side : Side) (old new : A)
    (hne : b ≠ p) : (h.replaceChild side p old new).links b = h.links b := by
  unfold replaceChild
  split
  · rfl
  · split
    · exact set_links_of_ne h _ hne
    · exact set_links_of_ne h _ hne

/-- Only the root of a subtree is adopted. -/
theorem adopt_links_of_notMem (h : LinkHeap A) (p : A) (hb : b ∉ t.toList) :
    (h.adopt (ptr t) p).links b = h.links b := by
  unfold adopt
  split
  · rfl
  · rename_i hne
    refine set_links_of_ne h _ ?_
    rintro rfl
    exact hb ((List.mem_cons.mp (ptr_mem t)).resolve_left hne)

/-- A subtree is below the parent that adopts its root. -/
theorem below_adopt {q : A} (ht : Below h.links p t) (hnodup : (0 :: t.toList).Nodup) :
    Below (h.adopt (ptr t) q).links q t := by
  cases t with
  | nil => trivial
  | node c l x r =>
      obtain ⟨hx, hl, hr⟩ := ht
      simp only [RbTree.toList_node, List.nodup_cons, List.mem_append, List.mem_cons,
        List.nodup_append, not_or] at hnodup
      obtain ⟨⟨-, hx0, -⟩, -, ⟨hxr, -⟩, hdisj⟩ := hnodup
      have hlinks : (h.adopt (ptr (.node c l x r)) q).links =
          Function.update h.links x { h.links x with parent := q } := by
        show (if x = 0 then h else h.setParent x q).links = _
        rw [if_neg (Ne.symm hx0)]
        rfl
      rw [hlinks]
      refine ⟨?_, hl.congr fun a ha => ?_, hr.congr fun a ha => ?_⟩
      · rw [Function.update_self, hx]
      · exact Function.update_of_ne (hdisj a ha x (Or.inl rfl)) _ _
      · refine Function.update_of_ne ?_ _ _
        rintro rfl
        exact hxr ha

section Turn

variable {x y p : A}

theorem turn_root (h : LinkHeap A) (side : Side) (x y inner p : A) :
    (h.turn side x y inner p).root = h.root := adopt_root _ _ _

/-- The other nodes, but for the root of the subtree that changes its parent. -/
theorem turn_links_of_ne (h : LinkHeap A) (hx : b ≠ x) (hy : b ≠ y) (ht : b ∉ t.toList) :
    (h.turn side x y (ptr t) p).links b = h.links b := by
  rw [turn, setParent, set_links_of_ne _ _ hy, setChild, set_links_of_ne _ _ hy,
    adopt_links_of_notMem _ _ ht, setChild, set_links_of_ne _ _ hx]

/-- The node that goes down, before its parent is set. -/
theorem turn_links_down (h : LinkHeap A) (hxy : x ≠ y) (ht : x ∉ t.toList) :
    (h.turn side x y (ptr t) p).links x = (h.links x).setChild side.flip (ptr t) := by
  rw [turn, setParent, set_links_of_ne _ _ hxy, setChild, set_links_of_ne _ _ hxy,
    adopt_links_of_notMem _ _ ht, setChild, set_links_self]

/-- The node that comes up. -/
theorem turn_links_up (h : LinkHeap A) (hxy : x ≠ y) (ht : y ∉ t.toList) :
    (h.turn side x y (ptr t) p).links y = { (h.links y).setChild side x with parent := p } := by
  rw [turn, setParent, set_links_self, setChild, set_links_self, adopt_links_of_notMem _ _ ht,
    setChild, set_links_of_ne _ _ (Ne.symm hxy)]

/-- The subtree between the two nodes changes its parent. -/
theorem below_turn {q : A} (hbelow : Below h.links q t) (hnodup : (0 :: t.toList).Nodup)
    (hx : x ∉ t.toList) (hy : y ∉ t.toList) :
    Below (h.turn side x y (ptr t) p).links x t := by
  have hchild : Below (h.setChild x side.flip (ptr t)).links q t :=
    hbelow.congr fun z hz => set_links_of_ne _ _ (ne_of_mem_of_not_mem hz hx)
  refine (below_adopt hchild hnodup).congr fun z hz => ?_
  have hzy := ne_of_mem_of_not_mem hz hy
  rw [turn, setParent, set_links_of_ne _ _ hzy, setChild, set_links_of_ne _ _ hzy]

end Turn

/-- The links around a place, when another address is put there. -/
theorem around_relink (ha : Around h.links hole path) (hnodup : (nodesAround path).Nodup)
    (v : A) : Around (h.relink path v).links v path := by
  cases path with
  | nil => trivial
  | cons f fs =>
      obtain ⟨hf, hs, hfs⟩ := ha
      obtain ⟨hnot, hnodup⟩ := List.nodup_cons.mp hnodup
      rw [List.mem_append, not_or] at hnot
      have hother : ∀ a, a ≠ f.entry → (h.relink (f :: fs) v).links a = h.links a :=
        fun a hne => set_links_of_ne h _ hne
      refine ⟨?_, hs.congr fun a ha => hother a ?_, hfs.congr fun a ha => hother a ?_⟩
      · show (h.setChild f.entry f.side v).links f.entry = _
        rw [setChild, set_links_self, hf]
        unfold Frame.links TreeLinks.setChild
        cases f.side <;> rfl
      · rintro rfl
        exact hnot.1 ha
      · rintro rfl
        exact hnot.2 ha

/-- The parent finds the place of its child. -/
theorem replaceChild_eq_relink (ha : Around h.links a path)
    (hnodup : (0 :: a :: nodesAround path).Nodup) (side : Side) (v : A) :
    h.replaceChild side (top path) a v = h.relink path v := by
  cases path with
  | nil => exact if_pos rfl
  | cons f fs =>
      obtain ⟨hf, -⟩ := ha
      simp only [nodesAround, List.nodup_cons, List.mem_cons, List.mem_append, not_or] at hnodup
      obtain ⟨⟨ha0, hf0, -⟩, ⟨hne, hs, -⟩, -⟩ := hnodup
      show (if f.entry = 0 then _ else if (h.links f.entry).child side = a
        then h.setChild f.entry side v else h.setChild f.entry side.flip v) = _
      rw [if_neg (Ne.symm hf0), hf]
      have hself : (f.links (top fs) a).child f.side = a := by
        unfold Frame.links TreeLinks.child
        cases f.side <;> rfl
      have hother : (f.links (top fs) a).child f.side.flip ≠ a := by
        have hptr : (f.links (top fs) a).child f.side.flip = ptr f.sibling := by
          unfold Frame.links TreeLinks.child
          cases f.side <;> rfl
        rw [hptr]
        rintro rfl
        rcases List.mem_cons.mp (ptr_mem f.sibling) with h0 | hmem
        · exact ha0 h0.symm
        · exact hs hmem
      -- a side is the one of the frame or the other one
      by_cases hside : side = f.side
      · rw [hside, if_pos hself]
        rfl
      · obtain rfl : side = f.side.flip := by
          revert hside
          cases side <;> cases f.side <;> simp [Side.flip]
        rw [if_neg hother, Side.flip_flip]
        rfl

end LinkHeap

/-! ### What the operations do to the tree -/

section Rules

variable [DecidableEq A] {side : Side} {c c' cx cy : Color} {x y z : A} {l r u a b : RbTree A}

/-- A node gets another colour. -/
theorem LinkedAt.setColor (hat : LinkedAt h t path) (hne : ptr t ≠ 0) (c : Color) :
    LinkedAt (h.setColor (ptr t) c) (t.setColor c) path := by
  cases t with
  | nil => exact absurd rfl hne
  | node c' l x r =>
      obtain ⟨⟨hx, hl, hr⟩, haround, hroot, hnodup⟩ := hat
      have hother : ∀ a, a ≠ x → (h.setColor x c).links a = h.links a :=
        fun a hne => LinkHeap.set_links_of_ne h _ hne
      refine ⟨⟨?_, hl.congr fun a ha => hother a ?_, hr.congr fun a ha => hother a ?_⟩,
        haround.congr fun a ha => hother a ?_, hroot, hnodup⟩
      · rw [ptr_node, LinkHeap.setColor, LinkHeap.set_links_self, hx]
      all_goals
        rintro rfl
        simp only [RbTree.toList_node, List.append_assoc, List.cons_append, List.nodup_cons,
          List.nodup_append, List.mem_cons, List.mem_append] at hnodup
        grind

/-- A rotation. -/
theorem LinkedAt.rotate
    (hat : LinkedAt h
      ((⟨side, cx, x, (⟨side, cy, y, u⟩ : Frame A).plug b⟩ : Frame A).plug a) path) :
    LinkedAt (h.rotate side x)
      ((⟨side, cy, y, u⟩ : Frame A).plug ((⟨side, cx, x, b⟩ : Frame A).plug a)) path := by
  obtain ⟨hbelow, haround, hroot, hnodup⟩ := hat
  obtain ⟨hx, ha, hbelow⟩ := below_plug.mp hbelow
  obtain ⟨hy, hb, hu⟩ := below_plug.mp hbelow
  rw [ptr_plug] at haround hroot
  -- the nodes, and which of them are different
  have hnodup' := (List.Perm.cons 0 (rotate_perm side cx cy x y a b u _)).nodup_iff.mp hnodup
  obtain ⟨h0, hxs, hys, hnab⟩ : (0 : A) ∉ x :: y :: (a.toList ++ (b.toList ++ (u.toList ++
      nodesAround path))) ∧ _ := by
    simpa only [List.nodup_cons] using hnodup'
  simp only [List.mem_cons, List.mem_append, not_or] at h0 hxs hys
  obtain ⟨hxy, hxa, hxb, hxu, hxp⟩ := hxs
  obtain ⟨hya, hyb, hyu, hyp⟩ := hys
  obtain ⟨-, hnbu, hdab⟩ := List.nodup_append'.mp hnab
  obtain ⟨hnb, hnup, hdbu⟩ := List.nodup_append'.mp hnbu
  obtain ⟨-, hnp, hdup⟩ := List.nodup_append'.mp hnup
  set h₁ := h.turn side x y (ptr b) (top path) with hh₁
  have haround₁ : Around h₁.links x path := haround.congr fun z hz =>
    LinkHeap.turn_links_of_ne h (ne_of_mem_of_not_mem hz hxp) (ne_of_mem_of_not_mem hz hyp)
      fun hzb => hdbu hzb (List.mem_append_right _ hz)
  have hrot : h.rotate side x = (h₁.relink path y).setParent x y := by
    have hchild : (h.links x).child side.flip = y := by
      rw [hx]
      exact (Frame.child_flip_links (⟨side, cx, x, _⟩ : Frame A) _ _).trans (ptr_plug _ _)
    have hinner : (h.links y).child side = ptr b := by
      rw [hy]
      exact Frame.child_links (⟨side, cy, y, _⟩ : Frame A) _ _
    have hparent : (h.links x).parent = top path := by
      rw [hx, Frame.parent_links]
    have hplace : (0 :: x :: nodesAround path).Nodup := by
      simp only [List.nodup_cons, List.mem_cons, not_or]
      exact ⟨⟨h0.1, h0.2.2.2.2.2⟩, hxp, hnp⟩
    rw [← LinkHeap.replaceChild_eq_relink haround₁ hplace side, LinkHeap.rotate, hchild, hinner,
      hparent]
  -- after the first half only the parent and the node that went down are written
  have hfinal : ∀ z, z ≠ x → z ∉ nodesAround path → (h.rotate side x).links z = h₁.links z := by
    intro z hzx hzp
    rw [hrot, LinkHeap.setParent, LinkHeap.set_links_of_ne _ _ hzx,
      LinkHeap.relink_links_of_notMem _ _ hzp]
  have hfar : ∀ z, z ≠ x → z ≠ y → z ∉ b.toList → z ∉ nodesAround path →
      (h.rotate side x).links z = h.links z := fun z hzx hzy hzb hzp =>
    (hfinal z hzx hzp).trans (LinkHeap.turn_links_of_ne h hzx hzy hzb)
  refine ⟨below_plug.mpr ⟨?_, below_plug.mpr ⟨?_, ?_, ?_⟩, ?_⟩, ?_, ?_, ?_⟩
  · -- the node that comes up
    rw [hfinal y (Ne.symm hxy) hyp, ptr_plug, LinkHeap.turn_links_up h hxy hyb, hy]
    cases side <;> rfl
  · -- the node that goes down
    rw [hrot, LinkHeap.setParent, LinkHeap.set_links_self, LinkHeap.relink_links_of_notMem _ _ hxp,
      LinkHeap.turn_links_down h hxy hxb, hx]
    cases side <;> rfl
  · exact ha.congr fun z hz => hfar z (ne_of_mem_of_not_mem hz hxa) (ne_of_mem_of_not_mem hz hya)
      (fun hzb => hdab hz (List.mem_append_left _ hzb))
      fun hzp => hdab hz (List.mem_append_right _ (List.mem_append_right _ hzp))
  · have hb₁ : Below h₁.links x b :=
      LinkHeap.below_turn hb (List.nodup_cons.mpr ⟨h0.2.2.2.1, hnb⟩) hxb hyb
    exact hb₁.congr fun z hz => hfinal z (ne_of_mem_of_not_mem hz hxb) fun hzp =>
      hdbu hz (List.mem_append_right _ hzp)
  · exact hu.congr fun z hz => hfar z (ne_of_mem_of_not_mem hz hxu) (ne_of_mem_of_not_mem hz hyu)
      (fun hzb => hdbu hzb (List.mem_append_left _ hz)) fun hzp => hdup hz hzp
  · rw [ptr_plug, hrot]
    exact (LinkHeap.around_relink haround₁ hnp y).congr fun z hz =>
      LinkHeap.set_links_of_ne _ _ (ne_of_mem_of_not_mem hz hxp)
  · rw [ptr_plug, hrot]
    have hroot₁ : h₁.root = rootAt x path := (LinkHeap.turn_root _ _ _ _ _ _).trans hroot
    exact LinkHeap.relink_root hroot₁ y
  · exact (List.Perm.cons 0 (rotated_perm side cx cy x y a b u _)).nodup_iff.mpr hnodup'

/-- The links around a place, when the subtree of a node there is adopted. -/
theorem LinkedAt.around_adopt
    (hat : LinkedAt h ((⟨side, c, x, .nil⟩ : Frame A).plug t) path) (p : A) :
    Around (h.adopt (ptr t) p).links x path ∧ (0 :: x :: nodesAround path).Nodup := by
  obtain ⟨-, haround, -, hnodup⟩ := hat
  rw [ptr_plug] at haround
  have hnodup' := ((List.Perm.append_right (nodesAround path)
    (toList_plug_perm (⟨side, c, x, .nil⟩ : Frame A) t)).cons 0).nodup_iff.mp hnodup
  simp only [RbTree.toList_nil, List.append_nil, List.cons_append] at hnodup'
  have hsub : (0 :: x :: nodesAround path).Sublist
      (0 :: x :: (t.toList ++ nodesAround path)) :=
    ((List.sublist_append_right _ _).cons_cons x).cons_cons 0
  refine ⟨haround.congr fun z hz => LinkHeap.adopt_links_of_notMem h p fun hzt => ?_,
    hnodup'.sublist hsub⟩
  have hdis := (List.nodup_append'.mp (List.nodup_cons.mp (List.nodup_cons.mp hnodup').2).2).2.2
  exact hdis hzt hz

/-- A node with one child at most leaves the tree, and its child takes its place. -/
theorem LinkedAt.unlink (hat : LinkedAt h ((⟨side, c, x, .nil⟩ : Frame A).plug t) path) :
    LinkedAt ((h.adopt (ptr t) (top path)).relink path (ptr t)) t path := by
  obtain ⟨haround, hnode⟩ := hat.around_adopt (top path)
  obtain ⟨hbelow, -, hroot, hnodup⟩ := hat
  obtain ⟨-, ht, -⟩ := below_plug.mp hbelow
  rw [ptr_plug] at hroot
  have hnodup' := ((List.Perm.append_right (nodesAround path)
    (toList_plug_perm (⟨side, c, x, .nil⟩ : Frame A) t)).cons 0).nodup_iff.mp hnodup
  simp only [RbTree.toList_nil, List.append_nil, List.cons_append] at hnodup'
  have hrest : (0 :: (t.toList ++ nodesAround path)).Nodup :=
    hnodup'.sublist ((List.sublist_cons_self x _).cons_cons 0)
  have hdis := (List.nodup_append'.mp (List.nodup_cons.mp hrest).2).2.2
  have ht' : Below (h.adopt (ptr t) (top path)).links (top path) t :=
    LinkHeap.below_adopt ht (hrest.sublist ((List.sublist_append_left _ _).cons_cons 0))
  refine ⟨ht'.congr fun z hz => LinkHeap.relink_links_of_notMem _ _ fun hzp => hdis hz hzp,
    LinkHeap.around_relink haround (List.nodup_cons.mp (List.nodup_cons.mp hnode).2).2 _,
    LinkHeap.relink_root ((LinkHeap.adopt_root _ _ _).trans hroot) _, hrest⟩

/-- A node outside of the tree takes the place of one of its nodes. -/
theorem LinkedAt.substitute (hat : LinkedAt h (.node c l x r) path)
    (hz : z ∉ (0 : A) :: ((RbTree.node c l x r).toList ++ nodesAround path)) :
    LinkedAt (h.substitute x z) (.node c l z r) path := by
  obtain ⟨⟨hx, hl, hr⟩, haround, hroot, hnodup⟩ := hat
  rw [ptr_node] at haround hroot
  have hperm : ∀ w, ((0 : A) :: ((RbTree.node c l w r).toList ++ nodesAround path)).Perm
      (0 :: w :: (l.toList ++ (r.toList ++ nodesAround path))) := by
    intro w
    rw [RbTree.toList_node, List.append_assoc, List.cons_append]
    exact List.perm_middle.cons 0
  have hnodup' := (hperm x).nodup_iff.mp hnodup
  rw [(hperm x).mem_iff] at hz
  simp only [List.nodup_cons, List.mem_cons, List.mem_append, not_or] at hnodup' hz
  obtain ⟨⟨h0x, h0l, h0r, h0p⟩, ⟨hxl, hxr, hxp⟩, hnlr⟩ := hnodup'
  obtain ⟨hz0, hzx, hzl, hzr, hzp⟩ := hz
  obtain ⟨hnl, hnrp, hdl⟩ := List.nodup_append'.mp hnlr
  obtain ⟨hnr, hnp, hdr⟩ := List.nodup_append'.mp hnrp
  -- the copy, then the link from above, then the links from below
  set h₁ := h.set z (h.links x) with hh₁
  set h₂ := h₁.relink path z with hh₂
  have haround₁ : Around h₁.links x path :=
    haround.congr fun a ha => LinkHeap.set_links_of_ne _ _ (ne_of_mem_of_not_mem ha hzp)
  have hlinks : h.substitute x z = (h₂.adopt (ptr l) z).adopt (ptr r) z := by
    rw [hh₂, ← LinkHeap.replaceChild_eq_relink haround₁ (by
      simp only [List.nodup_cons, List.mem_cons, not_or]
      exact ⟨⟨h0x, h0p⟩, hxp, hnp⟩) .left, LinkHeap.substitute, hh₁, hx]
  have hfar : ∀ a, a ≠ z → a ∉ nodesAround path → h₂.links a = h.links a := by
    intro a haz hap
    rw [hh₂, LinkHeap.relink_links_of_notMem _ _ hap, hh₁, LinkHeap.set_links_of_ne _ _ haz]
  have hl₂ : Below (h₂.adopt (ptr l) z).links z l := by
    refine LinkHeap.below_adopt (hl.congr fun a ha => hfar a (ne_of_mem_of_not_mem ha hzl)
      fun hap => hdl ha (List.mem_append_right _ hap)) (List.nodup_cons.mpr ⟨h0l, hnl⟩)
  have hr₂ : Below ((h₂.adopt (ptr l) z).adopt (ptr r) z).links z r := by
    refine LinkHeap.below_adopt (hr.congr fun a ha => ?_) (List.nodup_cons.mpr ⟨h0r, hnr⟩)
    rw [LinkHeap.adopt_links_of_notMem _ _ fun hal => hdl hal (List.mem_append_left _ ha)]
    exact hfar a (ne_of_mem_of_not_mem ha hzr) fun hap => hdr ha hap
  rw [hlinks]
  refine ⟨⟨?_, ?_, hr₂⟩, ?_, ?_, ?_⟩
  · rw [LinkHeap.adopt_links_of_notMem _ _ hzr, LinkHeap.adopt_links_of_notMem _ _ hzl, hh₂,
      LinkHeap.relink_links_of_notMem _ _ hzp, hh₁, LinkHeap.set_links_self, hx]
  · exact hl₂.congr fun a ha =>
      LinkHeap.adopt_links_of_notMem _ _ fun har => hdl ha (List.mem_append_left _ har)
  · refine (LinkHeap.around_relink haround₁ hnp z).congr fun a ha => ?_
    rw [LinkHeap.adopt_links_of_notMem _ _ fun har => hdr har ha,
      LinkHeap.adopt_links_of_notMem _ _ fun hal => hdl hal (List.mem_append_right _ ha)]
  · rw [LinkHeap.adopt_root, LinkHeap.adopt_root]
    exact LinkHeap.relink_root (h := h₁) hroot z
  · refine (hperm z).nodup_iff.mpr ?_
    simp only [List.nodup_cons, List.mem_cons, List.mem_append, not_or]
    exact ⟨⟨Ne.symm hz0, h0l, h0r, h0p⟩, ⟨hzl, hzr, hzp⟩, hnlr⟩

/-- A new node at an empty place. -/
theorem LinkedAt.link (hat : LinkedAt h .nil path) (hz : z ∉ (0 : A) :: nodesAround path) :
    LinkedAt ((h.set z ⟨top path, 0, 0, .red⟩).relink path z) (.node .red .nil z .nil) path := by
  obtain ⟨-, haround, hroot, hnodup⟩ := hat
  rw [RbTree.toList_nil, List.nil_append] at hnodup
  obtain ⟨hz0, hzp⟩ := not_or.mp (mt List.mem_cons.mpr hz)
  have hnew : Around (h.set z ⟨top path, 0, 0, .red⟩).links 0 path :=
    haround.congr fun a ha => LinkHeap.set_links_of_ne _ _ (ne_of_mem_of_not_mem ha hzp)
  refine ⟨⟨?_, trivial, trivial⟩, LinkHeap.around_relink hnew (List.nodup_cons.mp hnodup).2 z,
    LinkHeap.relink_root (h := h.set z _) hroot z, ?_⟩
  · rw [LinkHeap.relink_links_of_notMem _ _ hzp, LinkHeap.set_links_self]
    rfl
  · have hperm : ((0 : A) :: z :: nodesAround path).Perm (z :: 0 :: nodesAround path) := .swap _ _ _
    exact hperm.nodup_iff.mpr (List.nodup_cons.mpr ⟨hz, hnodup⟩)

end Rules

end Linked

end LustreSimulator.Lib
