import LustreSimulator.Proofs.LinkedRbtree

/-!
# `LustreSimulator.Proofs.RbtreeRepair`: the two repairs in memory

`rb_insert_color` and `__rb_erase_color` follow pointers in memory, and
`Rbtree.rbInsertColor` and `Rbtree.rbEraseColor` do the same on a tree. When the memory holds the
tree, the first pair leaves what the second pair gives.

* `rbInsertRotate_eq`, `gives_rbRecolor` and `rbEraseStep_eq` are the turns of the loops. Which
  branch the source takes is found out from the links.
* `gives_rbInsertColor` and `gives_rbEraseColor` are the loops, by induction on the path up.
-/

set_option autoImplicit false

namespace LustreSimulator.LinkedRbtree

open Lib

variable {α : Type} {s : LinkedRbtree α} {t node : RbTree RbPtr} {F P G : Frame RbPtr}
  {rest path : List (Frame RbPtr)}

/-! ### Colours of a node on the path -/

theorem color_black {c : Color} (h : ¬c = .red) : c = .black := by
  cases c with
  | red => exact absurd rfl h
  | black => rfl

/-- The node of a frame gets another colour. -/
theorem gives_plug_color (hat : LinkedAt s.heap (F.plug t) path) (c : Color)
    {g : RbNode α → RbNode α} (hentry : ∀ n, (g n).rbEntry = n.rbEntry)
    (hlinks : ∀ n, (g n).links = { n.links with color := c }) :
    Gives s (s.modify F.entry g) fun s' =>
      LinkedAt s'.heap (({ F with color := c } : Frame RbPtr).plug t) path := by
  have hset := gives_color hat (hat.ptr_ne_zero (plug_ne_nil F t)) c hentry hlinks
  rwa [ptr_plug, RbTree.setColor_plug] at hset

theorem gives_plug_setBlack (hat : LinkedAt s.heap (F.plug t) path) :
    Gives s (s.modify F.entry .rbSetBlack) fun s' =>
      LinkedAt s'.heap (({ F with color := .black } : Frame RbPtr).plug t) path :=
  gives_plug_color hat .black (fun _ => rfl) RbNode.links_rbSetBlack

theorem gives_plug_setRed (hat : LinkedAt s.heap (F.plug t) path) :
    Gives s (s.modify F.entry .rbSetRed) fun s' =>
      LinkedAt s'.heap (({ F with color := .red } : Frame RbPtr).plug t) path :=
  gives_plug_color hat .red (fun _ => rfl) RbNode.links_rbSetRed

/-- The colour of the parent. -/
theorem isRed_entry (hat : LinkedAt s.heap t (F :: path)) :
    s.isRed F.entry = (F.color == .red) := by
  have hred := isRed_eq ((linkedAt_cons _ _ _ _).mp hat)
  rwa [ptr_plug, isRed_plug] at hred

/-- A node below a parent finds out which child it is, by a look at the left one. -/
theorem rbLeft_eq_iff (hat : LinkedAt s.heap t (F :: path)) (hne : t ≠ .nil ∨ F.sibling ≠ .nil) :
    (s.mem F.entry).rbLeft = ptr t ↔ F.side = .left := by
  have hup := (linkedAt_cons _ _ _ _).mp hat
  have hchild := child_eq hup
  have hflip := child_flip_eq hup
  cases hside : F.side with
  | left =>
      rw [hside] at hchild
      exact iff_of_true hchild rfl
  | right =>
      rw [hside] at hflip
      refine iff_of_false (fun heq => ?_) nofun
      obtain ⟨ht, hs⟩ := hat.eq_nil_of_ptr_eq (heq.symm.trans hflip)
      exact hne.elim (absurd ht) (absurd hs)

/-! ### `rb_insert_color` -/

/-- A turn with a red uncle recolours three nodes. -/
theorem gives_rbRecolor (hat : LinkedAt s.heap node (P :: G :: rest)) (hu : G.sibling ≠ .nil) :
    Gives s (s.rbRecolor (ptr G.sibling) P.entry G.entry) fun s' => LinkedAt s'.heap
      (({ G with color := .red, sibling := G.sibling.setBlack } : Frame RbPtr).plug
        (({ P with color := .black } : Frame RbPtr).plug node)) rest := by
  obtain ⟨side, c, g, u⟩ := G
  have hgp := (linkedAt_cons _ _ _ _).mp hat
  have huncle := (linkedAt_flip _ _ _ _ _ _ _).mp hgp
  refine (gives_setBlack huncle (huncle.ptr_ne_zero hu)).bind fun s₁ h₁ => ?_
  have hparent : LinkedAt s₁.heap (P.plug node) (⟨side, c, g, u.setBlack⟩ :: rest) :=
    (linkedAt_flip _ _ _ _ _ _ _).mpr h₁
  refine (gives_plug_setBlack hparent).bind fun s₂ h₂ => ?_
  exact gives_plug_setRed ((linkedAt_cons _ _ _ _).mp h₂)

/-- The rotation over the grandparent. -/
theorem gives_rbRaiseParent {side : Side} {pc gc : Color} {p g : RbPtr} {sib u : RbTree RbPtr}
    (hat : LinkedAt s.heap node (⟨side, pc, p, sib⟩ :: ⟨side, gc, g, u⟩ :: rest)) :
    Gives s (s.rbRaiseParent side p g) fun s' => LinkedAt s'.heap node
      (⟨side, .black, p, (⟨side.flip, .red, g, sib⟩ : Frame RbPtr).plug u⟩ :: rest) := by
  refine (gives_plug_setBlack ((linkedAt_cons _ _ _ _).mp hat)).bind fun s₁ h₁ => ?_
  refine (gives_plug_setRed ((linkedAt_cons _ _ _ _).mp h₁)).bind fun s₂ h₂ => ?_
  rw [Frame.plug_flip, Frame.plug_flip side] at h₂
  refine (gives_rotateAt h₂).imp fun s₃ h₃ => ?_
  rw [← Frame.plug_flip side] at h₃
  exact (linkedAt_cons _ _ _ _).mpr h₃

/-- A turn without a red uncle. The loop goes on at `N`, below a black node. -/
theorem rbInsertRotate_eq (hat : LinkedAt s.heap node (P :: G :: rest)) (hne : node ≠ .nil) :
    ∃ s' N F, s.rbInsertRotate G.side (ptr node) P.entry G.entry = some (s', ptr N) ∧
      s.Keeps s' ∧ LinkedAt s'.heap N (F :: rest) ∧ F.color = .black ∧ N ≠ .nil ∧
      Rbtree.rbInsertRotate node P G = some (F.plug N) := by
  have hread := (linkedAt_cons _ _ _ _).mp hat
  obtain ⟨ps, pc, p, sib⟩ := P
  obtain ⟨side, gc, g, u⟩ := G
  unfold rbInsertRotate
  rw [node?_eq hread]
  by_cases hside : ps = side
  · -- an outer node
    subst hside
    have houter : (s.mem p).child ps.flip ≠ ptr node := by
      rw [child_flip_eq hread]
      exact fun h => hne (hat.eq_nil_of_ptr_eq h.symm).1
    obtain ⟨s', hs', hk, h'⟩ := gives_rbRaiseParent hat
    refine ⟨s', node, _, ?_, hk, h', rfl, hne, by cases ps <;> rfl⟩
    simp only [Option.bind_eq_bind, Option.bind_some, if_neg houter, hs']
  · -- an inner node comes up first, and its parent goes on as the node
    obtain rfl : ps = side.flip := by
      revert hside
      cases ps <;> cases side <;> simp [Side.flip]
    have hinner : (s.mem p).child side.flip = ptr node := child_eq hread
    obtain ⟨nc, x, o, i, rfl⟩ := exists_plug side hne
    rw [Frame.plug_flip, Side.flip_flip] at hread
    obtain ⟨s₁, hs₁, hk₁, h₁⟩ := gives_rotateAt hread
    obtain ⟨s₂, hs₂, hk₂, h₂⟩ := gives_rbRaiseParent ((linkedAt_cons _ _ _ _).mpr h₁)
    refine ⟨s₂, _, _, ?_, hk₁.trans hk₂, h₂, rfl, ?_, by cases side <;> rfl⟩
    · rw [ptr_plug] at hinner ⊢
      simp only [Option.bind_eq_bind, Option.bind_some, if_pos hinner, hs₁, hs₂, ptr_plug]
    · cases side <;> simp [Frame.plug]

/-- The loop ends below a black node or at the root. -/
theorem gives_rbInsertColor_end (hat : LinkedAt s.heap node path) (hne : node ≠ .nil)
    (hblack : ∀ F fs, path = F :: fs → F.color = .black) (fuel : Nat) :
    Gives s (s.rbInsertColor (fuel + 1) (ptr node)) fun s' =>
      Linked s'.heap (zip node path).setBlack := by
  have htop : s.isRed (top path) = false := by
    cases path with
    | nil => rfl
    | cons F fs =>
        rw [top, isRed_entry hat, hblack F fs rfl]
        rfl
  unfold rbInsertColor
  rw [node?_ptr hat hne, Option.bind_eq_bind, Option.bind_some, rbParent_ptr hat hne]
  simp only [htop]
  exact gives_setBlack_root hat hne

/-- A turn of the loop, below a red node. -/
theorem rbInsertColor_turn (hat : LinkedAt s.heap node (P :: G :: rest)) (hne : node ≠ .nil)
    (hred : P.color = .red) (fuel : Nat) :
    s.rbInsertColor (fuel + 1) (ptr node) =
      if G.sibling.isRed then
        (s.rbRecolor (ptr G.sibling) P.entry G.entry).bind fun s => s.rbInsertColor fuel G.entry
      else
        (s.rbInsertRotate G.side (ptr node) P.entry G.entry).bind fun r =>
          r.1.rbInsertColor fuel r.2 := by
  have hP := (linkedAt_cons _ _ _ _).mp hat
  have hG := (linkedAt_cons _ _ _ _).mp hP
  have hisRed : s.isRed P.entry = true := by
    rw [isRed_entry hat, hred]
    rfl
  have hside : (if P.entry = (s.mem G.entry).rbLeft then Side.left else .right) = G.side := by
    have hleft := rbLeft_eq_iff hP (.inl (plug_ne_nil P node))
    rw [ptr_plug, eq_comm] at hleft
    rw [if_congr hleft rfl rfl]
    cases G.side <;> rfl
  have huncle : s.isRed (ptr G.sibling) = G.sibling.isRed :=
    isRed_eq ((linkedAt_flip _ G.side G.color G.entry G.sibling _ _).mp hP)
  have hparent : (s.mem (ptr node)).rbParent = P.entry := rbParent_ptr hat hne
  have hgparent : (s.mem P.entry).rbParent = G.entry := rbParent_eq hP
  rw [rbInsertColor, node?_ptr hat hne, Option.bind_eq_bind, Option.bind_some, hparent,
    if_pos hisRed, node?_eq hP, Option.bind_eq_bind, Option.bind_some, hgparent]
  dsimp only
  rw [node?_eq hG, Option.bind_some, hside, child_flip_eq hG, huncle]
  rfl

/-- `rb_insert_color` does what it does on a tree. -/
theorem gives_rbInsertColor {T : RbTree RbPtr} {fuel : Nat} (hat : LinkedAt s.heap node path)
    (hne : node ≠ .nil) (hfuel : path.length < fuel)
    (hT : Rbtree.rbInsertColor node path = some T) :
    Gives s (s.rbInsertColor fuel (ptr node)) fun s' => Linked s'.heap T := by
  obtain ⟨fuel, rfl⟩ : ∃ n, fuel = n + 1 := ⟨fuel - 1, by omega⟩
  -- a turn takes the node two steps up or below a black node, so the path bounds the turns
  induction node, path using Rbtree.rbInsertColor.induct generalizing s fuel with
  | case1 node =>
      cases hT
      exact gives_rbInsertColor_end hat hne (by rintro F fs ⟨⟩) fuel
  | case2 node parent hred =>
      rw [Rbtree.rbInsertColor, if_pos hred] at hT
      cases hT
  | case3 node parent hblack =>
      rw [Rbtree.rbInsertColor, if_neg hblack] at hT
      cases hT
      exact gives_rbInsertColor_end hat hne (by rintro F fs ⟨⟩; exact color_black hblack) fuel
  | case4 node parent gparent rest hred hunc ih =>
      rw [Rbtree.rbInsertColor, if_pos hred, if_pos hunc] at hT
      rw [rbInsertColor_turn hat hne hred, if_pos hunc]
      refine (gives_rbRecolor hat (RbTree.ne_nil_of_isRed hunc)).bind fun s₁ h₁ => ?_
      simp only [List.length_cons] at hfuel
      obtain ⟨fuel, rfl⟩ : ∃ n, fuel = n + 1 := ⟨fuel - 1, by omega⟩
      have hgo := ih h₁ (plug_ne_nil _ _) hT fuel (by omega)
      rwa [ptr_plug] at hgo
  | case5 node parent gparent rest hred hunc =>
      rw [Rbtree.rbInsertColor, if_pos hred, if_neg hunc] at hT
      rw [rbInsertColor_turn hat hne hred, if_neg hunc]
      obtain ⟨s₁, N, F, hs₁, hk, h₁, hF, hN, htop⟩ := rbInsertRotate_eq hat hne
      rw [htop] at hT
      cases hT
      rw [hs₁, Option.bind_some]
      simp only [List.length_cons] at hfuel
      obtain ⟨fuel, rfl⟩ : ∃ n, fuel = n + 1 := ⟨fuel - 1, by omega⟩
      obtain ⟨s₂, hs₂, hk₂, h₂⟩ := gives_rbInsertColor_end h₁ hN (by
        rintro F' fs ⟨⟩
        exact hF) fuel
      exact ⟨s₂, hs₂, hk.trans hk₂, h₂⟩
  | case6 node parent gparent rest hblack =>
      rw [Rbtree.rbInsertColor, if_neg hblack] at hT
      cases hT
      exact gives_rbInsertColor_end hat hne (by rintro F fs ⟨⟩; exact color_black hblack) fuel

/-! ### `__rb_erase_color` -/

section Erase

variable {side : Side} {pc oc : Color} {p x y : RbPtr} {near far near' : RbTree RbPtr}

/-- The places around a sibling. -/
theorem linkedAt_sibling (hat : LinkedAt s.heap node
      (⟨side, pc, p, (⟨side, oc, x, far⟩ : Frame RbPtr).plug near⟩ :: rest)) :
    LinkedAt s.heap ((⟨side, oc, x, far⟩ : Frame RbPtr).plug near)
      (⟨side.flip, pc, p, node⟩ :: rest) := (linkedAt_flip _ _ _ _ _ _ _).mp hat

/-- A red sibling is rotated over the parent. -/
theorem rbRotateSibling_red (hat : LinkedAt s.heap node
      (⟨side, pc, p, (⟨side, .red, x, far⟩ : Frame RbPtr).plug near⟩ :: rest)) :
    ∃ s', s.rbRotateSibling side p x = some (s', ptr near) ∧ s.Keeps s' ∧
      LinkedAt s'.heap node (⟨side, .red, p, near⟩ :: ⟨side, .black, x, far⟩ :: rest) := by
  have hread := linkedAt_sibling hat
  have hred : (s.mem x).rbIsRed = true := by
    rw [rbIsRed_eq hread]
    rfl
  obtain ⟨s₁, hs₁, hk₁, h₁⟩ := gives_plug_setBlack hread
  obtain ⟨s₂, hs₂, hk₂, h₂⟩ :=
    gives_plug_setRed ((linkedAt_cons _ _ _ _).mp ((linkedAt_flip _ _ _ _ _ _ _).mpr h₁))
  obtain ⟨s₃, hs₃, hk₃, h₃⟩ := gives_rotateAt h₂
  have hparent := (linkedAt_cons _ _ _ _).mpr h₃
  refine ⟨s₃, ?_, (hk₁.trans hk₂).trans hk₃, (linkedAt_cons _ _ _ _).mpr hparent⟩
  dsimp only at hs₁ hs₂
  simp only [rbRotateSibling, node?_eq hread, hred, if_true, hs₁, hs₂, hs₃, node?_eq hparent,
    child_flip_eq hparent, Option.bind_eq_bind, Option.bind_some]

/-- A sibling that is not red stays. -/
theorem rbRotateSibling_black (hat : LinkedAt s.heap node
      (⟨side, pc, p, (⟨side, .black, x, far⟩ : Frame RbPtr).plug near⟩ :: rest)) :
    s.rbRotateSibling side p x = some (s, x) := by
  have hread := linkedAt_sibling hat
  have hblack : (s.mem x).rbIsRed = false := by
    rw [rbIsRed_eq hread]
    rfl
  simp only [rbRotateSibling, node?_eq hread, hblack, Option.bind_eq_bind, Option.bind_some]
  rfl

/-- The inner red child of the sibling is rotated over it. -/
theorem rbRotateInner_near {nc : Color} {nu nb : RbTree RbPtr} (hat : LinkedAt s.heap node
      (⟨side, pc, p, (⟨side, oc, x, far⟩ : Frame RbPtr).plug
        ((⟨side.flip, nc, y, nu⟩ : Frame RbPtr).plug nb)⟩ :: rest)) (hfar : far.isRed = false) :
    ∃ s', s.rbRotateInner side p x = some (s', y) ∧ s.Keeps s' ∧ LinkedAt s'.heap node
      (⟨side, pc, p, (⟨side, .black, y, (⟨side.flip, .red, x, nb⟩ : Frame RbPtr).plug far⟩ :
        Frame RbPtr).plug nu⟩ :: rest) := by
  have hread := linkedAt_sibling hat
  have hnear := (linkedAt_cons _ _ _ _).mpr hread
  have hfarRed : s.isRed (ptr far) = false := by
    rw [isRed_eq ((linkedAt_flip _ _ _ _ _ _ _).mp hnear), hfar]
  obtain ⟨s₁, hs₁, hk₁, h₁⟩ := gives_blacken hnear
  rw [ptr_plug] at hs₁
  rw [← RbTree.setColor_black, RbTree.setColor_plug] at h₁
  -- the inner child is the other child seen from the sibling, so the rotation is to the other side
  obtain ⟨s₂, hs₂, hk₂, h₂⟩ := gives_plug_setRed ((linkedAt_cons _ _ _ _).mp h₁)
  dsimp only at hs₂ h₂
  rw [Frame.plug_flip] at h₂
  obtain ⟨s₃, hs₃, hk₃, h₃⟩ := gives_rotateAt h₂
  rw [← Frame.plug_flip side] at h₃
  have hback := (linkedAt_flip _ _ _ _ _ _ _).mpr h₃
  have hparent := (linkedAt_cons _ _ _ _).mp hback
  refine ⟨s₃, ?_, (hk₁.trans hk₂).trans hk₃, hback⟩
  simp only [rbRotateInner, node?_eq hread, child_flip_eq hread, child_eq hread, hfarRed, ptr_plug,
    hs₁, hs₂, hs₃, node?_eq hparent, child_flip_eq hparent, Option.bind_eq_bind, Option.bind_some,
    Bool.false_eq_true, if_false]

/-- A sibling with an outer red child stays. -/
theorem rbRotateInner_far (hat : LinkedAt s.heap node
      (⟨side, pc, p, (⟨side, oc, x, far⟩ : Frame RbPtr).plug near⟩ :: rest))
    (hfar : far.isRed = true) : s.rbRotateInner side p x = some (s, x) := by
  have hread := linkedAt_sibling hat
  have hfarRed : s.isRed (ptr far) = true := by
    rw [isRed_eq ((linkedAt_flip _ _ _ _ _ _ _).mp ((linkedAt_cons _ _ _ _).mpr hread)), hfar]
  simp only [rbRotateInner, node?_eq hread, child_flip_eq hread, hfarRed, if_true,
    Option.bind_eq_bind, Option.bind_some]

/-- The last rotation. -/
theorem gives_rbRotateOuter (hat : LinkedAt s.heap node
      (⟨side, pc, p, (⟨side, oc, x, far⟩ : Frame RbPtr).plug near⟩ :: rest)) :
    Gives s (s.rbRotateOuter side p x) fun s' => LinkedAt s'.heap
      ((⟨side, pc, x, far.setBlack⟩ : Frame RbPtr).plug
        ((⟨side, .black, p, near⟩ : Frame RbPtr).plug node)) rest := by
  have hread := linkedAt_sibling hat
  have hp := (linkedAt_cons _ _ _ _).mp hat
  have hcolor : RbNode.colorOf (s.mem p).rbColor = pc := color_eq hp
  -- the sibling takes over the colour of the parent
  have hsibling := gives_plug_color hread pc (g := .rbSetColor (s.mem p).rbColor)
    (fun _ => rfl) fun n => by
      rw [RbNode.links_rbSetColor, ← hcolor]
      rfl
  unfold rbRotateOuter
  rw [node?_eq hp, Option.bind_eq_bind, Option.bind_some]
  refine hsibling.bind fun s₁ h₁ => ?_
  have hparent := (linkedAt_cons _ _ _ _).mp ((linkedAt_flip _ _ _ _ _ _ _).mpr h₁)
  refine (gives_plug_setBlack hparent).bind fun s₂ h₂ => ?_
  have hread₂ := linkedAt_sibling ((linkedAt_cons _ _ _ _).mpr h₂)
  have hfar := (linkedAt_flip _ _ _ _ _ _ _).mp ((linkedAt_cons _ _ _ _).mpr hread₂)
  rw [node?_eq hread₂, Option.bind_eq_bind, Option.bind_some, child_flip_eq hread₂]
  refine (gives_blacken hfar).bind fun s₃ h₃ => ?_
  -- back from the outer child to the parent, and over it
  have hback := (linkedAt_cons _ _ _ _).mp ((linkedAt_flip _ side _ _ _ _ _).mpr h₃)
  exact gives_rotateAt ((linkedAt_cons _ _ _ _).mp ((linkedAt_flip _ _ _ _ _ _ _).mpr hback))

/-- A turn on a tree: both children of the sibling are black. -/
theorem rbEraseStep_black (hnear : near.isRed = false) (hfar : far.isRed = false) :
    Rbtree.rbEraseStep node ⟨side, pc, p, (⟨side, oc, x, far⟩ : Frame RbPtr).plug near⟩ =
      some ((⟨side, pc, p, (⟨side, .red, x, far⟩ : Frame RbPtr).plug near⟩ : Frame RbPtr).plug node,
        true) := by
  cases side <;> simp [Rbtree.rbEraseStep, Frame.plug, hnear, hfar]

/-- A turn on a tree: the outer child of the sibling is red. -/
theorem rbEraseStep_far (hfar : far.isRed = true) :
    Rbtree.rbEraseStep node ⟨side, pc, p, (⟨side, oc, x, far⟩ : Frame RbPtr).plug near⟩ =
      some ((⟨side, pc, x, far.setBlack⟩ : Frame RbPtr).plug
        ((⟨side, .black, p, near⟩ : Frame RbPtr).plug node), false) := by
  cases side <;>
    simp [Rbtree.rbEraseStep, Rbtree.rbRotateLeft, Rbtree.rbRotateRight, Frame.plug, hfar]

/-- A turn on a tree: only the inner child of the sibling is red. -/
theorem rbEraseStep_near {nu nb : RbTree RbPtr} (hfar : far.isRed = false) :
    Rbtree.rbEraseStep node ⟨side, pc, p, (⟨side, oc, x, far⟩ : Frame RbPtr).plug
        ((⟨side.flip, .red, y, nu⟩ : Frame RbPtr).plug nb)⟩ =
      some ((⟨side, pc, y, (⟨side.flip, .black, x, nb⟩ : Frame RbPtr).plug far⟩ : Frame RbPtr).plug
        ((⟨side, .black, p, nu⟩ : Frame RbPtr).plug node), false) := by
  cases side <;>
    simp [Rbtree.rbEraseStep, Rbtree.rbRotateLeft, Rbtree.rbRotateRight, Frame.plug, Side.flip,
      hfar]

/-- A turn with a black sibling. -/
theorem rbEraseStep_eq {u : RbTree RbPtr} {more : Bool} (hat : LinkedAt s.heap node (P :: rest))
    (hsib : P.sibling ≠ .nil) (hu : Rbtree.rbEraseStep node P = some (u, more)) :
    ∃ s', s.rbEraseStep P.side P.entry (ptr P.sibling) = some (s', more) ∧ s.Keeps s' ∧
      LinkedAt s'.heap u rest ∧
      (more = true → ptr u = P.entry ∧ u ≠ .nil ∧ (P.color = .red → u.isRed = true)) := by
  obtain ⟨side, pc, p, sib⟩ := P
  obtain ⟨oc, x, far, near, rfl⟩ := exists_plug side hsib
  have hread := linkedAt_sibling hat
  have hnear := (linkedAt_cons _ _ _ _).mpr hread
  have hfar := (linkedAt_flip _ _ _ _ _ _ _).mp hnear
  -- the two children are tested from left to right
  have htest : (!s.isRed (s.mem x).rbLeft ∧ !s.isRed (s.mem x).rbRight) ↔
      near.isRed = false ∧ far.isRed = false := by
    have h₁ : s.isRed ((s.mem x).child side) = near.isRed := by
      rw [child_eq hread, isRed_eq hnear]
    have h₂ : s.isRed ((s.mem x).child side.flip) = far.isRed := by
      rw [child_flip_eq hread, isRed_eq hfar]
    rw [← h₁, ← h₂]
    cases side with
    | left => simp [RbNode.child, Side.flip]
    | right => simp [RbNode.child, Side.flip, and_comm]
  unfold rbEraseStep
  rw [ptr_plug, node?_eq hread, Option.bind_eq_bind, Option.bind_some, if_congr htest rfl rfl]
  dsimp only
  -- the branches of the source, from the first
  by_cases hboth : near.isRed = false ∧ far.isRed = false
  · rw [rbEraseStep_black hboth.1 hboth.2] at hu
    cases hu
    obtain ⟨s', hs', hk, h'⟩ := gives_plug_setRed hread
    refine ⟨s', ?_, hk, (linkedAt_cons _ _ _ _).mp ((linkedAt_flip _ _ _ _ _ _ _).mpr h'),
      fun _ => ⟨ptr_plug _ _, plug_ne_nil _ _, ?_⟩⟩
    · rw [if_pos hboth, hs']
      rfl
    · rintro rfl
      cases side <;> rfl
  · rw [if_neg hboth]
    cases hfarRed : far.isRed with
    | true =>
        rw [rbEraseStep_far hfarRed] at hu
        cases hu
        obtain ⟨s', hs', hk, h'⟩ := gives_rbRotateOuter hat
        refine ⟨s', ?_, hk, h', fun h => absurd h Bool.false_ne_true⟩
        rw [rbRotateInner_far hat hfarRed]
        simp only [Option.bind_eq_bind, Option.bind_some, hs']
    | false =>
        have hnearRed : near.isRed = true := by
          rw [← Bool.not_eq_false]
          exact fun h => hboth ⟨h, hfarRed⟩
        obtain ⟨nc, y, nu, nb, rfl⟩ := exists_plug side.flip (RbTree.ne_nil_of_isRed hnearRed)
        rw [isRed_plug] at hnearRed
        obtain rfl : nc = .red := eq_of_beq hnearRed
        rw [rbEraseStep_near hfarRed] at hu
        cases hu
        obtain ⟨s₁, hs₁, hk₁, h₁⟩ := rbRotateInner_near hat hfarRed
        obtain ⟨s', hs', hk, h'⟩ := gives_rbRotateOuter h₁
        refine ⟨s', ?_, hk₁.trans hk, ?_, fun h => absurd h Bool.false_ne_true⟩
        · rw [hs₁]
          simp only [Option.bind_eq_bind, Option.bind_some, hs']
        · have hblack : ((⟨side.flip, .red, x, nb⟩ : Frame RbPtr).plug far).setBlack =
              (⟨side.flip, .black, x, nb⟩ : Frame RbPtr).plug far := by
            rw [← RbTree.setColor_black, RbTree.setColor_plug]
          rwa [hblack] at h'

/-- The loop ends at a red node or at the root. -/
theorem gives_rbEraseColor_end (hat : LinkedAt s.heap node path)
    (hend : path = [] ∨ node.isRed = true) (fuel : Nat) (parent : RbPtr) :
    Gives s (s.rbEraseColor (fuel + 1) (ptr node) parent) fun s' =>
      Linked s'.heap (zip node.setBlack path) := by
  have htest : ¬(!s.isRed (ptr node) ∧ ptr node ≠ s.root) := by
    rintro ⟨hred, hroot⟩
    rcases hend with rfl | hnode
    · exact hroot hat.root.symm
    · rw [isRed_eq hat, hnode] at hred
      cases hred
  rw [rbEraseColor, if_neg htest]
  exact (gives_blacken hat).imp fun s' h' => (linkedAt_iff _ _ _).mp h'

/-- A turn of the loop, at a black node below a parent. -/
theorem rbEraseColor_turn (hat : LinkedAt s.heap node (P :: rest)) (hred : node.isRed = false)
    (hsib : P.sibling ≠ .nil) (fuel : Nat) :
    s.rbEraseColor (fuel + 1) (ptr node) P.entry =
      (s.rbRotateSibling P.side P.entry (ptr P.sibling)).bind fun r =>
        (r.1.rbEraseStep P.side P.entry r.2).bind fun q =>
          if q.2 then (q.1.node? P.entry).bind fun n => q.1.rbEraseColor fuel P.entry n.rbParent
          else q.1.blacken q.1.root := by
  have hP := (linkedAt_cons _ _ _ _).mp hat
  have htest : !s.isRed (ptr node) ∧ ptr node ≠ s.root := by
    refine ⟨?_, hat.ptr_ne_root⟩
    rw [isRed_eq hat, hred]
    rfl
  have hside : (if (s.mem P.entry).rbLeft = ptr node then Side.left else .right) = P.side := by
    rw [if_congr (rbLeft_eq_iff hat (.inr hsib)) rfl rfl]
    cases P.side <;> rfl
  rw [rbEraseColor, if_pos htest, node?_eq hP, Option.bind_eq_bind, Option.bind_some, hside]
  dsimp only
  rw [child_flip_eq hP]
  rfl

/-- The rest of a turn, after a red sibling was rotated. -/
theorem gives_rbEraseStep {u T : RbTree RbPtr} {more : Bool} {k : Nat}
    (hat : LinkedAt s.heap node (P :: rest)) (hu : Rbtree.rbEraseStep node P = some (u, more))
    (hgo : more = true → (P.color = .red → u.isRed = true) → ∀ s' : LinkedRbtree α,
      LinkedAt s'.heap u rest →
        Gives s' (s'.rbEraseColor k (ptr u) (top rest)) fun s' => Linked s'.heap T)
    (hstop : more = false → T = (zip u rest).setBlack) :
    Gives s ((s.rbEraseStep P.side P.entry (ptr P.sibling)).bind fun q =>
      if q.2 then (q.1.node? P.entry).bind fun n => q.1.rbEraseColor k P.entry n.rbParent
      else q.1.blacken q.1.root) fun s' => Linked s'.heap T := by
  have hsib : P.sibling ≠ .nil := by
    intro h
    rw [Rbtree.rbEraseStep, h] at hu
    cases hu
  obtain ⟨s₁, hs₁, hk, h₁, hmore⟩ := rbEraseStep_eq hat hsib hu
  rw [hs₁, Option.bind_some]
  have hafter : Gives s₁ (if more then (s₁.node? P.entry).bind fun n =>
      s₁.rbEraseColor k P.entry n.rbParent else s₁.blacken s₁.root) fun s' =>
        Linked s'.heap T := by
    cases more with
    | false =>
        rw [hstop rfl]
        exact gives_blacken_root h₁
    | true =>
        obtain ⟨hptr, hne, hred⟩ := hmore rfl
        rw [if_pos rfl, ← hptr, node?_ptr h₁ hne, Option.bind_some, rbParent_ptr h₁ hne]
        exact hgo rfl hred s₁ h₁
  obtain ⟨s₂, hs₂, hk₂, h₂⟩ := hafter
  exact ⟨s₂, hs₂, hk.trans hk₂, h₂⟩

/-- A turn on a tree with a red sibling. -/
theorem rbEraseColor_red (hred : node.isRed = false) :
    Rbtree.rbEraseColor node
        (⟨side, pc, p, (⟨side, .red, x, far⟩ : Frame RbPtr).plug near⟩ :: rest) =
      (Rbtree.rbEraseStep node ⟨side, .red, p, near⟩).bind fun r =>
        if r.2 then some (zip r.1.setBlack (⟨side, .black, x, far⟩ :: rest))
        else some (zip r.1 (⟨side, .black, x, far⟩ :: rest)).setBlack := by
  rw [Rbtree.rbEraseColor, if_neg (ne_true_of_eq_false hred)]
  cases side <;> rfl

/-- A turn on a tree with a black sibling. -/
theorem rbEraseColor_black (hred : node.isRed = false) :
    Rbtree.rbEraseColor node
        (⟨side, pc, p, (⟨side, .black, x, far⟩ : Frame RbPtr).plug near⟩ :: rest) =
      (Rbtree.rbEraseStep node
        ⟨side, pc, p, (⟨side, .black, x, far⟩ : Frame RbPtr).plug near⟩).bind fun r =>
        if r.2 then Rbtree.rbEraseColor r.1 rest else some (zip r.1 rest).setBlack := by
  rw [Rbtree.rbEraseColor, if_neg (ne_true_of_eq_false hred)]
  cases side <;> rfl

/-- `__rb_erase_color` does what it does on a tree. -/
theorem gives_rbEraseColor {T : RbTree RbPtr} {fuel : Nat} (hat : LinkedAt s.heap node path)
    (hfuel : path.length < fuel) (hT : Rbtree.rbEraseColor node path = some T) :
    Gives s (s.rbEraseColor fuel (ptr node) (top path)) fun s' => Linked s'.heap T := by
  obtain ⟨fuel, rfl⟩ : ∃ n, fuel = n + 1 := ⟨fuel - 1, by omega⟩
  induction path generalizing s node fuel with
  | nil =>
      cases hT
      exact gives_rbEraseColor_end hat (.inl rfl) fuel _
  | cons P rest ih =>
      cases hred : node.isRed with
      | true =>
          rw [Rbtree.rbEraseColor, if_pos hred] at hT
          cases hT
          exact gives_rbEraseColor_end hat (.inr hred) fuel _
      | false =>
          rw [List.length_cons] at hfuel
          obtain ⟨fuel, rfl⟩ : ∃ n, fuel = n + 1 := ⟨fuel - 1, by omega⟩
          obtain ⟨side, pc, p, sib⟩ := P
          have hsib : sib ≠ .nil := by
            rintro rfl
            rw [Rbtree.rbEraseColor, if_neg (ne_true_of_eq_false hred)] at hT
            cases hT
          obtain ⟨c, x, far, near, rfl⟩ := exists_plug side hsib
          have hturn := rbEraseColor_turn hat hred (plug_ne_nil _ _) (fuel + 1)
          simp only [ptr_plug] at hturn
          rw [top, hturn]
          cases c with
          | red =>
              -- the rotation puts a red parent above the node, and a loop that goes on ends there
              rw [rbEraseColor_red hred] at hT
              obtain ⟨⟨u, more⟩, hu, hrest⟩ := Option.bind_eq_some_iff.mp hT
              obtain ⟨s₁, hs₁, hk₁, h₁⟩ := rbRotateSibling_red hat
              rw [hs₁, Option.bind_some]
              obtain ⟨s₂, hs₂, hk₂, h₂⟩ := gives_rbEraseStep (k := fuel + 1) (T := T) h₁ hu
                (by
                  rintro rfl hcolor s' h'
                  cases hrest
                  exact gives_rbEraseColor_end h' (.inr (hcolor rfl)) fuel _)
                (by
                  rintro rfl
                  cases hrest
                  rfl)
              exact ⟨s₂, hs₂, hk₁.trans hk₂, h₂⟩
          | black =>
              rw [rbEraseColor_black hred] at hT
              obtain ⟨⟨u, more⟩, hu, hrest⟩ := Option.bind_eq_some_iff.mp hT
              rw [rbRotateSibling_black hat, Option.bind_some]
              have hstep := gives_rbEraseStep (k := fuel + 1) (T := T) hat hu
                (by
                  rintro rfl - s' h'
                  exact ih h' hrest fuel (by omega))
                (by
                  rintro rfl
                  cases hrest
                  rfl)
              rwa [ptr_plug] at hstep

end Erase

end LustreSimulator.LinkedRbtree
