import LustreSimulator.Rbtree

/-!
# `LustreSimulator.Proofs.Rbtree`: what the red-black tree operations do

Each operation of `rbtree.cpp` is described twice: by what it does to the in-order list, which
needs no assumption beyond a result, and by the red-black conditions, which give the result.

* `rbLink_spec` and `rbErase_spec` are the two updates. On a red-black tree they succeed, the
  list changes at one place, and the tree is red-black again.
* `descend_split` says where a descent ends when the comparison splits the list: everything
  before the leaf compares positive and everything after it negative.
* `rbFirst_some`, `rbNext_some` and `rbPrev_some` say that the walks follow the list.
-/

set_option autoImplicit false

namespace LustreSimulator.Rbtree

open Lib

variable {α : Type*}

/-! ### Descent -/

/-- A descent stays in its tree: zipping its end up to the start gives the subtree it started
from. -/
theorem descend_zip (compare : α → Int) (t : RbTree α) (path : List (Frame α)) (rc : Int) :
    ∃ ps, (descend compare t path rc).path = ps ++ path ∧
      zip (descend compare t path rc).focus ps = t := by
  induction t generalizing path rc with
  | nil => exact ⟨[], rfl, rfl⟩
  | node c l x r ihl ihr =>
      simp only [descend]
      split
      · obtain ⟨ps, hps, hz⟩ := ihl (⟨.left, c, x, r⟩ :: path) (compare x)
        refine ⟨ps ++ [⟨.left, c, x, r⟩], ?_, ?_⟩
        · rw [hps, List.append_assoc]
          rfl
        · rw [zip_append, hz]
          rfl
      · split
        · obtain ⟨ps, hps, hz⟩ := ihr (⟨.right, c, x, l⟩ :: path) (compare x)
          refine ⟨ps ++ [⟨.right, c, x, l⟩], ?_, ?_⟩
          · rw [hps, List.append_assoc]
            rfl
          · rw [zip_append, hz]
            rfl
        · exact ⟨[], rfl, rfl⟩

/-- A descent from the root gives the root back when it is zipped up. -/
theorem descend_zip_root (compare : α → Int) (t : RbTree α) (rc : Int) :
    zip (descend compare t [] rc).focus (descend compare t [] rc).path = t := by
  obtain ⟨ps, hps, hz⟩ := descend_zip compare t [] rc
  rw [hps, List.append_nil, hz]

/-- A descent whose last comparison is zero stops at a node that compares zero. Otherwise it
goes on to an empty place. The comparison it starts with must not be zero. -/
theorem descend_focus (compare : α → Int) (t : RbTree α) (path : List (Frame α)) (rc : Int)
    (hrc : rc ≠ 0) :
    ((descend compare t path rc).rc = 0 →
      ∃ c l x r, (descend compare t path rc).focus = .node c l x r ∧ compare x = 0) ∧
    ((descend compare t path rc).rc ≠ 0 → (descend compare t path rc).focus = .nil) := by
  induction t generalizing path rc with
  | nil => exact ⟨fun h => absurd h hrc, fun _ => rfl⟩
  | node c l x r ihl ihr =>
      simp only [descend]
      split
      · exact ihl _ _ (by omega)
      · split
        · exact ihr _ _ (by omega)
        · rename_i h₁ h₂
          have hx : compare x = 0 := by omega
          exact ⟨fun _ => ⟨c, l, x, r, rfl, hx⟩, fun h => absurd hx h⟩

/-- The last comparison of a descent to an empty place is the comparison with the node just
above it, and it tells on which side of that node the place is. -/
theorem descend_parent (compare : α → Int) (t : RbTree α) (path : List (Frame α)) (rc : Int)
    (hpath : ∀ f fs, path = f :: fs →
      (rc < 0 ∧ f.side = .left ∨ 0 < rc ∧ f.side = .right) ∧ compare f.entry = rc)
    (hnil : path = [] → 0 < rc) :
    (descend compare t path rc).rc ≠ 0 →
      (∀ f fs, (descend compare t path rc).path = f :: fs →
        ((descend compare t path rc).rc < 0 ∧ f.side = .left ∨
          0 < (descend compare t path rc).rc ∧ f.side = .right) ∧
        compare f.entry = (descend compare t path rc).rc) ∧
      ((descend compare t path rc).path = [] → 0 < (descend compare t path rc).rc) := by
  induction t generalizing path rc with
  | nil => exact fun _ => ⟨hpath, hnil⟩
  | node c l x r ihl ihr =>
      simp only [descend]
      split
      · rename_i hlt
        refine ihl _ _ ?_ (by simp)
        rintro f fs heq
        cases heq
        exact ⟨.inl ⟨hlt, rfl⟩, rfl⟩
      · split
        · rename_i hgt
          refine ihr _ _ ?_ (by simp)
          rintro f fs heq
          cases heq
          exact ⟨.inr ⟨hgt, rfl⟩, rfl⟩
        · intro h
          exact absurd (show compare x = 0 by omega) h

/-- Where a descent ends: everything before the place is in `P` and everything after it in `Q`, when
going right puts an entry and what is before it into `P`, and going left puts an entry and what
follows it into `Q`. -/
theorem descend_between {P Q : α → Prop} (compare : α → Int) (t : RbTree α) (path : List (Frame α))
    (rc : Int) (hP : ∀ x ∈ t.toList, 0 < compare x → P x) (hQ : ∀ x ∈ t.toList, compare x < 0 → Q x)
    (hsorted : t.toList.Pairwise fun x y => (0 < compare y → P x) ∧ (compare x < 0 → Q y))
    (hb : ∀ x ∈ before path, P x) (ha : ∀ x ∈ after path, Q x) :
    (∀ x ∈ before (descend compare t path rc).path, P x) ∧
    (∀ x ∈ after (descend compare t path rc).path, Q x) := by
  induction t generalizing path rc with
  | nil => exact ⟨hb, ha⟩
  | node c l x r ihl ihr =>
      rw [RbTree.toList_node, List.pairwise_append, List.pairwise_cons] at hsorted
      obtain ⟨hl, ⟨hxr, hr⟩, hlr⟩ := hsorted
      simp only [RbTree.toList_node, List.mem_append, List.mem_cons] at hP hQ
      simp only [descend]
      split
      · rename_i hlt
        refine ihl _ _ (fun y hy => hP y (.inl hy)) (fun y hy => hQ y (.inl hy)) hl
          (by simpa using hb) ?_
        intro y hy
        simp only [after_left, List.cons_append, List.mem_cons, List.mem_append] at hy
        rcases hy with rfl | hy | hy
        · exact hQ y (.inr (.inl rfl)) hlt
        · exact (hxr y hy).2 hlt
        · exact ha y hy
      · split
        · rename_i hgt
          refine ihr _ _ (fun y hy => hP y (.inr (.inr hy))) (fun y hy => hQ y (.inr (.inr hy))) hr ?_
            (by simpa using ha)
          intro y hy
          simp only [before_right, List.mem_append, List.mem_cons, List.not_mem_nil,
            or_false] at hy
          rcases hy with hy | hy | rfl
          · exact hb y hy
          · exact (hlr y hy x List.mem_cons_self).1 hgt
          · exact hP y (.inr (.inl rfl)) hgt
        · exact ⟨hb, ha⟩

/-- `compare` splits the list: what follows an entry that does not compare positive compares
negative. This is what a sorted list gives a descent. -/
def Splits (compare : α → Int) (l : List α) : Prop :=
  l.Pairwise fun x y => compare x ≤ 0 → compare y < 0

/-- Where a descent ends when the comparison splits the list: before the place everything
compares positive, after it everything compares negative. -/
theorem descend_split (compare : α → Int) (t : RbTree α) (path : List (Frame α)) (rc : Int)
    (h : Splits compare t.toList)
    (hb : ∀ x ∈ before path, 0 < compare x) (ha : ∀ x ∈ after path, compare x < 0) :
    (∀ x ∈ before (descend compare t path rc).path, 0 < compare x) ∧
    (∀ x ∈ after (descend compare t path rc).path, compare x < 0) := by
  refine descend_between compare t path rc (fun _ _ h => h) (fun _ _ h => h) (h.imp ?_) hb ha
  -- an entry that is not positive would make what follows it negative
  intro x y hxy
  exact ⟨fun hy => by by_contra hx; have := hxy (by omega); omega, fun hx => hxy (by omega)⟩

/-! ### The in-order list -/

/-- A left rotation keeps the in-order list. -/
theorem toList_rbRotateLeft {t t' : RbTree α} (h : rbRotateLeft t = some t') :
    t'.toList = t.toList := by
  revert h
  fun_cases rbRotateLeft t <;> intro h
  · cases h
    simp
  · cases h

/-- A right rotation keeps the in-order list. -/
theorem toList_rbRotateRight {t t' : RbTree α} (h : rbRotateRight t = some t') :
    t'.toList = t.toList := by
  revert h
  fun_cases rbRotateRight t <;> intro h
  · cases h
    simp
  · cases h

/-- The list of a filled frame depends only on the list of what fills it. -/
theorem toList_plug_congr {t t' : RbTree α} {f f' : Frame α} (hside : f'.side = f.side)
    (hentry : f'.entry = f.entry) (hsib : f'.sibling.toList = f.sibling.toList)
    (h : t'.toList = t.toList) : (f'.plug t').toList = (f.plug t).toList := by
  obtain ⟨side, c, x, s⟩ := f
  obtain ⟨side', c', x', s'⟩ := f'
  obtain rfl : side' = side := hside
  obtain rfl : x' = x := hentry
  cases side' <;> simp_all [Frame.plug]

/-- The rotations of an insertion keep the in-order list. -/
theorem toList_rbInsertRotate {node top : RbTree α} {parent gparent : Frame α}
    (h : rbInsertRotate node parent gparent = some top) :
    top.toList = (gparent.plug (parent.plug node)).toList := by
  obtain ⟨side, c, x, s⟩ := gparent
  cases side with
  | left =>
      rw [rbInsertRotate] at h
      obtain ⟨sub, hsub, htop⟩ := Option.bind_eq_some_iff.mp h
      have hlist : sub.toList = (parent.plug node).toList := by
        split at hsub
        · exact toList_rbRotateLeft hsub
        · cases hsub
          rfl
      rw [toList_rbRotateRight htop]
      simp [Frame.plug, hlist]
  | right =>
      rw [rbInsertRotate] at h
      obtain ⟨sub, hsub, htop⟩ := Option.bind_eq_some_iff.mp h
      have hlist : sub.toList = (parent.plug node).toList := by
        split at hsub
        · exact toList_rbRotateRight hsub
        · cases hsub
          rfl
      rw [toList_rbRotateLeft htop]
      simp [Frame.plug, hlist]

/-- Rebalancing after an insertion keeps the in-order list. -/
theorem toList_rbInsertColor {node t : RbTree α} {path : List (Frame α)}
    (h : rbInsertColor node path = some t) : t.toList = (zip node path).toList := by
  induction node, path using rbInsertColor.induct with
  | case1 node =>
      cases h
      simp
  | case2 node parent hred =>
      rw [rbInsertColor, if_pos hred] at h
      cases h
  | case3 node parent hblack =>
      rw [rbInsertColor, if_neg hblack] at h
      cases h
      simp
  | case4 node parent gparent rest hred hunc ih =>
      rw [rbInsertColor, if_pos hred, if_pos hunc] at h
      rw [ih h, zip_cons, zip_cons, toList_zip, toList_zip]
      congr 2
      exact toList_plug_congr rfl rfl (by simp) (toList_plug_congr rfl rfl rfl rfl)
  | case5 node parent gparent rest hred hunc =>
      rw [rbInsertColor, if_pos hred, if_neg hunc] at h
      obtain ⟨top, htop, ht⟩ := Option.bind_eq_some_iff.mp h
      cases ht
      rw [RbTree.toList_setBlack, zip_cons, zip_cons, toList_zip, toList_zip,
        toList_rbInsertRotate htop]
  | case6 node parent gparent rest hblack =>
      rw [rbInsertColor, if_neg hblack] at h
      cases h
      simp

/-- One turn of the erase loop keeps the in-order list. -/
theorem toList_rbEraseStep {node t : RbTree α} {parent : Frame α} {more : Bool}
    (h : rbEraseStep node parent = some (t, more)) : t.toList = (parent.plug node).toList := by
  obtain ⟨side, c, x, s⟩ := parent
  cases s with
  | nil => cases h
  | node oc ol ox orr =>
      simp only [rbEraseStep] at h
      split at h
      · cases h
        exact toList_plug_congr rfl rfl (by simp) rfl
      · cases side with
        | left =>
            obtain ⟨other, hother, h⟩ := Option.bind_eq_some_iff.mp h
            have hlist : other.toList = ol.toList ++ ox :: orr.toList := by
              split at hother
              · cases hother
                rfl
              · rw [toList_rbRotateRight hother]
                simp
            cases other with
            | nil => cases h
            | node _ ol' ox' orr' =>
                obtain ⟨top, htop, ht⟩ := Option.bind_eq_some_iff.mp h
                cases ht
                rw [toList_rbRotateLeft htop]
                simpa [Frame.plug] using hlist
        | right =>
            obtain ⟨other, hother, h⟩ := Option.bind_eq_some_iff.mp h
            have hlist : other.toList = ol.toList ++ ox :: orr.toList := by
              split at hother
              · cases hother
                rfl
              · rw [toList_rbRotateLeft hother]
                simp
            cases other with
            | nil => cases h
            | node _ ol' ox' orr' =>
                obtain ⟨top, htop, ht⟩ := Option.bind_eq_some_iff.mp h
                cases ht
                rw [toList_rbRotateRight htop]
                have := congrArg (· ++ x :: node.toList) hlist
                simpa [Frame.plug] using this

/-- The list of a zipped tree depends only on the list of the subtree. -/
theorem toList_zip_congr {t t' : RbTree α} {path : List (Frame α)}
    (h : t'.toList = t.toList) : (zip t' path).toList = (zip t path).toList := by
  rw [toList_zip, toList_zip, h]

/-- Rotating a red sibling over the parent keeps the in-order list. -/
theorem toList_rbRotateSibling (parent : Frame α) (ol : RbTree α) (ox : α) (orr u node : RbTree α)
    (hsib : parent.sibling = .node .red ol ox orr)
    (hu : u.toList = ((rbRotateSibling parent ol ox orr).1.plug node).toList) :
    ((rbRotateSibling parent ol ox orr).2.plug u).toList = (parent.plug node).toList := by
  obtain ⟨side, c, x, s⟩ := parent
  obtain rfl : s = _ := hsib
  cases side with
  | left => simp_all [rbRotateSibling, Frame.plug]
  | right => simp_all [rbRotateSibling, Frame.plug]

/-- Rebalancing after an erasure keeps the in-order list. -/
theorem toList_rbEraseColor {node t : RbTree α} {path : List (Frame α)}
    (h : rbEraseColor node path = some t) : t.toList = (zip node path).toList := by
  induction path generalizing node with
  | nil =>
      cases h
      simp
  | cons parent rest ih =>
      rw [rbEraseColor] at h
      split at h
      · cases h
        exact toList_zip_congr (by simp)
      · split at h
        · rename_i ol ox orr hs
          obtain ⟨⟨u, more⟩, hstep, hend⟩ := Option.bind_eq_some_iff.mp h
          have hout := toList_rbRotateSibling parent ol ox orr u node hs (toList_rbEraseStep hstep)
          split at hend <;> cases hend
          · rw [zip_cons, zip_cons]
            refine (toList_zip_congr ?_).trans (toList_zip_congr hout)
            exact toList_plug_congr rfl rfl rfl (by simp)
          · rw [RbTree.toList_setBlack, zip_cons, zip_cons]
            exact toList_zip_congr hout
        · obtain ⟨⟨u, more⟩, hstep, hend⟩ := Option.bind_eq_some_iff.mp h
          have hu := toList_rbEraseStep hstep
          split at hend
          · rw [ih hend]
            exact toList_zip_congr hu
          · cases hend
            rw [RbTree.toList_setBlack]
            exact toList_zip_congr hu

/-! ### The red-black conditions -/

/-- The rotations of an insertion succeed and give a black subtree of the height the path
above needs. -/
theorem rbInsertRotate_balanced {l r : RbTree α} {x : α} {n : Nat} {parent gparent : Frame α}
    (hl : Balanced l .black n) (hr : Balanced r .black n) (hred : parent.color = .red)
    (hp : Balanced parent.sibling .black n) (hu : Balanced gparent.sibling .black n) :
    ∃ top, rbInsertRotate (.node .red l x r) parent gparent = some top ∧
      Balanced top .black (n + 1) := by
  obtain ⟨ps, pc, px, s⟩ := parent
  obtain ⟨gs, gc, gx, u⟩ := gparent
  obtain rfl : pc = .red := hred
  cases gs with
  | left =>
      cases ps with
      | left => exact ⟨_, rfl, .black (.red hl hr) (.red hp hu)⟩
      | right => exact ⟨_, rfl, .black (.red hp hl) (.red hr hu)⟩
  | right =>
      cases ps with
      | left => exact ⟨_, rfl, .black (.red hu hl) (.red hr hp)⟩
      | right => exact ⟨_, rfl, .black (.red hu hp) (.red hl hr)⟩

/-- Rebalancing after an insertion succeeds and gives a red-black tree. The loop carries a red
node with black children of height `n`, under a path that takes a black tree of that height. -/
theorem rbInsertColor_isRedBlack {node : RbTree α} {path : List (Frame α)} {n : Nat}
    (hnode : Balanced node .red n) (hpath : Fits path .black n) :
    ∃ t, rbInsertColor node path = some t ∧ IsRedBlack t := by
  induction node, path using rbInsertColor.induct generalizing n with
  | case1 node => exact ⟨_, rfl, hnode.isRedBlack_setBlack⟩
  | case2 node parent hred =>
      -- a red parent without a grandparent does not fit: the root is black
      cases hpath with
      | red _ hf => cases hf
      | black => cases hred
  | case3 node parent hblack =>
      cases hpath with
      | red => exact absurd rfl hblack
      | @black side x s _ _ cs _ hs hf =>
          have hfit : Fits [(⟨side, .black, x, s⟩ : Frame α)] .red n := .black hs hf
          refine ⟨_, by rw [rbInsertColor, if_neg hblack], ?_⟩
          obtain ⟨m, hm⟩ := hnode.zip hfit
          exact hm.isRedBlack_setBlack
  | case4 node parent gparent rest hred hunc ih =>
      cases hpath with
      | black => cases hred
      | @red side x s _ _ hs hf =>
          cases hf with
          | @black gside gx u _ _ cu _ hu hg =>
              rw [rbInsertColor, if_pos hred, if_pos hunc]
              have hu' : Balanced u.setBlack .black (n + 1) := by
                cases hu with
                | nil => cases hunc
                | red h₁ h₂ => exact .black h₁ h₂
                | black => cases hunc
              refine ih (n := n + 1) ?_ hg
              have hpar : Balanced
                  (({ side := side, color := .black, entry := x, sibling := s } : Frame α).plug
                    node) .black (n + 1) := by
                cases side with
                | left => exact .black hnode hs
                | right => exact .black hs hnode
              cases gside with
              | left => exact .red hpar hu'
              | right => exact .red hu' hpar
  | case5 node parent gparent rest hred hunc =>
      cases hpath with
      | black => cases hred
      | @red side x s _ _ hs hf =>
          cases hf with
          | @black gside gx u _ _ cu _ hu hg =>
              cases hnode with
              | red hl hr =>
                  have huncle : Balanced (Frame.sibling ⟨gside, .black, gx, u⟩) .black _ :=
                    hu.black_of_isRed (by simpa using hunc)
                  obtain ⟨top, htop, hbal⟩ := rbInsertRotate_balanced hl hr hred hs huncle
                  rw [rbInsertColor, if_pos hred, if_neg hunc, htop]
                  obtain ⟨m, hm⟩ := hbal.zip hg
                  exact ⟨_, rfl, hm.isRedBlack_setBlack⟩
  | case6 node parent gparent rest hblack =>
      cases hpath with
      | red => exact absurd rfl hblack
      | @black side x s _ _ cs _ hs hf =>
          have hfit : Fits ((⟨side, .black, x, s⟩ : Frame α) :: gparent :: rest) .red n :=
            .black hs hf
          refine ⟨_, by rw [rbInsertColor, if_neg hblack], ?_⟩
          obtain ⟨m, hm⟩ := hnode.zip hfit
          exact hm.isRedBlack_setBlack

/-- **Insertion.** Linking a new node at an empty place of a red-black tree and rebalancing
succeeds. The new entry stands at that place of the in-order list, and the tree is red-black
again. -/
theorem rbLink_spec {t : RbTree α} {path : List (Frame α)} (x : α) (ht : IsRedBlack t)
    (hzip : zip .nil path = t) :
    ∃ t', rbLink x path = some t' ∧ IsRedBlack t' ∧
      t'.toList = before path ++ x :: after path := by
  subst hzip
  obtain ⟨c, n, hb, hf⟩ := ht.unzip
  cases hb with
  | nil =>
      obtain ⟨t', h, hrb⟩ := rbInsertColor_isRedBlack
        (.red .nil .nil : Balanced (.node .red .nil x .nil) .red 0) hf
      refine ⟨t', h, hrb, ?_⟩
      rw [toList_rbInsertColor h, toList_zip]
      simp

/-- `node` fills the hole of `path` but lacks one black node: it is a black tree one too low, or
a red one that blackening makes high enough. This is the invariant of the erase loop. -/
def Lacks (node : RbTree α) (path : List (Frame α)) : Prop :=
  ∃ n, Fits path .black (n + 1) ∧
    (node.isRed = true ∧ Balanced node.setBlack .black (n + 1) ∨ Balanced node .black n)

/-- A red subtree that lacks one black node is repaired by blackening it. -/
theorem Lacks.zip_setBlack {node : RbTree α} {path : List (Frame α)} (h : Lacks node path)
    (hred : node.isRed = true) : IsRedBlack (zip node.setBlack path) := by
  obtain ⟨n, hf, ⟨-, hb⟩ | hb⟩ := h
  · exact hb.zip hf
  · exact absurd (hb.isRed_iff.mp hred) (by simp)

/-- The sibling of a subtree that lacks one black node, when it is not red, is a black node
with children of the subtree's height. -/
theorem exists_sibling {f : Frame α} {fs : List (Frame α)} {n : Nat}
    (hf : Fits (f :: fs) .black (n + 1)) (hs : f.sibling.isRed = false) :
    ∃ ol ox orr cl cr, f.sibling = .node .black ol ox orr ∧
      Balanced ol cl n ∧ Balanced orr cr n := by
  cases hf with
  | red hb _ => exact (hb.black_of_isRed hs).exists_node
  | black hb _ => exact (hb.black_of_isRed hs).exists_node

/-- A turn of the erase loop with a sibling that is not red. Either the tree is repaired, or
the loop goes on at the parent, whose subtree lacks one black node. -/
theorem rbEraseStep_spec {node : RbTree α} {parent : Frame α} {rest : List (Frame α)} {n : Nat}
    (hnode : Balanced node .black n) (hf : Fits (parent :: rest) .black (n + 1))
    (hsib : parent.sibling.isRed = false) :
    ∃ u more, rbEraseStep node parent = some (u, more) ∧
      (more = false → IsRedBlack (zip u rest)) ∧
      (more = true → Lacks u rest ∧ (parent.color = .red → u.isRed = true)) := by
  obtain ⟨ol, ox, orr, cl, cr, hs, hol, horr⟩ := exists_sibling hf hsib
  obtain ⟨side, pc, px, s⟩ := parent
  obtain rfl : s = _ := hs
  cases hl : ol.isRed with
  | false =>
      have hol' := hol.black_of_isRed hl
      cases hr : orr.isRed with
      | false =>
          have horr' := horr.black_of_isRed hr
          -- both children of the sibling are black: redden the sibling, go on at the parent
          refine ⟨(⟨side, pc, px, .node .red ol ox orr⟩ : Frame α).plug node, true,
            by simp [rbEraseStep, hl, hr], by simp, fun _ => ⟨?_, ?_⟩⟩
          · cases hf with
            | red _ hfs =>
                refine ⟨n, hfs.toBlack, .inl ?_⟩
                cases side with
                | left => exact ⟨rfl, .black hnode (.red hol' horr')⟩
                | right => exact ⟨rfl, .black (.red hol' horr') hnode⟩
            | black _ hfs =>
                refine ⟨n + 1, hfs, .inr ?_⟩
                cases side with
                | left => exact .black hnode (.red hol' horr')
                | right => exact .black (.red hol' horr') hnode
          · rintro rfl
            cases side <;> rfl
      | true =>
          have horr' := horr.setBlack_of_red hr
          cases side with
          | left =>
              refine ⟨_, false, by simp [rbEraseStep, hl, hr, rbRotateLeft]; rfl, ?_, by simp⟩
              exact fun _ => hf.zip_node (.black hnode hol) horr'
          | right =>
              -- the inner child is red: rotate it over the sibling first
              cases horr with
              | nil => cases hr
              | black => cases hr
              | red hb hc =>
                  refine ⟨_, false, by
                    simp [rbEraseStep, hl, rbRotateLeft, rbRotateRight]; rfl, ?_, by simp⟩
                  exact fun _ => hf.zip_node (.black hol hb) (.black hc hnode)
  | true =>
      have hol' := hol.setBlack_of_red hl
      cases side with
      | right =>
          refine ⟨_, false, by simp [rbEraseStep, hl, rbRotateRight]; rfl, ?_, by simp⟩
          exact fun _ => hf.zip_node hol' (.black horr hnode)
      | left =>
          cases hr : orr.isRed with
          | true =>
              refine ⟨_, false, by simp [rbEraseStep, hl, hr, rbRotateLeft]; rfl, ?_, by simp⟩
              exact fun _ => hf.zip_node (.black hnode hol) (horr.setBlack_of_red hr)
          | false =>
              cases hol with
              | nil => cases hl
              | black => cases hl
              | red ha hb =>
                  refine ⟨_, false, by
                    simp [rbEraseStep, hr, rbRotateLeft, rbRotateRight]; rfl, ?_, by simp⟩
                  exact fun _ => hf.zip_node (.black hnode ha) (.black hb horr)

/-- Rebalancing after an erasure succeeds and gives a red-black tree. -/
theorem rbEraseColor_isRedBlack {node : RbTree α} {path : List (Frame α)}
    (h : Lacks node path) : ∃ t, rbEraseColor node path = some t ∧ IsRedBlack t := by
  induction path generalizing node with
  | nil =>
      obtain ⟨n, -, ⟨-, hb⟩ | hb⟩ := h
      · exact ⟨_, rfl, ⟨_, hb⟩⟩
      · exact ⟨_, rfl, hb.isRedBlack_setBlack⟩
  | cons parent rest ih =>
      cases hred : node.isRed with
      | true => exact ⟨_, by rw [rbEraseColor, if_pos hred], h.zip_setBlack hred⟩
      | false =>
          obtain ⟨n, hf, ⟨hc, -⟩ | hnode⟩ := h
          · rw [hred] at hc
            cases hc
          · rw [rbEraseColor, if_neg (by simp [hred])]
            split
            · rename_i ol ox orr hs
              -- a red sibling has a black parent and black children
              obtain ⟨side, pc, px, s⟩ := parent
              obtain rfl : s = _ := hs
              cases hf with
              | red hb _ => cases hb
              | black hb hfs =>
                  cases hb with
                  | red hol horr =>
                      have hout : Fits ((rbRotateSibling ⟨side, .black, px,
                          .node .red ol ox orr⟩ ol ox orr).1 ::
                          (rbRotateSibling ⟨side, .black, px, .node .red ol ox orr⟩
                            ol ox orr).2 :: rest) .black (n + 1) := by
                        cases side with
                        | left => exact .red hol (.black horr hfs)
                        | right => exact .red horr (.black hol hfs)
                      obtain ⟨u, more, hstep, hdone, hmore⟩ := rbEraseStep_spec hnode hout (by
                        cases side with
                        | left => simpa [rbRotateSibling] using hol.isRed_iff
                        | right => simpa [rbRotateSibling] using horr.isRed_iff)
                      rw [hstep]
                      cases more with
                      | false =>
                          obtain ⟨m, hm⟩ := hdone rfl
                          exact ⟨_, rfl, hm.isRedBlack_setBlack⟩
                      | true =>
                          obtain ⟨hlack, hu⟩ := hmore rfl
                          refine ⟨_, rfl, hlack.zip_setBlack (hu ?_)⟩
                          cases side <;> rfl
            · rename_i hs
              obtain ⟨u, more, hstep, hdone, hmore⟩ := rbEraseStep_spec hnode hf (by
                cases hsib : parent.sibling with
                | nil => rfl
                | node c l x r =>
                    cases c with
                    | black => rfl
                    | red => exact absurd hsib (hs l x r))
              rw [hstep]
              cases more with
              | false =>
                  obtain ⟨m, hm⟩ := hdone rfl
                  exact ⟨_, rfl, hm.isRedBlack_setBlack⟩
              | true => exact ih (hmore rfl).1

/-- Unlinking a node with one empty child: its other child takes its place. -/
theorem rbUnlink_spec {color c : Color} {child : RbTree α} {path : List (Frame α)} {n : Nat}
    (hchild : ∃ cc m, Balanced child cc m ∧ (color = .red → cc = .black ∧ n = m) ∧
      (color = .black → n = m + 1)) (hf : Fits path c n) :
    ∃ t, rbUnlink color child path = some t ∧ IsRedBlack t ∧
      t.toList = before path ++ child.toList ++ after path := by
  obtain ⟨cc, m, hb, hred, hblack⟩ := hchild
  cases color with
  | red =>
      obtain ⟨rfl, rfl⟩ := hred rfl
      exact ⟨_, rfl, hb.zip hf.toBlack, toList_zip child path⟩
  | black =>
      obtain rfl := hblack rfl
      have hlack : Lacks child path := by
        refine ⟨m, hf.toBlack, ?_⟩
        cases hr : child.isRed with
        | true => exact .inl ⟨rfl, hb.setBlack_of_red hr⟩
        | false => exact .inr (hb.black_of_isRed hr)
      obtain ⟨t, ht, hrb⟩ := rbEraseColor_isRedBlack hlack
      refine ⟨t, ht, hrb, ?_⟩
      rw [toList_rbEraseColor ht, toList_zip]

/-- The heights of the children of a balanced node, in the form `rbUnlink_spec` asks for. -/
theorem balanced_children {color c : Color} {l r : RbTree α} {x : α} {n : Nat}
    (h : Balanced (.node color l x r) c n) :
    (∃ cc m, Balanced l cc m ∧ (color = .red → cc = .black ∧ n = m) ∧
      (color = .black → n = m + 1)) ∧
    (∃ cc m, Balanced r cc m ∧ (color = .red → cc = .black ∧ n = m) ∧
      (color = .black → n = m + 1)) := by
  cases h with
  | red hl hr => exact ⟨⟨_, _, hl, by simp, by simp⟩, ⟨_, _, hr, by simp, by simp⟩⟩
  | black hl hr => exact ⟨⟨_, _, hl, by simp, by simp⟩, ⟨_, _, hr, by simp, by simp⟩⟩

/-! ### Walks -/

/-- The leftmost node of a subtree: it has no left child, it is in the same tree, and nothing
of the subtree lies before it. -/
theorem leftmost_spec (c : Color) (l : RbTree α) (x : α) (r : RbTree α)
    (path : List (Frame α)) :
    (leftmost c l x r path).left = .nil ∧
    (leftmost c l x r path).tree = zip (.node c l x r) path ∧
    before (leftmost c l x r path).path = before path := by
  induction l generalizing c x r path with
  | nil => exact ⟨rfl, rfl, rfl⟩
  | node c' l' x' r' ihl _ => exact ihl c' x' r' (⟨.left, c, x, r⟩ :: path)

/-- The rightmost node of a subtree: it has no right child, it is in the same tree, and nothing
of the subtree lies after it. -/
theorem rightmost_spec (c : Color) (l : RbTree α) (x : α) (r : RbTree α)
    (path : List (Frame α)) :
    (rightmost c l x r path).right = .nil ∧
    (rightmost c l x r path).tree = zip (.node c l x r) path ∧
    after (rightmost c l x r path).path = after path := by
  induction r generalizing c x l path with
  | nil => exact ⟨rfl, rfl, rfl⟩
  | node c' l' x' r' _ ihr => exact ihr c' l' x' (⟨.right, c, x, l⟩ :: path)

/-- **Erasure.** Erasing a node of a red-black tree succeeds, removes its entry from the
in-order list and leaves a red-black tree. -/
theorem rbErase_spec (p : Pos α) (h : IsRedBlack p.tree) :
    ∃ t, rbErase p = some t ∧ IsRedBlack t ∧ t.toList = p.prefixList ++ p.suffixList := by
  obtain ⟨color, l, x, r, path⟩ := p
  have htree : IsRedBlack (zip (.node color l x r) path) := h
  obtain ⟨c, n, hb, hf⟩ := htree.unzip
  cases l with
  | nil =>
      obtain ⟨t, ht, hrb, hlist⟩ := rbUnlink_spec (balanced_children hb).2 hf
      exact ⟨t, ht, hrb, by simpa [Pos.prefixList, Pos.suffixList] using hlist⟩
  | node lc ll lx lr =>
      cases r with
      | nil =>
          obtain ⟨t, ht, hrb, hlist⟩ := rbUnlink_spec (balanced_children hb).1 hf
          exact ⟨t, ht, hrb, by simpa [Pos.prefixList, Pos.suffixList] using hlist⟩
      | node rc rl rx rr =>
          -- the successor `s` takes the place of the erased node, then `s` is unlinked
          set s := leftmost rc rl rx rr [] with hs
          obtain ⟨hleft, htree, hbefore⟩ := leftmost_spec rc rl rx rr []
          rw [← hs] at hleft htree hbefore
          rw [zip_nil] at htree
          have hwhole : zip s.subtree
              (s.path ++ ⟨.right, color, x, .node lc ll lx lr⟩ :: path)
              = zip (.node color (.node lc ll lx lr) x (.node rc rl rx rr)) path := by
            rw [zip_append, zip_cons, ← htree]
            rfl
          have hsucc : IsRedBlack (zip s.subtree
              (s.path ++ ⟨.right, color, x, .node lc ll lx lr⟩ :: path)) := hwhole ▸ h
          obtain ⟨c', n', hb', hf'⟩ := hsucc.unzip
          obtain ⟨t, ht, hrb, hlist⟩ :=
            rbUnlink_spec (balanced_children hb').2 (hf'.set_entry s.entry)
          refine ⟨t, ht, hrb, ?_⟩
          have hright : RbTree.toList (.node rc rl rx rr)
              = s.entry :: (s.right.toList ++ after s.path) := by
            rw [← htree, Pos.toList_tree, Pos.prefixList, Pos.suffixList, hleft, hbefore]
            rfl
          rw [hlist, before_append, after_append, hbefore, Pos.prefixList, Pos.suffixList, hright]
          simp

/-- `rb_first` finds the first entry of the list. -/
theorem rbFirst_some {t : RbTree α} {p : Pos α} (h : rbFirst t = some p) :
    p.tree = t ∧ p.prefixList = [] := by
  cases t with
  | nil => cases h
  | node c l x r =>
      cases h
      obtain ⟨hleft, htree, hbefore⟩ := leftmost_spec c l x r []
      refine ⟨htree, ?_⟩
      rw [Pos.prefixList, hleft, hbefore]
      rfl

/-- `rb_first` returns `NULL` only on the empty tree. -/
theorem rbFirst_none {t : RbTree α} (h : rbFirst t = none) : t = .nil := by
  cases t with
  | nil => rfl
  | node => cases h

/-- The climb of `rb_next` reaches the entry that follows the hole. -/
theorem climbNext_some {t : RbTree α} {fs : List (Frame α)} {q : Pos α}
    (h : climbNext t fs = some q) :
    q.tree = zip t fs ∧ q.prefixList = before fs ++ t.toList ∧
      after fs = q.entry :: q.suffixList := by
  induction t, fs using climbNext.induct with
  | case1 => cases h
  | case2 t c x r fs =>
      cases h
      exact ⟨rfl, by simp [Pos.prefixList], by simp [Pos.suffixList]⟩
  | case3 t c x l fs ih =>
      obtain ⟨htree, hpre, hafter⟩ := ih h
      exact ⟨htree, by simpa using hpre, hafter⟩

/-- The climb of `rb_next` fails only when nothing follows the hole. -/
theorem climbNext_none {t : RbTree α} {fs : List (Frame α)} (h : climbNext t fs = none) :
    after fs = [] := by
  induction t, fs using climbNext.induct with
  | case1 => rfl
  | case2 => cases h
  | case3 t c x l fs ih => exact ih h

/-- The climb of `rb_prev` reaches the entry that precedes the hole. -/
theorem climbPrev_some {t : RbTree α} {fs : List (Frame α)} {q : Pos α}
    (h : climbPrev t fs = some q) :
    q.tree = zip t fs ∧ before fs = q.prefixList ++ [q.entry] ∧
      q.suffixList = t.toList ++ after fs := by
  induction t, fs using climbPrev.induct with
  | case1 => cases h
  | case2 t c x l fs =>
      cases h
      exact ⟨rfl, by simp [Pos.prefixList], rfl⟩
  | case3 t c x r fs ih =>
      obtain ⟨htree, hbefore, hsuf⟩ := ih h
      exact ⟨htree, hbefore, by simpa using hsuf⟩

/-- The climb of `rb_prev` fails only when nothing precedes the hole. -/
theorem climbPrev_none {t : RbTree α} {fs : List (Frame α)} (h : climbPrev t fs = none) :
    before fs = [] := by
  induction t, fs using climbPrev.induct with
  | case1 => rfl
  | case2 => cases h
  | case3 t c x r fs ih => exact ih h

/-- `rb_next` finds the next entry of the list. -/
theorem rbNext_some {p q : Pos α} (h : rbNext p = some q) :
    q.tree = p.tree ∧ q.prefixList = p.prefixList ++ [p.entry] ∧
      p.suffixList = q.entry :: q.suffixList := by
  obtain ⟨c, l, x, r, path⟩ := p
  cases r with
  | nil =>
      obtain ⟨htree, hpre, hafter⟩ := climbNext_some (show climbNext _ path = some q from h)
      exact ⟨htree, by simpa [Pos.prefixList, Pos.subtree] using hpre,
        by simpa [Pos.suffixList] using hafter⟩
  | node rc rl rx rr =>
      cases h
      obtain ⟨hleft, htree, hbefore⟩ := leftmost_spec rc rl rx rr (⟨.right, c, x, l⟩ :: path)
      have hlist := congrArg RbTree.toList htree
      rw [Pos.toList_tree, toList_zip, Pos.prefixList, hleft, hbefore] at hlist
      refine ⟨htree, by rw [Pos.prefixList, hleft, hbefore]; simp [Pos.prefixList], ?_⟩
      simpa [Pos.suffixList] using hlist.symm

/-- `rb_next` returns `NULL` only at the last entry. -/
theorem rbNext_none {p : Pos α} (h : rbNext p = none) : p.suffixList = [] := by
  obtain ⟨c, l, x, r, path⟩ := p
  cases r with
  | nil => exact climbNext_none (show climbNext _ path = none from h)
  | node => cases h

/-- `rb_prev` finds the previous entry of the list. -/
theorem rbPrev_some {p q : Pos α} (h : rbPrev p = some q) :
    q.tree = p.tree ∧ p.prefixList = q.prefixList ++ [q.entry] ∧
      q.suffixList = p.entry :: p.suffixList := by
  obtain ⟨c, l, x, r, path⟩ := p
  cases l with
  | nil =>
      obtain ⟨htree, hbefore, hsuf⟩ := climbPrev_some (show climbPrev _ path = some q from h)
      exact ⟨htree, by simpa [Pos.prefixList] using hbefore,
        by simpa [Pos.suffixList, Pos.subtree] using hsuf⟩
  | node lc ll lx lr =>
      cases h
      obtain ⟨hright, htree, hafter⟩ := rightmost_spec lc ll lx lr (⟨.left, c, x, r⟩ :: path)
      set q := rightmost lc ll lx lr (⟨.left, c, x, r⟩ :: path)
      have hlist := congrArg RbTree.toList htree
      rw [Pos.toList_tree, toList_zip, Pos.suffixList, hright, hafter] at hlist
      refine ⟨htree, ?_, by rw [Pos.suffixList, hright, hafter]; simp [Pos.suffixList]⟩
      have hcut : (q.prefixList ++ [q.entry]) ++ after (⟨.left, c, x, r⟩ :: path)
          = (before path ++ (RbTree.node lc ll lx lr).toList)
            ++ after (⟨.left, c, x, r⟩ :: path) := by simpa using hlist
      exact (List.append_cancel_right hcut).symm

/-- `rb_prev` returns `NULL` only at the first entry. -/
theorem rbPrev_none {p : Pos α} (h : rbPrev p = none) : p.prefixList = [] := by
  obtain ⟨c, l, x, r, path⟩ := p
  cases l with
  | nil => simpa [Pos.prefixList] using climbPrev_none (show climbPrev _ path = none from h)
  | node => cases h

end LustreSimulator.Rbtree
