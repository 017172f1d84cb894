import LustreSimulator.LinkedRbtree
import LustreSimulator.Proofs.Rbtree

/-!
# `LustreSimulator.Proofs.LinkedRbtree`: the links in memory

`LinkedRbtree.heap` unpacks the memory into links and colours, and so takes the functions of
`rbtree.cpp` to the operations of `Lib.LinkHeap`.

* `RbNode.rbParent_rbSetParent` and the lemmas after it: a parent and a colour share a word.
* `Gives s r P`: the call `r` on `s` succeeds, writes links only, and leaves a state with `P`.
  `Gives.bind` puts calls together, and there is a `gives_` lemma for each of them.
* `node?_eq` and its companions read the memory at a place of the tree.
-/

set_option autoImplicit false

namespace LustreSimulator

open Lib

variable {α : Type}

/-! ### A parent and a colour in one word -/

theorem RbPtr.ext {p q : RbPtr} (h : p.addr = q.addr) : p = q := by
  cases p
  cases q
  cases h
  rfl

/-- The low bits of an address are zero. -/
theorem RbPtr.and_low (p : RbPtr) {m : BitVec 64} (hm : 3 &&& m = m) : p.addr &&& m = 0 := by
  rw [← hm, ← BitVec.and_assoc, p.aligned]
  exact BitVec.zero_and

/-- An address is its high bits. -/
theorem RbPtr.and_high (p : RbPtr) : p.addr &&& ~~~3 = p.addr := by
  have hsplit : p.addr &&& (3 ||| ~~~3) = p.addr := BitVec.and_allOnes
  rw [BitVec.and_or_distrib_left, p.aligned] at hsplit
  simpa using hsplit

namespace RbNode

variable (n m : RbNode α) (p : RbPtr)

theorem rbParent_rbSetParent : (n.rbSetParent p).rbParent = p := by
  apply RbPtr.ext
  simpa [rbParent, rbSetParent, BitVec.and_or_distrib_right, BitVec.and_assoc] using p.and_high

theorem rbColor_rbSetParent : (n.rbSetParent p).rbColor = n.rbColor := by
  have hp : p.addr &&& 1#64 = 0#64 := p.and_low rfl
  simp [rbColor, rbSetParent, BitVec.and_or_distrib_right, BitVec.and_assoc, hp]

theorem rbParent_rbSetRed : n.rbSetRed.rbParent = n.rbParent := by
  apply RbPtr.ext
  simp [rbParent, rbSetRed, BitVec.and_assoc]

theorem rbColor_rbSetRed : n.rbSetRed.rbColor = 0 := by
  simp [rbColor, rbSetRed, BitVec.and_assoc]

theorem rbParent_rbSetBlack : n.rbSetBlack.rbParent = n.rbParent := by
  apply RbPtr.ext
  simp [rbParent, rbSetBlack, BitVec.and_or_distrib_right]

theorem rbColor_rbSetBlack : n.rbSetBlack.rbColor = 1 := by
  ext i hi
  simp only [rbColor, rbSetBlack, BitVec.getElem_and, BitVec.getElem_or]
  cases (1 : BitVec 64)[i] <;> simp

theorem rbParent_rbSetColor : (n.rbSetColor m.rbColor).rbParent = n.rbParent := by
  apply RbPtr.ext
  simp [rbParent, rbSetColor, rbColor, BitVec.and_or_distrib_right, BitVec.and_assoc]

theorem rbColor_rbSetColor : (n.rbSetColor m.rbColor).rbColor = m.rbColor := by
  simp [rbSetColor, rbColor, BitVec.and_or_distrib_right, BitVec.and_assoc]

/-- A colour is one bit. -/
theorem rbColor_cases : n.rbColor = 0 ∨ n.rbColor = 1 := by
  have hmod : n.rbColor.toNat = n.rbParentColor.toNat % 2 := by
    rw [rbColor, BitVec.toNat_and]
    exact Nat.and_one_is_mod _
  rcases Nat.mod_two_eq_zero_or_one n.rbParentColor.toNat with h | h
  · exact .inl (BitVec.eq_of_toNat_eq (hmod.trans h))
  · exact .inr (BitVec.eq_of_toNat_eq (hmod.trans h))

/-- The colour that a bit stands for. -/
def colorOf (color : BitVec 64) : Color := if color == 0 then .red else .black

/-- The node with its word unpacked. -/
def links : TreeLinks RbPtr := ⟨n.rbParent, n.rbLeft, n.rbRight, colorOf n.rbColor⟩

theorem links_setChild (side : Side) (v : RbPtr) :
    (n.setChild side v).links = n.links.setChild side v := by
  cases side <;> rfl

theorem links_rbSetParent : (n.rbSetParent p).links = { n.links with parent := p } := by
  rw [links, rbParent_rbSetParent, rbColor_rbSetParent]
  rfl

theorem links_rbSetRed : n.rbSetRed.links = { n.links with color := .red } := by
  rw [links, rbParent_rbSetRed, rbColor_rbSetRed]
  rfl

theorem links_rbSetBlack : n.rbSetBlack.links = { n.links with color := .black } := by
  rw [links, rbParent_rbSetBlack, rbColor_rbSetBlack]
  rfl

theorem links_rbSetColor :
    (n.rbSetColor m.rbColor).links = { n.links with color := m.links.color } := by
  rw [links, rbParent_rbSetColor, rbColor_rbSetColor]
  rfl

/-- A word that is an address is a red node below it. -/
theorem links_addr (l r : RbPtr) (e : α) : (RbNode.mk p.addr r l e).links = ⟨p, l, r, .red⟩ := by
  have hparent : (RbNode.mk p.addr r l e).rbParent = p := RbPtr.ext p.and_high
  have hcolor : (RbNode.mk p.addr r l e).rbColor = 0 := p.and_low rfl
  rw [links, hparent, hcolor]
  rfl

theorem child_links (side : Side) : n.links.child side = n.child side := by
  cases side <;> rfl

end RbNode

namespace LinkedRbtree

/-- The links and colours in memory. -/
def heap (s : LinkedRbtree α) : LinkHeap RbPtr := ⟨fun a => (s.mem a).links, s.root⟩

/-- The operations on the links do not touch anything else. -/
structure Keeps (s s' : LinkedRbtree α) : Prop where
  entry : ∀ a, (s'.mem a).rbEntry = (s.mem a).rbEntry
  num : s'.num = s.num

/-- The call `r` on `s` succeeds, writes links only, and leaves a state with `P`. -/
def Gives (s : LinkedRbtree α) (r : Option (LinkedRbtree α)) (P : LinkedRbtree α → Prop) : Prop :=
  ∃ s', r = some s' ∧ s.Keeps s' ∧ P s'

variable {s s' s'' : LinkedRbtree α} {P Q : LinkedRbtree α → Prop} {r : Option (LinkedRbtree α)}
  {f : LinkedRbtree α → Option (LinkedRbtree α)}

theorem Keeps.refl (s : LinkedRbtree α) : s.Keeps s := ⟨fun _ => rfl, rfl⟩

theorem Keeps.trans (h : s.Keeps s') (h' : s'.Keeps s'') : s.Keeps s'' :=
  ⟨fun a => (h'.entry a).trans (h.entry a), h'.num.trans h.num⟩

theorem Gives.done (h : P s) : Gives s (some s) P := ⟨s, rfl, .refl s, h⟩

/-- One call after another. -/
theorem Gives.bind (h : Gives s r P) (hf : ∀ s', P s' → Gives s' (f s') Q) :
    Gives s (r >>= f) Q := by
  obtain ⟨s', rfl, hk, hP⟩ := h
  obtain ⟨s'', hs'', hk', hQ⟩ := hf s' hP
  exact ⟨s'', hs'', hk.trans hk', hQ⟩

theorem Gives.imp (h : Gives s r P) (himp : ∀ s', P s' → Q s') : Gives s r Q := by
  obtain ⟨s', hr, hk, hP⟩ := h
  exact ⟨s', hr, hk, himp s' hP⟩

/-! ### Writes -/

section Writes

variable {a : RbPtr} (v : RbPtr) (side : Side)

/-- A write to the links of a node. -/
theorem gives_modify (ha : a ≠ 0) {g : RbNode α → RbNode α}
    (hg : ∀ n, (g n).rbEntry = n.rbEntry) :
    Gives s (s.modify a g) fun s' => s'.heap = s.heap.set a (g (s.mem a)).links := by
  refine ⟨_, if_neg ha, ⟨fun b => ?_, rfl⟩, ?_⟩
  · show (Function.update s.mem a (g (s.mem a)) b).rbEntry = _
    rcases eq_or_ne b a with rfl | hne
    · rw [Function.update_self, hg]
    · rw [Function.update_of_ne hne]
  · show LinkHeap.mk _ _ = LinkHeap.mk _ _
    congr 1
    funext b
    show (Function.update s.mem a (g (s.mem a)) b).links = _
    rcases eq_or_ne b a with rfl | hne
    · rw [Function.update_self, Function.update_self]
    · rw [Function.update_of_ne hne, Function.update_of_ne hne]
      rfl

theorem gives_setChild (ha : a ≠ 0) :
    Gives s (s.modify a (.setChild side v)) fun s' => s'.heap = s.heap.setChild a side v := by
  refine (gives_modify ha fun n => by cases side <;> rfl).imp fun s' h => ?_
  rw [h, RbNode.links_setChild]
  rfl

theorem gives_setParent (ha : a ≠ 0) :
    Gives s (s.modify a (.rbSetParent v)) fun s' => s'.heap = s.heap.setParent a v := by
  refine (gives_modify (g := .rbSetParent v) ha fun _ => rfl).imp fun s' h => ?_
  rw [h, RbNode.links_rbSetParent]
  rfl

theorem gives_adopt : Gives s (s.adopt a v) fun s' => s'.heap = s.heap.adopt a v := by
  unfold adopt LinkHeap.adopt
  split
  · exact .done rfl
  · exact gives_setParent v ‹_›

theorem gives_replaceChild (p old : RbPtr) :
    Gives s (s.replaceChild side p old v) fun s' => s'.heap = s.heap.replaceChild side p old v := by
  unfold replaceChild LinkHeap.replaceChild
  split
  · exact ⟨_, rfl, ⟨fun _ => rfl, rfl⟩, rfl⟩
  · rename_i hp
    rw [node?, if_neg hp, Option.bind_eq_bind, Option.bind_some]
    show Gives s (if (s.mem p).child side = old then _ else _) fun s' =>
      s'.heap = if ((s.mem p).links).child side = old then _ else _
    rw [RbNode.child_links]
    split
    · exact gives_setChild v side hp
    · exact gives_setChild v side.flip hp

/-- A rotation. -/
theorem gives_rbRotate (ha : a ≠ 0) (hup : (s.mem a).child side.flip ≠ 0) :
    Gives s (s.rbRotate side a) fun s' => s'.heap = s.heap.rotate side a := by
  unfold rbRotate
  simp only [node?, if_neg ha, if_neg hup, Option.bind_eq_bind, Option.bind_some]
  refine (gives_setChild _ _ ha).bind fun s₁ h₁ => ?_
  refine (gives_adopt _).bind fun s₂ h₂ => ?_
  refine (gives_setChild _ _ hup).bind fun s₃ h₃ => ?_
  refine (gives_setParent _ hup).bind fun s₄ h₄ => ?_
  refine (gives_replaceChild _ _ _ _).bind fun s₅ h₅ => ?_
  refine (gives_setParent _ ha).imp fun s₆ h₆ => ?_
  rw [h₆, h₅, h₄, h₃, h₂, h₁]
  simp only [← RbNode.child_links]
  rfl

theorem gives_rotate (ha : a ≠ 0) (hup : (s.mem a).child side.flip ≠ 0) :
    Gives s (s.rotate side a) fun s' => s'.heap = s.heap.rotate side a := by
  cases side with
  | left => exact gives_rbRotate .left ha hup
  | right => exact gives_rbRotate .right ha hup

end Writes

/-! ### Reads at a place of the tree -/

section Reads

variable {t u : RbTree RbPtr} {F : Frame RbPtr} {path : List (Frame RbPtr)}

/-- A node of the tree is not `NULL`. -/
theorem ne_zero (hat : LinkedAt s.heap (F.plug t) path) : F.entry ≠ 0 := by
  rw [← ptr_plug F t]
  exact hat.ptr_ne_zero (plug_ne_nil F t)

/-- A node of the tree can be read. -/
theorem node?_eq (hat : LinkedAt s.heap (F.plug t) path) :
    s.node? F.entry = some (s.mem F.entry) := if_neg (ne_zero hat)

theorem rbParent_eq (hat : LinkedAt s.heap (F.plug t) path) :
    (s.mem F.entry).rbParent = top path := by
  have hlinks : (s.mem F.entry).links = _ := hat.links_plug
  exact (congrArg TreeLinks.parent hlinks).trans (F.parent_links _ _)

theorem child_eq (hat : LinkedAt s.heap (F.plug t) path) :
    (s.mem F.entry).child F.side = ptr t := by
  have hlinks : (s.mem F.entry).links = _ := hat.links_plug
  rw [← RbNode.child_links, hlinks, F.child_links]

theorem child_flip_eq (hat : LinkedAt s.heap (F.plug t) path) :
    (s.mem F.entry).child F.side.flip = ptr F.sibling := by
  have hlinks : (s.mem F.entry).links = _ := hat.links_plug
  rw [← RbNode.child_links, hlinks, F.child_flip_links]

theorem color_eq (hat : LinkedAt s.heap (F.plug t) path) :
    RbNode.colorOf (s.mem F.entry).rbColor = F.color := by
  have hlinks : (s.mem F.entry).links = _ := hat.links_plug
  exact (congrArg TreeLinks.color hlinks).trans (F.color_links _ _)

theorem rbIsRed_eq (hat : LinkedAt s.heap (F.plug t) path) :
    (s.mem F.entry).rbIsRed = (F.color == .red) := by
  rw [← color_eq hat]
  unfold RbNode.rbIsRed RbNode.colorOf
  cases (s.mem F.entry).rbColor == 0 <;> rfl

/-- The root of a subtree can be read, and its parent is the node above. -/
theorem node?_ptr (hat : LinkedAt s.heap t path) (hne : t ≠ .nil) :
    s.node? (ptr t) = some (s.mem (ptr t)) := if_neg (hat.ptr_ne_zero hne)

theorem rbParent_ptr (hat : LinkedAt s.heap t path) (hne : t ≠ .nil) :
    (s.mem (ptr t)).rbParent = top path := by
  cases t with
  | nil => exact absurd rfl hne
  | node c l x r =>
      have hleft : LinkedAt s.heap ((⟨.left, c, x, r⟩ : Frame RbPtr).plug l) path := hat
      exact rbParent_eq hleft

/-- The colour of a subtree, read at its address. -/
theorem isRed_eq (hat : LinkedAt s.heap t path) : s.isRed (ptr t) = t.isRed := by
  cases t with
  | nil => rfl
  | node c l x r =>
      have hleft : LinkedAt s.heap ((⟨.left, c, x, r⟩ : Frame RbPtr).plug l) path := hat
      have hne : x ≠ 0 := ne_zero hleft
      show (x != 0 && (s.mem x).rbIsRed) = _
      rw [bne_iff_ne.mpr hne, Bool.true_and, rbIsRed_eq hleft]
      cases c <;> rfl

end Reads

/-! ### Changes at a place of the tree -/

section Changes

variable {t a b u : RbTree RbPtr} {path : List (Frame RbPtr)}

/-- A node gets another colour. -/
theorem gives_color (hat : LinkedAt s.heap t path) (hne : ptr t ≠ 0) (c : Color)
    {g : RbNode α → RbNode α} (hentry : ∀ n, (g n).rbEntry = n.rbEntry)
    (hlinks : ∀ n, (g n).links = { n.links with color := c }) :
    Gives s (s.modify (ptr t) g) fun s' => LinkedAt s'.heap (t.setColor c) path := by
  refine (gives_modify hne hentry).imp fun s' h => ?_
  rw [h, hlinks]
  exact hat.setColor hne c

theorem gives_setBlack (hat : LinkedAt s.heap t path) (hne : ptr t ≠ 0) :
    Gives s (s.modify (ptr t) .rbSetBlack) fun s' => LinkedAt s'.heap t.setBlack path := by
  rw [← t.setColor_black]
  exact gives_color hat hne .black (fun _ => rfl) RbNode.links_rbSetBlack

theorem gives_blacken (hat : LinkedAt s.heap t path) :
    Gives s (s.blacken (ptr t)) fun s' => LinkedAt s'.heap t.setBlack path := by
  unfold blacken
  split
  · rename_i h0
    cases t with
    | nil => exact .done hat
    | node c l x r =>
        have hleft : LinkedAt s.heap ((⟨.left, c, x, r⟩ : Frame RbPtr).plug l) path := hat
        exact absurd h0 (ne_zero hleft)
  · exact gives_setBlack hat ‹_›

/-- The root is blackened at the end of both repairs. -/
theorem gives_blacken_root (hat : LinkedAt s.heap t path) :
    Gives s (s.blacken s.root) fun s' => Linked s'.heap (zip t path).setBlack := by
  have hlinked := (linkedAt_iff _ _ _).mp hat
  have hroot : s.root = ptr (zip t path) := hlinked.root
  rw [hroot]
  exact gives_blacken hlinked

theorem gives_setBlack_root (hat : LinkedAt s.heap t path) (hne : t ≠ .nil) :
    Gives s (s.modify s.root .rbSetBlack) fun s' => Linked s'.heap (zip t path).setBlack := by
  have hlinked := (linkedAt_iff _ _ _).mp hat
  have hroot : s.root = ptr (zip t path) := hlinked.root
  rw [hroot]
  exact gives_setBlack hlinked (hlinked.ptr_ne_zero (zip_ne_nil hne path))

/-- A rotation at a place. -/
theorem gives_rotateAt {side : Side} {cx cy : Color} {x y : RbPtr}
    (hat : LinkedAt s.heap
      ((⟨side, cx, x, (⟨side, cy, y, u⟩ : Frame RbPtr).plug b⟩ : Frame RbPtr).plug a) path) :
    Gives s (s.rotate side x) fun s' => LinkedAt s'.heap
      ((⟨side, cy, y, u⟩ : Frame RbPtr).plug ((⟨side, cx, x, b⟩ : Frame RbPtr).plug a)) path := by
  have hx : x ≠ 0 := ne_zero hat
  have hup : (s.mem x).child side.flip ≠ 0 := by
    rw [child_flip_eq hat, ptr_plug]
    exact ne_zero ((linkedAt_flip _ _ _ _ _ _ _).mp ((linkedAt_cons _ _ _ _).mpr hat))
  refine (gives_rotate side hx hup).imp fun s' h => ?_
  rw [h]
  exact hat.rotate

end Changes

end LinkedRbtree
end LustreSimulator
