import LustreSimulator.Proofs.RbtreeRepair
import LustreSimulator.Proofs.RbtreeWalks

/-!
# `LustreSimulator.Proofs.RbtreeUpdate`: insertion and erasure in memory

`rb_insert` and `rb_erase` do in memory what `Rbtree.rbLink` and `Rbtree.rbErase` do on the tree
that the memory holds.

* `rbDescend_eq` and `gives_rbLinkNode` hang a new node at the place of the descent.
* `gives_rbUnlink`, `gives_rbUnlinkSucc` and `gives_rbSubstitute` are the parts of `rb_erase`.
-/

set_option autoImplicit false

namespace LustreSimulator.LinkedRbtree

open Lib

variable {α : Type} {s : LinkedRbtree α} {t l r : RbTree RbPtr} {c : Color} {x z : RbPtr}
  {path : List (Frame RbPtr)} {fuel : Nat}

/-! ### Insertion -/

/-- The pointer that points to a place. -/
def linkOf : List (Frame RbPtr) → RbLink
  | [] => .root
  | F :: _ => .child F.side F.entry

theorem readLink_eq (hat : LinkedAt s.heap t path) : s.readLink (linkOf path) = some (ptr t) := by
  cases path with
  | nil => exact congrArg some hat.root
  | cons F fs =>
      have hF := (linkedAt_cons _ _ _ _).mp hat
      show (s.node? F.entry).map (·.child F.side) = _
      rw [node?_eq hF, Option.map_some, child_eq hF]

/-- The comparison of a new node with the nodes of the tree, as `rb_insert` uses it. -/
def keyOrder (compare : α → α → Int) (s : LinkedRbtree α) (z : RbPtr) (a : RbPtr) : Int :=
  if compare (s.mem z).rbEntry (s.mem a).rbEntry < 0 then -1 else 1

/-- The descent of `rb_insert` ends where the one on a tree does. -/
theorem rbDescend_eq (compare : α → α → Int) (hz : z ≠ 0) (hat : LinkedAt s.heap t path)
    (hfuel : t.toList.length < fuel) (rc : Int) :
    s.rbDescend compare z fuel (top path) (linkOf path) =
      some (top (Rbtree.descend (s.keyOrder compare z) t path rc).path,
        linkOf (Rbtree.descend (s.keyOrder compare z) t path rc).path) := by
  induction t generalizing path fuel rc with
  | nil =>
      obtain ⟨fuel, rfl⟩ : ∃ n, fuel = n + 1 := ⟨fuel - 1, by omega⟩
      rw [rbDescend, readLink_eq hat]
      rfl
  | node c l x r ihl ihr =>
      obtain ⟨fuel, rfl⟩ : ∃ n, fuel = n + 1 := ⟨fuel - 1, by omega⟩
      simp only [RbTree.toList_node, List.length_append, List.length_cons] at hfuel
      have hx : ¬x = 0 := hat.ptr_ne_zero nofun
      have hl : LinkedAt s.heap l (⟨.left, c, x, r⟩ :: path) := (linkedAt_cons _ _ _ _).mpr hat
      have hr : LinkedAt s.heap r (⟨.right, c, x, l⟩ :: path) := (linkedAt_cons _ _ _ _).mpr hat
      have hreadz : s.node? z = some (s.mem z) := if_neg hz
      have hreadx : s.node? x = some (s.mem x) := if_neg hx
      rw [rbDescend, readLink_eq hat, Option.bind_eq_bind, Option.bind_some, ptr_node, if_neg hx,
        hreadz, Option.bind_eq_bind, Option.bind_some, hreadx, Option.bind_some]
      by_cases hlt : compare (s.mem z).rbEntry (s.mem x).rbEntry < 0
      · have hkey : s.keyOrder compare z x = -1 := if_pos hlt
        rw [if_pos hlt, Rbtree.descend, hkey]
        exact ihl hl (by omega) _
      · have hkey : s.keyOrder compare z x = 1 := if_neg hlt
        rw [if_neg hlt, Rbtree.descend, hkey]
        exact ihr hr (by omega) _

/-- A pointer to a place is written. -/
theorem gives_writeLink (hpath : ∀ F fs, path = F :: fs → F.entry ≠ 0) (v : RbPtr) :
    Gives s (s.writeLink (linkOf path) v) fun s' => s'.heap = s.heap.relink path v := by
  cases path with
  | nil => exact ⟨_, rfl, ⟨fun _ => rfl, rfl⟩, rfl⟩
  | cons F fs => exact gives_setChild v F.side (hpath F fs rfl)

/-- A new node is red and has no children. -/
theorem gives_rbLinkNode (hat : LinkedAt s.heap .nil path)
    (hz : z ∉ (0 : RbPtr) :: nodesAround path) :
    Gives s (s.rbLinkNode z (top path) (linkOf path)) fun s' =>
      LinkedAt s'.heap (.node .red .nil z .nil) path := by
  have hz0 : z ≠ 0 := fun h => hz (h ▸ List.mem_cons_self)
  have hnew := gives_modify (s := s) hz0
    (g := fun n => { n with rbParentColor := (top path).addr, rbLeft := 0, rbRight := 0 })
    fun _ => rfl
  refine hnew.bind fun s₁ h₁ => ?_
  refine (gives_writeLink ?_ z).imp fun s₂ h₂ => ?_
  · rintro F fs rfl
    exact ne_zero ((linkedAt_cons _ _ _ _).mp hat)
  · rw [h₂, h₁, RbNode.links_addr]
    exact hat.link hz

/-- The path of the descent of `rb_insert`. -/
def insertPath (compare : α → α → Int) (s : LinkedRbtree α) (z : RbPtr) (T : RbTree RbPtr) :
    List (Frame RbPtr) :=
  (Rbtree.descend (s.keyOrder compare z) T [] 1).path

/-- The descent of `rb_insert` ends at an empty place of the tree. -/
theorem zip_insertPath (compare : α → α → Int) (s : LinkedRbtree α) (z : RbPtr) (T : RbTree RbPtr) :
    zip .nil (s.insertPath compare z T) = T := by
  have hroot := Rbtree.descend_zip_root (s.keyOrder compare z) T 1
  have hfocus := Rbtree.descend_focus (s.keyOrder compare z) T [] 1 (by decide)
  -- no comparison gives zero, so the descent does not stop at a node
  have hne : (Rbtree.descend (s.keyOrder compare z) T [] 1).rc ≠ 0 := by
    intro h0
    obtain ⟨c, l, x, r, -, hx⟩ := hfocus.1 h0
    revert hx
    unfold keyOrder
    split <;> simp
  rwa [hfocus.2 hne] at hroot

/-- `rb_insert` hangs a new node at the place of the descent and repairs the tree. -/
theorem rbInsert_eq {compare : α → α → Int} {T T' : RbTree RbPtr} (hT : Linked s.heap T)
    (hz : z ∉ (0 : RbPtr) :: T.toList) (hfuel : T.toList.length < fuel)
    (hT' : Rbtree.rbLink z (s.insertPath compare z T) = some T') :
    ∃ s', rbInsert compare fuel s z = some s' ∧ Linked s'.heap T' ∧
      (∀ a, (s'.mem a).rbEntry = (s.mem a).rbEntry) ∧ s'.num = s.num + 1 := by
  have hz0 : z ≠ 0 := fun h => hz (h ▸ List.mem_cons_self)
  have hzip := s.zip_insertPath compare z T
  have hdescend : s.rbDescend compare z fuel 0 .root =
      some (top (s.insertPath compare z T), linkOf (s.insertPath compare z T)) :=
    rbDescend_eq compare hz0 hT hfuel 1
  set path := s.insertPath compare z T with hpath
  rw [← hzip] at hT hz hfuel
  have hat : LinkedAt s.heap .nil path := (linkedAt_iff _ _ _).mpr hT
  have hroom := length_add_le RbTree.nil path
  have hnew : z ∉ (0 : RbPtr) :: nodesAround path := by
    have hperm := (toList_zip_perm RbTree.nil path).cons 0
    rwa [hperm.mem_iff] at hz
  obtain ⟨s₁, hs₁, hk₁, h₁⟩ := gives_rbLinkNode hat hnew
  obtain ⟨s₂, hs₂, hk₂, h₂⟩ := gives_rbInsertColor h₁ nofun (by omega : path.length < fuel) hT'
  have hk := hk₁.trans hk₂
  refine ⟨{ s₂ with num := s₂.num + 1 }, ?_, h₂, hk.entry, by rw [← hk.num]⟩
  rw [ptr_node] at hs₂
  simp only [rbInsert, hdescend, hs₁, hs₂, Option.bind_eq_bind, Option.bind_some]

/-! ### Erasure -/

/-- The colour decides whether the tree is repaired. -/
theorem gives_rbEraseEnd {T : RbTree RbPtr} (hat : LinkedAt s.heap t path)
    (hfuel : path.length < fuel) {n : RbNode α} (hcolor : RbNode.colorOf n.rbColor = c)
    (hT : Rbtree.rbUnlink c t path = some T) :
    Gives s (rbEraseEnd fuel s n.rbColor (ptr t) (top path)) fun s' => Linked s'.heap T := by
  unfold rbEraseEnd
  rw [Rbtree.rbUnlink] at hT
  rcases n.rbColor_cases with h0 | h1
  · rw [h0] at hcolor ⊢
    obtain rfl : Color.red = c := hcolor
    cases hT
    exact .done ((linkedAt_iff _ _ _).mp hat)
  · rw [h1] at hcolor ⊢
    obtain rfl : Color.black = c := hcolor
    exact gives_rbEraseColor hat hfuel hT

/-- A node with one child at most is unlinked, and its child takes its place. -/
theorem gives_rbUnlink {side : Side} {T : RbTree RbPtr}
    (hat : LinkedAt s.heap ((⟨side, c, x, .nil⟩ : Frame RbPtr).plug t) path)
    (hfuel : path.length < fuel) (hT : Rbtree.rbUnlink c t path = some T) :
    Gives s (rbUnlink fuel s x (ptr t)) fun s' => Linked s'.heap T := by
  have hread : s.node? x = some (s.mem x) := node?_eq hat
  have hparent : (s.mem x).rbParent = top path := rbParent_eq hat
  obtain ⟨haround, hnodup⟩ := hat.around_adopt (top path)
  rw [rbUnlink, hread, Option.bind_eq_bind, Option.bind_some, hparent]
  refine (gives_adopt _).bind fun s₁ h₁ => ?_
  refine (gives_replaceChild _ _ _ _).bind fun s₂ h₂ => ?_
  have hat₂ : LinkedAt s₂.heap t path := by
    rw [h₂, h₁, LinkHeap.replaceChild_eq_relink haround hnodup]
    exact hat.unlink
  exact gives_rbEraseEnd hat₂ hfuel (color_eq hat) hT

/-- Where the successor of a node is. -/
theorem leftmost_append (c : Color) (l : RbTree RbPtr) (x : RbPtr) (r : RbTree RbPtr)
    (fs gs : List (Frame RbPtr)) :
    Rbtree.leftmost c l x r (fs ++ gs) = { Rbtree.leftmost c l x r fs with
      path := (Rbtree.leftmost c l x r fs).path ++ gs } := by
  induction l generalizing c x r fs with
  | nil => rfl
  | node lc ll lx lr ihl _ => exact ihl lc lx lr (⟨.left, c, x, r⟩ :: fs)

/-- The way down to the successor goes to the left. -/
theorem leftmost_side (c : Color) (l : RbTree RbPtr) (x : RbPtr) (r : RbTree RbPtr)
    {fs : List (Frame RbPtr)} (hfs : ∀ F ∈ fs, F.side = .left) :
    ∀ F ∈ (Rbtree.leftmost c l x r fs).path, F.side = .left := by
  induction l generalizing c x r fs with
  | nil => exact hfs
  | node lc ll lx lr ihl _ =>
      refine ihl lc lx lr fun F hF => ?_
      rcases List.mem_cons.mp hF with rfl | hF
      · rfl
      · exact hfs F hF

/-- The successor leaves its place. The link to it is the right one of `x` or a left one. -/
theorem gives_rbUnlinkSucc {fs : List (Frame RbPtr)} {F : Frame RbPtr}
    (hat : LinkedAt s.heap ((⟨.right, c, z, .nil⟩ : Frame RbPtr).plug t) (fs ++ F :: path))
    (hfs : ∀ G ∈ fs, G.side = .left) (hF : F.side = .right) :
    Gives s (s.rbUnlinkSucc F.entry (ptr t) (top (fs ++ F :: path))) fun s' =>
      LinkedAt s'.heap t (fs ++ F :: path) := by
  -- the source does not search for the link: it knows which child the successor is
  have hlink : ∀ s' : LinkedRbtree α, Gives s' (s'.modify (top (fs ++ F :: path))
      (.setChild (if top (fs ++ F :: path) = F.entry then .right else .left) (ptr t)))
      fun s'' => s''.heap = s'.heap.relink (fs ++ F :: path) (ptr t) := by
    intro s'
    have hup := hat
    cases fs with
    | nil =>
        show Gives s' (s'.modify F.entry (.setChild (if F.entry = F.entry then _ else _) _)) _
        rw [if_pos rfl, ← hF]
        exact gives_setChild (ptr t) F.side (ne_zero ((linkedAt_cons _ _ _ _).mp hup))
    | cons G gs =>
        have hG := (linkedAt_cons _ _ _ _).mp hup
        have hne : ¬G.entry = F.entry := hat.entry_ne
        show Gives s' (s'.modify G.entry (.setChild (if G.entry = F.entry then _ else _) _)) _
        rw [if_neg hne, ← hfs G List.mem_cons_self]
        exact gives_setChild (ptr t) G.side (ne_zero hG)
  refine (gives_adopt _).bind fun s₁ h₁ => ?_
  refine (hlink s₁).imp fun s₂ h₂ => ?_
  rw [h₂, h₁]
  exact hat.unlink

/-- A node outside of the tree takes the place of `x`. -/
theorem gives_rbSubstitute (hat : LinkedAt s.heap (.node c l x r) path) (hl : l ≠ .nil)
    (hz : z ∉ (0 : RbPtr) :: ((RbTree.node c l x r).toList ++ nodesAround path)) :
    Gives s (s.rbSubstitute x z) fun s' => LinkedAt s'.heap (.node c l z r) path := by
  have hx0 : ¬x = 0 := hat.ptr_ne_zero nofun
  have hz0 : z ≠ 0 := fun h => hz (h ▸ List.mem_cons_self)
  have hzx : x ≠ z := by
    rintro rfl
    refine hz (List.mem_cons_of_mem _ (List.mem_append_left _ ?_))
    simp
  have hleft : LinkedAt s.heap l (⟨.left, c, x, r⟩ :: path) := (linkedAt_cons _ _ _ _).mpr hat
  have hxtop : x ≠ top path := (hat.top_ne_ptr nofun).symm
  have hxl : x ≠ ptr l := hleft.top_ne_ptr hl
  have hread : ∀ s' : LinkedRbtree α, s'.node? x = some (s'.mem x) := fun s' => if_neg hx0
  have hx : s.heap.links x = ⟨top path, ptr l, ptr r, c⟩ := hat.below.1
  -- the fields of `old` are read again before each use, and no write changes them
  have hcopy := gives_modify (s := s) hz0
    (g := fun n => { n with
      rbParentColor := (s.mem x).rbParentColor
      rbRight := (s.mem x).rbRight
      rbLeft := (s.mem x).rbLeft })
    fun _ => rfl
  rw [rbSubstitute, hread, Option.bind_eq_bind, Option.bind_some]
  refine hcopy.bind fun s₁ h₁ => ?_
  replace h₁ : s₁.heap = s.heap.set z (s.heap.links x) := h₁
  have hx₁ : s₁.heap.links x = ⟨top path, ptr l, ptr r, c⟩ := by
    rw [h₁, LinkHeap.set_links_of_ne _ _ hzx, hx]
  have hparent : (s₁.mem x).rbParent = top path := congrArg TreeLinks.parent hx₁
  rw [hread, Option.bind_eq_bind, Option.bind_some, hparent]
  refine (gives_replaceChild _ _ _ _).bind fun s₂ h₂ => ?_
  have hx₂ : s₂.heap.links x = ⟨top path, ptr l, ptr r, c⟩ := by
    rw [h₂, LinkHeap.replaceChild_links_of_ne _ _ _ _ hxtop, hx₁]
  have hl₂ : (s₂.mem x).rbLeft = ptr l := congrArg TreeLinks.left hx₂
  rw [hread, Option.bind_some, hl₂]
  refine (gives_setParent _ (hleft.ptr_ne_zero hl)).bind fun s₃ h₃ => ?_
  have hx₃ : s₃.heap.links x = ⟨top path, ptr l, ptr r, c⟩ := by
    rw [h₃, LinkHeap.setParent, LinkHeap.set_links_of_ne _ _ hxl, hx₂]
  have hr₃ : (s₃.mem x).rbRight = ptr r := congrArg TreeLinks.right hx₃
  rw [hread, Option.bind_some, hr₃]
  refine (gives_adopt _).imp fun s₄ h₄ => ?_
  have hadopt : s₂.heap.setParent (ptr l) z = s₂.heap.adopt (ptr l) z :=
    (if_neg (hleft.ptr_ne_zero hl)).symm
  have hheap : s₄.heap = s.heap.substitute x z := by
    rw [h₄, h₃, hadopt, h₂, h₁, LinkHeap.substitute, hx]
  rw [hheap]
  exact hat.substitute hz

/-- The places of the children. -/
theorem linkedAt_left {p : Pos RbPtr} (hat : LinkedAt s.heap p.subtree p.path) :
    LinkedAt s.heap p.left (⟨.left, p.color, p.entry, p.right⟩ :: p.path) :=
  (linkedAt_cons _ _ _ _).mpr hat

theorem linkedAt_right {p : Pos RbPtr} (hat : LinkedAt s.heap p.subtree p.path) :
    LinkedAt s.heap p.right (⟨.right, p.color, p.entry, p.left⟩ :: p.path) :=
  (linkedAt_cons _ _ _ _).mpr hat

/-- The first node of a subtree in order: the way to it in memory, and its place. -/
theorem leftmost_place (hat : LinkedAt s.heap (.node c l x r) path)
    (hfuel : (RbTree.node c l x r).toList.length ≤ fuel) {q : Pos RbPtr}
    (hq : q = Rbtree.leftmost c l x r []) :
    s.outermost .left fuel x = some q.entry ∧
      LinkedAt s.heap ((⟨.right, q.color, q.entry, .nil⟩ : Frame RbPtr).plug q.right)
        (q.path ++ path) ∧
      q.path.length < (RbTree.node c l x r).toList.length := by
  obtain ⟨hleft, hspec, -⟩ := Rbtree.leftmost_spec c l x r []
  rw [← hq] at hleft hspec
  have htree : zip q.subtree q.path = .node c l x r := hspec
  refine ⟨?_, ?_, ?_⟩
  · have happend := leftmost_append c l x r [] path
    rw [List.nil_append, ← hq] at happend
    rw [outermost_eq .left hat hfuel]
    show some (Rbtree.leftmost c l x r path).entry = _
    rw [happend]
  · have hsub : q.subtree = (⟨.right, q.color, q.entry, .nil⟩ : Frame RbPtr).plug q.right := by
      rw [Pos.subtree, hleft]
      rfl
    rw [← hsub, linkedAt_iff, zip_append, htree]
    exact (linkedAt_iff _ _ _).mp hat
  · have hlength := length_add_le q.subtree q.path
    rw [htree, Pos.subtree, RbTree.toList_node, List.length_append, List.length_cons] at hlength
    omega

/-- A node with two children: its successor takes its place. -/
theorem gives_rbErase_both {p : Pos RbPtr} {rc : Color} {rl rr : RbTree RbPtr} {rx : RbPtr}
    {T : RbTree RbPtr} (hat : LinkedAt s.heap p.subtree p.path) (hl : p.left ≠ .nil)
    (hr : p.right = .node rc rl rx rr) (hfuel : p.tree.toList.length < fuel)
    (hT : Rbtree.rbErase p = some T) :
    Gives s (do
      let node ← s.outermost .left fuel rx
      let m ← s.node? node
      let s ← s.rbUnlinkSucc p.entry m.rbRight m.rbParent
      let s ← s.rbSubstitute p.entry node
      rbEraseEnd fuel s m.rbColor m.rbRight (if m.rbParent = p.entry then node else m.rbParent))
      fun s' => Linked s'.heap T := by
  obtain ⟨c, l, x, r, path⟩ := p
  obtain rfl : r = _ := hr
  set F : Frame RbPtr := ⟨.right, c, x, l⟩ with hF
  set q := Rbtree.leftmost rc rl rx rr [] with hq
  have hroom : (RbTree.node rc rl rx rr).toList.length + path.length < fuel := by
    have hlist : (zip (RbTree.node c l x (.node rc rl rx rr)) path).toList.length < fuel := hfuel
    have hlength := length_add_le (RbTree.node c l x (.node rc rl rx rr)) path
    rw [RbTree.toList_node c, List.length_append, List.length_cons] at hlength
    omega
  have hright : (RbTree.node rc rl rx rr).toList.length ≤ fuel := by omega
  obtain ⟨hsucc, hplace, hdepth⟩ := leftmost_place (linkedAt_right hat) hright hq
  have hread : s.node? q.entry = some (s.mem q.entry) := node?_eq hplace
  have hparent : (s.mem q.entry).rbParent = top (q.path ++ F :: path) := rbParent_eq hplace
  have hchild : (s.mem q.entry).rbRight = ptr q.right := child_eq hplace
  have hnot := hplace.notMem_unlink
  rw [hsucc, Option.bind_eq_bind, Option.bind_some, hread, Option.bind_eq_bind, Option.bind_some,
    hparent, hchild]
  refine (gives_rbUnlinkSucc hplace (leftmost_side _ _ _ _ fun _ hG => absurd hG List.not_mem_nil)
    rfl).bind fun s₁ h₁ => ?_
  -- the place of the erased node, after its successor left
  set rest := zip q.right q.path with hrest
  have hzip : ∀ y, zip q.right (q.path ++ ⟨.right, c, y, l⟩ :: path) =
      zip (RbTree.node c l y rest) path := fun y => zip_append _ _ _
  have hold : LinkedAt s₁.heap (.node c l x rest) path := by
    rw [linkedAt_iff, ← hzip, ← linkedAt_iff]
    exact h₁
  rw [hzip, ((toList_zip_perm _ path).cons 0).mem_iff] at hnot
  refine (gives_rbSubstitute hold hl hnot).bind fun s₂ h₂ => ?_
  have hnew : LinkedAt s₂.heap q.right (q.path ++ ⟨.right, c, q.entry, l⟩ :: path) := by
    rw [linkedAt_iff, hzip, ← linkedAt_iff]
    exact h₂
  -- the repair starts below the node that took the place, when that was the parent
  have htop : (if top (q.path ++ F :: path) = x then q.entry else top (q.path ++ F :: path)) =
      top (q.path ++ ⟨.right, c, q.entry, l⟩ :: path) := by
    cases hpath : q.path with
    | nil => exact if_pos rfl
    | cons G gs =>
        rw [hpath] at hplace
        exact if_neg hplace.entry_ne
  have hlength : (q.path ++ (⟨.right, c, q.entry, l⟩ : Frame RbPtr) :: path).length < fuel := by
    rw [List.length_append, List.length_cons]
    omega
  show Gives s₂ (rbEraseEnd fuel s₂ (s.mem q.entry).rbColor (ptr q.right)
    (if top (q.path ++ F :: path) = x then q.entry else top (q.path ++ F :: path))) _
  rw [htop]
  refine gives_rbEraseEnd hnew hlength (color_eq hplace) ?_
  cases l with
  | nil => exact absurd rfl hl
  | node lc ll lx lr => exact hT

/-- `rb_erase` does what it does on a tree. -/
theorem rbErase_eq {p : Pos RbPtr} {T : RbTree RbPtr} (hat : LinkedAt s.heap p.subtree p.path)
    (hfuel : p.tree.toList.length < fuel) (hT : Rbtree.rbErase p = some T) :
    ∃ s', rbErase fuel s p.entry = some s' ∧ Linked s'.heap T ∧
      (∀ a, (s'.mem a).rbEntry = (s.mem a).rbEntry) ∧ s'.num = s.num - 1 := by
  -- the counter changes first, and the links do not look at it
  set s₀ : LinkedRbtree α := { s with num := s.num - 1 } with hs₀
  have hgives : Gives s₀ (rbErase fuel s p.entry) fun s' => Linked s'.heap T := by
    have hlength := length_add_le p.subtree p.path
    have hroom : p.path.length < fuel := by
      have : (zip p.subtree p.path).toList.length < fuel := hfuel
      omega
    have hat₀ : LinkedAt s₀.heap p.subtree p.path := hat
    have hread : s₀.node? p.entry = some (s₀.mem p.entry) := node?_ptr hat₀ nofun
    have hleft : (s₀.mem p.entry).rbLeft = ptr p.left := rbLeft_eq hat₀
    have hright : (s₀.mem p.entry).rbRight = ptr p.right := rbRight_eq hat₀
    rw [rbErase]
    dsimp only
    rw [← hs₀, hread, Option.bind_eq_bind, Option.bind_some, hleft, hright]
    by_cases hl : p.left = .nil
    · -- the right child takes the place
      obtain ⟨c, l, x, r, path⟩ := p
      obtain rfl : l = _ := hl
      have hone : LinkedAt s₀.heap ((⟨.right, c, x, .nil⟩ : Frame RbPtr).plug r) path := hat₀
      exact gives_rbUnlink hone hroom hT
    · have hlne := (linkedAt_left hat₀).ptr_ne_zero hl
      rw [if_neg hlne]
      cases hr : p.right with
      | nil =>
          obtain ⟨c, l, x, r, path⟩ := p
          obtain rfl : r = _ := hr
          have hone : LinkedAt s₀.heap ((⟨.left, c, x, .nil⟩ : Frame RbPtr).plug l) path := hat₀
          refine gives_rbUnlink hone hroom ?_
          cases l with
          | nil => exact absurd rfl hl
          | node => exact hT
      | node rc rl rx rr =>
          have hrne := (linkedAt_right hat₀).ptr_ne_zero (hr ▸ nofun)
          rw [hr] at hrne
          rw [if_neg hrne]
          exact gives_rbErase_both hat₀ hl hr hfuel hT
  obtain ⟨s', hs', hk, h'⟩ := hgives
  exact ⟨s', hs', h', hk.entry, hk.num⟩

end LustreSimulator.LinkedRbtree
