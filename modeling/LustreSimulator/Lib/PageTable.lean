import Mathlib.Logic.Function.Basic
import Mathlib.Tactic.Common

/-!
# `LustreSimulator.Lib.PageTable`: an array in three levels of pages

A page has `B` entries, and an entry is NULL or leads on. A page table has a page of values, a page
of such pages, and a page of pages of such pages. `way B i` is the way to the cell `i`: the page of
the cell and the entry in it. `load` and `store` follow a way, and have no result where it goes
through NULL or beyond the end of a page. `fill` puts a new page of NULLs into its place.

* `load_store`: a write changes one cell and no page (`has_store`), and `exists_store` says when it
  can be done;
* `exists_load_iff`: a cell can be read when its page is there;
* `load_fill` and `has_fill`: a new page adds its own cells and nothing else.
-/

set_option autoImplicit false

namespace LustreSimulator.Lib

variable {B : Nat} {α β : Type*}

/-- A page of entries. -/
abbrev Page (β : Type*) := Nat → Option β

/-- A new page. -/
def Page.zero : Page β := fun _ => none

/-- `page[i]`, an access through the pointer `page`. -/
def deref (B : Nat) (page : Option (Page β)) (i : Nat) : Option (Option β) :=
  if i < B then page.map (· i) else none

/-- `page[i] = v`, with the page afterwards. -/
def assign (B : Nat) (page : Option (Page β)) (i : Nat) (v : Option β) : Option (Page β) :=
  if i < B then page.map (Function.update · i v) else none

/-- The three levels. -/
structure PageTable (α : Type*) where
  one : Option (Page α)
  two : Option (Page (Page α))
  three : Option (Page (Page (Page α)))

namespace PageTable

/-- A page of the table. The pages of values are `one`, `two i` and `three i j`. -/
inductive Block where
  | one
  | dir2
  | two (i : Nat)
  | dir3
  | mid (i : Nat)
  | three (i j : Nat)
  deriving DecidableEq, Repr

/-- The way to the cell `i`. -/
def way (B i : Nat) : Block × Nat :=
  if i < B then (.one, i)
  else
    let i := i - B
    if i < B * B then (.two (i / B), i % B)
    else
      let i := i - B * B
      (.three (i / (B * B)) (i / B % B), i % B)

/-- The pointer to the page, which may be NULL. -/
def leaf (B : Nat) (t : PageTable α) : Block → Option (Page α)
  | .one => t.one
  | .two i => (deref B t.two i).join
  | .three i j => (deref B (deref B t.three i).join j).join
  | _ => none

/-- The pointer to the page is changed. -/
def setLeaf (B : Nat) (t : PageTable α) (page : Page α) : Block → Option (PageTable α)
  | .one => some { t with one := some page }
  | .two i => (assign B t.two i (some page)).map fun two => { t with two := some two }
  | .three i j =>
      (assign B (deref B t.three i).join j (some page)).bind fun pages =>
      (assign B t.three i (some pages)).map fun three => { t with three := some three }
  | _ => none

/-- The cell `i` is read. -/
def load (B : Nat) (t : PageTable α) (i : Nat) : Option (Option α) :=
  deref B (t.leaf B (way B i).1) (way B i).2

/-- The cell `i` is written. -/
def store (B : Nat) (t : PageTable α) (i : Nat) (v : Option α) : Option (PageTable α) :=
  (assign B (t.leaf B (way B i).1) (way B i).2 v).bind fun page => t.setLeaf B page (way B i).1

/-- A page of NULLs in this place. -/
def fill (B : Nat) (t : PageTable α) : Block → Option (PageTable α)
  | .dir2 => some { t with two := some .zero }
  | .dir3 => some { t with three := some .zero }
  | .mid i => (assign B t.three i (some .zero)).map fun three => { t with three := some three }
  | b => t.setLeaf B .zero b

/-- The page is there. -/
def Has (B : Nat) (t : PageTable α) : Block → Bool
  | .dir2 => t.two.isSome
  | .dir3 => t.three.isSome
  | .mid i => (deref B t.three i).join.isSome
  | b => (t.leaf B b).isSome

/-- The page is an entry of its parent. -/
def Block.Fits (B : Nat) : Block → Prop
  | .two i | .mid i => i < B
  | .three i j => i < B ∧ j < B
  | _ => True

/-- The page whose entry leads to the page. -/
def Block.parent : Block → Option Block
  | .two _ => some .dir2
  | .mid _ => some .dir3
  | .three i _ => some (.mid i)
  | _ => none

/-- The first cell that needs the page. -/
def Block.first (B : Nat) : Block → Nat
  | .one => 0
  | .dir2 => B
  | .two i => B + i * B
  | .dir3 => B + B * B
  | .mid i => B + B * B + i * (B * B)
  | .three i j => B + B * B + i * (B * B) + j * B

end PageTable

/-! ### One page -/

/-- An access stays within a page that is there. -/
theorem deref_eq_some {page : Option (Page β)} {i : Nat} {x : Option β} :
    deref B page i = some x ↔ i < B ∧ ∃ p, page = some p ∧ p i = x := by
  unfold deref
  split <;> simp [*]

/-- A write stays within a page that is there. -/
theorem assign_eq_some {page : Option (Page β)} {i : Nat} {v : Option β} {p' : Page β} :
    assign B page i v = some p' ↔ i < B ∧ ∃ p, page = some p ∧ Function.update p i v = p' := by
  unfold assign
  split <;> simp [*]

/-- A write changes one entry. -/
theorem deref_assign {page : Option (Page β)} {i : Nat} {v : Option β} {p : Page β}
    (h : assign B page i v = some p) (j : Nat) :
    deref B (some p) j = if j = i then some v else deref B page j := by
  obtain ⟨hi, q, rfl, rfl⟩ := assign_eq_some.mp h
  unfold deref
  by_cases hj : j = i
  · subst hj
    simp [hi]
  · simp [hj]

/-- There is no access through NULL. -/
@[simp]
theorem deref_none (i : Nat) : deref B (none : Option (Page β)) i = none := by
  unfold deref
  split <;> rfl

/-- A new page has NULLs. -/
@[simp]
theorem deref_zero_join (i : Nat) : (deref B (some (.zero : Page β)) i).join = none := by
  unfold deref
  split <;> rfl

namespace PageTable

variable {t t' : PageTable α} {b c : Block} {v x : Option α} {i j : Nat}

/-! ### Pages -/

/-- The way of a cell leads to a page of values. -/
def Block.IsLeaf : Block → Prop
  | .one | .two _ | .three _ _ => True
  | _ => False

/-- A pointer to a page is changed and no other. -/
theorem leaf_setLeaf {page : Page α} (h : t.setLeaf B page b = some t') (hc : c.IsLeaf) :
    t'.leaf B c = if c = b then some page else t.leaf B c := by
  cases b with
  | one =>
      cases h
      cases c <;> simp [leaf]
  | two i =>
      obtain ⟨two, htwo, rfl⟩ := Option.map_eq_some_iff.mp h
      cases c with
      | two k =>
          by_cases hk : k = i <;> simp [leaf, deref_assign htwo, hk]
      | _ => simp [leaf]
  | three i j =>
      obtain ⟨pages, hpages, h⟩ := Option.bind_eq_some_iff.mp h
      obtain ⟨three, hthree, rfl⟩ := Option.map_eq_some_iff.mp h
      cases c with
      | three k l =>
          by_cases hk : k = i
          · subst hk
            by_cases hl : l = j <;> simp [leaf, deref_assign hthree, deref_assign hpages, hl]
          · simp [leaf, deref_assign hthree, hk]
      | _ => simp [leaf]
  | _ => cases h

/-- The other pages of a table stay. -/
theorem has_setLeaf {page : Page α} (h : t.setLeaf B page b = some t') (c : Block) :
    t'.Has B c = (t.Has B c || decide (c = b)) := by
  have hleaf : c.IsLeaf → (t'.leaf B c).isSome = ((t.leaf B c).isSome || decide (c = b)) := by
    intro hc
    rw [leaf_setLeaf h hc]
    split <;> simp [*]
  cases b with
  | one =>
      cases h
      cases c with
      | one | two | three => exact hleaf trivial
      | _ => simp [Has]
  | two i =>
      obtain ⟨two, htwo, rfl⟩ := Option.map_eq_some_iff.mp h
      obtain ⟨-, q, hq, -⟩ := assign_eq_some.mp htwo
      cases c with
      | one | two | three => exact hleaf trivial
      | _ => simp [Has, hq]
  | three i j =>
      obtain ⟨pages, hpages, h⟩ := Option.bind_eq_some_iff.mp h
      obtain ⟨three, hthree, rfl⟩ := Option.map_eq_some_iff.mp h
      obtain ⟨-, q, hq, -⟩ := assign_eq_some.mp hthree
      obtain ⟨-, r, hr, -⟩ := assign_eq_some.mp hpages
      cases c with
      | one | two | three => exact hleaf trivial
      | dir2 | dir3 => simp [Has, hq]
      | mid k =>
          by_cases hk : k = i
          · subst hk
            simp [Has, deref_assign hthree, hr]
          · simp [Has, deref_assign hthree, hk]
  | _ => cases h

/-- A new page comes into the place of a NULL. -/
theorem has_fill (h : t.fill B b = some t') (hb : t.Has B b = false) (c : Block) :
    t'.Has B c = (t.Has B c || decide (c = b)) := by
  have hset : b.IsLeaf → t'.Has B c = (t.Has B c || decide (c = b)) := by
    intro hleaf
    have hset : t.setLeaf B .zero b = some t' := by cases b <;> first | exact h | cases hleaf
    exact has_setLeaf hset c
  cases b with
  | one | two | three => exact hset trivial
  | dir2 =>
      have hnone : t.two = none := Option.not_isSome_iff_eq_none.mp (by simpa [Has] using hb)
      cases h
      cases c <;> simp [Has, leaf, hnone]
  | dir3 =>
      have hnone : t.three = none := Option.not_isSome_iff_eq_none.mp (by simpa [Has] using hb)
      cases h
      cases c <;> simp [Has, leaf, hnone]
  | mid i =>
      obtain ⟨three, hthree, rfl⟩ := Option.map_eq_some_iff.mp h
      obtain ⟨-, q, hq, -⟩ := assign_eq_some.mp hthree
      have hnone : (deref B t.three i).join = none :=
        Option.not_isSome_iff_eq_none.mp (by simpa [Has] using hb)
      cases c with
      | mid k => by_cases hk : k = i <;> simp [Has, deref_assign hthree, hk]
      | three k l =>
          by_cases hk : k = i
          · subst hk
            simp [Has, leaf, deref_assign hthree, hnone]
          · simp [Has, leaf, deref_assign hthree, hk]
      | _ => simp [Has, leaf, hq]

/-- A new page needs its parent. -/
theorem exists_fill (hfits : b.Fits B) (hparent : ∀ p, b.parent = some p → t.Has B p) :
    ∃ t', t.fill B b = some t' := by
  cases b with
  | two i =>
      obtain ⟨two, htwo⟩ := Option.isSome_iff_exists.mp (hparent .dir2 rfl)
      have hi : i < B := hfits
      simp [fill, setLeaf, assign, hi, htwo]
  | mid i =>
      obtain ⟨three, hthree⟩ := Option.isSome_iff_exists.mp (hparent .dir3 rfl)
      have hi : i < B := hfits
      simp [fill, assign, hi, hthree]
  | three i j =>
      obtain ⟨pages, hpages⟩ := Option.isSome_iff_exists.mp (hparent (.mid i) rfl)
      obtain ⟨-, three, hthree, -⟩ := deref_eq_some.mp (Option.join_eq_some_iff.mp hpages)
      simp only [fill, setLeaf, hpages]
      simp [assign, hfits.1, hfits.2, hthree]
  | _ => exact ⟨_, rfl⟩

/-! ### Cells -/

/-- A cell is in a page of values. -/
theorem isLeaf_way (B i : Nat) : (way B i).1.IsLeaf := by
  unfold way
  dsimp only
  split
  · trivial
  · split <;> trivial

/-- The page of a cell is an entry of its parent, when the cell is in the three levels. -/
theorem fits_way (hB : 0 < B) (hi : i < B + B * B + B * B * B) : (way B i).1.Fits B := by
  unfold way
  dsimp only
  split
  case isTrue => trivial
  case isFalse hone =>
    split
    case isTrue htwo => exact Nat.div_lt_of_lt_mul htwo
    case isFalse htwo =>
      exact ⟨Nat.div_lt_of_lt_mul (by omega), Nat.mod_lt _ hB⟩

/-- A cell has an entry of its page. -/
theorem way_entry_lt (hB : 0 < B) (i : Nat) : (way B i).2 < B := by
  unfold way
  dsimp only
  split
  · assumption
  · split <;> exact Nat.mod_lt _ hB

/-- The page of a cell begins in front of it. -/
theorem first_way (B i : Nat) : (way B i).1.first B + (way B i).2 = i := by
  unfold way
  dsimp only
  split
  case isTrue => exact Nat.zero_add i
  case isFalse hone =>
    split
    case isTrue =>
      have hdiv := Nat.div_add_mod' (i - B) B
      show B + (i - B) / B * B + (i - B) % B = i
      omega
    case isFalse htwo =>
      obtain ⟨k, hk⟩ : ∃ k, i - B - B * B = k := ⟨_, rfl⟩
      have hdiv := Nat.div_add_mod' k B
      have hdiv' := Nat.div_add_mod' (k / B) B
      have hmul : k / (B * B) * (B * B) + k / B % B * B = k / B * B := by
        rw [← Nat.div_div_eq_div_mul, ← Nat.mul_assoc, ← Nat.add_mul, hdiv']
      show B + B * B + (i - B - B * B) / (B * B) * (B * B) + (i - B - B * B) / B % B * B +
        (i - B - B * B) % B = i
      rw [hk]
      omega

/-- Two cells have two ways. -/
theorem way_injective (h : way B i = way B j) : i = j := by
  rw [← first_way B i, ← first_way B j, h]

/-- A cell can be read when its page is there. -/
theorem exists_load_iff (hB : 0 < B) : (∃ x, t.load B i = some x) ↔ t.Has B (way B i).1 := by
  have hleaf : t.Has B (way B i).1 = (t.leaf B (way B i).1).isSome := by
    have := isLeaf_way B i
    generalize (way B i).1 = b at this ⊢
    cases b <;> first | rfl | cases this
  rw [hleaf, Option.isSome_iff_exists]
  simp only [load, deref_eq_some, way_entry_lt hB, true_and]
  constructor
  · rintro ⟨-, p, hp, -⟩
    exact ⟨p, hp⟩
  · rintro ⟨p, hp⟩
    exact ⟨_, p, hp, rfl⟩

/-- A cell that can be read can be written. -/
theorem exists_store (h : t.load B i = some x) (v : Option α) : ∃ t', t.store B i v = some t' := by
  obtain ⟨hlt, p, hp, -⟩ := deref_eq_some.mp h
  have hassign : assign B (t.leaf B (way B i).1) (way B i).2 v =
      some (Function.update p (way B i).2 v) := assign_eq_some.mpr ⟨hlt, p, hp, rfl⟩
  have hleaf := isLeaf_way B i
  unfold store
  rw [hassign, Option.bind_some]
  generalize (way B i).1 = b at hp hleaf
  cases b with
  | one => exact ⟨_, rfl⟩
  | two k =>
      obtain ⟨hk, two, htwo, -⟩ := deref_eq_some.mp (Option.join_eq_some_iff.mp hp)
      simp [setLeaf, assign, hk, htwo]
  | three k l =>
      obtain ⟨hl, pages, hpages, -⟩ := deref_eq_some.mp (Option.join_eq_some_iff.mp hp)
      obtain ⟨hk, three, hthree, -⟩ := deref_eq_some.mp (Option.join_eq_some_iff.mp hpages)
      simp only [setLeaf, hpages]
      simp [assign, hk, hl, hthree]
  | _ => cases hleaf

/-- A write changes one cell. -/
theorem load_store (h : t.store B i v = some t') (j : Nat) :
    t'.load B j = if j = i then some v else t.load B j := by
  obtain ⟨page, hpage, hset⟩ := Option.bind_eq_some_iff.mp h
  unfold load
  rw [leaf_setLeaf hset (isLeaf_way B j)]
  split
  case isTrue hblock =>
    rw [deref_assign hpage, hblock]
    by_cases hj : j = i
    · rw [if_pos hj, hj, if_pos rfl]
    · rw [if_neg hj, if_neg fun hentry => hj (way_injective (Prod.ext hblock hentry))]
  case isFalse hblock =>
    rw [if_neg]
    rintro rfl
    exact hblock rfl

/-- A write changes no page. -/
theorem has_store (h : t.store B i v = some t') (c : Block) : t'.Has B c = t.Has B c := by
  obtain ⟨page, hpage, hset⟩ := Option.bind_eq_some_iff.mp h
  obtain ⟨-, q, hq, -⟩ := assign_eq_some.mp hpage
  rw [has_setLeaf hset]
  by_cases hc : c = (way B i).1
  · have : t.Has B c = true := by
      have hleaf := isLeaf_way B i
      rw [hc]
      generalize (way B i).1 = b at hleaf hq ⊢
      cases b <;> first | (simp [Has, hq]; done) | cases hleaf
    simp [this]
  · simp [hc]

/-- A new page changes the pointer to it. -/
theorem leaf_fill (h : t.fill B b = some t') (hb : t.Has B b = false) (hc : c.IsLeaf) :
    t'.leaf B c = if c = b then some .zero else t.leaf B c := by
  have hset : b.IsLeaf → t'.leaf B c = if c = b then some .zero else t.leaf B c := by
    intro hleaf
    have hset : t.setLeaf B .zero b = some t' := by cases b <;> first | exact h | cases hleaf
    exact leaf_setLeaf hset hc
  cases b with
  | one | two | three => exact hset trivial
  | dir2 =>
      have hnone : t.two = none := Option.not_isSome_iff_eq_none.mp (by simpa [Has] using hb)
      cases h
      cases c <;> first | (simp [leaf, hnone]; done) | cases hc
  | dir3 =>
      have hnone : t.three = none := Option.not_isSome_iff_eq_none.mp (by simpa [Has] using hb)
      cases h
      cases c <;> first | (simp [leaf, hnone]; done) | cases hc
  | mid k =>
      obtain ⟨three, hthree, rfl⟩ := Option.map_eq_some_iff.mp h
      have hnone : (deref B t.three k).join = none :=
        Option.not_isSome_iff_eq_none.mp (by simpa [Has] using hb)
      cases c with
      | three l m =>
          by_cases hl : l = k
          · subst hl
            simp [leaf, deref_assign hthree, hnone]
          · simp [leaf, deref_assign hthree, hl]
      | one | two => simp [leaf]
      | _ => cases hc

/-- A new page adds its own cells. -/
theorem load_fill (hB : 0 < B) (h : t.fill B b = some t') (hb : t.Has B b = false) (i : Nat) :
    t'.load B i = if (way B i).1 = b then some none else t.load B i := by
  unfold load
  rw [leaf_fill h hb (isLeaf_way B i)]
  split
  · exact if_pos (way_entry_lt hB i)
  · rfl

end PageTable

end LustreSimulator.Lib
