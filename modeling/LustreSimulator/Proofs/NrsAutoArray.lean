import LustreSimulator.NrsAutoArray
import Mathlib.Tactic.Common

/-!
# `LustreSimulator.Proofs.NrsAutoArray`: the pages are an array of cells

`load_store` says that a write changes one cell and no page. `cfsAaIndex_of_load` finds the cell
of an index whose page is there, and `cfsAaLookup_spec` says that the growth of the array leaves
every cell as it is and adds zeroed ones. With these, `AutoArray.cells` is the array that
`LustreSimulator.NrsBinheap` works on.
-/

set_option autoImplicit false

namespace LustreSimulator.NrsBinheap

variable {α β : Type}

/-! ### One page -/

/-- An index within the page can be accessed. -/
theorem deref_some {i : Nat} (hi : i < caaSize) (p : Page β) :
    deref (some p) i = some (p ⟨i, hi⟩) := by
  unfold deref
  rw [dif_pos hi]
  rfl

/-- An access stays within the page. -/
theorem lt_of_deref {array : Option (Page β)} {i : Nat} {x : Option β}
    (h : deref array i = some x) : i < caaSize := by
  unfold deref at h
  by_contra hi
  rw [dif_neg hi] at h
  cases h

/-- There is no access through NULL. -/
@[simp]
theorem deref_none (i : Nat) : deref (none : Option (Page β)) i = none := by
  unfold deref
  split <;> rfl

/-- A write needs what a read needs. -/
theorem exists_assign {array : Option (Page β)} {i : Nat} {x : Option β}
    (h : deref array i = some x) (v : Option β) : ∃ p, assign array i v = some p := by
  have hi := lt_of_deref h
  cases array with
  | none =>
      rw [deref_none] at h
      cases h
  | some q =>
      unfold assign
      rw [dif_pos hi]
      exact ⟨_, rfl⟩

/-- A write changes one entry. -/
theorem deref_assign {array : Option (Page β)} {i : Nat} {v : Option β} {p : Page β}
    (h : assign array i v = some p) (j : Nat) :
    deref (some p) j = if j = i then some v else deref array j := by
  unfold assign at h
  split at h
  · rename_i hi
    obtain ⟨q, rfl, rfl⟩ := Option.map_eq_some_iff.mp h
    split
    · rename_i hji
      subst hji
      rw [deref_some hi, Function.update_self]
    · rename_i hji
      unfold deref
      split
      · rename_i hj
        have hne : (⟨j, hj⟩ : Fin caaSize) ≠ ⟨i, hi⟩ := fun heq => hji (congrArg Fin.val heq)
        show some (Function.update q ⟨i, hi⟩ v ⟨j, hj⟩) = some (q ⟨j, hj⟩)
        rw [Function.update_of_ne hne]
      · rfl
  · cases h

/-! ### Cells -/

namespace AutoArray

variable {a a' : AutoArray α} {e x : Option α} {s : Slot}

/-- A cell that can be read can be written. -/
theorem exists_store (h : a.load s = some x) (e : Option α) : ∃ a', a.store e s = some a' := by
  cases s with
  | one i =>
      obtain ⟨p, hp⟩ := exists_assign h e
      refine ⟨{ a with aa1d := some p }, ?_⟩
      show (assign a.aa1d i e).bind _ = _
      rw [hp]
      rfl
  | two i j =>
      obtain ⟨page, hpage, hx⟩ := Option.bind_eq_some_iff.mp h
      obtain ⟨p, hp⟩ := exists_assign hx e
      obtain ⟨q, hq⟩ := exists_assign hpage (some p)
      refine ⟨{ a with aa2d := some q }, ?_⟩
      show (deref a.aa2d i).bind (fun page => (assign page j e).bind fun page =>
        (assign a.aa2d i (some page)).bind _) = _
      rw [hpage, Option.bind_some, hp, Option.bind_some, hq]
      rfl
  | three i j k =>
      obtain ⟨pages, hpages, hrest⟩ := Option.bind_eq_some_iff.mp h
      obtain ⟨page, hpage, hx⟩ := Option.bind_eq_some_iff.mp hrest
      obtain ⟨p, hp⟩ := exists_assign hx e
      obtain ⟨q, hq⟩ := exists_assign hpage (some p)
      obtain ⟨r, hr⟩ := exists_assign hpages (some q)
      refine ⟨{ a with aa3d := some r }, ?_⟩
      show (deref a.aa3d i).bind (fun pages => (deref pages j).bind fun page =>
        (assign page k e).bind fun page => (assign pages j (some page)).bind fun pages =>
          (assign a.aa3d i (some pages)).bind _) = _
      rw [hpages, Option.bind_some, hpage, Option.bind_some, hp, Option.bind_some, hq,
        Option.bind_some, hr]
      rfl

/-- A write changes one cell, and no page. -/
theorem load_store (h : a.store e s = some a') (t : Slot) :
    a'.load t = if t = s then some e else a.load t := by
  cases s with
  | one i =>
      obtain ⟨p, hp, hset⟩ := Option.bind_eq_some_iff.mp h
      obtain rfl := Option.some.inj hset
      cases t with
      | one j =>
          show deref (some p) j = _
          rw [deref_assign hp]
          simp only [Slot.one.injEq]
          rfl
      | two j k => rfl
      | three j k l => rfl
  | two i j =>
      obtain ⟨page, hpage, hrest⟩ := Option.bind_eq_some_iff.mp h
      obtain ⟨p, hp, hrest⟩ := Option.bind_eq_some_iff.mp hrest
      obtain ⟨q, hq, hset⟩ := Option.bind_eq_some_iff.mp hrest
      obtain rfl := Option.some.inj hset
      cases t with
      | one k => rfl
      | two k l =>
          show (deref (some q) k).bind (deref · l) = if _ then _ else (deref a.aa2d k).bind (deref · l)
          rw [deref_assign hq]
          by_cases hk : k = i
          · -- a cell of the page that is written
            subst hk
            rw [if_pos rfl, hpage, Option.bind_some, Option.bind_some, deref_assign hp]
            simp only [Slot.two.injEq, true_and]
          · rw [if_neg hk, if_neg (fun heq => hk (Slot.two.inj heq).1)]
      | three k l m => rfl
  | three i j k =>
      obtain ⟨pages, hpages, hrest⟩ := Option.bind_eq_some_iff.mp h
      obtain ⟨page, hpage, hrest⟩ := Option.bind_eq_some_iff.mp hrest
      obtain ⟨p, hp, hrest⟩ := Option.bind_eq_some_iff.mp hrest
      obtain ⟨q, hq, hrest⟩ := Option.bind_eq_some_iff.mp hrest
      obtain ⟨r, hr, hset⟩ := Option.bind_eq_some_iff.mp hrest
      obtain rfl := Option.some.inj hset
      cases t with
      | one l => rfl
      | two l m => rfl
      | three l m n =>
          show (deref (some r) l).bind (fun pages => (deref pages m).bind (deref · n)) =
            if _ then _ else (deref a.aa3d l).bind fun pages => (deref pages m).bind (deref · n)
          rw [deref_assign hr]
          by_cases hl : l = i
          · subst hl
            rw [if_pos rfl, hpages, Option.bind_some, Option.bind_some, deref_assign hq]
            by_cases hm : m = j
            · -- a cell of the page that is written
              subst hm
              rw [if_pos rfl, hpage, Option.bind_some, Option.bind_some, deref_assign hp]
              simp only [Slot.three.injEq, true_and]
            · rw [if_neg hm, if_neg (fun heq => hm (Slot.three.inj heq).2.1)]
          · rw [if_neg hl, if_neg (fun heq => hl (Slot.three.inj heq).1)]

/-- `cfs_aa_index` finds the cell of an index, when its page is there. -/
theorem cfsAaIndex_of_load {idx : Nat} (h : a.load (NrsBinheap.cfsAaIndex idx) = some x) :
    a.cfsAaIndex idx = some (NrsBinheap.cfsAaIndex idx) := by
  unfold NrsBinheap.cfsAaIndex at h ⊢
  unfold AutoArray.cfsAaIndex
  dsimp only at h ⊢
  split
  · rfl
  · rename_i hone
    rw [if_neg hone] at h
    split
    · rename_i htwo
      rw [if_pos htwo] at h
      obtain ⟨page, hpage, -⟩ := Option.bind_eq_some_iff.mp h
      rw [hpage]
      rfl
    · rename_i htwo
      rw [if_neg htwo] at h
      obtain ⟨pages, hpages, hrest⟩ := Option.bind_eq_some_iff.mp h
      obtain ⟨page, hpage, -⟩ := Option.bind_eq_some_iff.mp hrest
      show (deref a.aa3d _).bind (fun pages => (deref pages _).map _) = _
      rw [hpages, Option.bind_some, hpage]
      rfl

/-- An array has no cell beyond the three levels. -/
theorem lt_caaCapacity_of_load {idx : Nat} (h : a.load (NrsBinheap.cfsAaIndex idx) = some x) :
    idx < caaCapacity := by
  unfold NrsBinheap.cfsAaIndex at h
  dsimp only at h
  split at h
  · rename_i hone
    unfold caaCapacity caaSize at *
    omega
  · split at h
    · rename_i htwo
      unfold caaCapacity caaSize at *
      omega
    · obtain ⟨pages, hpages, -⟩ := Option.bind_eq_some_iff.mp h
      have hlt := lt_of_deref hpages
      unfold caaCapacity caaSize at *
      omega

/-! ### Growth -/

/-- What growth does to a read: it finds what it found, or a NULL where it found no page. -/
def Grown {γ : Type} (x y : Option (Option γ)) : Prop := y = x ∨ (x = none ∧ y = some none)

/-- Nothing changes. -/
theorem Grown.refl {γ : Type} (x : Option (Option γ)) : Grown x x := Or.inl rfl

/-- There is nothing behind a NULL, so a new page of NULLs adds nothing that its entries lead to. -/
theorem Grown.bind_eq {γ δ : Type} {x y : Option (Option γ)} {f : Option γ → Option (Option δ)}
    (h : Grown x y) (hf : f none = none) : y.bind f = x.bind f := by
  rcases h with rfl | ⟨rfl, rfl⟩
  · rfl
  · exact hf

/-- `cfs_aa_lookup1` leaves a page as it is, or adds one of NULLs. -/
theorem grown_cfsAaLookup1 {array : Option (Page β)} {grow alloc : Bool} {p : Page β}
    (h : cfsAaLookup1 array grow alloc = some p) (i : Nat) :
    Grown (deref array i) (deref (some p) i) := by
  unfold cfsAaLookup1 at h
  split at h
  · rw [h]
    exact Grown.refl _
  · rename_i hnull
    obtain rfl : array = none := Option.not_isSome_iff_eq_none.mp hnull
    split at h
    · -- a page of NULLs in the place of none
      obtain rfl := Option.some.inj h
      rw [deref_none]
      by_cases hi : i < caaSize
      · exact Or.inr ⟨rfl, deref_some hi _⟩
      · unfold deref
        rw [dif_neg hi]
        exact Grown.refl _
    · cases h

/-- `cfs_aa_lookup1` gives a page, when it may allocate one. -/
theorem exists_cfsAaLookup1 (array : Option (Page β)) :
    ∃ p, cfsAaLookup1 array true true = some p := by
  cases array with
  | none => exact ⟨_, rfl⟩
  | some p => exact ⟨p, rfl⟩

/-- What growth does to an array. -/
def Grows (a a' : AutoArray α) : Prop := ∀ s, Grown (a.load s) (a'.load s)

/-- The remainder is an index of a page. -/
theorem mod_lt_caaSize (idx : Nat) : idx % caaSize < caaSize :=
  Nat.mod_lt idx (Nat.two_pow_pos 10)

/-- The lookup in the first level. -/
theorem grows_one {grow alloc : Bool} {p : Page α}
    (h : cfsAaLookup1 a.aa1d grow alloc = some p) : Grows a { a with aa1d := some p } := by
  intro s
  cases s with
  | one i => exact grown_cfsAaLookup1 h i
  | two i j => exact Grown.refl _
  | three i j k => exact Grown.refl _

/-- The lookup of the page of pages in the second level. -/
theorem grows_two_top {grow alloc : Bool} {p : Page (Page α)}
    (h : cfsAaLookup1 a.aa2d grow alloc = some p) : Grows a { a with aa2d := some p } := by
  intro s
  cases s with
  | one i => exact Grown.refl _
  | two i j => exact Or.inl ((grown_cfsAaLookup1 h i).bind_eq (deref_none j))
  | three i j k => exact Grown.refl _

/-- The lookups in the second level. -/
theorem grows_two {grow alloc alloc' : Bool} {p p' : Page (Page α)} {i : Nat}
    {array : Option (Page α)} {q : Page α} (h : cfsAaLookup1 a.aa2d grow alloc = some p)
    (harray : deref (some p) i = some array) (hq : cfsAaLookup1 array grow alloc' = some q)
    (hp' : assign (some p) i (some q) = some p') : Grows a { a with aa2d := some p' } := by
  intro s
  cases s with
  | one k => exact Grown.refl _
  | two k l =>
      show Grown ((deref a.aa2d k).bind (deref · l)) ((deref (some p') k).bind (deref · l))
      rw [← (grown_cfsAaLookup1 h k).bind_eq (deref_none l), deref_assign hp']
      by_cases hk : k = i
      · subst hk
        rw [if_pos rfl, harray]
        exact grown_cfsAaLookup1 hq l
      · rw [if_neg hk]
        exact Grown.refl _
  | three k l m => exact Grown.refl _

/-- The lookup of the first page of pages in the third level. -/
theorem grows_three_top {grow alloc : Bool} {p : Page (Page (Page α))}
    (h : cfsAaLookup1 a.aa3d grow alloc = some p) : Grows a { a with aa3d := some p } := by
  intro s
  cases s with
  | one i => exact Grown.refl _
  | two i j => exact Grown.refl _
  | three i j k =>
      refine Or.inl ((grown_cfsAaLookup1 h i).bind_eq ?_)
      rw [deref_none]
      rfl

/-- The lookups in the third level, where `q'` is the page of pages afterwards. -/
theorem grows_three {grow alloc alloc' : Bool} {p p' : Page (Page (Page α))} {i : Nat}
    {array : Option (Page (Page α))} {q q' : Page (Page α)}
    (h : cfsAaLookup1 a.aa3d grow alloc = some p) (harray : deref (some p) i = some array)
    (hq : cfsAaLookup1 array grow alloc' = some q)
    (hq' : ∀ j k, Grown ((deref (some q) j).bind (deref · k)) ((deref (some q') j).bind (deref · k)))
    (hp' : assign (some p) i (some q') = some p') : Grows a { a with aa3d := some p' } := by
  intro s
  cases s with
  | one l => exact Grown.refl _
  | two l m => exact Grown.refl _
  | three l m n =>
      have htop := (grown_cfsAaLookup1 h l).bind_eq
        (f := fun pages => (deref pages m).bind (deref · n)) (by
          rw [deref_none]
          rfl)
      show Grown ((deref a.aa3d l).bind fun pages => (deref pages m).bind (deref · n))
        ((deref (some p') l).bind fun pages => (deref pages m).bind (deref · n))
      rw [← htop, deref_assign hp']
      by_cases hl : l = i
      · subst hl
        rw [if_pos rfl, harray, Option.bind_some, Option.bind_some,
          ← (grown_cfsAaLookup1 hq m).bind_eq (deref_none n)]
        exact hq' m n
      · rw [if_neg hl]
        exact Grown.refl _

/-- The lookup of the last page in the third level. -/
theorem grown_last {grow alloc : Bool} {q q' : Page (Page α)} {j : Nat} {array : Option (Page α)}
    {r : Page α} (harray : deref (some q) j = some array)
    (hr : cfsAaLookup1 array grow alloc = some r) (hq' : assign (some q) j (some r) = some q')
    (l k : Nat) :
    Grown ((deref (some q) l).bind (deref · k)) ((deref (some q') l).bind (deref · k)) := by
  rw [deref_assign hq']
  by_cases hl : l = j
  · subst hl
    rw [if_pos rfl, harray]
    exact grown_cfsAaLookup1 hr k
  · rw [if_neg hl]
    exact Grown.refl _

/-- A lookup that finds no cell. -/
theorem grows_null {b : AutoArray α} {slot : Slot} {found : Option Slot} (hgrows : Grows a b)
    (h : some (b, none) = some (a', found)) :
    Grows a a' ∧ ∀ s, found = some s → s = slot ∧ ∃ x, a'.load s = some x := by
  obtain ⟨rfl, rfl⟩ := Prod.mk.inj (Option.some.inj h)
  refine ⟨hgrows, fun s hs => ?_⟩
  cases hs

/-- A lookup that finds a cell. -/
theorem grows_found {b : AutoArray α} {slot : Slot} {found : Option Slot} (hgrows : Grows a b)
    (h : some (b, some slot) = some (a', found)) (hload : ∃ x, b.load slot = some x) :
    Grows a a' ∧ ∀ s, found = some s → s = slot ∧ ∃ x, a'.load s = some x := by
  obtain ⟨rfl, rfl⟩ := Prod.mk.inj (Option.some.inj h)
  refine ⟨hgrows, fun s hs => ?_⟩
  obtain rfl := Option.some.inj hs
  exact ⟨rfl, hload⟩

/-- `cfs_aa_lookup` changes no cell, and the cell that it finds is there. -/
theorem cfsAaLookup_spec {idx : Nat} {grow : Bool} {alloc : Nat → Bool} {found : Option Slot}
    (h : a.cfsAaLookup idx grow alloc = some (a', found)) :
    Grows a a' ∧ ∀ s, found = some s → s = NrsBinheap.cfsAaIndex idx ∧ ∃ x, a'.load s = some x := by
  unfold cfsAaLookup at h
  unfold NrsBinheap.cfsAaIndex
  dsimp only at h ⊢
  split at h
  · -- the first level
    rename_i hone
    rw [if_pos hone]
    split at h
    · exact grows_null (fun s => Grown.refl _) h
    · rename_i p hp
      exact grows_found (grows_one hp) h ⟨_, deref_some hone p⟩
  · rename_i hone
    rw [if_neg hone]
    split at h
    · -- the second level
      rename_i htwo
      rw [if_pos htwo]
      split at h
      · exact grows_null (fun s => Grown.refl _) h
      · rename_i p hp
        obtain ⟨array, harray, h⟩ := Option.bind_eq_some_iff.mp h
        split at h
        · exact grows_null (grows_two_top hp) h
        · rename_i q hq
          obtain ⟨p', hp', h⟩ := Option.bind_eq_some_iff.mp h
          refine grows_found (grows_two hp harray hq hp') h
            ⟨q ⟨_, mod_lt_caaSize (idx - caaSize)⟩, ?_⟩
          show (deref (some p') _).bind _ = _
          rw [deref_assign hp', if_pos rfl, Option.bind_some, deref_some]
    · -- the third level
      rename_i htwo
      rw [if_neg htwo]
      split at h
      · exact grows_null (fun s => Grown.refl _) h
      · rename_i p hp
        obtain ⟨array, harray, h⟩ := Option.bind_eq_some_iff.mp h
        split at h
        · exact grows_null (grows_three_top hp) h
        · rename_i q hq
          obtain ⟨array', harray', h⟩ := Option.bind_eq_some_iff.mp h
          split at h
          · obtain ⟨p', hp', h⟩ := Option.bind_eq_some_iff.mp h
            exact grows_null (grows_three hp harray hq (fun _ _ => Grown.refl _) hp') h
          · rename_i r hr
            obtain ⟨q', hq', h⟩ := Option.bind_eq_some_iff.mp h
            obtain ⟨p', hp', h⟩ := Option.bind_eq_some_iff.mp h
            refine grows_found (grows_three hp harray hq (grown_last harray' hr hq') hp') h
              ⟨r ⟨_, mod_lt_caaSize (idx - caaSize - caaSize * caaSize)⟩, ?_⟩
            show (deref (some p') _).bind (fun pages => (deref pages _).bind _) = _
            rw [deref_assign hp', if_pos rfl, Option.bind_some, deref_assign hq', if_pos rfl,
              Option.bind_some, deref_some]

/-- The way to a cell of the third level stays within the pages up to the capacity. -/
theorem three_lt_iff (idx : Nat) :
    (idx - caaSize - caaSize * caaSize) / caaSize / caaSize < caaSize ↔ idx < caaCapacity := by
  unfold caaCapacity caaSize at *
  omega

/-- `cfs_aa_lookup` finds the cell of each index of the three levels, when no allocation fails. -/
theorem exists_cfsAaLookup {idx : Nat} {alloc : Nat → Bool} (halloc : ∀ k, alloc k = true)
    (hidx : idx < caaCapacity) (a : AutoArray α) :
    ∃ a', a.cfsAaLookup idx true alloc = some (a', some (NrsBinheap.cfsAaIndex idx)) := by
  -- every level finds its page or allocates it; which cell this is says `cfsAaLookup_spec`
  have hfound : ∃ a' s, a.cfsAaLookup idx true alloc = some (a', some s) := by
    unfold cfsAaLookup
    simp only [halloc]
    split
    · obtain ⟨p, hp⟩ := exists_cfsAaLookup1 a.aa1d
      rw [hp]
      exact ⟨_, _, rfl⟩
    · split
      · rename_i htwo
        obtain ⟨p, hp⟩ := exists_cfsAaLookup1 a.aa2d
        obtain ⟨q, hq⟩ := exists_cfsAaLookup1 (p ⟨_, htwo⟩)
        obtain ⟨p', hp'⟩ := exists_assign (deref_some htwo p) (some q)
        simp only [hp, deref_some htwo, hq, hp', Option.bind_eq_bind, Option.bind_some]
        exact ⟨_, _, rfl⟩
      · have hthree := (three_lt_iff idx).mpr hidx
        have hmod := mod_lt_caaSize ((idx - caaSize - caaSize * caaSize) / caaSize)
        obtain ⟨p, hp⟩ := exists_cfsAaLookup1 a.aa3d
        obtain ⟨q, hq⟩ := exists_cfsAaLookup1 (p ⟨_, hthree⟩)
        obtain ⟨r, hr⟩ := exists_cfsAaLookup1 (q ⟨_, hmod⟩)
        obtain ⟨q', hq'⟩ := exists_assign (deref_some hmod q) (some r)
        obtain ⟨p', hp'⟩ := exists_assign (deref_some hthree p) (some q')
        rw [hp]
        dsimp only [Option.bind_eq_bind]
        rw [deref_some hthree, Option.bind_some, hq]
        dsimp only
        rw [deref_some hmod, Option.bind_some, hr]
        dsimp only
        rw [hq', Option.bind_some, hp', Option.bind_some]
        exact ⟨_, _, rfl⟩
  obtain ⟨a', s, h⟩ := hfound
  obtain ⟨rfl, -⟩ := (cfsAaLookup_spec h).2 s rfl
  exact ⟨a', h⟩

/-- Beyond the three levels `cfs_aa_lookup` leaves the first page of the third one. -/
theorem cfsAaLookup_beyond {idx : Nat} {alloc : Nat → Bool} (halloc : ∀ k, alloc k = true)
    (hidx : caaCapacity ≤ idx) (a : AutoArray α) : a.cfsAaLookup idx true alloc = none := by
  have hone : ¬ idx < caaSize := by
    unfold caaCapacity caaSize at *
    omega
  have htwo : ¬ (idx - caaSize) / caaSize < caaSize := by
    unfold caaCapacity caaSize at *
    omega
  have hthree := mt (three_lt_iff idx).mp (Nat.not_lt.mpr hidx)
  obtain ⟨p, hp⟩ := exists_cfsAaLookup1 a.aa3d
  have hderef : deref (some p) ((idx - caaSize - caaSize * caaSize) / caaSize / caaSize) = none :=
    dif_neg hthree
  unfold cfsAaLookup
  simp only [halloc, if_neg hone, if_neg htwo, hp, hderef, Option.bind_eq_bind, Option.bind_none]

/-! ### The array of cells -/

/-- The cells, which hold NULL where there is no page. -/
def cells (a : AutoArray α) (s : Slot) : Option α := (a.load s).join

/-- A cell with an element can be read. -/
theorem load_of_cells {b : α} (h : a.cells s = some b) : a.load s = some (some b) :=
  Option.join_eq_some_iff.mp h

/-- Growth changes no cell. -/
theorem Grows.cells_eq (h : Grows a a') : a'.cells = a.cells := by
  funext s
  unfold cells
  rcases h s with heq | ⟨hold, hnew⟩
  · rw [heq]
  · rw [hold, hnew]
    rfl

/-- Growth removes no page. -/
theorem Grows.exists_load (h : Grows a a') (hx : ∃ x, a.load s = some x) :
    ∃ x, a'.load s = some x := by
  rcases h s with heq | ⟨hold, -⟩
  · rwa [heq]
  · obtain ⟨x, hx⟩ := hx
    rw [hold] at hx
    cases hx

/-- A write of the cell of an index is a write of the array. -/
theorem cells_store {idx : Nat} (h : a.store e (NrsBinheap.cfsAaIndex idx) = some a') :
    a'.cells = put a.cells idx e := by
  funext s
  unfold cells put
  rw [load_store h]
  split <;> rfl

/-- A write removes no page. -/
theorem exists_load_store {t : Slot} (h : a.store e t = some a') (hx : ∃ x, a.load s = some x) :
    ∃ x, a'.load s = some x := by
  rw [load_store h]
  split
  · exact ⟨e, rfl⟩
  · exact hx

end AutoArray

end LustreSimulator.NrsBinheap
