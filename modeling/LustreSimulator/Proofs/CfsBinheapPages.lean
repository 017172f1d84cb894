import LustreSimulator.CfsBinheap
import Mathlib.Data.Finset.Card
import Mathlib.Data.Finset.Insert

/-!
# `LustreSimulator.Proofs.CfsBinheapPages`: the pages of a heap

`Shape` is the invariant of the pages: a page is there when its first cell is below `cbh_hwm`, and
`pages` counts them. `grow_ok` and `grow_fail` say what `cfs_binheap_grow` does. It allocates the
pages that begin at `cbh_hwm` (`newPages`), or changes nothing.

`destroy_spec` is about `cfs_binheap_destroy`, which frees every page once and each one before its
parent. `create_spec` is about `cfs_binheap_create`.
-/

set_option autoImplicit false

namespace LustreSimulator.CfsBinheap

open Lib PageTable

variable {ι : Type*} {h h' : CfsBinheap ι} {alloc : Nat → Bool} {b c : Block} {bs cs : List Block}

/-! ### The pages that are there -/

/-- The number of cells in three levels. -/
def cbhCapacity : Nat := cbhSize + cbhSize * cbhSize + cbhSize * cbhSize * cbhSize

/-- What holds of the pages between two calls. -/
structure Shape (h : CfsBinheap ι) : Prop where
  aligned : h.hwm % cbhSize = 0
  cap : h.hwm ≤ cbhCapacity
  has : ∀ b, h.elements.Has cbhSize b = true ↔ b.Fits cbhSize ∧ b.first cbhSize < h.hwm
  pages : ∃ S : Finset Block, (∀ b, b ∈ S ↔ h.elements.Has cbhSize b = true) ∧ S.card = h.pages

/-- A new heap has no pages. -/
theorem shape_new (chnIndex : ι → Nat) : Shape (new chnIndex) := by
  have hnone : ∀ b, (new chnIndex).elements.Has cbhSize b = false := by
    intro b
    cases b <;> simp [new, Has, leaf]
  refine ⟨rfl, Nat.zero_le _, fun b => ?_, ∅, fun b => ?_, rfl⟩
  · rw [hnone]
    exact iff_of_false Bool.false_ne_true fun hlt => Nat.not_lt_zero _ hlt.2
  · rw [hnone]
    exact iff_of_false (Finset.notMem_empty _) Bool.false_ne_true

/-- The cells below `cbh_hwm` are there. -/
theorem Shape.exists_load (hs : Shape h) {i : Nat} (hi : i < h.hwm) :
    ∃ x, h.elements.load cbhSize i = some x := by
  have hfirst := first_way cbhSize i
  rw [exists_load_iff (by decide), hs.has]
  exact ⟨fits_way (by decide) (Nat.lt_of_lt_of_le hi hs.cap), by omega⟩

/-- Every page begins at a multiple of the page size. -/
theorem first_mod (b : Block) : b.first cbhSize % cbhSize = 0 := by
  have hsize : cbhSize = 512 := rfl
  cases b <;> simp only [Block.first, hsize] <;> omega

/-- A page does not begin before its parent. -/
theorem first_parent {p : Block} (h : b.parent = some p) :
    p.first cbhSize ≤ b.first cbhSize ∧ (b.Fits cbhSize → p.Fits cbhSize) := by
  cases b with
  | two i =>
      cases h
      exact ⟨Nat.le_add_right _ _, fun _ => trivial⟩
  | mid i =>
      cases h
      exact ⟨Nat.le_add_right _ _, fun _ => trivial⟩
  | three i j =>
      cases h
      exact ⟨Nat.le_add_right _ _, fun hfits => hfits.1⟩
  | _ => cases h

/-! ### `cfs_binheap_grow` -/

/-- The pages that `cfs_binheap_grow` allocates, in the order in which they are linked. -/
def newPages (hwm : Nat) : List Block :=
  if hwm = 0 then [.one]
  else
    let hwm := hwm - cbhSize
    if hwm < cbhSize * cbhSize then
      (if hwm = 0 then [.dir2] else []) ++ [.two (hwm / cbhSize)]
    else
      let hwm := hwm - cbhSize * cbhSize
      let idx0 := hwm / (cbhSize * cbhSize)
      let idx1 := hwm / cbhSize % cbhSize
      (if hwm = 0 then [.dir3] else []) ++ (if idx1 = 0 then [.mid idx0] else []) ++
        [.three idx0 idx1]

/-- The new pages on the second level. -/
theorem newPages_two {hwm k : Nat} (hzero : hwm ≠ 0) (hk : hwm - cbhSize = k)
    (htwo : k < cbhSize * cbhSize) :
    newPages hwm = (if k = 0 then [.dir2] else []) ++ [.two (k / cbhSize)] := by
  unfold newPages
  dsimp only
  rw [if_neg hzero, hk, if_pos htwo]

/-- The new pages on the third level. -/
theorem newPages_three {hwm k : Nat} (hzero : hwm ≠ 0) (htwo : ¬ hwm - cbhSize < cbhSize * cbhSize)
    (hk : hwm - cbhSize - cbhSize * cbhSize = k) :
    newPages hwm = (if k = 0 then [.dir3] else []) ++
      (if k / cbhSize % cbhSize = 0 then [.mid (k / (cbhSize * cbhSize))] else []) ++
      [.three (k / (cbhSize * cbhSize)) (k / cbhSize % cbhSize)] := by
  unfold newPages
  dsimp only
  rw [if_neg hzero, if_neg htwo, hk]

/-- They are the pages that begin at `cbh_hwm`. -/
theorem mem_newPages {hwm : Nat} (haligned : hwm % cbhSize = 0) (hcap : hwm < cbhCapacity) :
    b ∈ newPages hwm ↔ b.Fits cbhSize ∧ b.first cbhSize = hwm := by
  have hsize : cbhSize = 512 := rfl
  unfold cbhCapacity at hcap
  unfold newPages
  rw [hsize] at hcap haligned ⊢
  dsimp only
  split
  · cases b <;> simp [Block.Fits, Block.first] <;> omega
  · split
    · cases b <;> split <;> simp [Block.Fits, Block.first] <;> omega
    · cases b <;> split <;> split <;> simp [Block.Fits, Block.first] <;> omega

/-- No page is allocated twice. -/
theorem nodup_newPages (hwm : Nat) : (newPages hwm).Nodup := by
  unfold newPages
  dsimp only
  split
  · simp
  · split
    · split <;> simp
    · split <;> split <;> simp

/-- New pages are in their places, and nothing else changed. -/
structure Grown (h h' : CfsBinheap ι) (bs : List Block) : Prop where
  has : ∀ c, h'.elements.Has cbhSize c = (h.elements.Has cbhSize c || decide (c ∈ bs))
  load : ∀ i x, h.elements.load cbhSize i = some x → h'.elements.load cbhSize i = some x
  pages : h'.pages = h.pages + bs.length
  hwm : h'.hwm = h.hwm
  nelements : h'.nelements = h.nelements
  chnIndex : h'.chnIndex = h.chnIndex

/-- No page was added. -/
theorem Grown.refl (h : CfsBinheap ι) : Grown h h [] :=
  ⟨fun c => by simp, fun _ _ hx => hx, rfl, rfl, rfl, rfl⟩

/-- More pages were added. -/
theorem Grown.append {h₁ : CfsBinheap ι} (h₀ : Grown h h₁ bs) (h₁' : Grown h₁ h' cs) :
    Grown h h' (bs ++ cs) := by
  refine ⟨fun c => ?_, fun i x hx => h₁'.load i x (h₀.load i x hx), ?_, h₁'.hwm.trans h₀.hwm,
    h₁'.nelements.trans h₀.nelements, h₁'.chnIndex.trans h₀.chnIndex⟩
  · rw [h₁'.has, h₀.has]
    simp [Bool.or_assoc]
  · rw [h₁'.pages, h₀.pages, List.length_append, Nat.add_assoc]

/-- A page is linked into its parent. -/
theorem addPage_spec (hfits : b.Fits cbhSize) (hfresh : h.elements.Has cbhSize b = false)
    (hparent : ∀ p, b.parent = some p → h.elements.Has cbhSize p = true) :
    ∃ h', h.addPage b = .ok h' ∧ Grown h h' [b] := by
  obtain ⟨t, ht⟩ := exists_fill hfits hparent
  refine ⟨{ h with elements := t, pages := h.pages + 1 }, ?_, ?_, ?_, rfl, rfl, rfl, rfl⟩
  · unfold addPage
    rw [ht]
    rfl
  · intro c
    rw [has_fill ht hfresh]
    simp
  · intro i x hx
    rw [load_fill (by decide) ht hfresh, if_neg, hx]
    rintro rfl
    have hthere := (exists_load_iff (by decide)).mp ⟨x, hx⟩
    rw [hfresh] at hthere
    cases hthere

/-- `cfs_binheap_grow` can get its pages, and there is room for them. -/
def CanGrow (hwm : Nat) (alloc : Nat → Bool) : Prop :=
  hwm < cbhCapacity ∧ ∀ k, k < (newPages hwm).length → alloc k = true

/-- A page that begins at `cbh_hwm` is not there. -/
theorem Shape.fresh (hs : Shape h) (hb : h.hwm ≤ b.first cbhSize) :
    h.elements.Has cbhSize b = false := by
  rw [← Bool.not_eq_true, hs.has]
  exact fun hthere => absurd hthere.2 (by omega)

/-- A page that begins below `cbh_hwm` is there. -/
theorem Shape.there (hs : Shape h) (hfits : b.Fits cbhSize) (hb : b.first cbhSize < h.hwm) :
    h.elements.Has cbhSize b = true := (hs.has b).mpr ⟨hfits, hb⟩

/-- The next of the new pages. Its parent is there, or it is a new page that was added before. -/
theorem Shape.addPage_next {h₁ : CfsBinheap ι} (hs : Shape h) (hcap : h.hwm < cbhCapacity)
    (hgrown : Grown h h₁ bs) (hb : b ∈ newPages h.hwm) (hnot : b ∉ bs)
    (hparent : ∀ p, b.parent = some p → p ∈ newPages h.hwm → p ∈ bs) :
    ∃ h', h₁.addPage b = .ok h' ∧ Grown h h' (bs ++ [b]) := by
  obtain ⟨hfits, hfirst⟩ := (mem_newPages hs.aligned hcap).mp hb
  have hfresh : h₁.elements.Has cbhSize b = false := by
    rw [hgrown.has, hs.fresh (by omega)]
    simp [hnot]
  obtain ⟨h', heq, hadded⟩ := addPage_spec hfits hfresh fun p hp => by
    obtain ⟨hle, hpfits⟩ := first_parent hp
    rw [hgrown.has]
    by_cases hlt : p.first cbhSize < h.hwm
    · rw [hs.there (hpfits hfits) hlt]
      rfl
    · have hnew := (mem_newPages hs.aligned hcap).mpr ⟨hpfits hfits, by omega⟩
      simp [hparent p hp hnew]
  exact ⟨h', heq, hgrown.append hadded⟩

/-- The same for a page that is allocated on a condition. -/
theorem Shape.addPage_if {h₁ : CfsBinheap ι} {P : Prop} [Decidable P] (hs : Shape h)
    (hcap : h.hwm < cbhCapacity) (hgrown : Grown h h₁ bs) (hb : P → b ∈ newPages h.hwm)
    (hnot : b ∉ bs) (hparent : ∀ p, b.parent = some p → p ∈ newPages h.hwm → p ∈ bs) :
    ∃ h', (if P then h₁.addPage b else .ok h₁) = .ok h' ∧
      Grown h h' (bs ++ if P then [b] else []) := by
  by_cases hP : P
  · simp only [if_pos hP]
    exact hs.addPage_next hcap hgrown (hb hP) hnot hparent
  · simp only [if_neg hP, List.append_nil]
    exact ⟨h₁, rfl, hgrown⟩

/-- `cfs_binheap_grow` allocates the pages that begin at `cbh_hwm`. -/
theorem grow_ok (hs : Shape h) (hgrow : CanGrow h.hwm alloc) :
    ∃ h', h.cfsBinheapGrow alloc = .ok (0, { h' with hwm := h.hwm + cbhSize }) ∧
      Grown h h' (newPages h.hwm) := by
  obtain ⟨hcap, halloc⟩ := hgrow
  unfold cfsBinheapGrow
  rw [check_true hs.aligned, ok_bind]
  dsimp only
  split
  case isTrue hzero =>
    have hpages : newPages h.hwm = [.one] := if_pos hzero
    rw [hpages] at halloc ⊢
    obtain ⟨h', heq, hgrown⟩ := hs.addPage_next hcap (Grown.refl h) (b := .one)
      (by rw [hpages]; exact List.mem_singleton.mpr rfl) List.not_mem_nil (fun _ hp => nomatch hp)
    refine ⟨h', ?_, hgrown⟩
    rw [halloc 0 Nat.one_pos, if_neg Bool.noConfusion, heq, ok_bind, hgrown.hwm]
  case isFalse hzero =>
    split
    case isTrue htwo =>
      obtain ⟨k, hk⟩ : ∃ k, h.hwm - cbhSize = k := ⟨_, rfl⟩
      rw [hk] at htwo ⊢
      have hpages := newPages_two hzero hk htwo
      obtain ⟨h₁, heq₁, hgrown₁⟩ := hs.addPage_if hcap (Grown.refl h) (b := .dir2) (P := k = 0)
        (fun hP => by rw [hpages, if_pos hP]; simp) List.not_mem_nil (fun _ hp => nomatch hp)
      obtain ⟨h₂, heq₂, hgrown₂⟩ := hs.addPage_next hcap hgrown₁ (b := .two (k / cbhSize))
        (by rw [hpages]; simp) (by split <;> simp)
        (fun p hp hnew => by
          cases hp
          rw [hpages] at hnew
          simpa using hnew)
      refine ⟨h₂, ?_, hpages ▸ hgrown₂⟩
      rw [hpages] at halloc
      have halloc1 : ¬ (k = 0 ∧ alloc 1 = false) := by
        rintro ⟨rfl, hfail⟩
        rw [halloc 1 (by decide)] at hfail
        cases hfail
      rw [halloc 0 (by simp), if_neg Bool.noConfusion, if_neg halloc1, heq₁, ok_bind, heq₂,
        ok_bind, hgrown₂.hwm]
    case isFalse htwo =>
      obtain ⟨k, hk⟩ : ∃ k, h.hwm - cbhSize - cbhSize * cbhSize = k := ⟨_, rfl⟩
      have hpages := newPages_three hzero htwo hk
      rw [hk]
      obtain ⟨h₁, heq₁, hgrown₁⟩ := hs.addPage_if hcap (Grown.refl h) (b := .dir3) (P := k = 0)
        (fun hP => by rw [hpages, if_pos hP]; simp) List.not_mem_nil (fun _ hp => nomatch hp)
      obtain ⟨h₂, heq₂, hgrown₂⟩ := hs.addPage_if hcap hgrown₁
        (b := .mid (k / (cbhSize * cbhSize))) (P := k / cbhSize % cbhSize = 0)
        (fun hP => by rw [hpages, if_pos hP]; simp) (by split <;> simp)
        (fun p hp hnew => by
          cases hp
          rw [hpages] at hnew
          split at hnew <;> simp_all)
      obtain ⟨h₃, heq₃, hgrown₃⟩ := hs.addPage_next hcap hgrown₂
        (b := .three (k / (cbhSize * cbhSize)) (k / cbhSize % cbhSize))
        (by rw [hpages]; simp) (by split <;> split <;> simp)
        (fun p hp hnew => by
          cases hp
          rw [hpages] at hnew
          simpa using hnew)
      refine ⟨h₃, ?_, hpages ▸ hgrown₃⟩
      obtain ⟨hfits, hfirst⟩ := (mem_newPages hs.aligned hcap).mp
        (show .three (k / (cbhSize * cbhSize)) (k / cbhSize % cbhSize) ∈ newPages h.hwm by
          rw [hpages]; simp)
      have hfull : ¬ k ≥ cbhSize * cbhSize * cbhSize := by
        have hpos : 0 < cbhSize * cbhSize * cbhSize := by decide
        unfold cbhCapacity at hcap
        omega
      rw [hpages] at halloc
      have halloc1 : ¬ (k / cbhSize % cbhSize = 0 ∧ alloc 1 = false) := by
        rintro ⟨hidx, hfail⟩
        rw [halloc 1 (by simp [hidx])] at hfail
        cases hfail
      have halloc2 : ¬ (k = 0 ∧ alloc 2 = false) := by
        rintro ⟨rfl, hfail⟩
        rw [halloc 2 (by decide)] at hfail
        cases hfail
      have hmid : h₁.elements.Has cbhSize (.mid (k / (cbhSize * cbhSize))) =
          !decide (k / cbhSize % cbhSize = 0) := by
        have hnot : Block.mid (k / (cbhSize * cbhSize)) ∉
            ([] ++ if k = 0 then [.dir3] else [] : List Block) := by
          split <;> simp
        rw [hgrown₁.has, decide_eq_false hnot, Bool.or_false]
        by_cases hidx : k / cbhSize % cbhSize = 0
        · rw [decide_eq_true hidx]
          refine hs.fresh ?_
          rw [← hfirst, hidx]
          exact Nat.le_of_eq (by simp [Block.first])
        · rw [decide_eq_false hidx]
          refine hs.there hfits.1 ?_
          rw [← hfirst]
          refine Nat.lt_add_of_pos_right (Nat.mul_pos (Nat.pos_of_ne_zero hidx) (by decide))
      have halloc0 : alloc 0 = true :=
        halloc 0 (by rw [List.length_append]; exact Nat.succ_pos _)
      rw [if_neg hfull, halloc0, if_neg Bool.noConfusion, if_neg halloc1,
        if_neg halloc2, heq₁, ok_bind, hmid]
      split at heq₂
      · rename_i hidx
        rw [if_pos hidx, check_true (by rw [decide_eq_true hidx]; rfl), ok_bind, heq₂, ok_bind,
          heq₃, ok_bind, hgrown₃.hwm]
      · rename_i hidx
        cases heq₂
        rw [if_neg hidx, check_true (by rw [decide_eq_false hidx]; rfl), ok_bind, ok_bind,
          heq₃, ok_bind, hgrown₃.hwm]

/-- Otherwise `cfs_binheap_grow` changes nothing. -/
theorem grow_fail (hs : Shape h) (hgrow : ¬ CanGrow h.hwm alloc) :
    h.cfsBinheapGrow alloc = .ok (enomem, h) := by
  unfold cfsBinheapGrow
  rw [check_true hs.aligned, ok_bind]
  dsimp only
  split
  case isTrue hzero =>
    split
    case isTrue => rfl
    case isFalse halloc0 =>
      refine absurd ⟨by rw [hzero]; decide, fun k hk => ?_⟩ hgrow
      have hpages : newPages h.hwm = [.one] := if_pos hzero
      rw [hpages] at hk
      have hk0 : k = 0 := Nat.lt_one_iff.mp hk
      rw [hk0]
      exact Bool.of_not_eq_false halloc0
  case isFalse hzero =>
    split
    case isTrue htwo =>
      split
      case isTrue => rfl
      case isFalse halloc0 =>
        split
        case isTrue => rfl
        case isFalse halloc1 =>
          refine absurd ⟨by unfold cbhCapacity; omega, fun k hk => ?_⟩ hgrow
          rw [newPages_two hzero rfl htwo] at hk
          match k with
          | 0 => exact Bool.of_not_eq_false halloc0
          | 1 =>
              refine Bool.of_not_eq_false fun hfail => halloc1 ⟨?_, hfail⟩
              by_contra hne
              rw [if_neg hne] at hk
              exact Nat.lt_irrefl 1 hk
          | k + 2 => exact absurd hk (by split <;> simp)
    case isFalse htwo =>
      split
      case isTrue => rfl
      case isFalse hfull =>
        split
        case isTrue => rfl
        case isFalse halloc0 =>
          split
          case isTrue => rfl
          case isFalse halloc1 =>
            split
            case isTrue => rfl
            case isFalse halloc2 =>
              refine absurd ⟨by unfold cbhCapacity; omega, fun k hk => ?_⟩ hgrow
              rw [newPages_three hzero htwo rfl] at hk
              match k with
              | 0 => exact Bool.of_not_eq_false halloc0
              | 1 =>
                  refine Bool.of_not_eq_false fun hfail => halloc1 ⟨?_, hfail⟩
                  by_contra hne
                  have hpos : h.hwm - cbhSize - cbhSize * cbhSize ≠ 0 := by
                    intro hk0
                    rw [hk0] at hne
                    exact hne rfl
                  rw [if_neg hne, if_neg hpos] at hk
                  exact Nat.lt_irrefl 1 hk
              | 2 =>
                  refine Bool.of_not_eq_false fun hfail => halloc2 ⟨?_, hfail⟩
                  by_contra hne
                  rw [if_neg hne] at hk
                  split at hk <;> simp at hk
              | k + 3 => exact absurd hk (by split <;> split <;> simp)

/-- The pages are right after `cfs_binheap_grow`. -/
theorem Shape.grow (hs : Shape h) (hcap : h.hwm < cbhCapacity)
    (hgrown : Grown h h' (newPages h.hwm)) : Shape { h' with hwm := h.hwm + cbhSize } := by
  have hsize : cbhSize = 512 := rfl
  have hroom : cbhCapacity = 134480384 := rfl
  have haligned := hs.aligned
  obtain ⟨S, hS, hcard⟩ := hs.pages
  have hnew := fun b => mem_newPages (b := b) hs.aligned hcap
  refine ⟨?_, ?_, fun b => ?_, S ∪ (newPages h.hwm).toFinset, fun b => ?_, ?_⟩
  · show (h.hwm + cbhSize) % cbhSize = 0
    rw [Nat.add_mod_right, haligned]
  · show h.hwm + cbhSize ≤ cbhCapacity
    rw [hsize] at haligned ⊢
    omega
  · show h'.elements.Has cbhSize b = true ↔ b.Fits cbhSize ∧ b.first cbhSize < h.hwm + cbhSize
    have hmod := first_mod b
    rw [hgrown.has, Bool.or_eq_true, decide_eq_true_iff, hs.has, hnew, ← and_or_left]
    refine and_congr_right fun _ => ?_
    obtain ⟨first, hfirst⟩ : ∃ first, b.first cbhSize = first := ⟨_, rfl⟩
    rw [hfirst] at hmod ⊢
    rw [hsize] at haligned hmod ⊢
    omega
  · show b ∈ S ∪ (newPages h.hwm).toFinset ↔ h'.elements.Has cbhSize b = true
    rw [hgrown.has, Bool.or_eq_true, decide_eq_true_iff, Finset.mem_union, hS, List.mem_toFinset]
  · show (S ∪ (newPages h.hwm).toFinset).card = h'.pages
    have hdisjoint : Disjoint S (newPages h.hwm).toFinset := by
      rw [Finset.disjoint_left]
      intro b hb hb'
      have hlt := ((hs.has b).mp ((hS b).mp hb)).2
      have heq := ((hnew b).mp (List.mem_toFinset.mp hb')).2
      omega
    rw [Finset.card_union_of_disjoint hdisjoint, hcard, hgrown.pages,
      List.toFinset_card_of_nodup (nodup_newPages _)]

/-! ### `cfs_binheap_destroy` -/

/-- A page that is there is freed. -/
theorem cbhFree_eq (hb : h.elements.Has cbhSize b = true) : h.cbhFree b = .ok b := by
  unfold cbhFree
  rw [check_true hb, ok_bind]

/-- The number of elements left, of `q` pages. -/
theorem pagesLeft (q : Nat) : ((cbhSize * (q + 1) : Nat) : Int) > 0 ∧
    ((cbhSize * (q + 1) : Nat) : Int) - cbhSize = (cbhSize * q : Nat) := by
  have hsize : cbhSize = 512 := rfl
  rw [hsize]
  omega

/-- An inner loop frees one page for each `CBH_SIZE` elements, up to the end of its parent. -/
theorem freeLoop_spec (block : Nat → Block) (k idx q : Nat)
    (hthere : ∀ i, i < min k q → h.elements.Has cbhSize (block (idx + i)) = true) :
    h.freeLoop block k idx (cbhSize * q : Nat) =
      .ok ((List.range' idx (min k q)).map block, ((cbhSize * (q - min k q) : Nat) : Int)) := by
  induction k generalizing idx q with
  | zero => simp [freeLoop]
  | succ k ih =>
      unfold freeLoop
      cases q with
      | zero => simp
      | succ q =>
          obtain ⟨hpos, hleft⟩ := pagesLeft q
          have hmin : min (k + 1) (q + 1) = min k q + 1 := by omega
          have hfirst : h.elements.Has cbhSize (block idx) = true := hthere 0 (by omega)
          have hrest := ih (idx + 1) q fun i hi => by
            have hnext := hthere (i + 1) (by omega)
            rwa [show idx + (i + 1) = idx + 1 + i by omega] at hnext
          rw [if_pos hpos, cbhFree_eq hfirst, ok_bind, hleft, hrest, ok_bind, hmin,
            List.range'_succ, List.map_cons, Nat.add_sub_add_right]

/-- The pages that the loop over `cbh_elements3` frees, of `q` pages with elements. -/
def pages3 : Nat → Nat → Nat → List Block
  | 0, _, _ => []
  | k + 1, idx0, q =>
      if q = 0 then []
      else (List.range' 0 (min cbhSize q)).map (.three idx0) ++
        .mid idx0 :: pages3 k (idx0 + 1) (q - min cbhSize q)

/-- They are the pages of `q` pages with elements, and their parents. -/
theorem mem_pages3 (k idx q : Nat) :
    b ∈ pages3 k idx q ↔ (∃ i, i < k ∧ cbhSize * i < q ∧ b = .mid (idx + i)) ∨
      ∃ i j, i < k ∧ j < cbhSize ∧ cbhSize * i + j < q ∧ b = .three (idx + i) j := by
  induction k generalizing idx q with
  | zero => simp [pages3]
  | succ k ih =>
      have hmul : ∀ i, cbhSize * (i + 1) = cbhSize * i + cbhSize := fun i => Nat.mul_succ _ _
      unfold pages3
      split
      · rename_i hq
        subst hq
        simp
      · rename_i hq
        rw [List.mem_append, List.mem_cons, ih, List.mem_map]
        constructor
        · rintro (⟨j, hj, rfl⟩ | rfl | ⟨i, hi, hlt, rfl⟩ | ⟨i, j, hi, hj, hlt, rfl⟩)
          · rw [List.mem_range'_1] at hj
            exact Or.inr ⟨0, j, by omega, by omega, by omega, rfl⟩
          · exact Or.inl ⟨0, by omega, by omega, rfl⟩
          · refine Or.inl ⟨i + 1, by omega, ?_, by rw [Nat.add_right_comm, Nat.add_assoc]⟩
            rw [hmul]
            omega
          · refine Or.inr ⟨i + 1, j, by omega, hj, ?_, by rw [Nat.add_right_comm, Nat.add_assoc]⟩
            rw [hmul]
            omega
        · rintro (⟨i, hi, hlt, rfl⟩ | ⟨i, j, hi, hj, hlt, rfl⟩)
          · cases i with
            | zero => exact Or.inr (Or.inl rfl)
            | succ i =>
                rw [hmul] at hlt
                refine Or.inr (Or.inr (Or.inl ⟨i, by omega, by omega, ?_⟩))
                rw [Nat.add_right_comm, Nat.add_assoc]
          · cases i with
            | zero =>
                refine Or.inl ⟨j, List.mem_range'_1.mpr ⟨Nat.zero_le j, ?_⟩, rfl⟩
                omega
            | succ i =>
                rw [hmul] at hlt
                refine Or.inr (Or.inr (Or.inr ⟨i, j, by omega, hj, by omega, ?_⟩))
                rw [Nat.add_right_comm, Nat.add_assoc]

/-- The loop over `cbh_elements3` frees them. -/
theorem freeLoop3_spec (k idx q : Nat)
    (hthere : ∀ b, b ∈ pages3 k idx q → h.elements.Has cbhSize b = true) :
    h.freeLoop3 k idx (cbhSize * q : Nat) =
      .ok (pages3 k idx q, ((cbhSize * (q - cbhSize * k) : Nat) : Int)) := by
  induction k generalizing idx q with
  | zero => simp [freeLoop3, pages3]
  | succ k ih =>
      unfold freeLoop3 pages3
      unfold pages3 at hthere
      cases q with
      | zero => simp
      | succ q =>
          rw [if_neg (Nat.succ_ne_zero q)] at hthere ⊢
          have hloop := freeLoop_spec (h := h) (.three idx) cbhSize 0 (q + 1) fun i hi =>
            hthere _ (List.mem_append_left _ (List.mem_map_of_mem (by
              rw [List.mem_range'_1]
              omega)))
          have hmid := hthere (.mid idx) (by simp)
          have hrest := ih (idx + 1) (q + 1 - min cbhSize (q + 1)) fun b hb =>
            hthere b (List.mem_append_right _ (List.mem_cons_of_mem _ hb))
          have hleft : q + 1 - min cbhSize (q + 1) - cbhSize * k = q + 1 - cbhSize * (k + 1) := by
            have hmul : cbhSize * (k + 1) = cbhSize * k + cbhSize := Nat.mul_succ _ _
            omega
          rw [if_pos (pagesLeft q).1, hloop, ok_bind, cbhFree_eq hmid, ok_bind, hrest, ok_bind,
            hleft]

/-- The pages of the first level, of `q` pages with elements. -/
def level1 (q : Nat) : List Block := if q > 0 then [.one] else []

/-- The pages of the second level, of `q` pages with elements from there. -/
def level2 (q : Nat) : List Block :=
  if q > 0 then (List.range' 0 (min cbhSize q)).map .two ++ [.dir2] else []

/-- The pages of the third level, of `q` pages with elements from there. -/
def level3 (q : Nat) : List Block :=
  if q > 0 then pages3 cbhSize 0 q ++ [.dir3] else []

/-- The pages that `cfs_binheap_destroy` frees, of `q` pages with elements. -/
def allPages (q : Nat) : List Block :=
  level1 q ++ level2 (q - 1) ++ level3 (q - 1 - cbhSize)

/-- They are the pages that begin below the end. -/
theorem mem_allPages (q : Nat) :
    b ∈ allPages q ↔ b.Fits cbhSize ∧ b.first cbhSize < cbhSize * q := by
  have hsize : cbhSize = 512 := rfl
  unfold allPages level1 level2 level3
  simp only [List.mem_append, List.mem_ite_nil_right, List.mem_singleton, List.mem_map,
    List.mem_range'_1, mem_pages3]
  rw [hsize]
  cases b with
  | one => simp [Block.Fits, Block.first]
  | _ => simp [Block.Fits, Block.first] <;> omega

/-- The order in which the pages are freed: a page once, and not before the pages it leads to. -/
def FreedBefore (b c : Block) : Prop := b ≠ c ∧ c.parent ≠ some b

/-- A page of values is no parent. -/
theorem freedBefore_leaf (hb : b.IsLeaf) (hne : b ≠ c) : FreedBefore b c := by
  refine ⟨hne, fun hp => ?_⟩
  cases c <;> cases hp <;> exact hb

/-- The order in the loop over `cbh_elements3`. -/
theorem pages3_pairwise (k idx q : Nat) : (pages3 k idx q).Pairwise FreedBefore := by
  induction k generalizing idx q with
  | zero => exact .nil
  | succ k ih =>
      unfold pages3
      split
      · exact .nil
      · rw [List.pairwise_append, List.pairwise_cons, List.pairwise_map]
        refine ⟨(List.pairwise_lt_range' ..).imp fun hlt => ?_, ⟨fun b hb => ?_, ih _ _⟩, ?_⟩
        · exact freedBefore_leaf trivial (by simp [Nat.ne_of_lt hlt])
        · -- the pages of the next turns have other parents
          rcases (mem_pages3 _ _ _).mp hb with ⟨i, -, -, rfl⟩ | ⟨i, j, -, -, -, rfl⟩
          · exact ⟨by simp; omega, by simp [Block.parent]⟩
          · exact ⟨by simp, by simp [Block.parent]; omega⟩
        · intro b hb c hc
          obtain ⟨j, -, rfl⟩ := List.mem_map.mp hb
          refine freedBefore_leaf trivial ?_
          rcases List.mem_cons.mp hc with rfl | hc
          · simp
          · rcases (mem_pages3 _ _ _).mp hc with ⟨i, -, -, rfl⟩ | ⟨i, j, -, -, -, rfl⟩
            · simp
            · simp
              omega

/-- The order in which `cfs_binheap_destroy` frees. -/
theorem allPages_pairwise (q : Nat) : (allPages q).Pairwise FreedBefore := by
  have hone : ∀ c, c ∈ level1 q → c = .one := by
    simp only [level1, List.mem_ite_nil_right, List.mem_singleton]
    exact fun c hc => hc.2
  have htwo : ∀ c, c ∈ level2 (q - 1) → (∃ i, c = .two i) ∨ c = .dir2 := by
    simp only [level2, List.mem_ite_nil_right, List.mem_append, List.mem_map, List.mem_singleton]
    rintro c ⟨-, ⟨i, -, rfl⟩ | rfl⟩
    · exact Or.inl ⟨i, rfl⟩
    · exact Or.inr rfl
  have hthree : ∀ c, c ∈ level3 (q - 1 - cbhSize) →
      (∃ i, c = .mid i) ∨ (∃ i j, c = .three i j) ∨ c = .dir3 := by
    simp only [level3, List.mem_ite_nil_right, List.mem_append, mem_pages3, List.mem_singleton]
    rintro c ⟨-, (⟨i, -, -, rfl⟩ | ⟨i, j, -, -, -, rfl⟩) | rfl⟩
    · exact Or.inl ⟨_, rfl⟩
    · exact Or.inr (Or.inl ⟨_, _, rfl⟩)
    · exact Or.inr (Or.inr rfl)
  unfold allPages
  rw [List.pairwise_append, List.pairwise_append]
  refine ⟨⟨?_, ?_, ?_⟩, ?_, ?_⟩
  · unfold level1
    split <;> simp
  · unfold level2
    split
    · rw [List.pairwise_append, List.pairwise_map]
      refine ⟨(List.pairwise_lt_range' ..).imp fun hlt => ?_, List.pairwise_singleton _ _, ?_⟩
      · exact freedBefore_leaf trivial (by simp [Nat.ne_of_lt hlt])
      · intro b hb c hc
        obtain ⟨i, -, rfl⟩ := List.mem_map.mp hb
        exact freedBefore_leaf trivial (by simp [List.mem_singleton.mp hc])
    · exact .nil
  · intro b hb c hc
    rw [hone b hb]
    rcases htwo c hc with ⟨i, rfl⟩ | rfl <;> exact freedBefore_leaf trivial (by simp)
  · unfold level3
    split
    · rw [List.pairwise_append]
      refine ⟨pages3_pairwise _ _ _, List.pairwise_singleton _ _, ?_⟩
      intro b hb c hc
      rw [List.mem_singleton.mp hc]
      rcases (mem_pages3 _ _ _).mp hb with ⟨i, -, -, rfl⟩ | ⟨i, j, -, -, -, rfl⟩ <;>
        simp [FreedBefore, Block.parent]
    · exact .nil
  · intro b hb c hc
    have hc := hthree c hc
    rcases List.mem_append.mp hb with hb | hb
    · rw [hone b hb]
      rcases hc with ⟨i, rfl⟩ | ⟨i, j, rfl⟩ | rfl <;> exact freedBefore_leaf trivial (by simp)
    · rcases htwo b hb with ⟨k, rfl⟩ | rfl
      · rcases hc with ⟨i, rfl⟩ | ⟨i, j, rfl⟩ | rfl <;> exact freedBefore_leaf trivial (by simp)
      · rcases hc with ⟨i, rfl⟩ | ⟨i, j, rfl⟩ | rfl <;> simp [FreedBefore, Block.parent]

/-- The first level is freed. -/
theorem destroy_one {q : Nat} (hthere : ∀ b, b ∈ level1 q → h.elements.Has cbhSize b = true) :
    (if ((cbhSize * q : Nat) : Int) > 0 then
        (h.cbhFree .one).bind fun b => .ok ([b], ((cbhSize * q : Nat) : Int) - cbhSize)
      else .ok ([], ((cbhSize * q : Nat) : Int))) =
      .ok (level1 q, ((cbhSize * (q - 1) : Nat) : Int)) := by
  unfold level1 at hthere ⊢
  cases q with
  | zero => simp
  | succ q =>
      have hfree := cbhFree_eq (hthere .one (by simp))
      rw [if_pos (pagesLeft q).1, hfree, ok_bind, (pagesLeft q).2]
      rfl

/-- The second level is freed. -/
theorem destroy_two {q : Nat} (hthere : ∀ b, b ∈ level2 q → h.elements.Has cbhSize b = true) :
    (if ((cbhSize * q : Nat) : Int) > 0 then
        (h.freeLoop .two cbhSize 0 (cbhSize * q : Nat)).bind fun r =>
        (h.cbhFree .dir2).bind fun b => .ok (r.1 ++ [b], r.2)
      else .ok ([], ((cbhSize * q : Nat) : Int))) =
      .ok (level2 q, ((cbhSize * (q - cbhSize) : Nat) : Int)) := by
  unfold level2 at hthere ⊢
  cases q with
  | zero => simp
  | succ q =>
      rw [if_pos (Nat.succ_pos q)] at hthere
      have hloop := freeLoop_spec (h := h) .two cbhSize 0 (q + 1) fun i hi =>
        hthere _ (List.mem_append_left _ (List.mem_map_of_mem (by
          rw [List.mem_range'_1]
          omega)))
      have hfree := cbhFree_eq (hthere .dir2 (by simp))
      have hleft : q + 1 - min cbhSize (q + 1) = q + 1 - cbhSize := by omega
      rw [if_pos (pagesLeft q).1, hloop, ok_bind, hfree, ok_bind, if_pos (Nat.succ_pos q), hleft]

/-- The third level is freed. -/
theorem destroy_three {q : Nat} (hthere : ∀ b, b ∈ level3 q → h.elements.Has cbhSize b = true) :
    ∃ r : Int, (if ((cbhSize * q : Nat) : Int) > 0 then
        (h.freeLoop3 cbhSize 0 (cbhSize * q : Nat)).bind fun r =>
        (h.cbhFree .dir3).bind fun b => .ok (r.1 ++ [b], r.2)
      else .ok ([], ((cbhSize * q : Nat) : Int))) = .ok (level3 q, r) := by
  unfold level3 at hthere ⊢
  cases q with
  | zero => exact ⟨0, by simp⟩
  | succ q =>
      rw [if_pos (Nat.succ_pos q)] at hthere
      have hloop := freeLoop3_spec cbhSize 0 (q + 1) fun b hb =>
        hthere b (List.mem_append_left _ hb)
      have hfree := cbhFree_eq (hthere .dir3 (by simp))
      refine ⟨((cbhSize * (q + 1 - cbhSize * cbhSize) : Nat) : Int), ?_⟩
      rw [if_pos (pagesLeft q).1, hloop, ok_bind, hfree, ok_bind, if_pos (Nat.succ_pos q)]

/-- The pages are freed in this order. -/
theorem destroy_eq {q : Nat} (hhwm : h.hwm = cbhSize * q)
    (hthere : ∀ b, b ∈ allPages q → h.elements.Has cbhSize b = true) :
    h.cfsBinheapDestroy = .ok ⟨allPages q, h.pages - (allPages q).length⟩ := by
  unfold allPages at hthere
  have hone := destroy_one fun b hb =>
    hthere b (List.mem_append_left _ (List.mem_append_left _ hb))
  have htwo := destroy_two fun b hb =>
    hthere b (List.mem_append_left _ (List.mem_append_right _ hb))
  obtain ⟨r, hthree⟩ := destroy_three fun b hb => hthere b (List.mem_append_right _ hb)
  unfold cfsBinheapDestroy allPages
  simp only [hhwm, hone, htwo, hthree, ok_bind]

/-- `cfs_binheap_destroy` frees every page that was allocated, once and before its parent. -/
theorem destroy_spec (hs : Shape h) : ∃ d, h.cfsBinheapDestroy = .ok d ∧ d.left = 0 ∧
    d.freed.Pairwise FreedBefore ∧ ∀ b, b ∈ d.freed ↔ h.elements.Has cbhSize b = true := by
  obtain ⟨q, hq⟩ := Nat.dvd_of_mod_eq_zero hs.aligned
  have hmem : ∀ b, b ∈ allPages q ↔ h.elements.Has cbhSize b = true := by
    intro b
    rw [mem_allPages, hs.has, hq]
  refine ⟨_, destroy_eq hq fun b => (hmem b).mp, ?_, allPages_pairwise q, hmem⟩
  obtain ⟨S, hS, hcard⟩ := hs.pages
  have hnodup : (allPages q).Nodup := (allPages_pairwise q).imp fun hb => hb.1
  have hset : (allPages q).toFinset = S := by
    ext b
    rw [List.mem_toFinset, hmem, hS]
  show (h.pages : Int) - (allPages q).length = 0
  rw [← hcard, ← hset, List.toFinset_card_of_nodup hnodup, Int.sub_self]

/-! ### `cfs_binheap_create` -/

variable {count : Nat} {allocs : Nat → Nat → Bool}

/-- `cfs_binheap_grow` is called until there is room, or until it fails. -/
theorem createLoop_spec (k n : Nat) (h : CfsBinheap ι) (hs : Shape h) (hhwm : h.hwm = cbhSize * n)
    (hk : count ≤ h.hwm + k) :
    (∃ h', createLoop count allocs k n h = .ok (.inr h') ∧ Shape h' ∧ count ≤ h'.hwm ∧
        h'.nelements = h.nelements ∧ h'.chnIndex = h.chnIndex ∧
        ∀ m, n ≤ m → cbhSize * m < count → CanGrow (cbhSize * m) (allocs m)) ∨
      ∃ d, createLoop count allocs k n h = .ok (.inl d) ∧ d.left = 0 ∧
        d.freed.Pairwise FreedBefore ∧
        ∃ m, n ≤ m ∧ cbhSize * m < count ∧ ¬ CanGrow (cbhSize * m) (allocs m) := by
  induction k generalizing n h with
  | zero =>
      refine Or.inl ⟨h, rfl, hs, hk, rfl, rfl, fun m hm hlt => ?_⟩
      have hle := Nat.mul_le_mul_left cbhSize hm
      omega
  | succ k ih =>
      unfold createLoop
      split
      · rename_i hlt
        by_cases hgrow : CanGrow h.hwm (allocs n)
        · obtain ⟨h', heq, hgrown⟩ := grow_ok hs hgrow
          have hpos : 0 < cbhSize := by decide
          have hnext : h.hwm + cbhSize = cbhSize * (n + 1) := by rw [hhwm]; rfl
          rw [heq, ok_bind, if_neg (fun hne => hne rfl)]
          rcases ih (n + 1) _ (hs.grow hgrow.1 hgrown) hnext
            (by show count ≤ h.hwm + cbhSize + k; omega) with
            ⟨h'', hloop, hs'', hcount, hn, hindex, hall⟩ | ⟨d, hloop, hleft, hfreed, m, hm, hfail⟩
          · refine Or.inl ⟨h'', hloop, hs'', hcount, hn.trans hgrown.nelements,
              hindex.trans hgrown.chnIndex, fun m hm hlt => ?_⟩
            rcases Nat.eq_or_lt_of_le hm with rfl | hm
            · exact hhwm ▸ hgrow
            · exact hall m hm hlt
          · exact Or.inr ⟨d, hloop, hleft, hfreed, m, by omega, hfail⟩
        · obtain ⟨d, hd, hleft, hfreed, -⟩ := destroy_spec hs
          rw [grow_fail hs hgrow, ok_bind, if_pos (show enomem ≠ 0 by decide), hd, ok_bind]
          exact Or.inr ⟨d, rfl, hleft, hfreed, n, Nat.le_refl n, hhwm ▸ hlt, hhwm ▸ hgrow⟩
      · rename_i hge
        refine Or.inl ⟨h, rfl, hs, by omega, rfl, rfl, fun m hm hlt => ?_⟩
        have hle := Nat.mul_le_mul_left cbhSize hm
        omega

/-- `cfs_binheap_create` makes a heap with room for `count` nodes. When an allocation fails it has
no result, and everything that was allocated is freed. -/
theorem create_spec (chnIndex : ι → Nat) (count : Nat) (allocs : Nat → Nat → Bool) :
    (∃ h, cfsBinheapCreate chnIndex count allocs = .ok (.inr h) ∧ Shape h ∧ count ≤ h.hwm ∧
        h.nelements = 0 ∧ h.chnIndex = chnIndex ∧
        ∀ m, cbhSize * m < count → CanGrow (cbhSize * m) (allocs m)) ∨
      ∃ d, cfsBinheapCreate chnIndex count allocs = .ok (.inl d) ∧ d.left = 0 ∧
        d.freed.Pairwise FreedBefore ∧
        ∃ m, cbhSize * m < count ∧ ¬ CanGrow (cbhSize * m) (allocs m) := by
  rcases createLoop_spec count 0 (new chnIndex)
    (shape_new chnIndex) rfl (Nat.le_add_left _ _) with
    ⟨h, heq, hs, hcount, hn, hindex, hall⟩ | ⟨d, heq, hleft, hfreed, m, -, hfail⟩
  · exact Or.inl ⟨h, heq, hs, hcount, hn, hindex, fun m => hall m (Nat.zero_le m)⟩
  · exact Or.inr ⟨d, heq, hleft, hfreed, m, hfail⟩

end LustreSimulator.CfsBinheap
