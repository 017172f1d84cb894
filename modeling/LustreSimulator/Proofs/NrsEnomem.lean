import LustreSimulator.Proofs.NrsPriorityQueue

/-!
# `LustreSimulator.Proofs.NrsEnomem`: a failed insertion into the binary heap (`nrsbinheap.cpp`)

`Enqueue` counts the element in `size` and in `cbh_size` in front of the growth of the array, and
takes back neither when the growth fails. `cfsAaLookup_cases` says when this is: a page on the way
to the new cell is missing, and its allocation fails.

Behind the failure the heap is `Broken`. The counters include a cell that has no page, so `Dequeue`
reads its last element through NULL, and the next insertion starts beyond `cbh_maxsize`, which
fails its assertion. A heap without a failure is `Sound`, whatever its comparison function is, and
`Sound.call` and `Broken.call` are the steps of a run.
-/

set_option autoImplicit false

namespace LustreSimulator

open Lib

namespace NrsBinheap

variable {α β : Type}

/-- The page is missing, and its allocation fails. -/
def Lacks (array : Option (Page β)) (alloc : Bool) : Prop := array = none ∧ alloc = false

namespace AutoArray

variable {a a' : AutoArray α}

/-- `cfs_aa_lookup1` fails for want of a page only. -/
theorem cfsAaLookup1_eq_none_iff {array : Option (Page β)} {alloc : Bool} :
    cfsAaLookup1 array true alloc = none ↔ Lacks array alloc := by
  unfold cfsAaLookup1 Lacks
  cases array with
  | none => cases alloc <;> simp
  | some p => simp

/-- `cfs_aa_lookup1` that gives a page does not lack it. -/
theorem not_lacks {array : Option (Page β)} {alloc : Bool} {p : Page β}
    (h : cfsAaLookup1 array true alloc = some p) : ¬ Lacks array alloc := by
  intro hlacks
  rw [cfsAaLookup1_eq_none_iff.mpr hlacks] at h
  cases h

/-- A new page of NULLs leads to nothing, as a missing one does. -/
theorem join_deref_cfsAaLookup1 {γ : Type} {array : Option (Page (Page γ))} {grow alloc : Bool}
    {p : Page (Page γ)} (h : cfsAaLookup1 array grow alloc = some p) (i : Nat) :
    (deref array i).join = (deref (some p) i).join := by
  rcases grown_cfsAaLookup1 h i with heq | ⟨hold, hnew⟩
  · rw [heq]
  · rw [hold, hnew]
    rfl

/-- The lookup with growth gives NULL exactly in the case `fails`, and then the cell has no page. -/
def NullIff (a : AutoArray α) (alloc : Nat → Bool) (idx : Nat) (fails : Prop) : Prop :=
  (fails ∧ ∃ a', a.cfsAaLookup idx true alloc = some (a', none) ∧
    a'.load (NrsBinheap.cfsAaIndex idx) = none) ∨
  (¬ fails ∧ ∀ a', a.cfsAaLookup idx true alloc ≠ some (a', none))

/-- The lookup in the first level. -/
theorem nullIff_one (a : AutoArray α) (alloc : Nat → Bool) {idx : Nat} (hone : idx < caaSize) :
    a.NullIff alloc idx (Lacks a.aa1d (alloc 0)) := by
  unfold NullIff cfsAaLookup NrsBinheap.cfsAaIndex
  rw [if_pos hone, if_pos hone]
  cases hp : cfsAaLookup1 a.aa1d true (alloc 0) with
  | none =>
      have hlacks := cfsAaLookup1_eq_none_iff.mp hp
      refine Or.inl ⟨hlacks, a, rfl, ?_⟩
      show deref a.aa1d idx = none
      rw [hlacks.1, deref_none]
  | some p =>
      refine Or.inr ⟨not_lacks hp, fun a' heq => ?_⟩
      cases (Prod.mk.inj (Option.some.inj heq)).2

/-- The lookups in the second level. -/
theorem nullIff_two (a : AutoArray α) (alloc : Nat → Bool) {idx : Nat} (hone : ¬ idx < caaSize)
    (htwo : (idx - caaSize) / caaSize < caaSize) :
    a.NullIff alloc idx (Lacks a.aa2d (alloc 0) ∨
      Lacks (deref a.aa2d ((idx - caaSize) / caaSize)).join (alloc 1)) := by
  unfold NullIff cfsAaLookup NrsBinheap.cfsAaIndex
  dsimp only [Option.bind_eq_bind]
  rw [if_neg hone, if_neg hone, if_pos htwo, if_pos htwo]
  cases hp : cfsAaLookup1 a.aa2d true (alloc 0) with
  | none =>
      have hlacks := cfsAaLookup1_eq_none_iff.mp hp
      refine Or.inl ⟨Or.inl hlacks, a, rfl, ?_⟩
      show (deref a.aa2d _).bind _ = none
      rw [hlacks.1, deref_none]
      rfl
  | some p =>
      dsimp only
      rw [join_deref_cfsAaLookup1 hp, deref_some htwo, Option.bind_some, Option.join_some]
      cases hq : cfsAaLookup1 (p ⟨_, htwo⟩) true (alloc 1) with
      | none =>
          have hlacks := cfsAaLookup1_eq_none_iff.mp hq
          refine Or.inl ⟨Or.inr hlacks, _, rfl, ?_⟩
          show (deref (some p) _).bind _ = none
          rw [deref_some htwo, Option.bind_some, hlacks.1, deref_none]
      | some q =>
          refine Or.inr ⟨fun h => h.elim (not_lacks hp) (not_lacks hq), fun a' heq => ?_⟩
          obtain ⟨p', hp', heq⟩ := Option.bind_eq_some_iff.mp heq
          cases heq

/-- The lookups in the third level. Beyond the capacity the way ends at the first page. -/
theorem nullIff_three (a : AutoArray α) (alloc : Nat → Bool) {idx i j : Nat}
    (hone : ¬ idx < caaSize) (htwo : ¬ (idx - caaSize) / caaSize < caaSize)
    (hi : (idx - caaSize - caaSize * caaSize) / caaSize / caaSize = i)
    (hj : (idx - caaSize - caaSize * caaSize) / caaSize % caaSize = j) :
    a.NullIff alloc idx (Lacks a.aa3d (alloc 0) ∨ i < caaSize ∧
      (Lacks (deref a.aa3d i).join (alloc 1) ∨
        Lacks (deref (deref a.aa3d i).join j).join (alloc 2))) := by
  have hmod : j < caaSize := hj ▸ mod_lt_caaSize _
  unfold NullIff cfsAaLookup NrsBinheap.cfsAaIndex
  dsimp only [Option.bind_eq_bind]
  rw [if_neg hone, if_neg hone, if_neg htwo, if_neg htwo, hi, hj]
  cases hp : cfsAaLookup1 a.aa3d true (alloc 0) with
  | none =>
      have hlacks := cfsAaLookup1_eq_none_iff.mp hp
      refine Or.inl ⟨Or.inl hlacks, a, rfl, ?_⟩
      show (deref a.aa3d _).bind _ = none
      rw [hlacks.1, deref_none]
      rfl
  | some p =>
      dsimp only
      by_cases hthree : i < caaSize
      · rw [join_deref_cfsAaLookup1 hp, deref_some hthree, Option.bind_some, Option.join_some]
        cases hq : cfsAaLookup1 (p ⟨_, hthree⟩) true (alloc 1) with
        | none =>
            have hlacks := cfsAaLookup1_eq_none_iff.mp hq
            refine Or.inl ⟨Or.inr ⟨hthree, Or.inl hlacks⟩, _, rfl, ?_⟩
            show (deref (some p) _).bind _ = none
            rw [deref_some hthree, Option.bind_some, hlacks.1, deref_none]
            rfl
        | some q =>
            dsimp only
            rw [join_deref_cfsAaLookup1 hq, deref_some hmod, Option.bind_some, Option.join_some]
            obtain ⟨p', hp'⟩ := exists_assign (deref_some hthree p) (some q)
            cases hr : cfsAaLookup1 (q ⟨_, hmod⟩) true (alloc 2) with
            | none =>
                have hlacks := cfsAaLookup1_eq_none_iff.mp hr
                dsimp only
                rw [hp', Option.bind_some]
                refine Or.inl ⟨Or.inr ⟨hthree, Or.inr hlacks⟩, _, rfl, ?_⟩
                show (deref (some p') _).bind (fun pages => (deref pages _).bind _) = none
                rw [deref_assign hp', if_pos rfl, Option.bind_some, deref_some hmod,
                  Option.bind_some, hlacks.1, deref_none]
            | some r =>
                refine Or.inr ⟨fun h => h.elim (not_lacks hp) fun h =>
                  h.2.elim (not_lacks hq) (not_lacks hr), fun a' heq => ?_⟩
                obtain ⟨q', hq', heq⟩ := Option.bind_eq_some_iff.mp heq
                obtain ⟨p', hp', heq⟩ := Option.bind_eq_some_iff.mp heq
                cases heq
      · refine Or.inr ⟨fun h => h.elim (not_lacks hp) fun h => hthree h.1, fun a' heq => ?_⟩
        obtain ⟨pages, hpages, -⟩ := Option.bind_eq_some_iff.mp heq
        exact hthree (lt_of_deref hpages)

/-- A page on the way to the cell `idx` is missing, and its allocation fails. -/
def GrowthFails (a : AutoArray α) (alloc : Nat → Bool) (idx : Nat) : Prop :=
  if idx < caaSize then Lacks a.aa1d (alloc 0)
  else
    let idx := idx - caaSize
    let idx0 := idx / caaSize
    if idx0 < caaSize then
      Lacks a.aa2d (alloc 0) ∨ Lacks (deref a.aa2d idx0).join (alloc 1)
    else
      let idx := idx - caaSize * caaSize
      let idx0 := idx / caaSize
      let idx1 := idx0 / caaSize
      Lacks a.aa3d (alloc 0) ∨ idx1 < caaSize ∧
        (Lacks (deref a.aa3d idx1).join (alloc 1) ∨
          Lacks (deref (deref a.aa3d idx1).join (idx0 % caaSize)).join (alloc 2))

/-- The lookup with growth gives NULL exactly when a page is missing and cannot be allocated. -/
theorem nullIff_growthFails (a : AutoArray α) (alloc : Nat → Bool) (idx : Nat) :
    a.NullIff alloc idx (a.GrowthFails alloc idx) := by
  unfold GrowthFails
  dsimp only
  split
  · rename_i hone
    exact nullIff_one a alloc hone
  · rename_i hone
    split
    · rename_i htwo
      exact nullIff_two a alloc hone htwo
    · rename_i htwo
      exact nullIff_three a alloc hone htwo rfl rfl

/-- The cell that is found is the one of the index. -/
theorem eq_of_cfsAaIndex {a : AutoArray α} {idx : Nat} {s : Slot} (h : a.cfsAaIndex idx = some s) :
    s = NrsBinheap.cfsAaIndex idx := by
  unfold AutoArray.cfsAaIndex at h
  unfold NrsBinheap.cfsAaIndex
  dsimp only at h ⊢
  split at h
  · rename_i hone
    rw [if_pos hone]
    exact (Option.some.inj h).symm
  · rename_i hone
    rw [if_neg hone]
    split at h
    · rename_i htwo
      rw [if_pos htwo]
      obtain ⟨page, -, hs⟩ := Option.map_eq_some_iff.mp h
      exact hs.symm
    · rename_i htwo
      rw [if_neg htwo]
      obtain ⟨pages, -, h⟩ := Option.bind_eq_some_iff.mp h
      obtain ⟨page, -, hs⟩ := Option.map_eq_some_iff.mp h
      exact hs.symm

end AutoArray

end NrsBinheap

namespace PagedBinheap

open NrsBinheap

variable {α : Type} {compare : α → α → Bool} {h h' : PagedBinheap α} {e : α} {alloc : Nat → Bool}

/-! ### The failure -/

/-- The array has to grow for one more element, and cannot. -/
def GrowthFails (h : PagedBinheap α) (alloc : Nat → Bool) : Prop :=
  h.cbhSize = h.cbhMaxsize ∧ h.cbhMembers.GrowthFails alloc h.cbhSize

/-- The counters include a cell that has no page. -/
structure Broken (h : PagedBinheap α) : Prop where
  size : h.size ≠ 0
  beyond : h.cbhMaxsize < h.cbhSize
  missing : h.cbhMembers.load (cfsAaIndex (h.cbhSize - 1)) = none

/-- A failed insertion leaves both counters raised. -/
theorem enqueue_of_growthFails (hfails : GrowthFails h alloc) (hsize : 0 ≤ h.size) :
    ∃ h', h.enqueue compare alloc e = some (enomem, h') ∧ h'.size = h.size + 1 ∧
      h'.cbhSize = h.cbhSize + 1 ∧ Broken h' := by
  obtain ⟨hmax, hgrow⟩ := hfails
  rcases AutoArray.nullIff_growthFails h.cbhMembers alloc h.cbhSize with
    ⟨-, m, hm, hload⟩ | ⟨hnot, -⟩
  · refine ⟨{ h with cbhMembers := m, cbhSize := h.cbhSize + 1, size := h.size + 1 }, ?_, rfl, rfl,
      ?_, ?_, hload⟩
    · unfold enqueue cfsBheapInsert
      dsimp only [Option.bind_eq_bind]
      rw [if_pos (Nat.le_of_eq hmax), if_neg (by omega), hm]
      rfl
    · show h.size + 1 ≠ 0
      omega
    · show h.cbhMaxsize < h.cbhSize + 1
      omega
  · exact absurd hgrow hnot

/-- An insertion with an answer finds a cell, or fails to grow the array. -/
theorem enqueue_cases {rc : Int} (hdo : h.enqueue compare alloc e = some (rc, h')) :
    (rc = 0 ∧ FindsCell h alloc) ∨ (rc = enomem ∧ GrowthFails h alloc) := by
  unfold enqueue cfsBheapInsert at hdo
  dsimp only [Option.bind_eq_bind] at hdo
  split at hdo
  · rename_i hmax
    split at hdo
    · -- no growth
      rename_i hroom
      obtain ⟨childPtr, -, hdo⟩ := Option.bind_eq_some_iff.mp hdo
      obtain ⟨m, -, hdo⟩ := Option.bind_eq_some_iff.mp hdo
      exact Or.inl ⟨(Prod.mk.inj (Option.some.inj hdo)).1.symm, Or.inl hroom⟩
    · rename_i hroom
      obtain ⟨⟨m, found⟩, hlookup, hdo⟩ := Option.bind_eq_some_iff.mp hdo
      cases found with
      | none =>
          refine Or.inr ⟨(Prod.mk.inj (Option.some.inj hdo)).1.symm, by omega, ?_⟩
          rcases AutoArray.nullIff_growthFails h.cbhMembers alloc h.cbhSize with ⟨hgrow, -⟩ | ⟨-, hne⟩
          · exact hgrow
          · exact absurd hlookup (hne m)
      | some childPtr =>
          obtain ⟨m', -, hdo⟩ := Option.bind_eq_some_iff.mp hdo
          exact Or.inl ⟨(Prod.mk.inj (Option.some.inj hdo)).1.symm, Or.inr ⟨m, childPtr, hlookup⟩⟩
  · cases hdo

/-- `-ENOMEM` comes from a failed growth. -/
theorem growthFails_of_enqueue (hdo : h.enqueue compare alloc e = some (enomem, h')) :
    GrowthFails h alloc := by
  rcases enqueue_cases hdo with ⟨hzero, -⟩ | ⟨-, hgrow⟩
  · cases hzero
  · exact hgrow

/-- Behind a failure no call has a result: an insertion fails the assertion, and a removal goes
through NULL to the last element. -/
theorem Broken.call (hb : Broken h) (c : Call α) : h.call compare c = none := by
  have hinsert : ∀ e alloc, h.enqueue compare alloc e = none := by
    intro e alloc
    unfold PagedBinheap.enqueue cfsBheapInsert
    dsimp only
    rw [if_neg (Nat.not_le.mpr hb.beyond)]
  cases c with
  | enqueue e alloc =>
      show (h.enqueue compare alloc e).map _ = none
      rw [hinsert]
      rfl
  | requeue e alloc =>
      show (h.enqueue compare alloc e).map _ = none
      rw [hinsert]
      rfl
  | dequeue =>
      have hpos : h.cbhSize ≠ 0 := Nat.ne_of_gt (Nat.lt_of_le_of_lt (Nat.zero_le _) hb.beyond)
      show (h.dequeue compare).map _ = none
      rw [Option.map_eq_none_iff, Option.eq_none_iff_forall_ne_some]
      intro x hdo
      unfold PagedBinheap.dequeue cfsBheapRemoveRoot at hdo
      dsimp only [Option.bind_eq_bind] at hdo
      rw [if_neg hb.size, if_neg hpos] at hdo
      obtain ⟨parentPtr, -, hdo⟩ := Option.bind_eq_some_iff.mp hdo
      obtain ⟨r, -, hdo⟩ := Option.bind_eq_some_iff.mp hdo
      obtain ⟨last, hlast, hdo⟩ := Option.bind_eq_some_iff.mp hdo
      obtain ⟨e, he, -⟩ := Option.bind_eq_some_iff.mp hdo
      obtain rfl := AutoArray.eq_of_cfsAaIndex hlast
      rw [hb.missing] at he
      cases he

/-! ### A heap without a failure -/

/-- The counters agree, and the cells that they count hold elements. -/
structure Sound (h : PagedBinheap α) : Prop where
  size : h.size = h.cbhSize
  maxsize : h.cbhSize ≤ h.cbhMaxsize
  paged : Paged h
  full : ∀ i, i < h.cbhSize → ∃ b, h.cbhMembers.cells (cfsAaIndex i) = some b

/-- A new heap is sound. -/
theorem sound_new : Sound (new : PagedBinheap α) :=
  ⟨rfl, Nat.le_refl _, fun _ hi => absurd hi (Nat.not_lt_zero _),
    fun _ hi => absurd hi (Nat.not_lt_zero _)⟩

/-- `Enqueue` that finds a cell keeps the heap sound. -/
theorem Sound.enqueue (hs : Sound h) (hcell : FindsCell h alloc) (e : α) :
    ∃ h', h.enqueue compare alloc e = some (0, h') ∧ Sound h' := by
  obtain ⟨h', hdo, hflat, hpaged⟩ := @enqueue_flat α compare h e alloc hcell hs.maxsize hs.paged
    hs.full
  refine ⟨h', hdo, ?_⟩
  unfold flat NrsBinheap.enqueue NrsBinheap.cfsBheapInsert at hflat
  dsimp only at hflat
  split at hflat
  · obtain ⟨hmembers, hcbhSize, hmax, hsize⟩ := NrsBinheap.mk.inj (Option.some.inj hflat)
    refine ⟨?_, ?_, hpaged, ?_⟩
    · rw [← hsize, ← hcbhSize, hs.size]
      rfl
    · rw [← hmax, ← hcbhSize]
      split <;> omega
    · -- the new cell is the hole, which the way up fills
      rw [← hmembers, ← hcbhSize]
      exact @bubble_all (Option α) (orNull compare) (some e) (fun x => ∃ b, x = some b) ⟨e, rfl⟩
        (h.cbhSize + 1) _ _ _ (Nat.lt_succ_self _) fun i hi hne => hs.full i (by omega)
  · cases hflat

/-- `Dequeue` answers, and keeps the heap sound. -/
theorem Sound.dequeue (hs : Sound h) : ∃ r h', h.dequeue compare = some (r, h') ∧ Sound h' := by
  by_cases hzero : h.cbhSize = 0
  · refine ⟨none, h, ?_, hs⟩
    have hsize : h.size = 0 := hs.size.trans (congrArg Nat.cast hzero)
    unfold PagedBinheap.dequeue
    rw [if_pos hsize]
  · obtain ⟨b, h', hdo, hflat, hpaged⟩ := @dequeue_flat α compare h hs.size
      (Nat.pos_of_ne_zero hzero) hs.paged hs.full
    refine ⟨some b, h', hdo, ?_⟩
    have hsize : h.size ≠ 0 := by
      rw [hs.size]
      omega
    unfold flat NrsBinheap.dequeue NrsBinheap.cfsBheapRemoveRoot at hflat
    dsimp only at hflat
    rw [if_neg hsize, if_neg hzero] at hflat
    obtain ⟨hmembers, hcbhSize, hmax, hsize⟩ := NrsBinheap.mk.inj (Prod.mk.inj hflat).2
    refine ⟨?_, ?_, hpaged, ?_⟩
    · rw [← hsize, ← hcbhSize, hs.size]
      omega
    · rw [← hmax, ← hcbhSize]
      exact Nat.le_trans (Nat.sub_le _ _) hs.maxsize
    · -- the root is the hole, which the way down fills with the last element
      rw [← hmembers, ← hcbhSize]
      exact @sink_all (Option α) (orNull compare) _ (fun x => ∃ b, x = some b)
        (hs.full (h.cbhSize - 1) (by omega)) (h.cbhSize - 1) _ _ _
        fun i hi _ => hs.full i (by omega)

/-- One call with an answer keeps the heap sound, or breaks it. -/
theorem Sound.call (hs : Sound h) {c : Call α} {answer : Service α}
    (hcall : h.call compare c = some (answer, h')) : Sound h' ∨ Broken h' := by
  have hinsert : ∀ e alloc, (h.enqueue compare alloc e).map (fun p => (inserts e p.1, p.2)) =
      some (answer, h') → Sound h' ∨ Broken h' := by
    intro e alloc hcall
    obtain ⟨⟨rc, h₁⟩, hdo, heq⟩ := Option.map_eq_some_iff.mp hcall
    obtain ⟨-, rfl⟩ := Prod.mk.inj heq
    rcases enqueue_cases hdo with ⟨-, hcell⟩ | ⟨-, hfails⟩
    · obtain ⟨h₂, hdo₂, hs₂⟩ := @Sound.enqueue α compare h alloc hs hcell e
      obtain ⟨-, rfl⟩ := Prod.mk.inj (Option.some.inj (hdo.symm.trans hdo₂))
      exact Or.inl hs₂
    · obtain ⟨h₂, hdo₂, -, -, hb₂⟩ :=
        @enqueue_of_growthFails α compare h e alloc hfails (hs.size ▸ Int.natCast_nonneg _)
      obtain ⟨-, rfl⟩ := Prod.mk.inj (Option.some.inj (hdo.symm.trans hdo₂))
      exact Or.inr hb₂
  cases c with
  | enqueue e alloc => exact hinsert e alloc hcall
  | requeue e alloc => exact hinsert e alloc hcall
  | dequeue =>
      obtain ⟨r, h₁, hdo, hs₁⟩ := @Sound.dequeue α compare h hs
      obtain ⟨⟨r', h₂⟩, hdo', heq⟩ := Option.map_eq_some_iff.mp hcall
      obtain ⟨-, rfl⟩ := Prod.mk.inj heq
      obtain ⟨-, rfl⟩ := Prod.mk.inj (Option.some.inj (hdo'.symm.trans hdo))
      exact Or.inl hs₁

/-- A run without a failure leaves the heap sound, and any other that answers breaks it in its
last call. -/
theorem Sound.runCalls (calls : List (Call α)) (hs : Sound h) {answers : List (Service α)}
    (hrun : PagedBinheap.runCalls compare calls h = some (answers, h')) : Sound h' ∨ Broken h' := by
  induction calls generalizing h answers with
  | nil =>
      obtain ⟨-, rfl⟩ := Prod.mk.inj (Option.some.inj hrun)
      exact Or.inl hs
  | cons c calls ih =>
      obtain ⟨⟨answer, h₁⟩, hcall, hrest⟩ := Option.bind_eq_some_iff.mp hrun
      obtain ⟨⟨answers₁, h₂⟩, hrun₁, hlast⟩ := Option.bind_eq_some_iff.mp hrest
      obtain ⟨-, rfl⟩ := Prod.mk.inj (Option.some.inj hlast)
      rcases hs.call hcall with hs₁ | hb₁
      · exact ih hs₁ hrun₁
      · -- no call follows a failure
        cases calls with
        | nil =>
            obtain ⟨-, rfl⟩ := Prod.mk.inj (Option.some.inj hrun₁)
            exact Or.inr hb₁
        | cons c₂ calls =>
            obtain ⟨x, hcall₂, -⟩ := Option.bind_eq_some_iff.mp hrun₁
            rw [hb₁.call] at hcall₂
            cases hcall₂

/-- What `n` calls of `Dequeue` answer. -/
def takes (compare : α → α → Bool) (n : Nat) (h : PagedBinheap α) : Option (List (Service α)) :=
  (runCalls compare (List.replicate n .dequeue) h).map Prod.fst

/-- A sound heap answers each `Dequeue`. -/
theorem Sound.takes (hs : Sound h) (n : Nat) :
    ∃ answers, PagedBinheap.takes compare n h = some answers := by
  suffices hrun : ∃ answers h', PagedBinheap.runCalls compare (List.replicate n .dequeue) h =
      some (answers, h') by
    obtain ⟨answers, h', hrun⟩ := hrun
    unfold PagedBinheap.takes
    exact ⟨answers, by rw [hrun]; rfl⟩
  induction n generalizing h with
  | zero => exact ⟨[], h, rfl⟩
  | succ n ih =>
      obtain ⟨r, h₁, hdo, hs₁⟩ := @Sound.dequeue α compare h hs
      obtain ⟨answers, h', hrun⟩ := ih hs₁
      refine ⟨.take r :: answers, h', ?_⟩
      show (h.call compare .dequeue).bind _ = _
      rw [show h.call compare .dequeue = some (.take r, h₁) by
        show (h.dequeue compare).map _ = _
        rw [hdo]
        rfl, Option.bind_some]
      show (PagedBinheap.runCalls compare (List.replicate n .dequeue) h₁).bind _ = _
      rw [hrun]
      rfl

/-- An insertion that fails changes nothing: the counters are as before, `Dequeue` answers what it
would have answered, and `Enqueue` works as soon as it gets its pages. -/
def FailsCleanly (compare : α → α → Bool) (h : PagedBinheap α) (e : α) (alloc : Nat → Bool) :
    Prop :=
  ∀ h', h.enqueue compare alloc e = some (enomem, h') →
    h'.size = h.size ∧ h'.cbhSize = h.cbhSize ∧ (∀ n, takes compare n h' = takes compare n h) ∧
    ∀ e' alloc', (∀ k, alloc' k = true) → h.cbhSize < caaCapacity →
      ∃ h'', h'.enqueue compare alloc' e' = some (0, h'')

/-- In every heap that a run reaches, a failed insertion changes nothing exactly when there is no
failure, i.e. when no page that the new cell needs is missing and cannot be allocated. Any failure
raises both counters and breaks the heap, which would have answered each `Dequeue`. -/
theorem failsCleanly_iff (calls : List (Call α)) {answers : List (Service α)}
    (hrun : runCalls compare calls new = some (answers, h)) (e : α) (alloc : Nat → Bool) :
    (FailsCleanly compare h e alloc ↔ ¬ GrowthFails h alloc) ∧
    (GrowthFails h alloc → ∃ h', h.enqueue compare alloc e = some (enomem, h') ∧
      h'.size = h.size + 1 ∧ h'.cbhSize = h.cbhSize + 1 ∧ (∀ c, h'.call compare c = none) ∧
      ∀ n, ∃ answers, takes compare n h = some answers) := by
  have hfailure : GrowthFails h alloc → ∃ h', h.enqueue compare alloc e = some (enomem, h') ∧
      h'.size = h.size + 1 ∧ h'.cbhSize = h.cbhSize + 1 ∧ (∀ c, h'.call compare c = none) ∧
      ∀ n, ∃ answers, takes compare n h = some answers := by
    intro hfails
    have hs : Sound h := by
      rcases sound_new.runCalls calls hrun with hs | hb
      · exact hs
      · exact absurd hfails.1 (Nat.ne_of_gt hb.beyond)
    obtain ⟨h', hdo, hsize, hcbhSize, hb⟩ :=
      @enqueue_of_growthFails α compare h e alloc hfails (hs.size ▸ Int.natCast_nonneg _)
    exact ⟨h', hdo, hsize, hcbhSize, hb.call, fun n => hs.takes n⟩
  refine ⟨⟨?_, ?_⟩, hfailure⟩
  · intro hclean hfails
    obtain ⟨h', hdo, hsize, -⟩ := hfailure hfails
    have := (hclean h' hdo).1
    omega
  · intro hno h' hdo
    exact absurd (growthFails_of_enqueue hdo) hno

/-- The first insertion into a new heap, when its page cannot be allocated. -/
theorem failsCleanly_iff_first :
    (FailsCleanly (fun a b : Nat => decide (a ≤ b)) new 5 (fun _ => false) ↔
      ¬ GrowthFails (new : PagedBinheap Nat) fun _ => false) ∧
    ∃ h', new.enqueue (fun a b : Nat => decide (a ≤ b)) (fun _ => false) 5 = some (enomem, h') ∧
      h'.size = 0 + 1 ∧ h'.cbhSize = 0 + 1 ∧
      (∀ c, h'.call (fun a b : Nat => decide (a ≤ b)) c = none) ∧
      ∀ n, ∃ answers, takes (fun a b : Nat => decide (a ≤ b)) n new = some answers := by
  have hfails : GrowthFails (new : PagedBinheap Nat) fun _ => false := by
    refine ⟨rfl, ?_⟩
    have hone : 0 < caaSize := Nat.two_pow_pos 10
    show (if 0 < caaSize then Lacks none false else _)
    rw [if_pos hone]
    exact ⟨rfl, rfl⟩
  obtain ⟨hiff, hfailure⟩ :=
    @failsCleanly_iff Nat (fun a b => decide (a ≤ b)) new [] [] rfl 5 fun _ => false
  exact ⟨hiff, hfailure hfails⟩

/-- A new heap has the size 1 behind a failed insertion, and no call has a result any more. -/
theorem not_failsCleanly_new :
    runCalls (fun a b : Nat => decide (a ≤ b)) [] new = some ([], new) ∧
    (∃ h', new.enqueue (fun a b : Nat => decide (a ≤ b)) (fun _ => false) 5 = some (enomem, h') ∧
      h'.size = 1 ∧ h'.cbhSize = 1 ∧ h'.dequeue (fun a b : Nat => decide (a ≤ b)) = none ∧
      h'.enqueue (fun a b : Nat => decide (a ≤ b)) (fun _ => true) 3 = none) ∧
    ¬ FailsCleanly (fun a b : Nat => decide (a ≤ b)) new 5 fun _ => false := by
  refine ⟨rfl, ⟨⟨.cfsAaInit, 1, 0, 1⟩, rfl, rfl, rfl, rfl, rfl⟩, ?_⟩
  intro hclean
  have hsize : (1 : Int) = 0 := (hclean ⟨.cfsAaInit, 1, 0, 1⟩ rfl).1
  omega

end PagedBinheap

end LustreSimulator
