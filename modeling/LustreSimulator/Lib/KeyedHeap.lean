import Mathlib.Data.List.Nodup
import Mathlib.Data.List.Basic

/-!
# `LustreSimulator.Lib.KeyedHeap`: a heap whose keys live outside it

A heap of nodes whose keys are fields of the nodes cannot see a key change. It is in order by the
keys that its nodes had when they were last placed, so a `KeyedHeap` is the list of the nodes with
these keys. `IsRoot` is what such a heap promises of its root.

`Tracks h live` says that the heap holds the nodes that are live, each with the key it has now.
Every operation keeps it when the keys change with it (`Tracks.insert`, `Tracks.relocate`,
`Tracks.remove`), and then the root is a least node by the keys of now (`Tracks.root_le`).
-/

set_option autoImplicit false

namespace LustreSimulator.Lib

variable {ι κ : Type*}

/-- The nodes of a heap, each with the key it was placed with. -/
abbrev KeyedHeap (ι κ : Type*) := List (ι × κ)

namespace KeyedHeap

/-- A new node. -/
def insert (h : KeyedHeap ι κ) (i : ι) (k : κ) : KeyedHeap ι κ := h ++ [(i, k)]

/-- One more node is in the heap. -/
theorem insert_fst (h : KeyedHeap ι κ) (i : ι) (k : κ) :
    (h.insert i k).map Prod.fst = h.map Prod.fst ++ [i] := List.map_append

variable [DecidableEq ι]

/-- A node is placed again, with the key it has now. -/
def relocate (h : KeyedHeap ι κ) (i : ι) (k : κ) : KeyedHeap ι κ :=
  h.map fun e => if e.1 = i then (i, k) else e

/-- A node leaves the heap. -/
def remove (h : KeyedHeap ι κ) (i : ι) : KeyedHeap ι κ := h.filter fun e => decide (e.1 ≠ i)

/-- The same nodes are in the heap. -/
theorem relocate_fst (h : KeyedHeap ι κ) (i : ι) (k : κ) :
    (h.relocate i k).map Prod.fst = h.map Prod.fst := by
  unfold KeyedHeap.relocate
  rw [List.map_map]
  apply List.map_congr_left
  intro e _
  show (if e.1 = i then (i, k) else e).1 = e.1
  split
  · rename_i he
    exact he.symm
  · rfl

/-- One node is in the heap no more. -/
theorem remove_fst {h : KeyedHeap ι κ} (hnodup : (h.map Prod.fst).Nodup) (i : ι) :
    (h.remove i).map Prod.fst = (h.map Prod.fst).erase i := by
  rw [hnodup.erase_eq_filter, List.filter_map]
  unfold KeyedHeap.remove
  congr 1
  apply List.filter_congr
  intro e _
  by_cases he : e.1 = i
  · simp [he]
  · simp [he]

omit [DecidableEq ι] in
/-- What the root of the heap may be: nothing when the heap is empty, and otherwise a node whose
placed key is least. -/
def IsRoot (le : κ → κ → Prop) (h : KeyedHeap ι κ) : Option ι → Prop
  | none => h = []
  | some i => ∃ k, (i, k) ∈ h ∧ ∀ e ∈ h, le k e.2

/-- The heap holds the live nodes, with the keys they have now. -/
structure Tracks (h : KeyedHeap ι κ) (live : ι → Option κ) : Prop where
  nodup : (h.map Prod.fst).Nodup
  mem : ∀ i k, (i, k) ∈ h ↔ live i = some k

variable {h : KeyedHeap ι κ} {live live' : ι → Option κ} {i : ι} {k : κ}

omit [DecidableEq ι] in
/-- A heap without nodes. -/
theorem tracks_nil : Tracks ([] : KeyedHeap ι κ) fun _ => none :=
  ⟨List.nodup_nil, fun _ _ => iff_of_false List.not_mem_nil (by simp)⟩

omit [DecidableEq ι] in
/-- Nothing changed. -/
theorem Tracks.congr (ht : Tracks h live) (heq : ∀ j, live' j = live j) : Tracks h live' := by
  refine ⟨ht.nodup, fun j k => ?_⟩
  rw [heq]
  exact ht.mem j k

omit [DecidableEq ι] in
/-- The nodes of the heap are live. -/
theorem Tracks.mem_fst (ht : Tracks h live) : i ∈ h.map Prod.fst ↔ live i ≠ none := by
  rw [List.mem_map, Option.ne_none_iff_exists']
  constructor
  · rintro ⟨⟨j, k⟩, hmem, rfl⟩
    exact ⟨k, (ht.mem j k).mp hmem⟩
  · rintro ⟨k, hk⟩
    exact ⟨(i, k), (ht.mem i k).mpr hk, rfl⟩

/-- A node that becomes live is inserted. -/
theorem Tracks.insert (ht : Tracks h live) (hnew : live i = none)
    (hlive : ∀ j, live' j = if j = i then some k else live j) : Tracks (h.insert i k) live' := by
  have hfresh : i ∉ h.map Prod.fst := fun hmem => ht.mem_fst.mp hmem hnew
  refine ⟨?_, ?_⟩
  · rw [insert_fst, List.nodup_append]
    refine ⟨ht.nodup, List.nodup_singleton i, ?_⟩
    intro a ha b hb hab
    rw [hab, List.mem_singleton.mp hb] at ha
    exact hfresh ha
  · intro j k'
    unfold KeyedHeap.insert
    rw [List.mem_append, List.mem_singleton, hlive, ht.mem, Prod.mk.injEq]
    by_cases hj : j = i
    · rw [if_pos hj, hj, hnew]
      constructor
      · rintro (hnone | ⟨-, rfl⟩)
        · cases hnone
        · rfl
      · intro hk
        exact Or.inr ⟨rfl, (Option.some.inj hk).symm⟩
    · rw [if_neg hj]
      exact or_iff_left fun hk => hj hk.1

/-- A live node whose key changes is relocated. -/
theorem Tracks.relocate (ht : Tracks h live) (hold : live i ≠ none)
    (hlive : ∀ j, live' j = if j = i then some k else live j) : Tracks (h.relocate i k) live' := by
  refine ⟨by rw [relocate_fst]; exact ht.nodup, ?_⟩
  intro j k'
  unfold KeyedHeap.relocate
  rw [List.mem_map, hlive]
  constructor
  · rintro ⟨e, he, heq⟩
    by_cases hei : e.1 = i
    · rw [if_pos hei] at heq
      cases heq
      exact if_pos rfl
    · rw [if_neg hei] at heq
      subst heq
      rw [if_neg hei]
      exact (ht.mem j k').mp he
  · intro hk
    by_cases hj : j = i
    · rw [if_pos hj] at hk
      obtain ⟨k₀, hk₀⟩ := Option.ne_none_iff_exists'.mp hold
      refine ⟨(i, k₀), (ht.mem i k₀).mpr hk₀, ?_⟩
      rw [if_pos rfl, hj, Option.some.inj hk]
    · rw [if_neg hj] at hk
      exact ⟨(j, k'), (ht.mem j k').mpr hk, if_neg hj⟩

/-- A node that is not live any more is removed. -/
theorem Tracks.remove (ht : Tracks h live)
    (hlive : ∀ j, live' j = if j = i then none else live j) : Tracks (h.remove i) live' := by
  unfold KeyedHeap.remove
  refine ⟨ht.nodup.sublist ((List.filter_sublist).map _), ?_⟩
  intro j k'
  rw [List.mem_filter, ht.mem, hlive, decide_eq_true_iff]
  by_cases hj : j = i
  · rw [if_pos hj]
    exact iff_of_false (fun hk => hk.2 hj) (by simp)
  · rw [if_neg hj]
    exact and_iff_left hj

omit [DecidableEq ι] in
/-- The root of the heap is live, and no live node has a lesser key. -/
theorem Tracks.root_le {le : κ → κ → Prop} (ht : Tracks h live) (hroot : IsRoot le h (some i)) :
    ∃ k, live i = some k ∧ ∀ j k', live j = some k' → le k k' := by
  obtain ⟨k, hmem, hle⟩ := hroot
  exact ⟨k, (ht.mem i k).mp hmem, fun j k' hj => hle (j, k') ((ht.mem j k').mpr hj)⟩

omit [DecidableEq ι] in
/-- When the heap has no root, no node is live. -/
theorem Tracks.root_none {le : κ → κ → Prop} (ht : Tracks h live) (hroot : IsRoot le h none)
    (j : ι) : live j = none := by
  have hempty : h = [] := hroot
  by_contra hj
  have hmem := ht.mem_fst.mpr hj
  rw [hempty] at hmem
  cases hmem

end KeyedHeap

end LustreSimulator.Lib
