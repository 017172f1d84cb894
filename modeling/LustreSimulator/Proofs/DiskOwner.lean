import LustreSimulator.Proofs.ExtentOrder

/-!
# `LustreSimulator.Proofs.DiskOwner`: no two file bytes share a disk byte

Disk space reaches a file as new disk space, in one piece or as a preallocated window, and
through the windows that the file has already. The proof gives every disk byte at most one
owner, a byte of a file: `Owned owner fs` says that the extents and the windows of every file
own the disk bytes they lead to, and that the disk from `curoff` on has no owner yet.

A call of `Map` keeps an owner (`Mapped.owned`): when its window is new, the bytes of the window
get their owner there. The extents need not be in order for this. `map_injective` is the result
over runs: calls translate to one disk byte from one byte of one file only.
-/

set_option autoImplicit false

namespace LustreSimulator.FileSystem

open Lib Rbtree

/-- Every disk byte that an extent or a window leads to belongs to the file byte it comes
from, and the disk from `curoff` on belongs to nobody. -/
structure Owned (owner : Nat → Option (Nat × Nat)) (fs : FileSystem) : Prop where
  fresh : ∀ d, fs.curoff ≤ d → owner d = none
  extents : ∀ i x y, Sends (fs.files i).extents x y → owner y = some (i, x)
  windows : ∀ i, ∀ w ∈ (fs.files i).preallocList, ∀ x y, w.seg.Sends x y →
    owner y = some (i, x)

/-- The new window `g` of the file `i` takes its disk space. -/
def claimSpace (owner : Nat → Option (Nat × Nat)) (i : Nat) (g : Segment) :
    Nat → Option (Nat × Nat) :=
  fun d => if g.dst ≤ d ∧ d < g.dst + g.len then some (i, g.src + (d - g.dst)) else owner d

/-- A new window owns its disk space. -/
theorem claimSpace_of_sends {owner : Nat → Option (Nat × Nat)} {i x y : Nat} {g : Segment}
    (h : g.Sends x y) : claimSpace owner i g y = some (i, x) := by
  unfold claimSpace
  rw [if_pos h.range]
  obtain ⟨⟨hlo, hhi⟩, rfl⟩ := h
  congr 2
  omega

/-- What is owned stays owned when a window takes space that is free. -/
theorem claimSpace_of_owner {owner : Nat → Option (Nat × Nat)} {i y : Nat} {g : Segment}
    {v : Nat × Nat} (hfree : ∀ d, g.dst ≤ d → owner d = none) (h : owner y = some v) :
    claimSpace owner i g y = some v := by
  unfold claimSpace
  rw [if_neg, h]
  rintro ⟨hlo, -⟩
  rw [hfree y hlo] at h
  cases h

/-- The window of an allocation has an owner for every byte: a window of the file had one, and
a new window gets one. Everything that was owned stays so. -/
theorem Allocated.exists_owner {fs : FileSystem} {fid : Nat} {req : Ioreq} {a : Allocation}
    {g : Segment} {owner : Nat → Option (Nat × Nat)}
    (h : Allocated (fs.files fid) fs.curoff req a g) (ho : Owned owner fs) :
    ∃ owner' : Nat → Option (Nat × Nat), (∀ d, a.curoff ≤ d → owner' d = none) ∧
      (∀ y v, owner y = some v → owner' y = some v) ∧
      ∀ x y, g.Sends x y → owner' y = some (fid, x) := by
  rcases h.space with ⟨hdst, hcur⟩ | ⟨⟨w, hw, hseg⟩, hcur⟩
  · refine ⟨claimSpace owner fid g, ?_, ?_, fun x y => claimSpace_of_sends⟩
    · intro d hd
      unfold claimSpace
      rw [if_neg (by omega)]
      exact ho.fresh d (by omega)
    · intro y v
      exact claimSpace_of_owner fun d hd => ho.fresh d (by omega)
  · refine ⟨owner, ?_, fun _ _ h => h, ?_⟩
    · rw [hcur]
      exact ho.fresh
    · intro x y hxy
      exact ho.windows fid w hw x y (hseg ▸ hxy)

/-- Every call of `Map` for at most 8 MiB keeps an owner for every disk byte in use. -/
theorem Mapped.owned {fs fs' : FileSystem} {fid : Nat} {req req' : Ioreq} {alloc : Bool}
    {rc : Int} (h : Mapped fs fid req alloc rc req' fs') (hsize : req.count ≤ 8 * 1024 * 1024)
    (ho : ∃ owner, Owned owner fs) : ∃ owner, Owned owner fs' := by
  have hsends := h.sends
  cases h with
  | hit => exact ho
  | miss => exact ho
  | fresh clipped a t _ _ _ hoff hle _ _ hspec _ =>
      obtain ⟨g, hg⟩ : ∃ g, Allocated (fs.files fid) fs.curoff clipped a g := by
        rcases hspec with hg | hg
        · exact hg
        · have := hg.large
          omega
      obtain ⟨owner, ho⟩ := ho
      obtain ⟨owner', hfree, hext, hwin⟩ := hg.exists_owner ho
      refine ⟨owner', hfree, ?_, ?_⟩
      · intro i x y hxy
        rcases (hsends i x y).mp hxy with hold | ⟨rfl, -, hnew⟩
        · exact hext y _ (ho.extents i x y hold)
        · rw [← hoff] at hnew
          exact hwin x y (hg.inside.sends hnew)
      · intro i w hw x y hxy
        replace hw : w ∈ ((fs.setFile fid { fs.files fid with
          preallocList := a.preallocList, extTree := t }).files i).preallocList := hw
        rw [files_setFile] at hw
        by_cases hi : i = fid
        · subst hi
          rw [if_pos rfl] at hw
          rcases hg.windows w hw with hold | ⟨hseg, -⟩
          · exact hext y _ (ho.windows i w hold x y hxy)
          · exact hwin x y (hseg ▸ hxy)
        · rw [if_neg hi] at hw
          exact hext y _ (ho.windows i w hw x y hxy)

/-- A file system without extents and windows owns nothing. -/
theorem start_owned (mntopt : AllocAlgo) (reservePA : Bool) :
    ∃ owner, Owned owner (start mntopt reservePA) := by
  refine ⟨fun _ => none, fun _ _ => rfl, ?_, ?_⟩
  · rintro i x y ⟨s, hs, -⟩
    cases hs
  · intro i w hw
    cases hw

/-- What a call of a run translates, its last state translates. -/
theorem run_translates {fs fs' : FileSystem} {cs : List MapCall} (h : Run MapStep fs cs fs')
    {c : MapCall} (hc : c ∈ cs) {b d : Nat} (hd : c.Translates b d) :
    Sends (fs'.files c.fid).extents b d := by
  obtain ⟨pre, post, u, v, -, -, hstep, hrest⟩ := h.exists_of_mem hc
  exact run_sends hrest ((hstep.sends _ _ _).mpr (Or.inr ⟨rfl, hd⟩))

/-- In every run of `Map` calls for at most 8 MiB each, two calls that translate to the same
disk byte translate the same byte of the same file. -/
theorem map_injective (mntopt : AllocAlgo) (reservePA : Bool) (cs : List MapCall)
    (fs : FileSystem)
    (hrun : Run (fun s c t => c.req.count ≤ 8 * 1024 * 1024 ∧ MapStep s c t)
      (start mntopt reservePA) cs fs) :
    ∀ c ∈ cs, ∀ c' ∈ cs, ∀ b b' d, c.Translates b d → c'.Translates b' d →
      c.fid = c'.fid ∧ b = b' := by
  obtain ⟨owner, ho⟩ : ∃ owner, Owned owner fs :=
    hrun.invariant (P := fun s => ∃ owner, Owned owner s)
      (fun _ _ _ hs hstep => (map_cases hstep.2.1 hstep.2.2).owned hstep.1 hs)
      (start_owned mntopt reservePA)
  replace hrun := hrun.mono fun _ _ _ h => h.2
  intro c hc c' hc' b b' d hb hb'
  have h₁ := ho.extents _ _ _ (run_translates hrun hc hb)
  have h₂ := ho.extents _ _ _ (run_translates hrun hc' hb')
  simpa [h₁] using h₂

/-- A write that preallocates and a read of one of its bytes meet at disk byte 7. -/
theorem map_injective_two :
    (⟨0, writeReq 5 10, true, 0, writeReq 5 10⟩ : MapCall).fid =
      (⟨0, writeReq 7 1, false, 0, writeReq 7 1⟩ : MapCall).fid ∧ 7 = 7 :=
  map_injective .mballoc true
    [⟨0, writeReq 5 10, true, 0, writeReq 5 10⟩, ⟨0, writeReq 7 1, false, 0, writeReq 7 1⟩] _
    (.cons ⟨by decide, by decide, rfl⟩ (.cons ⟨by decide, by decide, rfl⟩ (.nil _)))
    _ (List.mem_cons_self ..) _ (List.mem_cons_of_mem _ (List.mem_cons_self ..)) 7 7 7
    ⟨rfl, by decide, by decide, rfl⟩ ⟨rfl, by decide, by decide, rfl⟩

end LustreSimulator.FileSystem
