import LustreSimulator.Lib.Run
import LustreSimulator.Proofs.FileSystem

/-!
# `LustreSimulator.Proofs.ExtentOrder`: the extents of a file as a partial function

`Mapped.sends` says what a call of `Map` does to the translation of every file: it adds exactly
the range it returns. So nothing that was translated once is lost, whatever the calls are.

The translation stays a function as long as the extents stay sorted. `Map` clips a request to
the next extent only when its descent ends to the left of that extent. When the descent ends to
the right of the previous extent, the request can run into the next one. `Clear` is the
condition that it does not. `Mapped.sorted` is the step, and `map_partial_function` the result
over runs. `map_overlap` is a run of three calls without the condition.
-/

set_option autoImplicit false

namespace LustreSimulator.FileSystem

open Lib Rbtree

/-- The range that a call returns. -/
def MapCall.seg (c : MapCall) : Segment := ⟨c.req.off, c.out.off, c.out.count⟩

/-- A call translates what its range sends, if it succeeds. -/
theorem MapCall.translates_iff (c : MapCall) (b d : Nat) :
    c.Translates b d ↔ c.rc = 0 ∧ c.seg.Sends b d := by
  unfold MapCall.Translates MapCall.seg Segment.Sends Segment.Defines
  tauto

/-! ### What a call adds to the translation -/

/-- The files after an allocation. -/
theorem files_setFile (fs : FileSystem) (fid i : Nat) (f : File) :
    (fs.setFile fid f).files i = if i = fid then f else fs.files i := rfl

/-- A call of `Map` adds the range it returns to the translation of its file, and nothing
else. -/
theorem Mapped.sends {fs fs' : FileSystem} {fid : Nat} {req req' : Ioreq} {alloc : Bool}
    {rc : Int} (h : Mapped fs fid req alloc rc req' fs') (i x y : Nat) :
    Sends (fs'.files i).extents x y ↔ Sends (fs.files i).extents x y ∨
      (i = fid ∧ rc = 0 ∧ Segment.Sends ⟨req.off, req'.off, req'.count⟩ x y) := by
  cases h with
  | hit near hmem hlo hhi =>
      -- the range is a part of the extent that was hit
      refine ⟨Or.inl, ?_⟩
      rintro (h | ⟨rfl, -, h⟩)
      · exact h
      · refine ⟨near.seg, List.mem_map_of_mem hmem, Segment.Inside.sends ?_ h⟩
        refine ⟨hlo, ?_, rfl⟩
        show req.off + min req.count (near.count - (req.off - near.foff)) ≤
          near.foff + near.count
        omega
  | miss =>
      refine ⟨Or.inl, ?_⟩
      rintro (h | ⟨-, h, -⟩)
      · exact h
      · cases h
  | fresh clipped a t _ hrc _ _ _ _ _ _ ht =>
      rcases mapDescend_cases (fs.files fid) req.off with ⟨h0, -⟩ | ⟨-, hzip, -, -⟩
      · exact absurd h0 hrc
      · show Sends ((fs.setFile fid _).files i).extents x y ↔ _
        rw [files_setFile]
        by_cases hi : i = fid
        · subst hi
          rw [if_pos rfl]
          have := insertExtent_sends hzip ht x y
          simpa [File.extents] using this
        · rw [if_neg hi]
          simp [hi]

/-- A step of a run adds the range of its call. -/
theorem MapStep.sends {fs fs' : FileSystem} {c : MapCall} (h : MapStep fs c fs') (i x y : Nat) :
    Sends (fs'.files i).extents x y ↔
      Sends (fs.files i).extents x y ∨ (i = c.fid ∧ c.Translates x y) := by
  rw [(map_cases h.1 h.2).sends, c.translates_iff]
  rfl

/-- The calls of a run determine its states. -/
theorem run_deterministic {fs s t : FileSystem} {cs : List MapCall}
    (hs : Run MapStep fs cs s) (ht : Run MapStep fs cs t) : s = t := by
  induction hs with
  | nil => exact Run.nil_iff.mp ht
  | cons hstep _ ih =>
      obtain ⟨v, hv, hrest⟩ := Run.cons_iff.mp ht
      have heq := hstep.2.symm.trans hv.2
      cases heq
      exact ih hrest

/-- Nothing that is translated is lost. -/
theorem run_sends {fs fs' : FileSystem} {cs : List MapCall} (h : Run MapStep fs cs fs')
    {i x y : Nat} (hs : Sends (fs.files i).extents x y) : Sends (fs'.files i).extents x y :=
  h.invariant (P := fun s => Sends (s.files i).extents x y)
    (fun _ _ _ hs hstep => (hstep.sends i x y).mpr (Or.inl hs)) hs

/-! ### Order -/

/-- The extents of every file are in increasing order and do not overlap. -/
def Ordered (fs : FileSystem) : Prop := ∀ i, Sorted (fs.files i).extents

/-- The condition under which a call of `Map` keeps the order: if it allocates after a descent
that ended to the right of the last visited extent, then no extent of the file begins inside
the request. -/
def Clear (fs : FileSystem) (fid : Nat) (req : Ioreq) (alloc : Bool) : Prop :=
  alloc = true → 0 < (mapDescend (fs.files fid) req.off).rc →
    ∀ e ∈ (fs.files fid).extTree.toList, ¬ (req.off < e.foff ∧ e.foff < req.off + req.count)

/-- Sorted extents split at every offset. -/
theorem splits_extentCompare {f : File} (h : Sorted f.extents) (off : Nat) :
    Splits (extentCompare ⟨off, 0, 0⟩) f.extTree.toList := by
  refine (List.pairwise_map.mp h).imp ?_
  intro e e' hle hcmp
  rw [(extentCompare_key off e').2.1]
  have hnot : ¬ 0 < extentCompare ⟨off, 0, 0⟩ e := by omega
  rw [(extentCompare_key off e).2.2] at hnot
  simp only [Extent.seg] at hle
  omega

/-- Where a descent through sorted extents ends: the extents before the place end before the
offset, and those after it begin behind the offset. -/
theorem mapDescend_split {f : File} (h : Sorted f.extents) (off : Nat) :
    (∀ e ∈ before (mapDescend f off).path, e.foff + e.count ≤ off) ∧
    (∀ e ∈ after (mapDescend f off).path, off < e.foff) := by
  obtain ⟨hb, ha⟩ := descend_split (extentCompare ⟨off, 0, 0⟩) f.extTree [] 1
    (splits_extentCompare h off) (by simp) (by simp)
  constructor
  · intro e he
    exact ((extentCompare_key off e).2.2.mp (hb e he)).2
  · intro e he
    exact (extentCompare_key off e).2.1.mp (ha e he)

/-- The in-order list around the place where a descent found nothing. -/
theorem extents_of_miss {f : File} {off : Nat} (hrc : (mapDescend f off).rc ≠ 0) :
    f.extTree.toList =
      before (mapDescend f off).path ++ after (mapDescend f off).path := by
  rcases mapDescend_cases f off with ⟨h0, -⟩ | ⟨-, hzip, -, -⟩
  · exact absurd h0 hrc
  · conv_lhs => rw [← hzip, toList_zip]
    simp

/-- A descent through sorted extents finds every offset that is mapped. -/
theorem mapDescend_hit {f : File} (h : Sorted f.extents) {off : Nat}
    (hoff : Defines f.extents off) : (mapDescend f off).rc = 0 := by
  by_contra hrc
  obtain ⟨s, hs, hlo, hhi⟩ := hoff
  obtain ⟨e, he, rfl⟩ := List.mem_map.mp hs
  obtain ⟨hb, ha⟩ := mapDescend_split h off
  rw [extents_of_miss hrc] at he
  simp only [Extent.seg] at hlo hhi
  rcases List.mem_append.mp he with he | he
  · have := hb e he
    omega
  · have := ha e he
    omega

/-- When nothing is found, the clipped request ends before the next extent: either the descent
ended to the left of that extent and the request was clipped to it, or the call is clear. -/
theorem clip_le {f : File} (h : Sorted f.extents) {req clipped : Ioreq}
    (hclear : 0 < (mapDescend f req.off).rc → ∀ e ∈ f.extTree.toList,
      ¬ (req.off < e.foff ∧ e.foff < req.off + req.count))
    (hrc : (mapDescend f req.off).rc ≠ 0)
    (hclip : clip (mapDescend f req.off).rc (mapDescend f req.off).path req = .ok clipped) :
    ∀ e ∈ after (mapDescend f req.off).path, req.off + clipped.count ≤ e.foff := by
  obtain ⟨-, ha⟩ := mapDescend_split h req.off
  have hlist := extents_of_miss hrc
  intro e he
  have hlt := ha e he
  unfold clip at hclip
  split at hclip
  · rename_i hneg
    rcases mapDescend_cases f req.off with ⟨h0, -⟩ | ⟨-, -, -, hnear⟩
    · exact absurd h0 hrc
    · split at hclip
      · cases hclip
      · rename_i near rest hpath
        cases hclip
        -- the last visited extent is the first one after the place
        have hside := (hnear near rest hpath).2.1 hneg
        have hfirst : near.entry.foff ≤ e.foff := by
          obtain ⟨side, c, x, s⟩ := near
          obtain rfl : side = .left := hside
          have hsorted := List.pairwise_map.mp h
          rw [hlist, hpath] at hsorted
          rw [hpath] at he
          have htail := (List.pairwise_append.mp hsorted).2.1
          simp only [after_left, List.cons_append] at he htail
          rcases List.mem_cons.mp he with rfl | he
          · exact le_rfl
          · have := (List.pairwise_cons.mp htail).1 e he
            simp only [Extent.seg] at this
            show x.foff ≤ e.foff
            omega
        show req.off + min req.count (near.entry.foff - req.off) ≤ e.foff
        omega
  · rename_i hneg
    cases hclip
    have hmem : e ∈ f.extTree.toList := by
      rw [hlist]
      exact List.mem_append_right _ he
    have := hclear (by omega) e hmem
    omega

/-- Entering a range between the extents before and after it keeps the order. -/
theorem insertExtent_sorted {foff : Nat} {req : Ioreq} {path : List (Frame Extent)}
    {t u : RbTree Extent} (hu : u.toList = before path ++ after path)
    (h : insertExtent foff req path = some t) (hsorted : Sorted (u.toList.map Extent.seg))
    (hpos : 0 < req.count) (hb : ∀ e ∈ before path, e.foff + e.count ≤ foff)
    (ha : ∀ e ∈ after path, foff + req.count ≤ e.foff) :
    Sorted (t.toList.map Extent.seg) := by
  rw [hu] at hsorted
  rcases insertExtent_cases h with ht | ⟨near, rest, p, q, hpath, hfoff, hoff, hsplit, ht, hq⟩
  · rw [ht, List.map_append, List.map_cons]
    rw [List.map_append] at hsorted
    refine hsorted.insert ?_ ?_
    · intro s hs
      obtain ⟨e, he, rfl⟩ := List.mem_map.mp hs
      exact hb e he
    · intro s hs
      obtain ⟨e, he, rfl⟩ := List.mem_map.mp hs
      exact ha e he
  · -- the grown extent lies before the place: behind it, it would begin too late
    have hside : near.side = .right := by
      obtain ⟨side, c, x, s⟩ := near
      cases side with
      | right => rfl
      | left =>
          have := ha x (by rw [hpath]; simp)
          simp only at hfoff
          omega
    rw [hsplit, List.map_append, List.map_cons] at hsorted
    rw [ht, List.map_append, List.map_cons]
    refine hsorted.grow (n := req.count) ?_
    intro s hs
    obtain ⟨e, he, rfl⟩ := List.mem_map.mp hs
    have := ha e (by rw [hq hside]; exact he)
    simp only [Extent.seg]
    omega

/-- A call of `Map` that meets the condition keeps the extents in order. -/
theorem Mapped.sorted {fs fs' : FileSystem} {fid : Nat} {req req' : Ioreq} {alloc : Bool}
    {rc : Int} (h : Mapped fs fid req alloc rc req' fs') (hclear : Clear fs fid req alloc)
    (hfs : Ordered fs) : Ordered fs' := by
  cases h with
  | hit => exact hfs
  | miss => exact hfs
  | fresh clipped a t halloc hrc hclip _ _ hpos hle _ ht =>
      have hafter : ∀ e ∈ after (mapDescend (fs.files fid) req.off).path,
          req.off + clipped.count ≤ e.foff := clip_le (hfs fid) (hclear halloc) hrc hclip
      obtain ⟨hb, -⟩ := mapDescend_split (hfs fid) req.off
      intro i
      show Sorted ((fs.setFile fid _).files i).extents
      rw [files_setFile]
      by_cases hi : i = fid
      · rw [if_pos hi]
        refine insertExtent_sorted (extents_of_miss hrc) ht (hfs fid) hpos hb ?_
        intro e he
        have := hafter e he
        omega
      · rw [if_neg hi]
        exact hfs i

/-- A file system without extents is in order. -/
theorem start_ordered (mntopt : AllocAlgo) (reservePA : Bool) :
    Ordered (start mntopt reservePA) := fun _ => List.Pairwise.nil

/-- A clear call of `Map`. -/
def ClearStep (fs : FileSystem) (c : MapCall) (fs' : FileSystem) : Prop :=
  Clear fs c.fid c.req c.alloc ∧ MapStep fs c fs'

/-- The calls of a run that meets the condition keep the extents in order. -/
theorem run_ordered {fs fs' : FileSystem} {cs : List MapCall}
    (h : Run ClearStep fs cs fs') (hfs : Ordered fs) :
    Ordered fs' :=
  h.invariant (P := Ordered)
    (fun _ _ _ hs hstep =>
      (map_cases hstep.2.1 hstep.2.2).sorted hstep.1 hs) hfs

/-- A call on sorted extents whose first byte is mapped already translates it. -/
theorem MapStep.translates_of_mapped {fs fs' : FileSystem} {c : MapCall}
    (h : MapStep fs c fs') (hfs : Ordered fs) {d : Nat}
    (hd : Sends (fs.files c.fid).extents c.req.off d) : c.Translates c.req.off d := by
  obtain ⟨fid, req, alloc, rc, out⟩ := c
  have hrc := mapDescend_hit (hfs fid) (defines_iff_sends.mpr ⟨d, hd⟩)
  have hcases := map_cases h.1 h.2
  simp only at hcases hd
  cases hcases with
  | hit near hmem hlo hhi =>
      have hd' : Sends (fs.files fid).extents req.off (near.doff + (req.off - near.foff)) :=
        ⟨near.seg, List.mem_map_of_mem hmem, ⟨hlo, hhi⟩, rfl⟩
      have heq := (hfs fid).unique hd hd'
      refine ⟨rfl, le_rfl, ?_, ?_⟩
      · show req.off < req.off + min req.count (near.count - (req.off - near.foff))
        have := h.1
        simp only at this
        omega
      · show d = near.doff + (req.off - near.foff) + (req.off - req.off)
        omega
  | miss _ hne => exact absurd hrc hne
  | fresh _ _ _ _ hne => exact absurd hrc hne

/-! ### Runs -/

/-- The calls `cs` from the state `fs₀` on treat the extents as a partial function. In every
state on the way the extents are in order, and every later call that reaches a byte mapped
there translates it to the same disk byte. A call that begins at such a byte does reach it. -/
def PartialFunction (fs₀ : FileSystem) (cs : List MapCall) : Prop :=
  ∀ pre post fs, cs = pre ++ post → Run MapStep fs₀ pre fs →
    Ordered fs ∧ ∀ c ∈ post, ∀ b d, Sends (fs.files c.fid).extents b d →
      (∀ d', c.Translates b d' → d' = d) ∧ (b = c.req.off → c.Translates b d)

/-- In a run of `Map` calls that are all clear, the extents are a partial function. -/
theorem map_partial_function (mntopt : AllocAlgo) (reservePA : Bool) (cs : List MapCall)
    (fs : FileSystem) (hrun : Run ClearStep (start mntopt reservePA) cs fs) :
    PartialFunction (start mntopt reservePA) cs := by
  rintro pre post s rfl hpre
  obtain ⟨s', hclear, hpost⟩ := hrun.exists_of_append
  obtain rfl := run_deterministic hpre (hclear.mono fun _ _ _ h => h.2)
  have hs := run_ordered hclear (start_ordered mntopt reservePA)
  refine ⟨hs, ?_⟩
  intro c hc b d hd
  -- the states before and after the call
  obtain ⟨mid, rest, u, v, rfl, hmid, hstep, -⟩ := hpost.exists_of_mem hc
  have hu := run_ordered hmid hs
  have hv := run_ordered (hmid.snoc hstep) hs
  have hdu : Sends (u.files c.fid).extents b d :=
    run_sends (hmid.mono fun _ _ _ h => h.2) hd
  constructor
  · intro d' hd'
    have h₁ : Sends (v.files c.fid).extents b d := (hstep.2.sends _ _ _).mpr (Or.inl hdu)
    have h₂ : Sends (v.files c.fid).extents b d' :=
      (hstep.2.sends _ _ _).mpr (Or.inr ⟨rfl, hd'⟩)
    exact (hv c.fid).unique h₂ h₁
  · rintro rfl
    exact hstep.2.translates_of_mapped hu hdu

/-- A write of the file 0 that asks to allocate. -/
def writeReq (off count : Nat) : Ioreq := ⟨.write, 0, 0, off, count⟩

/-- Two calls that meet the condition: the second is clipped to the first extent. -/
theorem map_partial_function_two : PartialFunction (start .stream false)
    [⟨0, writeReq 100 10, true, 0, writeReq 0 10⟩,
      ⟨0, writeReq 95 10, true, 0, writeReq 10 5⟩] := by
  refine map_partial_function .stream false _ _ (.cons ⟨?_, by decide, rfl⟩
    (.cons ⟨?_, by decide, rfl⟩ (.nil _)))
  · intro _ _ e he
    cases he
  · intro _ hrc
    exact absurd hrc (by decide)

/-- Three calls without the condition. The third begins in the hole between two extents, its
descent ends to the right of the first, and it is not clipped: byte 105 of the file, at disk
byte 5 before the call, is translated to disk byte 75. -/
theorem map_overlap : ¬ ∀ mntopt reservePA cs fs,
    Run MapStep (start mntopt reservePA) cs fs →
      PartialFunction (start mntopt reservePA) cs := by
  intro h
  have h₁ : Run MapStep (start .stream false)
      [⟨0, writeReq 100 10, true, 0, writeReq 0 10⟩,
        ⟨0, writeReq 0 10, true, 0, writeReq 10 10⟩] _ :=
    .cons ⟨by decide, rfl⟩ <| .cons ⟨by decide, rfl⟩ (.nil _)
  have h₂ : Run MapStep (start .stream false)
      ([⟨0, writeReq 100 10, true, 0, writeReq 0 10⟩,
        ⟨0, writeReq 0 10, true, 0, writeReq 10 10⟩] ++
        [⟨0, writeReq 50 100, true, 0, writeReq 20 100⟩]) _ :=
    h₁.snoc ⟨by decide, rfl⟩
  have hpf := (h .stream false _ _ h₂ _ [⟨0, writeReq 50 100, true, 0, writeReq 20 100⟩] _ rfl
    h₁).2 _ (List.mem_cons_self ..) 105 5
      ⟨⟨100, 0, 10⟩, by decide, ⟨by decide, by decide⟩, by decide⟩
  have := hpf.1 75 ⟨rfl, by decide, by decide, by decide⟩
  omega

end LustreSimulator.FileSystem
