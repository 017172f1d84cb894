import LustreSimulator.Proofs.MapSpace
import LustreSimulator.Proofs.Prealloc

/-!
# `LustreSimulator.Proofs.PreallocAccount`: `free` and the extents agree

A preallocated window keeps in `free` how many bytes it has left. The extents say the same in
another way: a byte of the window was handed out when they send it to the disk space of the
window. `handedOut` counts these bytes. `Accounted` is the account of all windows, with what keeps
it: the windows of a file lie apart on the disk, and the disk from `curoff` on is not in use.

In a run of clear calls the account is right in every state, and no call aborts as long as the
shifts stay in 64 bits (`prealloc_account`). `Mapped.accounted` is the step. A call that is not
clear can take a byte twice (`prealloc_overdraft`).
-/

set_option autoImplicit false

namespace LustreSimulator.FileSystem

open Lib Rbtree

/-- The number of bytes of the window that were handed out: the extents of the file send them to
the disk space of the window. -/
noncomputable def handedOut (f : File) (pa : PreallocSpace) : Nat := taken f.extents pa.seg

/-- Two windows lie apart on the disk. -/
def Apart (v w : Segment) : Prop := v.dst + v.len ≤ w.dst ∨ w.dst + w.len ≤ v.dst

/-- Windows that lie apart send nothing to the same place. -/
theorem Apart.not_sends {v w : Segment} (h : Apart v w) {x x' y : Nat} (hv : v.Sends x y) :
    ¬ w.Sends x' y := by
  intro hw
  obtain ⟨hvlo, hvhi⟩ := hv.range
  obtain ⟨hwlo, hwhi⟩ := hw.range
  rcases h with h | h
  · omega
  · omega

/-- The account of the windows of one file, whose disk is in use up to `curoff`. -/
structure Accounted (f : File) (curoff : Nat) : Prop where
  extents : ∀ x y, Sends f.extents x y → y < curoff
  windows : ∀ w ∈ f.preallocList, w.pstart + w.len ≤ curoff
  apart : (f.preallocList.map PreallocSpace.seg).Pairwise Apart
  free : ∀ w ∈ f.preallocList, w.free + handedOut f w = w.len

variable {f : File} {curoff : Nat}

/-- The disk that is in use may grow. -/
theorem Accounted.mono {curoff' : Nat} (h : Accounted f curoff) (hle : curoff ≤ curoff') :
    Accounted f curoff' := by
  refine ⟨?_, ?_, h.apart, h.free⟩
  · intro x y hxy
    exact Nat.lt_of_lt_of_le (h.extents x y hxy) hle
  · intro w hw
    exact Nat.le_trans (h.windows w hw) hle

/-- The window of an allocation lies below the new end of the disk space in use. -/
theorem Allocated.le_curoff {req : Ioreq} {a : Allocation} {g : Segment}
    (hg : Allocated f curoff req a g) (h : Accounted f curoff) :
    curoff ≤ a.curoff ∧ g.dst + g.len ≤ a.curoff := by
  rcases hg.space with ⟨hdst, hcur⟩ | ⟨⟨v, hv, hseg⟩, hcur⟩
  · omega
  · have hle := h.windows v hv
    have hdst : v.pstart = g.dst := congrArg Segment.dst hseg
    have hlen : v.len = g.len := congrArg Segment.len hseg
    omega

section

variable {g n : Segment} {f' : File}

/-- A window away from the new range is charged nothing. -/
theorem handedOut_away (hn : n.Inside g)
    (hsends : ∀ x y, Sends f'.extents x y ↔ Sends f.extents x y ∨ n.Sends x y)
    {w : PreallocSpace} (hw : Apart w.seg g) : handedOut f' w = handedOut f w := by
  apply taken_congr
  intro x y hxy
  rw [hsends]
  exact or_iff_left fun hxy' => hw.not_sends hxy (hn.sends hxy')

/-- The window of the new range is charged its length. -/
theorem handedOut_charged (hn : n.Inside g)
    (hsends : ∀ x y, Sends f'.extents x y ↔ Sends f.extents x y ∨ n.Sends x y)
    (hnew : ∀ x y, n.Sends x y → ¬ Sends f.extents x y) {w : PreallocSpace} (hw : w.seg = g) :
    handedOut f' w = taken f.extents g + n.len := by
  unfold handedOut
  rw [hw, taken_fill hn hsends hnew]

/-- A window of the file pays for the new range, and some windows may be given up. -/
theorem Accounted.old_pays (h : Accounted f curoff) (hn : n.Inside g)
    (hsends : ∀ x y, Sends f'.extents x y ↔ Sends f.extents x y ∨ n.Sends x y)
    (hnew : ∀ x y, n.Sends x y → ¬ Sends f.extents x y) {before after : List PreallocSpace}
    {v : PreallocSpace} (hold : f.preallocList = before ++ v :: after) (hseg : v.seg = g)
    (hfree : n.len ≤ v.free)
    (hsub : List.Sublist f'.preallocList (before ++ { v with free := v.free - n.len } :: after)) :
    (f'.preallocList.map PreallocSpace.seg).Pairwise Apart ∧
      ∀ w ∈ f'.preallocList, w.free + handedOut f' w = w.len := by
  have hmap : (before ++ { v with free := v.free - n.len } :: after).map
      PreallocSpace.seg = f.preallocList.map PreallocSpace.seg := by
    rw [hold, List.map_append, List.map_append]
    rfl
  have hapart := h.apart
  rw [hold, List.map_append, List.map_cons, List.pairwise_append, List.pairwise_cons] at hapart
  obtain ⟨-, ⟨hafter, -⟩, hbefore⟩ := hapart
  constructor
  · refine List.Pairwise.sublist (hsub.map _) ?_
    rw [hmap]
    exact h.apart
  · intro w hw
    have hpaid : ∀ u ∈ f.preallocList, u.free + handedOut f u = u.len := h.free
    rw [hold] at hpaid
    rcases List.mem_append.mp (hsub.subset hw) with hw | hw
    · have haway : Apart w.seg g := by
        rw [← hseg]
        exact hbefore _ (List.mem_map_of_mem hw) _ List.mem_cons_self
      rw [handedOut_away hn hsends haway]
      exact hpaid w (List.mem_append_left _ hw)
    · rcases List.mem_cons.mp hw with rfl | hw
      · -- the window that pays
        have hv := hpaid v (List.mem_append_right _ List.mem_cons_self)
        have hcharged := handedOut_charged hn hsends hnew (w := { v with free := v.free - n.len })
          hseg
        unfold handedOut at hv
        rw [hseg] at hv
        rw [hcharged]
        show v.free - n.len + _ = v.len
        omega
      · have haway : Apart w.seg g := by
          rw [← hseg]
          exact (hafter _ (List.mem_map_of_mem hw)).symm
        rw [handedOut_away hn hsends haway]
        exact hpaid w (List.mem_append_right _ (List.mem_cons_of_mem v hw))

/-- A new window pays for the new range, on disk space that nothing was sent to. -/
theorem Accounted.new_pays (h : Accounted f curoff) (hn : n.Inside g)
    (hsends : ∀ x y, Sends f'.extents x y ↔ Sends f.extents x y ∨ n.Sends x y)
    (hnew : ∀ x y, n.Sends x y → ¬ Sends f.extents x y) (hdst : g.dst = curoff)
    {v : PreallocSpace} (hseg : v.seg = g) (hfree : v.free + n.len = g.len)
    (hsub : List.Sublist f'.preallocList (v :: f.preallocList)) :
    (f'.preallocList.map PreallocSpace.seg).Pairwise Apart ∧
      ∀ w ∈ f'.preallocList, w.free + handedOut f' w = w.len := by
  have haway : ∀ w ∈ f.preallocList, Apart w.seg g := by
    intro w hw
    left
    show w.pstart + w.len ≤ g.dst
    rw [hdst]
    exact h.windows w hw
  have hnone : taken f.extents g = 0 := by
    apply taken_eq_zero
    intro x y hxy hold
    have := h.extents x y hold
    have := hxy.range
    omega
  constructor
  · refine List.Pairwise.sublist (hsub.map _) ?_
    rw [List.map_cons, List.pairwise_cons]
    refine ⟨?_, h.apart⟩
    intro s hs
    obtain ⟨w, hw, rfl⟩ := List.mem_map.mp hs
    rw [hseg]
    exact (haway w hw).symm
  · intro w hw
    rcases List.mem_cons.mp (hsub.subset hw) with rfl | hw
    · have hlen : w.len = g.len := congrArg Segment.len hseg
      rw [handedOut_charged hn hsends hnew hseg, hnone, hlen]
      omega
    · rw [handedOut_away hn hsends (haway w hw)]
      exact h.free w hw

end

/-- The account after an allocation whose range `n` joined the extents, when no byte of it was
mapped. -/
theorem Accounted.allocated {req : Ioreq} {a : Allocation} {g n : Segment} {f' : File}
    (h : Accounted f curoff) (hg : Allocated f curoff req a g) (hn : n.Inside g)
    (hlen : n.len = a.req.count) (hlist : f'.preallocList = a.preallocList)
    (hsends : ∀ x y, Sends f'.extents x y ↔ Sends f.extents x y ∨ n.Sends x y)
    (hnew : ∀ x y, n.Sends x y → ¬ Sends f.extents x y) : Accounted f' a.curoff := by
  obtain ⟨hcur, htop⟩ := hg.le_curoff h
  have hextents : ∀ x y, Sends f'.extents x y → y < a.curoff := by
    intro x y hxy
    rcases (hsends x y).mp hxy with hold | hxy
    · exact Nat.lt_of_lt_of_le (h.extents x y hold) hcur
    · have := (hn.sends hxy).range
      omega
  have hwindows : ∀ w ∈ f'.preallocList, w.pstart + w.len ≤ a.curoff := by
    intro w hw
    rw [hlist] at hw
    rcases hg.windows w hw with hold | ⟨hseg, -⟩
    · exact Nat.le_trans (h.windows w hold) hcur
    · have hdst : w.pstart = g.dst := congrArg Segment.dst hseg
      have hlen : w.len = g.len := congrArg Segment.len hseg
      omega
  have hpaid : (f'.preallocList.map PreallocSpace.seg).Pairwise Apart ∧
      ∀ w ∈ f'.preallocList, w.free + handedOut f' w = w.len := by
    rcases hg.charged with ⟨before, v, after, hold, hseg, -, hfree, hsub⟩ |
      ⟨hdst, v, hseg, -, hfree, hsub⟩
    · rw [← hlist, ← hlen] at hsub
      exact h.old_pays hn hsends hnew hold hseg (by omega) hsub
    · rw [← hlist] at hsub
      exact h.new_pays hn hsends hnew hdst hseg (by omega) hsub
  exact ⟨hextents, hwindows, hpaid.1, hpaid.2⟩

/-- A clear call of `Map` for at most 8 MiB keeps the account of every file. -/
theorem Mapped.accounted {fs fs' : FileSystem} {fid : Nat} {req req' : Ioreq} {alloc : Bool}
    {rc : Int} (h : Mapped fs fid req alloc rc req' fs') (hsize : req.count ≤ 8 * 1024 * 1024)
    (hclear : Clear fs fid req alloc) (hsorted : Ordered fs)
    (hfs : ∀ i, Accounted (fs.files i) fs.curoff) : ∀ i, Accounted (fs'.files i) fs'.curoff := by
  have hsends := h.sends
  cases h with
  | hit => exact hfs
  | miss => exact hfs
  | fresh clipped a t halloc hrc hclip hoff hle hpos hle' hspec ht =>
      obtain ⟨g, hg⟩ : ∃ g, Allocated (fs.files fid) fs.curoff clipped a g := by
        rcases hspec with hg | hg
        · exact hg
        · have := hg.large
          omega
      have hnew : ∀ x y, Segment.Sends ⟨req.off, a.req.off, a.req.count⟩ x y →
          ¬ Sends (fs.files fid).extents x y := by
        rintro x y ⟨⟨hlo, hhi⟩, -⟩ hold
        refine unmapped_of_miss (hsorted fid) (hclear halloc) hrc hclip hlo ?_
          (defines_iff_sends.mpr ⟨y, hold⟩)
        dsimp only at hhi
        omega
      intro i
      show Accounted ((fs.setFile fid _).files i) a.curoff
      by_cases hi : i = fid
      · subst hi
        refine (hfs i).allocated hg (hoff ▸ hg.inside) rfl ?_ ?_ hnew
        · rw [files_setFile, if_pos rfl]
        · intro x y
          refine (hsends i x y).trans (or_congr_right ?_)
          exact ⟨fun hxy => hxy.2.2, fun hxy => ⟨rfl, rfl, hxy⟩⟩
      · rw [files_setFile, if_neg hi]
        exact (hfs i).mono (hg.le_curoff (hfs fid)).1

/-- A clear call of `Map` for at most 8 MiB, whose shifts stay in 64 bits. -/
def SmallStep (fs : FileSystem) (c : MapCall) (fs' : FileSystem) : Prop :=
  c.req.count ≤ 8 * 1024 * 1024 ∧ InRange fs c.fid c.req c.alloc ∧ ClearStep fs c fs'

/-- **The account of the windows.** In a run of clear calls of `Map` for at most 8 MiB each, every
window has as much left as was not handed out, and no clear call aborts. The calls whose shifts
leave 64 bits are left out: there the code aborts, and the model does not. -/
theorem prealloc_account (reservePA : Bool) (cs : List MapCall) (fs : FileSystem)
    (hrun : Run SmallStep (start .mballoc reservePA) cs fs) :
    (∀ i, ∀ pa ∈ (fs.files i).preallocList,
      pa.deleted = false ∧ pa.free + handedOut (fs.files i) pa = pa.len) ∧
    ∀ fid req alloc, 0 < req.count → InRange fs fid req alloc → Clear fs fid req alloc →
      ∃ r, fs.map fid req alloc = .ok r := by
  have hsound : ∀ i, Sound (fs.files i) :=
    run_sound (hrun.mono fun _ _ _ h => h.2.2) fun _ => sound_empty
  have haccount : Ordered fs ∧ ∀ i, Accounted (fs.files i) fs.curoff := by
    refine hrun.invariant (P := fun s => Ordered s ∧ ∀ i, Accounted (s.files i) s.curoff) ?_ ?_
    · rintro s c s' ⟨hs, ha⟩ ⟨hsize, -, hclear, hpos, hmap⟩
      have hmapped := map_cases hpos hmap
      exact ⟨hmapped.sorted hclear hs, hmapped.accounted hsize hclear hs ha⟩
    · refine ⟨start_ordered .mballoc reservePA, fun i => ⟨?_, ?_, List.Pairwise.nil, ?_⟩⟩
      · rintro x y ⟨s, hs, -⟩
        cases hs
      · exact fun w hw => (nomatch hw)
      · exact fun w hw => (nomatch hw)
  refine ⟨fun i pa hpa => ⟨(hsound i).live pa hpa, (haccount.2 i).free pa hpa⟩, ?_⟩
  intro fid req alloc hcount _ hclear
  obtain ⟨rc, out, fs', hmap, -⟩ := map_total hcount (hsound fid) hclear
  exact ⟨_, hmap⟩

/-- Two writes into one window. -/
theorem prealloc_account_two : ∃ fs,
    Run SmallStep (start .mballoc false)
      [⟨0, writeReq 32768 4096, true, 0, writeReq 32768 4096⟩,
        ⟨0, writeReq 0 4096, true, 0, ⟨.write, 0, 1, 0, 4096⟩⟩] fs ∧
    (∀ i, ∀ pa ∈ (fs.files i).preallocList,
      pa.deleted = false ∧ pa.free + handedOut (fs.files i) pa = pa.len) ∧
    ∀ fid req alloc, 0 < req.count → InRange fs fid req alloc → Clear fs fid req alloc →
      ∃ r, fs.map fid req alloc = .ok r := by
  have hexists : ∃ fs, Run SmallStep (start .mballoc false)
      [⟨0, writeReq 32768 4096, true, 0, writeReq 32768 4096⟩,
        ⟨0, writeReq 0 4096, true, 0, ⟨.write, 0, 1, 0, 4096⟩⟩] fs := by
    refine ⟨_, .cons ⟨by decide, fun _ => by decide, ?_, by decide, rfl⟩ <|
      .cons ⟨by decide, fun _ => by decide, ?_, by decide, rfl⟩ (.nil _)⟩
    · intro _ _ e he
      cases he
    · intro _ hrc
      exact absurd hrc (by decide)
  obtain ⟨fs, hrun⟩ := hexists
  exact ⟨fs, hrun, prealloc_account false _ fs hrun⟩

/-- The third of these calls begins in a hole and runs into the next extent. It takes `4096` bytes
from the window a second time, and the next call finds too few left. -/
theorem prealloc_overdraft : ¬ ∀ reservePA cs fs,
    Run (fun s c t => c.fid = 0 ∧ c.alloc = true ∧ c.req.count ≤ 8 * 1024 * 1024 ∧ MapStep s c t)
      (start .mballoc reservePA) cs fs →
    (∀ pa ∈ (fs.files 0).preallocList, pa.deleted = false →
      pa.free + handedOut (fs.files 0) pa = pa.len) ∧
    ∀ req, 0 < req.count → req.count ≤ 8 * 1024 * 1024 →
      fs.map 0 req true ≠ .error .paFree ∧ fs.map 0 req true ≠ .error .paHole := by
  intro h
  obtain ⟨fs, hrun, habort⟩ : ∃ fs,
      Run (fun s c t => c.fid = 0 ∧ c.alloc = true ∧ c.req.count ≤ 8 * 1024 * 1024 ∧
        MapStep s c t) (start .mballoc false)
        [⟨0, writeReq 32768 4096, true, 0, writeReq 32768 4096⟩,
          ⟨0, writeReq 0 4096, true, 0, ⟨.write, 0, 1, 0, 4096⟩⟩,
          ⟨0, writeReq 16384 49152, true, 0, ⟨.write, 0, 1, 16384, 49152⟩⟩] fs ∧
      fs.map 0 (writeReq 4096 12288) true = .error .paFree :=
    ⟨_, .cons ⟨rfl, rfl, by decide, by decide, rfl⟩ <|
      .cons ⟨rfl, rfl, by decide, by decide, rfl⟩ <|
      .cons ⟨rfl, rfl, by decide, by decide, rfl⟩ (.nil _), rfl⟩
  exact ((h false _ fs hrun).2 _ (by decide) (by decide)).1 habort

end LustreSimulator.FileSystem
