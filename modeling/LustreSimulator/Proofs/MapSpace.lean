import LustreSimulator.Proofs.ExtentOrder

/-!
# `LustreSimulator.Proofs.MapSpace`: `Map` and the disk space of a file

`MbAllocBlock` reports a request over 8 MiB as a failure with the return code 1. `Map` tests for
negative codes, so it goes on, and enters an extent whose disk offset is the file offset of the
request. `reports_iff` says that this happens to every request that the allocator refuses.

In a run without such requests `Map` hands out nothing but disk space that `AllocBlock` gave to the
file. A call of `Map` asks for new disk space once at most, so the space that it gets is what lies
between `curoff` before and after the call (`SpaceStep`). `Backed` is the invariant: the extents and
the windows of a file lie in its space.
-/

set_option autoImplicit false

namespace LustreSimulator.FileSystem

open Lib Rbtree

variable {fs fs' : FileSystem} {fid : Nat} {req : Ioreq} {alloc : Bool}

/-! ### A refused request -/

/-- The call allocates disk space for the request `clipped`. -/
def Asks (fs : FileSystem) (fid : Nat) (req : Ioreq) (alloc : Bool) (clipped : Ioreq) : Prop :=
  alloc = true ∧ (mapDescend (fs.files fid) req.off).rc ≠ 0 ∧
    clip (mapDescend (fs.files fid) req.off).rc (mapDescend (fs.files fid) req.off).path req =
      .ok clipped

/-- The call asks `MbAllocBlock` for more than 8 MiB, and no window of the file can serve it. -/
def TooLarge (fs : FileSystem) (fid : Nat) (req : Ioreq) (alloc : Bool) : Prop :=
  fs.mntopt = .mballoc ∧ ∃ clipped, Asks fs fid req alloc clipped ∧
    mbFind req.off (fs.files fid).preallocList = none ∧ 8 <<< 20 < clipped.count

/-- The call makes `MbAllocBlock` compute a window for the offset. -/
def Shifts (fs : FileSystem) (fid : Nat) (req : Ioreq) (alloc : Bool) : Prop :=
  fs.mntopt = .mballoc ∧ ∃ clipped, Asks fs fid req alloc clipped ∧
    mbFind req.off (fs.files fid).preallocList = none ∧ clipped.count ≤ 8 <<< 20

/-- The shifts of the offset that `MbAllocBlock` makes stay in 64 bits (`shiftLeft_lt`). -/
def InRange (fs : FileSystem) (fid : Nat) (req : Ioreq) (alloc : Bool) : Prop :=
  Shifts fs fid req alloc → req.off < 2 ^ 52

/-- An offset below `2 ^ 52` can be shifted to its block and back. -/
theorem shiftLeft_lt {off : Nat} (h : off < 2 ^ 52) (k : Nat) :
    off >>> k <<< (k + bsbit) < 2 ^ 64 := by
  have hle : 2 ^ k * (off / 2 ^ k) ≤ off := Nat.mul_div_le off (2 ^ k)
  have heq : off >>> k <<< (k + bsbit) = 2 ^ k * (off / 2 ^ k) * 2 ^ bsbit := by
    rw [Nat.shiftLeft_add, Nat.shiftLeft_eq, Nat.shiftLeft_eq, Nat.shiftRight_eq_div_pow,
      Nat.mul_comm (2 ^ k)]
  rw [heq, bsbit]
  omega

/-- When `MbAllocBlock` reports a failure, `Map` reports one and leaves the extents alone. -/
def Reports (fs : FileSystem) (fid : Nat) (req : Ioreq) (alloc : Bool) : Prop :=
  ∀ clipped a, fs.mntopt = .mballoc → Asks fs fid req alloc clipped →
    mbAllocBlock fs.reservePA (fs.files fid) fs.curoff clipped = .ok a → a.rc ≠ 0 →
      ∃ rc out fs', fs.map fid req alloc = .ok (rc, out, fs') ∧ rc ≠ 0 ∧
        (fs'.files fid).extTree = (fs.files fid).extTree

/-- Clipping leaves the offset. -/
theorem clip_off {rc : Int} {path : List (Frame Extent)} {clipped : Ioreq}
    (h : clip rc path req = .ok clipped) : clipped.off = req.off := by
  unfold clip at h
  split at h
  · split at h
    · cases h
    · cases h
      rfl
  · cases h
    rfl

/-- Clipping makes no request longer. -/
theorem clip_count {rc : Int} {path : List (Frame Extent)} {clipped : Ioreq}
    (h : clip rc path req = .ok clipped) : clipped.count ≤ req.count := by
  unfold clip at h
  split at h
  · split at h
    · cases h
    · cases h
      exact Nat.min_le_left _ _
  · cases h
    exact Nat.le_refl _

/-- A call for at most 8 MiB is not refused. -/
theorem not_tooLarge (h : req.count ≤ 8 <<< 20) : ¬ TooLarge fs fid req alloc := by
  rintro ⟨-, clipped, hasks, -, hlarge⟩
  have := clip_count hasks.2.2
  omega

/-- Every request over 8 MiB is too large. -/
theorem mbNormalize_eq_none {off count fsize : Nat} (h : 8 <<< 20 < count) :
    mbNormalize off count fsize = none := by
  have hcount : 8 * 1024 * 1024 < count := h
  unfold mbNormalize
  dsimp only
  have hsize : 8 * 1024 * 1024 < if off + count < fsize then fsize else off + count := by
    split
    · omega
    · omega
  rw [if_neg (by omega), if_neg (by omega), if_neg (by omega), if_neg (by omega), if_neg (by omega),
    if_neg (by omega), if_neg (by omega), if_neg (by omega)]

/-- `MbAllocBlock` refuses the requests over 8 MiB for which the file has no window. -/
theorem mbAllocBlock_refuses {reservePA : Bool} {f : File} {curoff : Nat}
    (hfind : mbFind req.off f.preallocList = none) (hlarge : 8 <<< 20 < req.count) :
    mbAllocBlock reservePA f curoff req = .ok ⟨1, req, f.preallocList, curoff⟩ := by
  unfold mbAllocBlock
  rw [hfind]
  dsimp only
  rw [mbNormalize_eq_none hlarge]

/-- `MbAllocBlock` refuses no other request. -/
theorem refuses_large {reservePA : Bool} {f : File} {curoff : Nat} {a : Allocation}
    (h : mbAllocBlock reservePA f curoff req = .ok a) (hrc : a.rc ≠ 0) :
    mbFind req.off f.preallocList = none ∧ 8 <<< 20 < req.count := by
  unfold mbAllocBlock at h
  split at h
  · obtain ⟨r, -, h⟩ := bind_eq_ok.mp h
    cases h
    exact absurd rfl hrc
  · rename_i hfind
    refine ⟨hfind, ?_⟩
    split at h
    · rename_i hnone
      exact mbNormalize_none hnone
    · obtain ⟨w, -, h⟩ := bind_eq_ok.mp h
      obtain ⟨u, -, h⟩ := bind_eq_ok.mp h
      dsimp only at h
      split at h
      · cases h
        exact absurd rfl hrc
      · obtain ⟨u, -, h⟩ := bind_eq_ok.mp h
        obtain ⟨r, -, h⟩ := bind_eq_ok.mp h
        cases h
        exact absurd rfl hrc

/-- A call of `Map` that allocates, step by step. -/
theorem map_asks {clipped : Ioreq} (h : Asks fs fid req alloc clipped) :
    fs.map fid req alloc =
      (allocate fs.mntopt fs.reservePA (fs.files fid) fs.curoff clipped).bind fun a =>
      if a.rc < 0 then
        .ok (a.rc, a.req, { fs.setFile fid { fs.files fid with preallocList := a.preallocList } with
          curoff := a.curoff })
      else
        match insertExtent req.off a.req (mapDescend (fs.files fid) req.off).path with
        | none => .error .nullDeref
        | some t => .ok (0, a.req, { fs.setFile fid { fs.files fid with
            preallocList := a.preallocList, extTree := t } with curoff := a.curoff }) := by
  obtain ⟨halloc, hrc, hclip⟩ := h
  unfold map
  dsimp only
  rw [if_neg hrc, if_neg (by rw [halloc]; decide), hclip]
  rfl

/-- `Map` reports the failures of the allocator exactly when there is none to report. -/
theorem reports_iff (fs : FileSystem) (fid : Nat) (req : Ioreq) (alloc : Bool) :
    Reports fs fid req alloc ↔ ¬ TooLarge fs fid req alloc := by
  constructor
  · rintro h ⟨hmntopt, clipped, hasks, hfind, hlarge⟩
    rw [← clip_off hasks.2.2] at hfind
    have hrefuse := @mbAllocBlock_refuses clipped fs.reservePA (fs.files fid) fs.curoff hfind hlarge
    obtain ⟨rc, out, fs', hmap, hne, -⟩ := h clipped _ hmntopt hasks hrefuse (fun h => nomatch h)
    -- the code 1 is not negative, so `Map` goes on and returns 0
    rw [map_asks hasks, hmntopt, show allocate .mballoc fs.reservePA (fs.files fid) fs.curoff
      clipped = _ from hrefuse, ok_bind, if_neg (fun hneg => nomatch hneg)] at hmap
    split at hmap
    · cases hmap
    · cases hmap
      exact hne rfl
  · intro h clipped a hmntopt hasks ha hrc
    obtain ⟨hfind, hlarge⟩ := refuses_large ha hrc
    rw [clip_off hasks.2.2] at hfind
    exact absurd ⟨hmntopt, clipped, hasks, hfind, hlarge⟩ h

/-- A call that allocates and is not refused enters what it got as an extent. -/
theorem map_fresh {rc : Int} {out : Ioreq} (hrc : (mapDescend (fs.files fid) req.off).rc ≠ 0)
    (halloc : alloc = true) (hlarge : ¬ TooLarge fs fid req alloc)
    (h : fs.map fid req alloc = .ok (rc, out, fs')) : ∃ clipped a t,
      allocate fs.mntopt fs.reservePA (fs.files fid) fs.curoff clipped = .ok a ∧ a.rc = 0 ∧
      insertExtent req.off a.req (mapDescend (fs.files fid) req.off).path = some t ∧ a.req = out ∧
      fs' = { fs.setFile fid { fs.files fid with preallocList := a.preallocList, extTree := t } with
        curoff := a.curoff } := by
  obtain ⟨clipped, hasks⟩ : ∃ clipped, Asks fs fid req alloc clipped := by
    unfold map at h
    dsimp only at h
    rw [if_neg hrc, if_neg (by rw [halloc]; decide)] at h
    obtain ⟨clipped, hclip, -⟩ := bind_eq_ok.mp h
    exact ⟨clipped, halloc, hrc, hclip⟩
  rw [map_asks hasks] at h
  obtain ⟨a, ha, h⟩ := bind_eq_ok.mp h
  have hzero : a.rc = 0 := by
    cases hmntopt : fs.mntopt with
    | stream =>
        rw [hmntopt] at ha
        cases ha
        rfl
    | mballoc =>
        rw [hmntopt] at ha
        by_contra hne
        obtain ⟨hfind, hbig⟩ := refuses_large ha hne
        rw [clip_off hasks.2.2] at hfind
        exact hlarge ⟨hmntopt, clipped, hasks, hfind, hbig⟩
  rw [if_neg (by rw [hzero]; decide)] at h
  split at h
  · cases h
  · rename_i t ht
    cases h
    exact ⟨clipped, a, t, ha, hzero, ht, rfl, rfl⟩

/-! ### The space of a file -/

/-- The request is served from a window: its place lies in the disk space of the window. -/
theorem mbUseInodePA_range {pa : PreallocSpace} {r : PreallocSpace × Ioreq}
    (h : mbUseInodePA pa req = .ok r) : r.1.seg = pa.seg ∧ pa.pstart ≤ r.2.off ∧
      r.2.off + r.2.count ≤ pa.pstart + pa.len := by
  obtain ⟨u, -, h⟩ := bind_eq_ok.mp h
  obtain ⟨u, hcheck, h⟩ := bind_eq_ok.mp h
  cases h
  obtain ⟨hle, -⟩ := check_eq_ok.mp hcheck
  refine ⟨rfl, Nat.le_add_right _ _, ?_⟩
  dsimp only
  omega

/-- What an allocation hands out, and the windows that it leaves, lie in disk space that the file
had or that is new. -/
structure Within (f : File) (curoff : Nat) (a : Allocation) : Prop where
  le : curoff ≤ a.curoff
  range : (curoff ≤ a.req.off ∧ a.req.off + a.req.count ≤ a.curoff) ∨
    ∃ v ∈ f.preallocList, v.pstart ≤ a.req.off ∧ a.req.off + a.req.count ≤ v.pstart + v.len
  windows : ∀ w ∈ a.preallocList, (curoff ≤ w.pstart ∧ w.pstart + w.len ≤ a.curoff) ∨
    ∃ v ∈ f.preallocList, w.seg = v.seg

/-- `MbAllocBlock` hands out no other space when it succeeds. -/
theorem mbAllocBlock_within {reservePA : Bool} {f : File} {curoff : Nat} {a : Allocation}
    (h : mbAllocBlock reservePA f curoff req = .ok a) (hrc : a.rc = 0) : Within f curoff a := by
  have hold : ∀ w ∈ f.preallocList, (curoff ≤ w.pstart ∧ w.pstart + w.len ≤ a.curoff) ∨
      ∃ v ∈ f.preallocList, w.seg = v.seg := fun w hw => .inr ⟨w, hw, rfl⟩
  unfold mbAllocBlock at h
  split at h
  · rename_i before pa after hfind
    obtain ⟨hlist, -⟩ := mbFind_some hfind
    have hmem : pa ∈ f.preallocList := by
      rw [hlist]
      simp
    obtain ⟨r, hr, h⟩ := bind_eq_ok.mp h
    obtain ⟨hseg, hlo, hhi⟩ := mbUseInodePA_range hr
    cases h
    refine ⟨Nat.le_refl _, .inr ⟨pa, hmem, hlo, hhi⟩, fun w hw => ?_⟩
    rcases List.mem_append.mp ((mbReleaseContext_sublist _ _ _ _).subset hw) with hw | hw
    · exact hold w (by rw [hlist]; exact List.mem_append_left _ hw)
    · rcases List.mem_cons.mp hw with rfl | hw
      · exact .inr ⟨pa, hmem, hseg⟩
      · exact hold w (by rw [hlist]; exact List.mem_append_right _ (List.mem_cons_of_mem _ hw))
  · split at h
    · cases h
      cases hrc
    · obtain ⟨w, -, h⟩ := bind_eq_ok.mp h
      obtain ⟨u, -, h⟩ := bind_eq_ok.mp h
      dsimp only [allocBlock] at h
      split at h
      · cases h
        exact ⟨Nat.le_add_right _ _, .inl ⟨Nat.le_refl _, Nat.le_refl _⟩, hold⟩
      · obtain ⟨u, -, h⟩ := bind_eq_ok.mp h
        obtain ⟨r, hr, h⟩ := bind_eq_ok.mp h
        obtain ⟨hseg, hlo, hhi⟩ := mbUseInodePA_range hr
        cases h
        refine ⟨Nat.le_add_right _ _, .inl ⟨hlo, hhi⟩, fun v hv => ?_⟩
        rcases List.mem_cons.mp ((mbReleaseContext_sublist _ [] _ _).subset hv) with rfl | hv
        · have hpstart : r.1.pstart = curoff := congrArg Segment.dst hseg
          have hlen : r.1.len = w.2 - w.1 := congrArg Segment.len hseg
          left
          dsimp only
          omega
        · exact hold v hv

/-- An allocation that succeeds hands out space of the file, or new space. -/
theorem allocate_within {mntopt : AllocAlgo} {reservePA : Bool} {f : File} {curoff : Nat}
    {a : Allocation} (h : allocate mntopt reservePA f curoff req = .ok a) (hrc : a.rc = 0) :
    Within f curoff a := by
  cases mntopt with
  | stream =>
      cases h
      exact ⟨Nat.le_add_right _ _, .inl ⟨Nat.le_refl _, Nat.le_refl _⟩,
        fun w hw => .inr ⟨w, hw, rfl⟩⟩
  | mballoc => exact mbAllocBlock_within h hrc

/-- A file system with the disk space that `AllocBlock` gave to each file. -/
structure Spaced where
  fs : FileSystem
  space : Nat → Nat → Prop

/-- The call `c`, and the disk space that the file gets in it: what lies between `curoff` before the
call and after it. -/
def SpaceStep (s : Spaced) (c : MapCall) (s' : Spaced) : Prop :=
  s.fs.map c.fid c.req c.alloc = .ok (c.rc, c.out, s'.fs) ∧
    ∀ i y, s'.space i y ↔ s.space i y ∨ i = c.fid ∧ s.fs.curoff ≤ y ∧ y < s'.fs.curoff

/-- The extents and the windows of a file lie in its space. -/
structure Backed (s : Spaced) : Prop where
  extents : ∀ i x y, Sends (s.fs.files i).extents x y → s.space i y
  windows : ∀ i, ∀ w ∈ (s.fs.files i).preallocList, ∀ y, w.pstart ≤ y → y < w.pstart + w.len →
    s.space i y

/-- The space of a file does not get smaller. -/
theorem SpaceStep.keeps {s s' : Spaced} {c : MapCall} (hstep : SpaceStep s c s') {i y : Nat}
    (hy : s.space i y) : s'.space i y :=
  (hstep.2 i y).mpr (.inl hy)

/-- A call that changes no file. -/
theorem SpaceStep.backed_same {s s' : Spaced} {c : MapCall} (hstep : SpaceStep s c s')
    (hs : Backed s) (hsame : s'.fs = s.fs) : Backed s' := by
  refine ⟨fun i x y hxy => hstep.keeps ?_, fun i w hw y hlo hhi => hstep.keeps ?_⟩
  · rw [hsame] at hxy
    exact hs.extents i x y hxy
  · rw [hsame] at hw
    exact hs.windows i w hw y hlo hhi

/-- A call that allocates: the new extent is in new disk space, or in a part of a window. -/
theorem SpaceStep.backed_fresh {s s' : Spaced} {c : MapCall} {a : Allocation} {t : RbTree Extent}
    (hstep : SpaceStep s c s') (hs : Backed s)
    (hwithin : Within (s.fs.files c.fid) s.fs.curoff a)
    (hzip : zip .nil (mapDescend (s.fs.files c.fid) c.req.off).path = (s.fs.files c.fid).extTree)
    (ht : insertExtent c.req.off a.req (mapDescend (s.fs.files c.fid) c.req.off).path = some t)
    (hfs : s'.fs = { s.fs.setFile c.fid
      { s.fs.files c.fid with preallocList := a.preallocList, extTree := t } with
        curoff := a.curoff }) :
    Backed s' ∧ ∀ y, a.req.off ≤ y → y < a.req.off + a.req.count → s'.space c.fid y := by
  have hcuroff : s'.fs.curoff = a.curoff := by
    rw [hfs]
  have hfresh : ∀ y, s.fs.curoff ≤ y → y < a.curoff → s'.space c.fid y := by
    intro y hlo hhi
    rw [← hcuroff] at hhi
    exact (hstep.2 c.fid y).mpr (.inr ⟨rfl, hlo, hhi⟩)
  have hrange : ∀ y, a.req.off ≤ y → y < a.req.off + a.req.count → s'.space c.fid y := by
    intro y hlo hhi
    rcases hwithin.range with ⟨hlo', hhi'⟩ | ⟨v, hv, hlo', hhi'⟩
    · exact hfresh y (by omega) (by omega)
    · exact hstep.keeps (hs.windows c.fid v hv y (by omega) (by omega))
  refine ⟨⟨fun i x y hxy => ?_, fun i w hw y hlo hhi => ?_⟩, hrange⟩
  · rw [hfs] at hxy
    change Sends ((s.fs.setFile c.fid _).files i).extents x y at hxy
    rw [files_setFile] at hxy
    split at hxy
    · next hi =>
        subst hi
        rcases (insertExtent_sends hzip ht x y).mp hxy with hxy | hxy
        · exact hstep.keeps (hs.extents c.fid x y hxy)
        · obtain ⟨hlo, hhi⟩ := hxy.range
          exact hrange y hlo hhi
    · exact hstep.keeps (hs.extents i x y hxy)
  · rw [hfs] at hw
    change w ∈ ((s.fs.setFile c.fid _).files i).preallocList at hw
    rw [files_setFile] at hw
    split at hw
    · next hi =>
        subst hi
        -- a window is a new one, or lies where one was
        rcases hwithin.windows w hw with ⟨hlo', hhi'⟩ | ⟨v, hv, hseg⟩
        · exact hfresh y (by omega) (by omega)
        · have hpstart : w.pstart = v.pstart := congrArg Segment.dst hseg
          have hlen : w.len = v.len := congrArg Segment.len hseg
          exact hstep.keeps (hs.windows c.fid v hv y (by omega) (by omega))
    · exact hstep.keeps (hs.windows i w hw y hlo hhi)

/-- A call that is not refused keeps the extents and windows in the space of their files, and hands
out nothing else. -/
theorem SpaceStep.backed {s s' : Spaced} {c : MapCall} (hstep : SpaceStep s c s') (hs : Backed s)
    (hlarge : ¬ TooLarge s.fs c.fid c.req c.alloc) : Backed s' ∧
      (c.rc = 0 → ∀ y, c.out.off ≤ y → y < c.out.off + c.out.count → s'.space c.fid y) := by
  have hmap := hstep.1
  rcases mapDescend_cases (s.fs.files c.fid) c.req.off with
    ⟨hrc, color, l, near, r, hfocus, hmem, hlo, hhi⟩ | ⟨hrc, hzip, -, -⟩
  · -- an extent contains the offset
    unfold map at hmap
    dsimp only at hmap
    rw [if_pos hrc, hfocus] at hmap
    obtain ⟨u, -, hmap⟩ := bind_eq_ok.mp hmap
    simp only [Except.ok.injEq, Prod.mk.injEq] at hmap
    obtain ⟨-, hout, hfs⟩ := hmap
    refine ⟨hstep.backed_same hs hfs.symm, fun _ y hy hy' => ?_⟩
    refine hstep.keeps (hs.extents c.fid (near.foff + (y - near.doff)) y ?_)
    rw [← hout] at hy hy'
    dsimp only at hy hy'
    refine ⟨near.seg, List.mem_map_of_mem hmem, ⟨Nat.le_add_right _ _, ?_⟩, ?_⟩
    · show near.foff + (y - near.doff) < near.foff + near.count
      omega
    · show y = near.doff + (near.foff + (y - near.doff) - near.foff)
      omega
  · by_cases halloc : c.alloc = false
    · -- a miss
      unfold map at hmap
      dsimp only at hmap
      rw [if_neg hrc, if_pos halloc] at hmap
      simp only [Except.ok.injEq, Prod.mk.injEq] at hmap
      obtain ⟨hneg, -, hfs⟩ := hmap
      refine ⟨hstep.backed_same hs hfs.symm, fun hzero => ?_⟩
      rw [← hneg] at hzero
      cases hzero
    · obtain ⟨clipped, a, t, ha, hzero, ht, hout, hfs⟩ :=
        map_fresh hrc (by simpa using halloc) hlarge hmap
      obtain ⟨hbacked, hrange⟩ :=
        hstep.backed_fresh hs (allocate_within ha hzero) hzip ht hfs
      exact ⟨hbacked, fun _ => hout ▸ hrange⟩

/-- A call that is not refused. -/
def ServedStep (s : Spaced) (c : MapCall) (s' : Spaced) : Prop :=
  ¬ TooLarge s.fs c.fid c.req c.alloc ∧ SpaceStep s c s'

/-- The file system after `Start`: no file has disk space. -/
def Spaced.start (mntopt : AllocAlgo) (reservePA : Bool) : Spaced :=
  ⟨FileSystem.start mntopt reservePA, fun _ _ => False⟩

/-- A run of calls that are not refused keeps the extents and windows in the space of their
files. -/
theorem run_backed {mntopt : AllocAlgo} {reservePA : Bool} {cs : List MapCall} {s : Spaced}
    (h : Run ServedStep (Spaced.start mntopt reservePA) cs s) : Backed s := by
  refine h.invariant (fun _ _ _ hs hstep => (hstep.2.backed hs hstep.1).1) ⟨?_, ?_⟩
  · rintro i x y ⟨e, he, -⟩
    cases he
  · intro i w hw
    cases hw

/-- **Failed allocations.** `Map` reports a failure of `MbAllocBlock` exactly when the request is
not too large for it. In every run without such requests, what `Map` hands out is disk space that
the file got from `AllocBlock`. The sum `off + count` of a request is below `2 ^ 64`, as everywhere
in the model. -/
theorem map_failure (mntopt : AllocAlgo) (reservePA : Bool) :
    (∀ fs fid req alloc, Reports fs fid req alloc ↔ ¬ TooLarge fs fid req alloc) ∧
    ∀ cs s, Run ServedStep (Spaced.start mntopt reservePA) cs s →
      ∀ c s', ServedStep s c s' → c.rc = 0 →
        ∀ y, c.out.off ≤ y → y < c.out.off + c.out.count → s'.space c.fid y := by
  refine ⟨reports_iff, ?_⟩
  intro cs s hrun c s' hstep
  exact (hstep.2.backed (run_backed hrun) hstep.1).2

/-- A write, and a read of a part of it. -/
theorem map_failure_read : ∃ s s',
    Run ServedStep (Spaced.start .mballoc false)
      [⟨0, writeReq 4096 8192, true, 0, ⟨.write, 0, 0, 4096, 8192⟩⟩] s ∧
    ServedStep s ⟨0, writeReq 6000 1000, true, 0, writeReq 6000 1000⟩ s' ∧
    (∀ y, 6000 ≤ y → y < 7000 → s'.space 0 y) := by
  obtain ⟨s, hrun, s', hstep⟩ : ∃ s,
      Run ServedStep (Spaced.start .mballoc false)
        [⟨0, writeReq 4096 8192, true, 0, ⟨.write, 0, 0, 4096, 8192⟩⟩] s ∧
      ∃ s', ServedStep s ⟨0, writeReq 6000 1000, true, 0, writeReq 6000 1000⟩ s' := by
    refine ⟨⟨_, fun i y => False ∨ i = 0 ∧ 0 ≤ y ∧ y < 65536⟩,
      .cons ⟨not_tooLarge (by decide), rfl, fun _ _ => Iff.rfl⟩ (.nil _), ⟨_, fun i y =>
        (False ∨ i = 0 ∧ 0 ≤ y ∧ y < 65536) ∨ i = 0 ∧ 65536 ≤ y ∧ y < 65536⟩,
      not_tooLarge (by decide), rfl, fun _ _ => Iff.rfl⟩
  exact ⟨s, s', hrun, hstep, (map_failure .mballoc false).2 _ s hrun _ s' hstep rfl⟩

/-- A write of 8 MiB and one byte. `MbAllocBlock` reports a failure. `Map` returns 0, hands out the
disk bytes with the numbers of the file bytes, and enters them as an extent, though no disk space
was allocated at all. -/
theorem map_refused :
    mbAllocBlock false File.empty 0 (writeReq 4096 8388609) =
      .ok ⟨1, writeReq 4096 8388609, [], 0⟩ ∧
    ¬ Reports (start .mballoc false) 0 (writeReq 4096 8388609) true ∧
    ∃ s', SpaceStep (Spaced.start .mballoc false)
      ⟨0, writeReq 4096 8388609, true, 0, writeReq 4096 8388609⟩ s' ∧
      (s'.fs.files 0).extents = [⟨4096, 4096, 8388609⟩] ∧ s'.fs.curoff = 0 ∧
      ∀ y, ¬ s'.space 0 y := by
  refine ⟨rfl, fun h => ?_, ⟨_, fun i y => False ∨ i = 0 ∧ 0 ≤ y ∧ y < 0⟩,
    ⟨rfl, fun _ _ => Iff.rfl⟩, rfl, rfl, fun y hy => ?_⟩
  · obtain ⟨rc, out, fs', hmap, hne, -⟩ := h (writeReq 4096 8388609)
      ⟨1, writeReq 4096 8388609, [], 0⟩ rfl ⟨rfl, by decide, rfl⟩ rfl (by decide)
    cases hmap
    exact hne rfl
  · rcases hy with hy | ⟨-, -, hy⟩
    · exact hy
    · exact Nat.not_lt_zero y hy

end LustreSimulator.FileSystem
