import LustreSimulator.Proofs.PreallocAccount
import LustreSimulator.Proofs.MapSpace

/-!
# `LustreSimulator.Proofs.PreallocApart`: preallocated windows do not overlap

`MbAllocBlock` guesses a window around the offset of the request and cuts it down in one pass over
the windows that the file has, which are in no order. One pass is enough because the window only
shrinks (`mbTrim_shrinks`): what was cut off, or was outside from the start, stays outside while the
later windows are looked at. So the result lies aside of all live windows (`mbTrim_aside`), and it
still contains the offset, so that none of the assertions about its ends can fire
(`mbTrim_error`).

On the disk the windows lie apart because new ones begin at `curoff`. `Separate` is the invariant of
a file, and `windows_disjoint` the result over runs.
-/

set_option autoImplicit false

namespace LustreSimulator.FileSystem

open Lib

/-! ### Cutting a window down -/

/-- The loop over the windows only shrinks the new window. -/
theorem mbTrim_shrinks {off : Nat} {pas : List PreallocSpace} {start stop : Nat} {w : Nat × Nat}
    (h : mbTrim off pas start stop = .ok w) : start ≤ w.1 ∧ w.2 ≤ stop := by
  induction pas generalizing start stop with
  | nil =>
      cases h
      exact ⟨Nat.le_refl _, Nat.le_refl _⟩
  | cons pa rest ih =>
      rw [mbTrim] at h
      split at h
      · exact ih h
      · obtain ⟨u, -, h⟩ := bind_eq_ok.mp h
        split at h
        · exact ih h
        · split at h
          · exact ih h
          · rename_i hstop hstart
            obtain ⟨u, -, h⟩ := bind_eq_ok.mp h
            obtain ⟨u, -, h⟩ := bind_eq_ok.mp h
            obtain ⟨u, -, h⟩ := bind_eq_ok.mp h
            obtain ⟨hlo, hhi⟩ := ih h
            constructor
            · refine Nat.le_trans ?_ hlo
              split
              · omega
              · exact Nat.le_refl _
            · refine Nat.le_trans hhi ?_
              split
              · omega
              · exact Nat.le_refl _

/-- The window that the loop leaves lies aside of every live window of the file. -/
theorem mbTrim_aside {off : Nat} {pas : List PreallocSpace} {start stop : Nat} {w : Nat × Nat}
    (h : mbTrim off pas start stop = .ok w) :
    ∀ pa ∈ pas, pa.deleted = false → pa.lstart + pa.len ≤ w.1 ∨ w.2 ≤ pa.lstart := by
  induction pas generalizing start stop with
  | nil =>
      intro pa hpa
      cases hpa
  | cons q rest ih =>
      intro pa hpa hdel
      rw [mbTrim] at h
      split at h
      · rename_i hq
        rcases List.mem_cons.mp hpa with rfl | hpa
        · rw [hdel] at hq
          cases hq
        · exact ih h pa hpa hdel
      · obtain ⟨u, hhole, hnext⟩ := bind_eq_ok.mp h
        have hout := check_eq_ok.mp hhole
        split at hnext
        · rename_i hstop
          rcases List.mem_cons.mp hpa with rfl | hpa
          · exact .inr (Nat.le_trans (mbTrim_shrinks hnext).2 hstop)
          · exact ih hnext pa hpa hdel
        · split at hnext
          · rename_i hstart
            rcases List.mem_cons.mp hpa with rfl | hpa
            · exact .inl (Nat.le_trans hstart (mbTrim_shrinks hnext).1)
            · exact ih hnext pa hpa hdel
          · obtain ⟨u, -, hnext⟩ := bind_eq_ok.mp hnext
            obtain ⟨u, -, hnext⟩ := bind_eq_ok.mp hnext
            obtain ⟨u, -, hnext⟩ := bind_eq_ok.mp hnext
            rcases List.mem_cons.mp hpa with rfl | hpa
            · -- the window crosses the new one, which is cut on the side of the offset
              obtain ⟨hlo, hhi⟩ := mbTrim_shrinks hnext
              rcases hout with hbelow | habove
              · rw [if_pos hbelow] at hlo
                exact .inl hlo
              · rw [if_pos habove] at hhi
                exact .inr hhi
            · exact ih hnext pa hpa hdel

/-- The loop stops at a live window that contains the offset, and at nothing else. -/
theorem mbTrim_error {off : Nat} {pas : List PreallocSpace} {start stop : Nat} {e : Fault}
    (h : mbTrim off pas start stop = .error e) (hlo : start ≤ off) (hhi : off < stop) :
    e = .paHole := by
  induction pas generalizing start stop with
  | nil => cases h
  | cons pa rest ih =>
      rw [mbTrim] at h
      split at h
      · exact ih h hlo hhi
      · rcases bind_eq_error.mp h with h | ⟨u, hhole, h⟩
        · exact (check_eq_error.mp h).2.symm
        · have hout := check_eq_ok.mp hhole
          split at h
          · exact ih h hlo hhi
          · split at h
            · exact ih h hlo hhi
            · -- the offset lies in the new window and not in this one, so the assertions hold
              rw [check_true (by omega), ok_bind, check_true (by omega), ok_bind,
                check_true (by omega), ok_bind] at h
              refine ih h ?_ ?_
              · split
                · assumption
                · exact hlo
              · split
                · assumption
                · exact hhi

/-! ### One allocation -/

/-- A window that begins at or before the offset stops a request only when it cannot pay for it. -/
theorem mbUseInodePA_error {pa : PreallocSpace} {req : Ioreq} {e : Fault}
    (h : mbUseInodePA pa req = .error e) (hlo : pa.lstart ≤ req.off) : e = .paFree := by
  unfold mbUseInodePA at h
  rw [check_true hlo, ok_bind] at h
  rcases bind_eq_error.mp h with h | ⟨u, -, h⟩
  · exact (check_eq_error.mp h).2.symm
  · cases h

/-- `MbAllocBlock` computes the window `[w.1, w.2)` for the request. -/
def Computes (f : File) (req : Ioreq) (w : Nat × Nat) : Prop :=
  mbFind req.off f.preallocList = none ∧ ∃ start size,
    mbNormalize req.off req.count f.size = some (start, size) ∧
    mbTrim req.off f.preallocList start (start + size) = .ok w

variable {f : File} {req : Ioreq}

/-- The computed window contains the offset of the request. -/
theorem Computes.contains {w : Nat × Nat} (h : Computes f req w) (hcount : 0 < req.count) :
    w.1 ≤ req.off ∧ req.off < w.2 := by
  obtain ⟨-, start, size, hnorm, htrim⟩ := h
  obtain ⟨hlo, hhi⟩ := mbNormalize_window hcount hnorm
  exact mbTrim_window htrim hlo hhi

/-- The computed window lies aside of the live windows. -/
theorem Computes.aside {w : Nat × Nat} (h : Computes f req w) : ∀ pa ∈ f.preallocList,
    pa.deleted = false → pa.lstart + pa.len ≤ w.1 ∨ w.2 ≤ pa.lstart := by
  obtain ⟨-, start, size, -, htrim⟩ := h
  exact mbTrim_aside htrim

/-- `MbAllocBlock` stops when the offset lies in a live window without space, or in one that has too
little left. Nothing else stops it. -/
theorem mbAllocBlock_error {reservePA : Bool} {curoff : Nat} {e : Fault} (hcount : 0 < req.count)
    (h : mbAllocBlock reservePA f curoff req = .error e) : e = .paHole ∨ e = .paFree := by
  unfold mbAllocBlock at h
  split at h
  · rename_i before pa after hfind
    rcases bind_eq_error.mp h with h | ⟨r, -, h⟩
    · exact .inr (mbUseInodePA_error h (mbFind_some hfind).2.1)
    · cases h
  · split at h
    · cases h
    · rename_i hfind _ start size hnorm
      rcases bind_eq_error.mp h with h | ⟨w, hw, h⟩
      · obtain ⟨hlo, hhi⟩ := mbNormalize_window hcount hnorm
        exact .inl (mbTrim_error h hlo hhi)
      · obtain ⟨hlo, hhi⟩ := Computes.contains ⟨hfind, start, size, hnorm, hw⟩ hcount
        dsimp only [allocBlock] at h
        rw [check_true (by omega), ok_bind] at h
        split at h
        · cases h
        · unfold mbNewPreallocation at h
          rw [check_true (.inl hlo), ok_bind] at h
          rcases bind_eq_error.mp h with h | ⟨r, -, h⟩
          · exact .inr (mbUseInodePA_error h hlo)
          · cases h

/-- The windows after an allocation: those of the file, and perhaps one that was computed for the
request, on new disk space. -/
theorem mbAllocBlock_windows {reservePA : Bool} {curoff : Nat} {a : Allocation}
    (h : mbAllocBlock reservePA f curoff req = .ok a) : curoff ≤ a.curoff ∧
      ((a.preallocList.map PreallocSpace.seg).Sublist (f.preallocList.map PreallocSpace.seg) ∨
        ∃ w, Computes f req w ∧ a.curoff = curoff + (w.2 - w.1) ∧
          (a.preallocList.map PreallocSpace.seg).Sublist
            (⟨w.1, curoff, w.2 - w.1⟩ :: f.preallocList.map PreallocSpace.seg)) := by
  unfold mbAllocBlock at h
  split at h
  · rename_i before pa after hfind
    obtain ⟨r, hr, h⟩ := bind_eq_ok.mp h
    cases h
    refine ⟨Nat.le_refl _, .inl ?_⟩
    have hsub := (mbReleaseContext_sublist reservePA before after r.1).map PreallocSpace.seg
    rw [List.map_append, List.map_cons, (mbUseInodePA_range hr).1, ← List.map_cons,
      ← List.map_append, ← (mbFind_some hfind).1] at hsub
    exact hsub
  · split at h
    · cases h
      exact ⟨Nat.le_refl _, .inl (List.Sublist.refl _)⟩
    · rename_i hfind _ start size hnorm
      obtain ⟨w, hw, h⟩ := bind_eq_ok.mp h
      obtain ⟨u, -, h⟩ := bind_eq_ok.mp h
      dsimp only [allocBlock] at h
      split at h
      · cases h
        exact ⟨Nat.le_add_right _ _, .inl (List.Sublist.refl _)⟩
      · obtain ⟨u, -, h⟩ := bind_eq_ok.mp h
        obtain ⟨r, hr, h⟩ := bind_eq_ok.mp h
        cases h
        refine ⟨Nat.le_add_right _ _, .inr ⟨w, ⟨hfind, start, size, hnorm, hw⟩, rfl, ?_⟩⟩
        have hsub := (mbReleaseContext_sublist reservePA [] f.preallocList r.1).map
          PreallocSpace.seg
        rw [List.nil_append, List.map_cons, (mbUseInodePA_range hr).1] at hsub
        exact hsub

/-- An allocation leaves only live windows. -/
theorem mbAllocBlock_live {reservePA : Bool} {curoff : Nat} {a : Allocation}
    (hcount : 0 < req.count) (h : mbAllocBlock reservePA f curoff req = .ok a)
    (hf : ∀ w ∈ f.preallocList, w.deleted = false) : ∀ w ∈ a.preallocList, w.deleted = false := by
  intro w hw
  rcases mbAllocBlock_spec hcount h with ⟨g, hg⟩ | hg
  · rcases hg.windows w hw with hold | ⟨-, hdel, -⟩
    · exact hf w hold
    · exact hdel
  · rw [hg.eq] at hw
    exact hf w hw

/-! ### Runs -/

/-- Two windows lie apart, in the file and on the disk. -/
def Separate (v w : Segment) : Prop :=
  (v.src + v.len ≤ w.src ∨ w.src + w.len ≤ v.src) ∧ Apart v w

/-- The windows of a file are live, lie below `curoff` and are separate. -/
structure Placed (f : File) (curoff : Nat) : Prop where
  live : ∀ w ∈ f.preallocList, w.deleted = false
  below : ∀ w ∈ f.preallocList.map PreallocSpace.seg, w.dst + w.len ≤ curoff
  separate : (f.preallocList.map PreallocSpace.seg).Pairwise Separate

/-- The disk that is in use may grow. -/
theorem Placed.mono {curoff curoff' : Nat} (h : Placed f curoff) (hle : curoff ≤ curoff') :
    Placed f curoff' :=
  ⟨h.live, fun w hw => Nat.le_trans (h.below w hw) hle, h.separate⟩

/-- A computed window is separate from the windows of the file. -/
theorem Computes.separate {w : Nat × Nat} {curoff : Nat} (h : Computes f req w)
    (hcount : 0 < req.count) (hf : Placed f curoff) :
    ∀ s ∈ f.preallocList.map PreallocSpace.seg, Separate ⟨w.1, curoff, w.2 - w.1⟩ s := by
  intro s hs
  refine ⟨?_, .inr (hf.below s hs)⟩
  obtain ⟨pa, hpa, rfl⟩ := List.mem_map.mp hs
  obtain ⟨hlo, hhi⟩ := h.contains hcount
  rcases h.aside pa hpa (hf.live pa hpa) with hbelow | habove
  · exact .inr hbelow
  · left
    show w.1 + (w.2 - w.1) ≤ pa.lstart
    omega

/-- An allocation keeps the windows of its file placed. -/
theorem Placed.allocated {reservePA : Bool} {curoff : Nat} {a : Allocation} {f' : File}
    (hf : Placed f curoff) (hcount : 0 < req.count)
    (h : mbAllocBlock reservePA f curoff req = .ok a) (hlist : f'.preallocList = a.preallocList) :
    Placed f' a.curoff := by
  obtain ⟨hle, hwindows⟩ := mbAllocBlock_windows h
  have hlive := mbAllocBlock_live hcount h hf.live
  rw [← hlist] at hlive hwindows
  have hbelow : ∀ s ∈ f.preallocList.map PreallocSpace.seg, s.dst + s.len ≤ a.curoff :=
    fun s hs => Nat.le_trans (hf.below s hs) hle
  rcases hwindows with hsub | ⟨w, hw, hcuroff, hsub⟩
  · exact ⟨hlive, fun s hs => hbelow s (hsub.subset hs), hf.separate.sublist hsub⟩
  · refine ⟨hlive, fun s hs => ?_, List.Pairwise.sublist hsub ?_⟩
    · rcases List.mem_cons.mp (hsub.subset hs) with rfl | hs
      · exact hcuroff.ge
      · exact hbelow s hs
    · exact List.pairwise_cons.mpr ⟨hw.separate hcount hf, hf.separate⟩

/-- What a call of `Map` does to the windows of the files: nothing, or one allocation. -/
theorem map_windows {fs fs' : FileSystem} {fid : Nat} {out : Ioreq} {alloc : Bool} {rc : Int}
    (hcount : 0 < req.count) (h : fs.map fid req alloc = .ok (rc, out, fs')) : fs' = fs ∨
      ∃ clipped a, 0 < clipped.count ∧
        allocate fs.mntopt fs.reservePA (fs.files fid) fs.curoff clipped = .ok a ∧
        fs'.mntopt = fs.mntopt ∧ fs'.curoff = a.curoff ∧
        (fs'.files fid).preallocList = a.preallocList ∧
        ∀ i, i ≠ fid → fs'.files i = fs.files i := by
  unfold map at h
  dsimp only at h
  split at h
  · split at h
    · cases h
    · obtain ⟨u, -, h⟩ := bind_eq_ok.mp h
      cases h
      exact .inl rfl
  · rename_i hrc
    split at h
    · cases h
      exact .inl rfl
    · obtain ⟨clipped, hclip, h⟩ := bind_eq_ok.mp h
      obtain ⟨-, hpos, -⟩ := clip_spec hcount hrc hclip
      obtain ⟨a, ha, h⟩ := bind_eq_ok.mp h
      refine .inr ⟨clipped, a, hpos, ha, ?_⟩
      split at h
      · cases h
        exact ⟨rfl, rfl, by simp [files_setFile], fun i hi => by simp [files_setFile, hi]⟩
      · split at h
        · cases h
        · cases h
          exact ⟨rfl, rfl, by simp [files_setFile], fun i hi => by simp [files_setFile, hi]⟩

/-- The windows of all files are placed, on a file system that is mounted with `FS_MBALLOC`. -/
def AllPlaced (fs : FileSystem) : Prop :=
  fs.mntopt = .mballoc ∧ ∀ i, Placed (fs.files i) fs.curoff

/-- A call of `Map` keeps the windows placed. -/
theorem MapStep.allPlaced {fs fs' : FileSystem} {c : MapCall} (hstep : MapStep fs c fs')
    (hfs : AllPlaced fs) : AllPlaced fs' := by
  obtain ⟨hcount, hmap⟩ := hstep
  rcases map_windows hcount hmap with rfl | ⟨clipped, a, hpos, ha, hmntopt, hcuroff, hlist, hother⟩
  · exact hfs
  · rw [hfs.1] at ha
    refine ⟨hmntopt.trans hfs.1, fun i => ?_⟩
    rw [hcuroff]
    by_cases hi : i = c.fid
    · rw [hi]
      exact (hfs.2 c.fid).allocated hpos ha hlist
    · rw [hother i hi]
      exact (hfs.2 i).mono (mbAllocBlock_windows ha).1

/-- **Preallocated windows do not overlap.** In every run of calls of `Map`, the windows of a file
are separate. For every request after it, the window that `MbAllocBlock` computes contains the
offset and lies aside of all windows of the file, and only `paHole` and `paFree` can stop
`MbAllocBlock`. -/
theorem windows_disjoint (reservePA : Bool) (cs : List MapCall) (fs : FileSystem)
    (hrun : Run MapStep (start .mballoc reservePA) cs fs) (i : Nat) :
    ((fs.files i).preallocList.map PreallocSpace.seg).Pairwise Separate ∧
    ∀ req, 0 < req.count →
      (∀ w, Computes (fs.files i) req w → (w.1 ≤ req.off ∧ req.off < w.2) ∧
        ∀ pa ∈ (fs.files i).preallocList, pa.lstart + pa.len ≤ w.1 ∨ w.2 ≤ pa.lstart) ∧
      ∀ e, mbAllocBlock fs.reservePA (fs.files i) fs.curoff req = .error e →
        e = .paHole ∨ e = .paFree := by
  have hplaced : AllPlaced fs := by
    refine hrun.invariant (fun _ _ _ hs hstep => hstep.allPlaced hs) ⟨rfl, fun i => ⟨?_, ?_, ?_⟩⟩
    · exact fun w hw => nomatch hw
    · exact fun w hw => nomatch hw
    · exact List.Pairwise.nil
  refine ⟨(hplaced.2 i).separate, fun req hcount => ⟨fun w hw => ⟨hw.contains hcount, ?_⟩, ?_⟩⟩
  · exact fun pa hpa => hw.aside pa hpa ((hplaced.2 i).live pa hpa)
  · exact fun e he => mbAllocBlock_error hcount he

/-- Two writes. The second one wants the window `[0, 131072)` and gets `[65536, 131072)`. -/
theorem windows_disjoint_two : ∃ fs,
    Run MapStep (start .mballoc false)
      [⟨0, writeReq 0 4096, true, 0, writeReq 0 4096⟩,
        ⟨0, writeReq 69632 4096, true, 0, writeReq 69632 4096⟩] fs ∧
    (fs.files 0).preallocList.map PreallocSpace.seg = [⟨65536, 65536, 65536⟩, ⟨0, 0, 65536⟩] ∧
    ((fs.files 0).preallocList.map PreallocSpace.seg).Pairwise Separate := by
  obtain ⟨fs, hrun, hlist⟩ : ∃ fs,
      Run MapStep (start .mballoc false)
        [⟨0, writeReq 0 4096, true, 0, writeReq 0 4096⟩,
          ⟨0, writeReq 69632 4096, true, 0, writeReq 69632 4096⟩] fs ∧
      (fs.files 0).preallocList.map PreallocSpace.seg =
        [⟨65536, 65536, 65536⟩, ⟨0, 0, 65536⟩] :=
    ⟨_, .cons ⟨by decide, rfl⟩ <| .cons ⟨by decide, rfl⟩ (.nil _), rfl⟩
  exact ⟨fs, hrun, hlist, (windows_disjoint false _ fs hrun 0).1⟩

end LustreSimulator.FileSystem
