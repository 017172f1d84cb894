import LustreSimulator.Proofs.ExtentOrder

/-!
# `LustreSimulator.Proofs.Prealloc`: clear calls of `Map` do not abort

`mbUseInodePA` aborts when a window has less free space than the request takes from it. The
account that excludes this is `Sound`: every window has at least as much free space as it has
bytes that no extent maps. A clear call asks only for bytes that are not mapped, so the window
that contains them can pay (`Sound.can_pay`), and afterwards both sides of the account are
smaller by what it paid (`Mapped.sound`).

`map_total` puts this together: a clear call on sound files never aborts. If it allocates, or if
its first byte is mapped, it succeeds.
-/

set_option autoImplicit false

namespace LustreSimulator.FileSystem

open Lib Rbtree

/-- The invariant of one file: a red-black tree of sorted extents, and windows that can pay for
every byte they contain that is not mapped yet. -/
structure Sound (f : File) : Prop where
  tree : IsRedBlack f.extTree
  sorted : Sorted f.extents
  live : ∀ pa ∈ f.preallocList, pa.deleted = false
  paid : ∀ pa ∈ f.preallocList, holes f.extents pa.lstart pa.len ≤ pa.free

/-- The empty file is sound. -/
theorem sound_empty : Sound File.empty where
  tree := isRedBlack_nil
  sorted := List.Pairwise.nil
  live := by
    intro pa hpa
    cases hpa
  paid := by
    intro pa hpa
    cases hpa

/-- After a miss, no byte of the clipped request is mapped. -/
theorem unmapped_of_miss {f : File} (h : Sorted f.extents) {req clipped : Ioreq}
    (hclear : 0 < (mapDescend f req.off).rc → ∀ e ∈ f.extTree.toList,
      ¬ (req.off < e.foff ∧ e.foff < req.off + req.count))
    (hrc : (mapDescend f req.off).rc ≠ 0)
    (hclip : clip (mapDescend f req.off).rc (mapDescend f req.off).path req = .ok clipped)
    {x : Nat} (hlo : req.off ≤ x) (hhi : x < req.off + clipped.count) :
    ¬ Defines f.extents x := by
  rintro ⟨s, hs, hslo, hshi⟩
  obtain ⟨e, he, rfl⟩ := List.mem_map.mp hs
  obtain ⟨hb, -⟩ := mapDescend_split h req.off
  have ha := clip_le h hclear hrc hclip
  rw [extents_of_miss hrc] at he
  simp only [Extent.seg] at hslo hshi
  rcases List.mem_append.mp he with he | he
  · have := hb e he
    omega
  · have := ha e he
    omega

/-- A part of a window that is not mapped is at most as large as the holes of the window. -/
theorem le_holes {l : List Segment} {start len off n : Nat} (hlo : start ≤ off)
    (hhi : off + n ≤ start + len) (hnew : ∀ x, off ≤ x → x < off + n → ¬ Defines l x) :
    n ≤ holes l start len := by
  have hfill : holes (⟨off, 0, n⟩ :: l) start len + n = holes l start len :=
    holes_fill (s := ⟨off, 0, n⟩) (fun x => defines_insert [] l ⟨off, 0, n⟩ x) hlo hhi
      (fun x hx => hnew x hx.1 hx.2)
  omega

/-- A window of a sound file can pay for what is not mapped. -/
theorem Sound.can_pay {f : File} (h : Sound f) {pa : PreallocSpace} (hpa : pa ∈ f.preallocList)
    {off count : Nat} (hlo : pa.lstart ≤ off)
    (hnew : ∀ x, off ≤ x → x < off + count → ¬ Defines f.extents x) :
    min (pa.lstart + pa.len - off) count ≤ pa.free := by
  by_cases hhi : off ≤ pa.lstart + pa.len
  · refine le_trans (le_holes hlo (by omega) ?_) (h.paid pa hpa)
    intro x hx hx'
    exact hnew x hx (by omega)
  · omega

/-- A clear call of `Map` on sound files does not abort. It succeeds when it allocates or when
its first byte is mapped. -/
theorem map_total {fs : FileSystem} {fid : Nat} {req : Ioreq} {alloc : Bool}
    (hcount : 0 < req.count) (hsound : Sound (fs.files fid)) (hclear : Clear fs fid req alloc) :
    ∃ rc out fs', fs.map fid req alloc = .ok (rc, out, fs') ∧
      (alloc = true ∨ Defines (fs.files fid).extents req.off → rc = 0) := by
  unfold map
  dsimp only
  rcases mapDescend_cases (fs.files fid) req.off with
    ⟨hrc, c, l, near, r, hfocus, hmem, hlo, hhi⟩ | ⟨hrc, hzip, hempty, hnear⟩
  · rw [if_pos hrc, hfocus]
    dsimp only
    rw [check_true (by omega), ok_bind]
    exact ⟨_, _, _, rfl, fun _ => rfl⟩
  · rw [if_neg hrc]
    cases alloc with
    | false =>
        rw [if_pos rfl]
        refine ⟨_, _, _, rfl, ?_⟩
        rintro (h | h)
        · cases h
        · exact absurd (mapDescend_hit hsound.sorted h) hrc
    | true =>
        rw [if_neg (by decide)]
        obtain ⟨clipped, hclip⟩ : ∃ clipped, clip (mapDescend (fs.files fid) req.off).rc
            (mapDescend (fs.files fid) req.off).path req = .ok clipped := by
          unfold clip
          split
          · rename_i hneg
            split
            · rename_i hpath
              have := hempty hpath
              omega
            · exact ⟨_, rfl⟩
          · exact ⟨_, rfl⟩
        obtain ⟨hoff, hpos, hle⟩ := clip_spec hcount hrc hclip
        obtain ⟨a, ha⟩ : ∃ a, allocate fs.mntopt fs.reservePA (fs.files fid) fs.curoff clipped =
            .ok a := by
          refine allocate_total hpos fun pa hpa => ⟨hsound.live pa hpa, ?_⟩
          intro hlo _
          refine hsound.can_pay hpa hlo fun x hx hx' => ?_
          rw [hoff] at hx hx'
          exact unmapped_of_miss hsound.sorted (hclear rfl) hrc hclip hx hx'
        rw [hclip, ok_bind, ha, ok_bind]
        have hrc' : ¬ a.rc < 0 := by
          rcases allocate_spec hpos ha with ⟨g, hg⟩ | hg
          · rw [hg.rc]
            decide
          · rw [hg.eq]
            exact (by decide : ¬ (1 : Int) < 0)
        obtain ⟨t, ht, -⟩ := insertExtent_total req.off a.req hsound.tree hzip
        rw [if_neg hrc', ht]
        exact ⟨_, _, _, rfl, fun _ => rfl⟩

/-- What the extents map after they got a new one. -/
theorem defines_of_sends {gs gs' : List Segment} {n : Segment}
    (h : ∀ x y, Sends gs' x y ↔ Sends gs x y ∨ n.Sends x y) (x : Nat) :
    Defines gs' x ↔ Defines gs x ∨ n.Defines x := by
  constructor
  · intro hx
    obtain ⟨y, hy⟩ := defines_iff_sends.mp hx
    rcases (h x y).mp hy with hy | hy
    · exact Or.inl (defines_iff_sends.mpr ⟨y, hy⟩)
    · exact Or.inr hy.1
  · rintro (hx | hx)
    · obtain ⟨y, hy⟩ := defines_iff_sends.mp hx
      exact defines_iff_sends.mpr ⟨y, (h x y).mpr (Or.inl hy)⟩
    · exact defines_iff_sends.mpr ⟨_, (h x _).mpr (Or.inr ⟨hx, rfl⟩)⟩

/-- A window after an allocation is an old one, or it contains the range that was allocated and had
the free space for all that no extent maps in it. -/
theorem Sound.window {f : File} (hf : Sound f) {curoff : Nat} {req : Ioreq} {a : Allocation}
    (hspec : (∃ g, Allocated f curoff req a g) ∨ Refused f curoff req a) {w : PreallocSpace}
    (hw : w ∈ a.preallocList) : w ∈ f.preallocList ∨
      w.deleted = false ∧ w.lstart ≤ req.off ∧ req.off + a.req.count ≤ w.lstart + w.len ∧
        holes f.extents w.lstart w.len ≤ w.free + a.req.count := by
  rcases hspec with ⟨g, hg⟩ | hg
  · rcases hg.windows w hw with hold | ⟨hseg, hdel, hfree⟩
    · exact Or.inl hold
    · obtain ⟨hlo, hhi, -⟩ := hg.inside
      rw [← hseg] at hlo hhi
      refine Or.inr ⟨hdel, hlo, hhi, ?_⟩
      rcases hfree with hfree | ⟨v, hv, hvseg, hfree⟩
      · -- a new window
        rw [hfree, ← hseg]
        exact holes_le _ _ _
      · -- the window of the file that paid
        rw [hfree]
        have hpaid := hf.paid v hv
        rw [← hseg] at hvseg
        have hlstart : v.lstart = w.lstart := congrArg Segment.src hvseg
        have hlen : v.len = w.len := congrArg Segment.len hvseg
        rwa [hlstart, hlen] at hpaid
  · rw [hg.eq] at hw
    exact Or.inl hw

/-- A clear call of `Map` keeps all files sound. -/
theorem Mapped.sound {fs fs' : FileSystem} {fid : Nat} {req req' : Ioreq} {alloc : Bool}
    {rc : Int} (h : Mapped fs fid req alloc rc req' fs') (hclear : Clear fs fid req alloc)
    (hfs : ∀ i, Sound (fs.files i)) : ∀ i, Sound (fs'.files i) := by
  have hsorted := h.sorted hclear fun i => (hfs i).sorted
  have hsends := h.sends
  cases h with
  | hit => exact hfs
  | miss => exact hfs
  | fresh clipped a t halloc hrc hclip hoff hle hpos hle' hspec ht =>
      intro i
      by_cases hi : i = fid
      · subst hi
        -- the new extents are the old ones and the range of the request
        have hdef : ∀ x, Defines (t.toList.map Extent.seg) x ↔
            Defines (fs.files i).extents x ∨
              Segment.Defines ⟨req.off, a.req.off, a.req.count⟩ x := by
          refine defines_of_sends fun x y => ?_
          have hx := hsends i x y
          simp only [files_setFile, if_true, true_and] at hx
          exact hx
        have hnew : ∀ x, Segment.Defines ⟨req.off, a.req.off, a.req.count⟩ x →
            ¬ Defines (fs.files i).extents x := by
          rintro x ⟨hlo, hhi⟩
          refine unmapped_of_miss (hfs i).sorted (hclear halloc) hrc hclip hlo ?_
          simp only at hhi
          omega
        have hmono := fun x h => (hdef x).mpr (Or.inl h)
        have hfile : (fs.setFile i { fs.files i with
            preallocList := a.preallocList, extTree := t }).files i =
            { fs.files i with preallocList := a.preallocList, extTree := t } := by
          rw [files_setFile, if_pos rfl]
        show Sound ((fs.setFile i _).files i)
        rw [hfile]
        exact {
          tree := by
            rcases mapDescend_cases (fs.files i) req.off with ⟨h0, -⟩ | ⟨-, hzip, -, -⟩
            · exact absurd h0 hrc
            · obtain ⟨t', ht', hrb⟩ := insertExtent_total req.off a.req (hfs i).tree hzip
              rw [ht] at ht'
              cases ht'
              exact hrb
          sorted := by
            have := hsorted i
            simpa only [files_setFile, if_true] using this
          live := by
            intro w hw
            rcases (hfs i).window hspec hw with hold | ⟨hdel, -⟩
            · exact (hfs i).live w hold
            · exact hdel
          paid := by
            intro w hw
            show holes (t.toList.map Extent.seg) w.lstart w.len ≤ w.free
            rcases (hfs i).window hspec hw with hold | ⟨-, hlo, hhi, hfree⟩
            · exact (holes_mono hmono _ _).trans ((hfs i).paid w hold)
            · -- the range that was allocated is a hole no more
              rw [hoff] at hlo hhi
              have := holes_fill hdef hlo hhi hnew
              simp only at this
              omega }
      · show Sound ((fs.setFile fid _).files i)
        rw [files_setFile, if_neg hi]
        exact hfs i

/-- A run of clear calls of `Map` keeps all files sound. -/
theorem run_sound {fs fs' : FileSystem} {cs : List MapCall} (h : Run ClearStep fs cs fs')
    (hfs : ∀ i, Sound (fs.files i)) : ∀ i, Sound (fs'.files i) :=
  h.invariant (P := fun s => ∀ i, Sound (s.files i))
    (fun _ _ _ hs hstep => (map_cases hstep.2.1 hstep.2.2).sound hstep.1 hs) hfs

end LustreSimulator.FileSystem
