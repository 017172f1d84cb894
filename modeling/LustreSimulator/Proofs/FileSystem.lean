import LustreSimulator.Lib.Segment
import LustreSimulator.FileSystem
import LustreSimulator.Proofs.Rbtree

/-!
# `LustreSimulator.Proofs.FileSystem`: what one call of `Map` does

An extent, a preallocated window and a successful call are all segments: they send file bytes
to disk bytes. Every fact about a run of `Map` calls comes from three case lemmas.

* `allocate_spec`: an allocation serves the request from one segment, its window. The window is
  new disk space or a preallocated window of the file, and only the window's entry of the list
  changes. A request of more than 8 MiB can be refused instead, with the return code 1, which
  `Map` ignores.
* `insertExtent_cases`: the range joins the in-order list of extents where the descent ended,
  as a new entry or by growing the last visited one.
* `map_cases`: a call hits an extent, misses without allocating, or allocates and inserts.

`allocate_total` and `insertExtent_total` say when the two parts do not abort.
-/

set_option autoImplicit false

namespace LustreSimulator.FileSystem

open Lib Rbtree

/-- An extent as a segment. -/
def Extent.seg (e : Extent) : Segment := ⟨e.foff, e.doff, e.count⟩

/-- A preallocated window as a segment. -/
def PreallocSpace.seg (pa : PreallocSpace) : Segment := ⟨pa.lstart, pa.pstart, pa.len⟩

/-- The extents of a file in the order of its tree. -/
def File.extents (f : File) : List Segment := f.extTree.toList.map Extent.seg

/-! ### The windows of the allocator -/

/-- The window that `MbUsePreallocation` finds contains the offset and has space. -/
theorem mbFind_some {off : Nat} {pas before after : List PreallocSpace} {pa : PreallocSpace}
    (h : mbFind off pas = some (before, pa, after)) :
    pas = before ++ pa :: after ∧ pa.lstart ≤ off ∧ off < pa.lstart + pa.len ∧
      pa.deleted = false ∧ pa.free ≠ 0 := by
  induction pas generalizing before with
  | nil => cases h
  | cons q rest ih =>
      rw [mbFind] at h
      split at h
      · obtain ⟨⟨b, p, a⟩, hr, heq⟩ := Option.map_eq_some_iff.mp h
        cases heq
        obtain ⟨hrest, hpa⟩ := ih hr
        exact ⟨by rw [hrest]; rfl, hpa⟩
      · rename_i hq
        cases h
        refine ⟨rfl, ?_⟩
        push Not at hq
        exact ⟨by omega, by omega, hq.2⟩

/-- When `MbUsePreallocation` finds nothing, no window with space contains the offset. -/
theorem mbFind_none {off : Nat} {pas : List PreallocSpace} (h : mbFind off pas = none) :
    ∀ pa ∈ pas, pa.deleted = false → pa.lstart ≤ off → off < pa.lstart + pa.len →
      pa.free = 0 := by
  induction pas with
  | nil => intro pa hpa; cases hpa
  | cons q rest ih =>
      rw [mbFind] at h
      split at h
      · rename_i hq
        intro pa hpa hdel hlo hhi
        rcases List.mem_cons.mp hpa with rfl | hpa
        · by_contra hfree
          rcases hq with (hq | hq) | hq
          · omega
          · omega
          · exact hq ⟨hdel, hfree⟩
        · exact ih (Option.map_eq_none_iff.mp h) pa hpa hdel hlo hhi
      · cases h

/-- `MbUseInodePA` on a window that contains the offset: the request gets what is left of the
window from there, and the window pays for it. -/
theorem mbUseInodePA_eq {pa : PreallocSpace} {req : Ioreq} (hlo : pa.lstart ≤ req.off)
    (hhi : req.off < pa.lstart + pa.len) :
    mbUseInodePA pa req =
      if min (pa.lstart + pa.len - req.off) req.count ≤ pa.free then
        .ok ({ pa with free := pa.free - min (pa.lstart + pa.len - req.off) req.count },
          { req with off := pa.pstart + (req.off - pa.lstart),
                     count := min (pa.lstart + pa.len - req.off) req.count })
      else .error .paFree := by
  have hcount : min (pa.pstart + pa.len) (pa.pstart + (req.off - pa.lstart) + req.count) -
      (pa.pstart + (req.off - pa.lstart)) = min (pa.lstart + pa.len - req.off) req.count := by
    omega
  have hle : pa.pstart + (req.off - pa.lstart) ≤
      min (pa.pstart + pa.len) (pa.pstart + (req.off - pa.lstart) + req.count) := by
    omega
  unfold mbUseInodePA
  rw [check_true hlo, ok_bind]
  simp only [hcount]
  split
  · rename_i hfree
    rw [check_true ⟨hle, hfree⟩, ok_bind]
  · rename_i hfree
    rw [check, if_neg (fun h => hfree h.2)]
    rfl

/-- A window of `2 ^ k` blocks, or a longer one, contains the offset that it is aligned to. -/
theorem aligned_window {off size : Nat} (k : Nat) (hsize : 2 ^ k ≤ size) :
    off >>> k <<< (k + bsbit) >>> bsbit ≤ off ∧
      off < off >>> k <<< (k + bsbit) >>> bsbit + size := by
  have hstart : off >>> k <<< (k + bsbit) >>> bsbit = 2 ^ k * (off / 2 ^ k) := by
    rw [Nat.shiftLeft_add, Nat.shiftLeft_shiftRight, Nat.shiftLeft_eq, Nat.shiftRight_eq_div_pow,
      Nat.mul_comm]
  have hmod := Nat.mod_lt off (Nat.two_pow_pos k)
  have hdiv := Nat.div_add_mod off (2 ^ k)
  rw [hstart]
  omega

/-- The window that a request is normalized to contains its offset. -/
theorem mbNormalize_window {off count fsize start size : Nat} (hcount : 0 < count)
    (h : mbNormalize off count fsize = some (start, size)) :
    start ≤ off ∧ off < start + size := by
  unfold mbNormalize at h
  dsimp only at h
  generalize hn : (if off + count < fsize then fsize else off + count) = n at h
  have hle : off < n := by
    split at hn <;> omega
  -- a small request has a window at the begin of the file
  iterate 5
    split at h
    · cases h
      omega
  -- a larger one has an aligned window
  split at h
  · cases h
    exact aligned_window 9 (by decide)
  split at h
  · cases h
    exact aligned_window 10 (by decide)
  split at h
  · cases h
    exact aligned_window 11 (by decide)
  · cases h

/-- Only a request of more than 8 MiB is too large. -/
theorem mbNormalize_none {off count fsize : Nat} (h : mbNormalize off count fsize = none) :
    8 <<< 20 < count := by
  unfold mbNormalize at h
  dsimp only at h
  generalize (if off + count < fsize then fsize else off + count) = n at h
  iterate 7
    split at h
    · cases h
  split at h
  · cases h
  · omega

/-- Cutting a window down keeps the offset inside. -/
theorem mbTrim_window {off : Nat} {pas : List PreallocSpace} {start stop : Nat} {w : Nat × Nat}
    (h : mbTrim off pas start stop = .ok w) (hlo : start ≤ off) (hhi : off < stop) :
    w.1 ≤ off ∧ off < w.2 := by
  induction pas generalizing start stop with
  | nil =>
      cases h
      exact ⟨hlo, hhi⟩
  | cons pa rest ih =>
      rw [mbTrim] at h
      split at h
      · exact ih h hlo hhi
      · obtain ⟨u, -, h⟩ := bind_eq_ok.mp h
        split at h
        · exact ih h hlo hhi
        · split at h
          · exact ih h hlo hhi
          · obtain ⟨u, -, h⟩ := bind_eq_ok.mp h
            obtain ⟨u, -, h⟩ := bind_eq_ok.mp h
            obtain ⟨u, -, h⟩ := bind_eq_ok.mp h
            refine ih h ?_ ?_
            · split <;> omega
            · split <;> omega

/-- No assertion of the loop fires when no live window contains the offset. -/
theorem mbTrim_total {off : Nat} {pas : List PreallocSpace} {start stop : Nat}
    (hpas : ∀ pa ∈ pas, pa.deleted = false → off ≥ pa.lstart + pa.len ∨ off < pa.lstart)
    (hlo : start ≤ off) (hhi : off < stop) : ∃ w, mbTrim off pas start stop = .ok w := by
  induction pas generalizing start stop with
  | nil => exact ⟨_, rfl⟩
  | cons pa rest ih =>
      have hrest : ∀ pa ∈ rest, pa.deleted = false → off ≥ pa.lstart + pa.len ∨ off < pa.lstart :=
        fun q hq => hpas q (List.mem_cons_of_mem _ hq)
      rw [mbTrim]
      split
      · exact ih hrest hlo hhi
      · rename_i hdel
        have hhole := hpas pa (List.mem_cons_self ..) (by simpa using hdel)
        dsimp only
        rw [check_true hhole, ok_bind]
        split
        · exact ih hrest hlo hhi
        · split
          · exact ih hrest hlo hhi
          · rw [check_true (by omega), ok_bind, check_true (by omega), ok_bind,
              check_true (by omega), ok_bind]
            refine ih hrest ?_ ?_
            · split <;> omega
            · split <;> omega

/-! ### One allocation -/

/-- The allocation `a` refuses the request: nothing changes. -/
structure Refused (f : File) (curoff : Nat) (req : Ioreq) (a : Allocation) : Prop where
  large : 8 <<< 20 < req.count
  eq : a = ⟨1, req, f.preallocList, curoff⟩

/-- The allocation `a` serves the request `req` of the file `f` from the segment `g`. -/
structure Allocated (f : File) (curoff : Nat) (req : Ioreq) (a : Allocation) (g : Segment) :
    Prop where
  /-- Allocations succeed. -/
  rc : a.rc = 0
  /-- The request may get shorter, but not empty. -/
  pos : 0 < a.req.count
  le : a.req.count ≤ req.count
  /-- The request is served from the window. -/
  inside : Segment.Inside ⟨req.off, a.req.off, a.req.count⟩ g
  /-- The window is new disk space, or a window the file has. -/
  space : g.dst = curoff ∧ a.curoff = curoff + g.len ∨
    (∃ v ∈ f.preallocList, v.seg = g) ∧ a.curoff = curoff
  /-- The window of the file, or a new one at the head, pays for the request. The others stay. -/
  charged : (∃ before v after, f.preallocList = before ++ v :: after ∧ v.seg = g ∧
      v.deleted = false ∧ a.req.count ≤ v.free ∧
      a.preallocList.Sublist (before ++ { v with free := v.free - a.req.count } :: after)) ∨
    g.dst = curoff ∧ ∃ w : PreallocSpace, w.seg = g ∧ w.deleted = false ∧
      w.free + a.req.count = g.len ∧ a.preallocList.Sublist (w :: f.preallocList)

/-- The windows of the file stay, and the one that served the request pays for it. -/
theorem Allocated.windows {f : File} {curoff : Nat} {req : Ioreq} {a : Allocation} {g : Segment}
    (h : Allocated f curoff req a g) : ∀ w ∈ a.preallocList, w ∈ f.preallocList ∨
      w.seg = g ∧ w.deleted = false ∧ (w.free + a.req.count = g.len ∨
        ∃ v ∈ f.preallocList, v.seg = g ∧ w.free + a.req.count = v.free) := by
  intro w hw
  rcases h.charged with ⟨before, v, after, hlist, hseg, hdel, hfree, hsub⟩ |
    ⟨-, v, hseg, hdel, hfree, hsub⟩
  · rcases List.mem_append.mp (hsub.subset hw) with hw | hw
    · left
      rw [hlist]
      exact List.mem_append_left _ hw
    · rcases List.mem_cons.mp hw with rfl | hw
      · refine Or.inr ⟨hseg, hdel, Or.inr ⟨v, ?_, hseg, Nat.sub_add_cancel hfree⟩⟩
        rw [hlist]
        exact List.mem_append_right _ List.mem_cons_self
      · left
        rw [hlist]
        exact List.mem_append_right _ (List.mem_cons_of_mem v hw)
  · rcases List.mem_cons.mp (hsub.subset hw) with rfl | hw
    · exact Or.inr ⟨hseg, hdel, Or.inl hfree⟩
    · exact Or.inl hw

/-- Releasing the context keeps or drops the window, and no other. -/
theorem mbReleaseContext_sublist (reservePA : Bool) (before after : List PreallocSpace)
    (pa : PreallocSpace) :
    (mbReleaseContext reservePA before pa after).Sublist (before ++ pa :: after) := by
  unfold mbReleaseContext
  split
  · exact (List.sublist_cons_self pa after).append_left before
  · exact List.Sublist.refl _

/-- The part of a window that a request gets. -/
theorem inside_window {lstart pstart len off count : Nat} (hlo : lstart ≤ off)
    (hhi : off < lstart + len) :
    Segment.Inside ⟨off, pstart + (off - lstart), min (lstart + len - off) count⟩
      ⟨lstart, pstart, len⟩ := by
  refine ⟨hlo, ?_, rfl⟩
  show off + min (lstart + len - off) count ≤ lstart + len
  omega

/-- A new window serves the request. -/
theorem mbNewPreallocation_spec {reservePA : Bool} {f : File} {req : Ioreq}
    {lstart len curoff : Nat} {a : Allocation} (hcount : 0 < req.count)
    (hlo : lstart ≤ req.off) (hhi : req.off < lstart + len)
    (h : mbNewPreallocation reservePA f.preallocList req lstart curoff len (curoff + len) =
      .ok a) : Allocated f curoff req a ⟨lstart, curoff, len⟩ := by
  obtain ⟨u, -, h⟩ := bind_eq_ok.mp h
  obtain ⟨r, hr, h⟩ := bind_eq_ok.mp h
  cases h
  rw [mbUseInodePA_eq hlo hhi] at hr
  split at hr
  · rename_i hfree
    cases hr
    refine ⟨rfl, ?_, ?_, inside_window hlo hhi, Or.inl ⟨rfl, rfl⟩, ?_⟩
    · show 0 < min (lstart + len - req.off) req.count
      omega
    · show min (lstart + len - req.off) req.count ≤ req.count
      omega
    · refine Or.inr ⟨rfl, _, rfl, rfl, ?_, mbReleaseContext_sublist reservePA [] _ _⟩
      show len - min (lstart + len - req.off) req.count +
        min (lstart + len - req.off) req.count = len
      exact Nat.sub_add_cancel hfree
  · cases hr

/-- `MbAllocBlock` serves a request from one window or refuses it. -/
theorem mbAllocBlock_spec {reservePA : Bool} {f : File} {curoff : Nat} {req : Ioreq}
    {a : Allocation} (hcount : 0 < req.count)
    (h : mbAllocBlock reservePA f curoff req = .ok a) :
    (∃ g, Allocated f curoff req a g) ∨ Refused f curoff req a := by
  unfold mbAllocBlock at h
  split at h
  · rename_i before pa after hfind
    obtain ⟨hpas, hlo, hhi, hdel, -⟩ := mbFind_some hfind
    have hmem : pa ∈ f.preallocList := by rw [hpas]; simp
    obtain ⟨r, hr, h⟩ := bind_eq_ok.mp h
    cases h
    rw [mbUseInodePA_eq hlo hhi] at hr
    split at hr
    · rename_i hfree
      cases hr
      refine Or.inl ⟨pa.seg, rfl, ?_, ?_, inside_window hlo hhi,
        Or.inr ⟨⟨pa, hmem, rfl⟩, rfl⟩, ?_⟩
      · show 0 < min (pa.lstart + pa.len - req.off) req.count
        omega
      · show min (pa.lstart + pa.len - req.off) req.count ≤ req.count
        omega
      · exact Or.inl ⟨before, pa, after, hpas, rfl, hdel, hfree,
          mbReleaseContext_sublist reservePA before after _⟩
    · cases hr
  · split at h
    · rename_i hlarge
      cases h
      exact Or.inr ⟨mbNormalize_none hlarge, rfl⟩
    · rename_i start size hw
      left
      obtain ⟨hlo, hhi⟩ := mbNormalize_window hcount hw
      obtain ⟨⟨lstart, stop⟩, htrim, h⟩ := bind_eq_ok.mp h
      obtain ⟨hlo', hhi'⟩ := mbTrim_window htrim hlo hhi
      obtain ⟨u, -, h⟩ := bind_eq_ok.mp h
      dsimp only [allocBlock] at hlo' hhi' h
      split at h
      · rename_i hdirect
        obtain ⟨-, hstart, hlen⟩ := hdirect
        cases h
        refine ⟨⟨lstart, curoff, stop - lstart⟩, rfl, ?_, hlen, ?_, Or.inl ⟨rfl, rfl⟩,
          Or.inr ⟨rfl, ⟨false, lstart, curoff, stop - lstart, 0⟩, rfl, rfl, Nat.zero_add _,
            List.sublist_cons_self _ _⟩⟩
        · show 0 < stop - lstart
          omega
        · exact ⟨by simp [hstart], by simp [hstart], by simp [hstart]⟩
      · exact ⟨_, mbNewPreallocation_spec hcount hlo' (by omega) h⟩

/-- Every allocation that does not abort serves the request from one window or refuses it. -/
theorem allocate_spec {mntopt : AllocAlgo} {reservePA : Bool} {f : File} {curoff : Nat}
    {req : Ioreq} {a : Allocation} (hcount : 0 < req.count)
    (h : allocate mntopt reservePA f curoff req = .ok a) :
    (∃ g, Allocated f curoff req a g) ∨ Refused f curoff req a := by
  cases mntopt with
  | stream =>
      cases h
      exact Or.inl ⟨⟨req.off, curoff, req.count⟩, rfl, hcount, le_rfl, Segment.inside_refl _,
        Or.inl ⟨rfl, rfl⟩, Or.inr ⟨rfl, ⟨false, req.off, curoff, req.count, 0⟩, rfl, rfl,
          Nat.zero_add _, List.sublist_cons_self _ _⟩⟩
  | mballoc => exact mbAllocBlock_spec hcount h

/-- An allocation does not abort when every window of the file is live and can pay for the
request. -/
theorem allocate_total {mntopt : AllocAlgo} {reservePA : Bool} {f : File} {curoff : Nat}
    {req : Ioreq} (hcount : 0 < req.count)
    (hpas : ∀ pa ∈ f.preallocList, pa.deleted = false ∧
      (pa.lstart ≤ req.off → req.off < pa.lstart + pa.len →
        min (pa.lstart + pa.len - req.off) req.count ≤ pa.free)) :
    ∃ a, allocate mntopt reservePA f curoff req = .ok a := by
  cases mntopt with
  | stream => exact ⟨_, rfl⟩
  | mballoc =>
      show ∃ a, mbAllocBlock reservePA f curoff req = .ok a
      unfold mbAllocBlock
      split
      · rename_i before pa after hfind
        obtain ⟨hlist, hlo, hhi, -, -⟩ := mbFind_some hfind
        have hfree := (hpas pa (by rw [hlist]; simp)).2 hlo hhi
        rw [mbUseInodePA_eq hlo hhi, if_pos hfree]
        exact ⟨_, rfl⟩
      · rename_i hfind
        -- a window around the offset would have space, so it would have been found
        have hhole : ∀ pa ∈ f.preallocList, pa.deleted = false →
            req.off ≥ pa.lstart + pa.len ∨ req.off < pa.lstart := by
          intro pa hpa hdel
          by_contra hin
          have hzero := mbFind_none hfind pa hpa hdel (by omega) (by omega)
          have hfree := (hpas pa hpa).2 (by omega) (by omega)
          omega
        split
        · exact ⟨_, rfl⟩
        · rename_i start size hw
          obtain ⟨hlo, hhi⟩ := mbNormalize_window hcount hw
          obtain ⟨⟨lstart, stop⟩, htrim⟩ := mbTrim_total hhole hlo hhi
          obtain ⟨hlo', hhi'⟩ := mbTrim_window htrim hlo hhi
          dsimp only at hlo' hhi'
          dsimp only [allocBlock]
          rw [htrim, ok_bind, check_true (by dsimp only; omega), ok_bind]
          dsimp only
          split
          · exact ⟨_, rfl⟩
          · unfold mbNewPreallocation
            rw [check_true (Or.inl hlo'), ok_bind, mbUseInodePA_eq (by exact hlo')
              (by dsimp only; omega), if_pos (by dsimp only; omega)]
            exact ⟨_, rfl⟩

/-! ### Inserting an extent -/

/-- The in-order list below the last visited node: the entry of the node, with what lies before
and after it. -/
theorem exists_split_head (near : Frame Extent) (rest : List (Frame Extent)) :
    ∃ p q, (∀ x, (zip .nil ({ near with entry := x } :: rest)).toList = p ++ x :: q) ∧
      (near.side = .right → before (near :: rest) = p ++ [near.entry] ∧
        after (near :: rest) = q) := by
  obtain ⟨side, c, e, s⟩ := near
  cases side with
  | left =>
      refine ⟨before rest, s.toList ++ after rest, ?_, by simp⟩
      intro x
      simp [toList_zip, Frame.plug]
  | right =>
      refine ⟨before rest ++ s.toList, after rest, ?_, by simp⟩
      intro x
      simp [toList_zip, Frame.plug]

/-- The two ways `Map` enters a range: a new entry where the descent ended, or a longer entry of
the last visited node, which the range continues in the file and on the disk. -/
theorem insertExtent_cases {foff : Nat} {req : Ioreq} {path : List (Frame Extent)}
    {t : RbTree Extent} (h : insertExtent foff req path = some t) :
    t.toList = before path ++ ⟨foff, req.off, req.count⟩ :: after path ∨
    ∃ near rest p q, path = near :: rest ∧
      foff = near.entry.foff + near.entry.count ∧ req.off = near.entry.doff + near.entry.count ∧
      before path ++ after path = p ++ near.entry :: q ∧
      t.toList = p ++ { near.entry with count := near.entry.count + req.count } :: q ∧
      (near.side = .right → after path = q) := by
  cases path with
  | nil =>
      have hlist := toList_rbInsertColor h
      simp only [toList_zip] at hlist
      exact Or.inl (by simpa using hlist)
  | cons near rest =>
      rw [insertExtent] at h
      split at h
      · rename_i hcont
        cases h
        obtain ⟨p, q, hlist, hright⟩ := exists_split_head near rest
        refine Or.inr ⟨near, rest, p, q, rfl, hcont.1, hcont.2, ?_, hlist _, ?_⟩
        · have := hlist near.entry
          rw [toList_zip] at this
          simpa using this
        · intro hside
          exact (hright hside).2
      · have hlist := toList_rbInsertColor h
        rw [toList_zip] at hlist
        exact Or.inl (by simpa using hlist)

/-- Entering a range adds exactly what it sends. -/
theorem insertExtent_sends {foff : Nat} {req : Ioreq} {path : List (Frame Extent)}
    {t u : RbTree Extent} (hu : zip .nil path = u) (h : insertExtent foff req path = some t)
    (x y : Nat) :
    Sends (t.toList.map Extent.seg) x y ↔
      Sends (u.toList.map Extent.seg) x y ∨ Segment.Sends ⟨foff, req.off, req.count⟩ x y := by
  have hlist : u.toList = before path ++ after path := by
    rw [← hu, toList_zip]
    simp
  rcases insertExtent_cases h with ht | ⟨near, rest, p, q, -, hfoff, hoff, hsplit, ht, -⟩
  · rw [ht, hlist, List.map_append, List.map_append, List.map_cons]
    exact sends_insert _ _ _ x y
  · rw [ht, hlist, hsplit, hfoff, hoff, List.map_append, List.map_append, List.map_cons,
      List.map_cons]
    exact sends_grow _ _ near.entry.seg req.count x y

/-- Entering a range in a red-black tree does not abort and gives a red-black tree. -/
theorem insertExtent_total (foff : Nat) (req : Ioreq) {path : List (Frame Extent)}
    {u : RbTree Extent} (hrb : IsRedBlack u) (hu : zip .nil path = u) :
    ∃ t, insertExtent foff req path = some t ∧ IsRedBlack t := by
  cases path with
  | nil =>
      obtain ⟨t, ht, hrb', -⟩ := rbLink_spec ⟨foff, req.off, req.count⟩ hrb hu
      exact ⟨t, ht, hrb'⟩
  | cons near rest =>
      rw [insertExtent]
      split
      · refine ⟨_, rfl, ?_⟩
        obtain ⟨c, n, hb, hf⟩ := IsRedBlack.unzip (hu ▸ hrb)
        replace hf : Fits ([] ++ near :: rest) c n := hf
        exact hb.zip (hf.set_entry _)
      · obtain ⟨t, ht, hrb', -⟩ := rbLink_spec ⟨foff, req.off, req.count⟩ hrb hu
        exact ⟨t, ht, hrb'⟩

/-! ### One call of `Map` -/

/-- The comparison of an offset with an extent: zero inside, negative before it and positive
behind it. -/
theorem extentCompare_key (off : Nat) (e : Extent) :
    (extentCompare ⟨off, 0, 0⟩ e = 0 ↔ e.foff ≤ off ∧ off < e.foff + e.count) ∧
    (extentCompare ⟨off, 0, 0⟩ e < 0 ↔ off < e.foff) ∧
    (0 < extentCompare ⟨off, 0, 0⟩ e ↔ e.foff ≤ off ∧ e.foff + e.count ≤ off) := by
  unfold extentCompare
  dsimp only [Nat.add_zero]
  split
  · refine ⟨⟨?_, ?_⟩, ⟨?_, ?_⟩, ⟨?_, ?_⟩⟩ <;> intro <;> omega
  · split
    · refine ⟨⟨?_, ?_⟩, ⟨?_, ?_⟩, ⟨?_, ?_⟩⟩ <;> intro <;> omega
    · refine ⟨⟨?_, ?_⟩, ⟨?_, ?_⟩, ⟨?_, ?_⟩⟩ <;> intro <;> omega

/-- The results of a call that does not abort. -/
inductive Mapped (fs : FileSystem) (fid : Nat) (req : Ioreq) (alloc : Bool) :
    Int → Ioreq → FileSystem → Prop where
  /-- An extent contains the offset. -/
  | hit (near : Extent) :
      near ∈ (fs.files fid).extTree.toList →
      near.foff ≤ req.off → req.off < near.foff + near.count →
      Mapped fs fid req alloc 0
        { req with off := near.doff + (req.off - near.foff),
                   count := min req.count (near.count - (req.off - near.foff)) } fs
  /-- No extent was found, and the caller does not want to allocate. -/
  | miss :
      alloc = false → (mapDescend (fs.files fid) req.off).rc ≠ 0 →
      Mapped fs fid req alloc (-1) req fs
  /-- No extent was found. The clipped request gets disk space and becomes an extent. -/
  | fresh (clipped : Ioreq) (a : Allocation) (t : RbTree Extent) :
      alloc = true → (mapDescend (fs.files fid) req.off).rc ≠ 0 →
      clip (mapDescend (fs.files fid) req.off).rc (mapDescend (fs.files fid) req.off).path req =
        .ok clipped →
      clipped.off = req.off → clipped.count ≤ req.count →
      0 < a.req.count → a.req.count ≤ clipped.count →
      (∃ g, Allocated (fs.files fid) fs.curoff clipped a g) ∨
        Refused (fs.files fid) fs.curoff clipped a →
      insertExtent req.off a.req (mapDescend (fs.files fid) req.off).path = some t →
      Mapped fs fid req alloc 0 a.req
        { fs.setFile fid
            { fs.files fid with preallocList := a.preallocList, extTree := t } with
          curoff := a.curoff }

/-- Where the descent of `Map` ends: at an extent that contains the offset, or at an empty
place below the last visited node. -/
theorem mapDescend_cases (f : File) (off : Nat) :
    ((mapDescend f off).rc = 0 ∧ ∃ c l near r, (mapDescend f off).focus = .node c l near r ∧
      near ∈ f.extTree.toList ∧ near.foff ≤ off ∧ off < near.foff + near.count) ∨
    ((mapDescend f off).rc ≠ 0 ∧ zip .nil (mapDescend f off).path = f.extTree ∧
      ((mapDescend f off).path = [] → 0 < (mapDescend f off).rc) ∧
      ∀ near rest, (mapDescend f off).path = near :: rest →
        (mapDescend f off).rc = extentCompare ⟨off, 0, 0⟩ near.entry ∧
        ((mapDescend f off).rc < 0 → near.side = .left) ∧
        (0 < (mapDescend f off).rc → near.side = .right)) := by
  have hzip := descend_zip_root (extentCompare ⟨off, 0, 0⟩) f.extTree 1
  have hfocus := descend_focus (extentCompare ⟨off, 0, 0⟩) f.extTree [] 1 (by decide)
  have hparent := descend_parent (extentCompare ⟨off, 0, 0⟩) f.extTree [] 1
    (by intro f fs h; cases h) (by intro; decide)
  change zip (mapDescend f off).focus (mapDescend f off).path = f.extTree at hzip
  change ((mapDescend f off).rc = 0 → _) ∧ ((mapDescend f off).rc ≠ 0 → _) at hfocus
  change (mapDescend f off).rc ≠ 0 → _ at hparent
  by_cases hrc : (mapDescend f off).rc = 0
  · left
    obtain ⟨c, l, near, r, hnode, hcmp⟩ := hfocus.1 hrc
    obtain ⟨hlo, hhi⟩ := (extentCompare_key off near).1.mp hcmp
    refine ⟨hrc, c, l, near, r, hnode, ?_, hlo, hhi⟩
    change (mapDescend f off).focus = .node c l near r at hnode
    rw [← hzip, hnode, toList_zip]
    simp
  · right
    have hnil : (mapDescend f off).focus = .nil := hfocus.2 hrc
    obtain ⟨hcons, hempty⟩ := hparent hrc
    rw [hnil] at hzip
    refine ⟨hrc, hzip, hempty, ?_⟩
    intro near rest hpath
    obtain ⟨hside, hcmp⟩ := hcons near rest hpath
    refine ⟨hcmp.symm, ?_, ?_⟩
    · intro hneg
      rcases hside with ⟨-, hs⟩ | ⟨hpos, -⟩
      · exact hs
      · change 0 < (mapDescend f off).rc at hpos
        omega
    · intro hpos
      rcases hside with ⟨hneg, -⟩ | ⟨-, hs⟩
      · change (mapDescend f off).rc < 0 at hneg
        omega
      · exact hs

/-- Clipping only shortens the request, and not to nothing. -/
theorem clip_spec {f : File} {req clipped : Ioreq} (hcount : 0 < req.count)
    (hrc : (mapDescend f req.off).rc ≠ 0)
    (h : clip (mapDescend f req.off).rc (mapDescend f req.off).path req = .ok clipped) :
    clipped.off = req.off ∧ 0 < clipped.count ∧ clipped.count ≤ req.count := by
  unfold clip at h
  split at h
  · rename_i hneg
    split at h
    · cases h
    · rename_i near rest hpath
      cases h
      rcases mapDescend_cases f req.off with ⟨h0, -⟩ | ⟨-, -, -, hnear⟩
      · exact absurd h0 hrc
      · obtain ⟨hcmp, -⟩ := hnear near rest hpath
        rw [hcmp] at hneg
        have hlt := (extentCompare_key req.off near.entry).2.1.mp hneg
        refine ⟨rfl, ?_, ?_⟩
        · show 0 < min req.count (near.entry.foff - req.off)
          omega
        · show min req.count (near.entry.foff - req.off) ≤ req.count
          omega
  · cases h
    exact ⟨rfl, hcount, le_rfl⟩

/-- A call of `Map` that does not abort hits, misses or allocates. -/
theorem map_cases {fs fs' : FileSystem} {fid : Nat} {req req' : Ioreq} {alloc : Bool} {rc : Int}
    (hcount : 0 < req.count)
    (h : fs.map fid req alloc = .ok (rc, req', fs')) : Mapped fs fid req alloc rc req' fs' := by
  unfold map at h
  dsimp only at h
  rcases mapDescend_cases (fs.files fid) req.off with
    ⟨hrc, c, l, near, r, hfocus, hmem, hlo, hhi⟩ | ⟨hrc, -, -, -⟩
  · rw [if_pos hrc, hfocus] at h
    obtain ⟨u, -, h⟩ := bind_eq_ok.mp h
    cases h
    exact .hit near hmem hlo hhi
  · rw [if_neg hrc] at h
    split at h
    · rename_i halloc
      cases h
      exact .miss halloc hrc
    · rename_i halloc
      obtain ⟨clipped, hclip, h⟩ := bind_eq_ok.mp h
      obtain ⟨hoff, hpos, hle⟩ := clip_spec hcount hrc hclip
      obtain ⟨a, ha, h⟩ := bind_eq_ok.mp h
      have hspec := allocate_spec hpos ha
      have hrc' : ¬ a.rc < 0 := by
        rcases hspec with ⟨g, hg⟩ | hg
        · rw [hg.rc]
          decide
        · rw [hg.eq]
          exact (by decide : ¬ (1 : Int) < 0)
      have hcount' : 0 < a.req.count ∧ a.req.count ≤ clipped.count := by
        rcases hspec with ⟨g, hg⟩ | hg
        · exact ⟨hg.pos, hg.le⟩
        · rw [hg.eq]
          exact ⟨hpos, le_rfl⟩
      rw [if_neg hrc'] at h
      split at h
      · cases h
      · rename_i t ht
        cases h
        exact .fresh clipped a t (by simpa using halloc) hrc hclip hoff hle hcount'.1 hcount'.2
          hspec ht

end LustreSimulator.FileSystem
