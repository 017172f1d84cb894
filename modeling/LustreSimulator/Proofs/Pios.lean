import LustreSimulator.Pios
import LustreSimulator.Lib.Dispense
import Mathlib.Algebra.GroupWithZero.Nat

/-!
# `LustreSimulator.Proofs.Pios`: the chunks of a benchmark

The threads hand out chunks as `Lib.Dispense` hands out parts: a region has `chunks a` of them, and
a turn either takes the next one of some region or ends a thread (`Rel.turn`). A thread ends only
when no region has a chunk left (`scan_spec`): `next_region` runs through all regions, whatever the
other threads do.

So no byte is handed out twice, and the turns come to an end. A region has a chunk left while a full
one fits. When `chunksize` does not divide `regionsize`, the rest of each region is left over, and
`print_stats` counts it all the same (`work_iff`, `work_left_over`).
-/

set_option autoImplicit false

namespace LustreSimulator.Pios

open Lib

variable {a : RunArg} {s s' : State} {t : Nat} {ts : List Nat} {d d' : Dispense.State Nat}

/-! ### Regions and chunks -/

/-- The begin of a region in its file. -/
def first (a : RunArg) (i : Nat) : Nat := if a.fpp then a.offset else a.offset * i

/-- The file of a region. -/
def file (a : RunArg) (i : Nat) : Nat := if a.fpp then i else 0

/-- The number of full chunks in a region. -/
def chunks (a : RunArg) : Nat := a.regionsize / a.chunksize

/-- The number of full chunks in each region that there is. -/
def size (a : RunArg) (i : Nat) : Nat := if i < a.regioncount then chunks a else 0

/-- A chunk of a region as it is handed out. -/
def itemOf (a : RunArg) (c : Nat × Nat) : Item :=
  ⟨c.1, file a c.1, first a c.1 + c.2 * a.chunksize, a.chunksize,
    if a.verify then .read else .write⟩

/-- A region after some chunks were handed out. -/
def streamOf (a : RunArg) (taken : Nat → Nat) (i : Nat) : Stream :=
  ⟨first a i + taken i * a.chunksize, first a i + a.regionsize, file a i⟩

/-- A chunk fits into a region, and the regions of one file do not overlap. -/
structure RunArg.Valid (a : RunArg) : Prop where
  pos : 0 < a.chunksize
  chunksize : a.chunksize ≤ a.regionsize
  regionsize : a.regionsize ≤ a.offset

/-- The numbers of a run fit their words. -/
structure RunArg.Fits (a : RunArg) : Prop where
  regions : ∀ i < a.regioncount, first a i + a.regionsize + a.chunksize < 2 ^ 64
  items : a.regioncount * chunks a + a.regioncount ≤ 2 ^ 31
  threads : a.threadcount < 2 ^ 31
  total : a.regionsize * a.regioncount < 2 ^ 64

/-- A region has no chunk left when the next one does not fit. -/
theorem chunks_le_iff (h : a.Valid) (k : Nat) :
    chunks a ≤ k ↔ a.regionsize < k * a.chunksize + a.chunksize := by
  unfold chunks
  rw [← Nat.lt_succ_iff, Nat.div_lt_iff_lt_mul h.pos, Nat.succ_mul]

/-- The chunks of a region fit into it. -/
theorem chunk_le {k : Nat} (hk : k ≤ chunks a) : k * a.chunksize ≤ a.regionsize :=
  (Nat.mul_le_mul_right _ hk).trans (Nat.div_mul_le_self _ _)

/-- The regions at first. -/
theorem setupStream_eq (h : a.Valid) (hfits : a.Fits) {i : Nat} (hi : i < a.regioncount) :
    setupStream a i = streamOf a (fun _ => 0) i := by
  have hregion := hfits.regions i hi
  have hpos := h.pos
  unfold setupStream streamOf file
  by_cases hfpp : a.fpp = true
  · have hfirst : first a i = a.offset := if_pos hfpp
    rw [if_pos hfpp, if_pos hfpp, hfirst, add64_eq (by omega), Nat.zero_mul, Nat.add_zero]
  · have hfirst : first a i = a.offset * i := if_neg hfpp
    rw [if_neg hfpp, if_neg hfpp, hfirst, mul64_eq (by omega), add64_eq (by omega), Nat.zero_mul,
      Nat.add_zero]

/-! ### The search for a chunk -/

/-- The index that `get_work_item` computes from its `int`. -/
theorem index_eq (hfits : a.Fits) {i : Nat} (hi : i < 2 ^ 31) (hpos : 0 < a.regioncount) :
    toInt32 (toWord64 (toInt32 i) % a.regioncount) = (i % a.regioncount : Nat) := by
  have hitems := hfits.items
  have hlt : i % a.regioncount < a.regioncount := Nat.mod_lt _ hpos
  have hcount : a.regioncount ≤ 2 ^ 31 := (Nat.le_add_left _ _).trans hitems
  rw [toInt32_eq hi, toWord64_eq (Nat.lt_trans hi (by decide)), toInt32_eq (by omega)]

/-- The region at an index. -/
theorem streamAt_eq (taken : Nat → Nat) {i : Nat} (hi : i < a.regioncount) :
    streamAt ((List.range a.regioncount).map (streamOf a taken)) (i : Nat) =
      some (streamOf a taken i) := by
  unfold streamAt
  rw [if_neg (by omega), Int.toNat_natCast, List.getElem?_map, List.getElem?_range hi]
  rfl

/-- The search ends at a region with a chunk left, or no region that it came by has one. -/
theorem scan_spec (h : a.Valid) (hfits : a.Fits) {taken : Nat → Nat}
    (htaken : ∀ i < a.regioncount, taken i ≤ chunks a) {left i : Nat} (hleft : left ≤ a.regioncount)
    (hi : i + left ≤ 2 ^ 31) :
    (∃ k < a.regioncount, taken k < chunks a ∧
      scan a ((List.range a.regioncount).map (streamOf a taken)) left i = .ok (some k)) ∨
    (∀ c < left, chunks a ≤ taken ((i + c) % a.regioncount)) ∧
      scan a ((List.range a.regioncount).map (streamOf a taken)) left i = .ok none := by
  induction left generalizing i with
  | zero => exact .inr ⟨fun c hc => absurd hc (Nat.not_lt_zero _), rfl⟩
  | succ left ih =>
      have hpos : 0 < a.regioncount := by omega
      have hk : i % a.regioncount < a.regioncount := Nat.mod_lt _ hpos
      have hregion := hfits.regions _ hk
      have hle := chunk_le (htaken _ hk)
      have hadd : add64 (streamOf a taken (i % a.regioncount)).offset a.chunksize =
          first a (i % a.regioncount) + taken (i % a.regioncount) * a.chunksize + a.chunksize :=
        add64_eq (by show first a _ + _ + _ < _; omega)
      have hmax : (streamOf a taken (i % a.regioncount)).maxOffset =
          first a (i % a.regioncount) + a.regionsize := rfl
      unfold scan
      dsimp only
      rw [index_eq hfits (by omega) hpos, streamAt_eq taken hk, require_eq_ok.mpr rfl, ok_bind, hadd,
        hmax, Nat.mod_eq_of_lt (by omega : i + 1 < 2 ^ 32)]
      by_cases hfull : chunks a ≤ taken (i % a.regioncount)
      · -- the next chunk would go beyond the region
        have hover := (chunks_le_iff h _).mp hfull
        rw [if_pos (by omega)]
        rcases ih (by omega) (by omega : i + 1 + left ≤ 2 ^ 31) with hfound | ⟨hnone, hscan⟩
        · exact .inl hfound
        · refine .inr ⟨fun c hc => ?_, hscan⟩
          cases c with
          | zero => exact hfull
          | succ c =>
              rw [show i + (c + 1) = i + 1 + c by omega]
              exact hnone c (by omega)
      · have hover := mt (chunks_le_iff h _).mpr hfull
        rw [if_neg (by omega)]
        exact .inl ⟨_, hk, Nat.not_le.mp hfull, rfl⟩

/-- The search from any index comes by every region. -/
theorem exists_index {n : Nat} (i : Nat) {k : Nat} (hk : k < n) : ∃ c < n, (i + c) % n = k := by
  have hpos : 0 < n := by omega
  have hlt := Nat.mod_lt i hpos
  by_cases hle : i % n ≤ k
  · -- without going round
    refine ⟨k - i % n, by omega, ?_⟩
    rw [← Nat.mod_add_mod, Nat.add_sub_cancel' hle, Nat.mod_eq_of_lt hk]
  · refine ⟨n + k - i % n, by omega, ?_⟩
    rw [← Nat.mod_add_mod, Nat.add_sub_cancel' (by omega), Nat.add_mod_left, Nat.mod_eq_of_lt hk]

/-- Changing one entry of a table. -/
theorem map_range_set {α : Type*} (f : Nat → α) (n i : Nat) (x : α) :
    ((List.range n).map f).set i x = (List.range n).map (Function.update f i x) := by
  refine List.ext_getElem ?_ fun k hk _ => ?_
  · rw [List.length_set, List.length_map, List.length_map]
  · rw [List.getElem_set, List.getElem_map, List.getElem_map, List.getElem_range]
    split
    · rename_i hi
      rw [← hi, Function.update_self]
    · rename_i hi
      rw [Function.update_of_ne (Ne.symm hi)]

/-! ### The threads hand out chunks -/

/-- The threads that have finished. -/
def finished (s : State) : Nat := s.threads.countP fun th => th.state = .last

/-- The run is at `d`: its cursors stand behind the chunks that were handed out, and a thread has
finished only when there are none left. -/
structure Rel (a : RunArg) (d : Dispense.State Nat) (s : State) : Prop where
  streams : s.streams = (List.range a.regioncount).map (streamOf a d.taken)
  items : s.items = d.handed.map (itemOf a)
  nextRegion : s.nextRegion = d.handed.length
  length : s.threads.length = a.threadcount
  threads : ∀ th ∈ s.threads, th.state ≠ .rw ∧
    (th.state = .rwFinish → th.ptd.regionidx < a.regioncount)
  finicount : s.finicount = finished s
  done : 0 < finished s → ∀ i < a.regioncount, chunks a ≤ d.taken i
  signalled : s.signalled = true ↔ 0 < finished s ∧ finished s = a.threadcount

/-- What is needed of `d`. -/
structure Within (a : RunArg) (d : Dispense.State Nat) : Prop where
  sound : Dispense.Sound (size a) d
  length : d.handed.length ≤ a.regioncount * chunks a

/-- No more chunks of a region are taken than there are. -/
theorem Within.taken_le (h : Within a d) {i : Nat} (hi : i < a.regioncount) :
    d.taken i ≤ chunks a := by
  have hle := h.sound.le_size i
  unfold size at hle
  rwa [if_pos hi] at hle

/-- `get_work_item` hands out the next chunk of a region, or there is none left. -/
theorem getWorkItem_spec (h : a.Valid) (hfits : a.Fits) (hwithin : Within a d) (hrel : Rel a d s) :
    (∃ k < a.regioncount, d.taken k < chunks a ∧ getWorkItem a s =
      .ok (some (itemOf a (k, d.taken k), { s with
        streams := (List.range a.regioncount).map (streamOf a (d.take k).taken)
        nextRegion := (d.take k).handed.length }))) ∨
    (∀ i < a.regioncount, chunks a ≤ d.taken i) ∧ getWorkItem a s = .ok none := by
  have hitems := hfits.items
  have hlength := hwithin.length
  have hnext := hrel.nextRegion
  unfold getWorkItem
  rw [hrel.streams]
  rcases scan_spec h hfits (fun i hi => hwithin.taken_le hi) (Nat.le_refl a.regioncount)
    (by omega : s.nextRegion + a.regioncount ≤ 2 ^ 31) with ⟨k, hk, hlt, hscan⟩ | ⟨hnone, hscan⟩
  · refine .inl ⟨k, hk, hlt, ?_⟩
    have hregion := hfits.regions k hk
    have hle := chunk_le (Nat.le_of_lt hlt)
    have hcursor : add64 (streamOf a d.taken k).offset a.chunksize =
        first a k + (d.taken k + 1) * a.chunksize := by
      show add64 (first a k + d.taken k * a.chunksize) a.chunksize = _
      rw [add64_eq (by omega), Nat.succ_mul, Nat.add_assoc]
    have hmoved : ({ streamOf a d.taken k with
        offset := first a k + (d.taken k + 1) * a.chunksize } : Stream) =
        streamOf a (d.take k).taken k := by
      unfold streamOf
      rw [Dispense.take_taken_self]
    have hothers : Function.update (streamOf a d.taken) k (streamOf a (d.take k).taken k) =
        streamOf a (d.take k).taken := by
      funext i
      by_cases hi : i = k
      · rw [hi, Function.update_self]
      · rw [Function.update_of_ne hi]
        unfold streamOf
        rw [Dispense.take_taken_of_ne d hi]
    rw [hscan, ok_bind]
    dsimp only
    rw [streamAt_eq d.taken hk, require_eq_ok.mpr rfl, ok_bind, Int.toNat_natCast, hcursor, hmoved,
      map_range_set, hothers, hnext, Nat.mod_eq_of_lt (by omega), Dispense.length_take]
    rfl
  · refine .inr ⟨fun i hi => ?_, ?_⟩
    · obtain ⟨c, hc, hindex⟩ := exists_index s.nextRegion hi
      rw [← hindex]
      exact hnone c hc
    · rw [hscan]
      rfl

/-- Changing a thread that has not finished. -/
theorem countP_set_thread {threads : List Thread} {thread : Thread}
    (ht : threads[t]? = some thread) (hstate : thread.state ≠ .last) (thread' : Thread) :
    (threads.set t thread').countP (fun th => th.state = .last) =
      threads.countP (fun th => th.state = .last) + if thread'.state = .last then 1 else 0 := by
  obtain ⟨hlt, hget⟩ := List.getElem?_eq_some_iff.mp ht
  rw [List.countP_set hlt, hget, if_neg (by simpa using hstate), Nat.sub_zero]
  simp only [decide_eq_true_eq]

/-- A thread that asks for work gets a chunk, or it finishes since there is none left. -/
theorem threadRW_spec (h : a.Valid) (hfits : a.Fits) (hwithin : Within a d) (hrel : Rel a d s)
    {thread : Thread} (ht : s.threads[t]? = some thread) (hstate : thread.state ≠ .last)
    (thread' : Thread) : ∃ s', threadRW a s t thread' = .ok s' ∧
      ((∃ k < a.regioncount, d.taken k < chunks a ∧ Rel a (d.take k) s' ∧
          finished s' = finished s) ∨
        Rel a d s' ∧ finished s' = finished s + 1) := by
  unfold threadRW
  rcases getWorkItem_spec h hfits hwithin hrel with ⟨k, hk, hlt, hwork⟩ | ⟨hnone, hwork⟩
  · have hcount := countP_set_thread ht hstate ⟨.rwFinish, itemOf a (k, d.taken k)⟩
    rw [if_neg (show ¬ ThreadState.rwFinish = .last by decide), Nat.add_zero] at hcount
    rw [hwork, ok_bind]
    dsimp only
    refine ⟨_, bind_eq_ok.mpr ⟨(), check_true hk, rfl⟩, .inl ⟨k, hk, hlt, ?_, hcount⟩⟩
    refine ⟨rfl, ?_, rfl, (List.length_set ..).trans hrel.length, fun th hth => ?_,
      hrel.finicount.trans hcount.symm, fun hpos => ?_, ?_⟩
    · show s.items ++ [itemOf a (k, d.taken k)] = (d.handed ++ [(k, d.taken k)]).map (itemOf a)
      rw [hrel.items, List.map_append]
      rfl
    · rcases List.mem_or_eq_of_mem_set hth with hth | rfl
      · exact hrel.threads th hth
      · exact ⟨(show ThreadState.rwFinish ≠ .rw by decide), fun _ => hk⟩
    · -- no thread has finished, for there was a chunk left
      have hdone := hrel.done (Nat.lt_of_lt_of_eq hpos hcount) k hk
      exact absurd hlt (Nat.not_lt.mpr hdone)
    · show s.signalled = true ↔ 0 < List.countP _ (s.threads.set t _) ∧
        List.countP _ (s.threads.set t _) = a.threadcount
      rw [hcount]
      exact hrel.signalled
  · -- the thread finishes, and the last one signals
    have hcount := countP_set_thread ht hstate { thread' with state := .last }
    rw [if_pos rfl] at hcount
    have hle : finished s + 1 ≤ a.threadcount := by
      rw [← hrel.length, ← List.length_set (i := t) (a := { thread' with state := .last })]
      exact hcount ▸ List.countP_le_length
    have hthreads := hfits.threads
    have hfini : (s.finicount + 1) % 2 ^ 32 = finished s + 1 := by
      rw [hrel.finicount, Nat.mod_eq_of_lt (by omega)]
    rw [hwork, ok_bind]
    dsimp only
    refine ⟨_, rfl, .inr ⟨?_, hcount⟩⟩
    refine ⟨hrel.streams, hrel.items, hrel.nextRegion, (List.length_set ..).trans hrel.length,
      fun th hth => ?_, hfini.trans hcount.symm, fun _ => hnone, ?_⟩
    · rcases List.mem_or_eq_of_mem_set hth with hth | rfl
      · exact hrel.threads th hth
      · exact ⟨(show ThreadState.last ≠ .rw by decide), fun h => by cases h⟩
    · show (s.signalled || decide ((s.finicount + 1) % 2 ^ 32 ≥ a.threadcount)) = true ↔
        0 < List.countP _ (s.threads.set t _) ∧
          List.countP _ (s.threads.set t _) = a.threadcount
      have hnot : ¬ s.signalled = true := fun hyes => by
        have hall := (hrel.signalled.mp hyes).2
        omega
      rw [hcount, hfini, Bool.or_eq_true, or_iff_right hnot, decide_eq_true_eq]
      change finished s + 1 ≥ _ ↔ 0 < finished s + 1 ∧ finished s + 1 = _
      omega

/-- A turn takes a chunk, or it ends a thread. -/
theorem doOneThread_spec (h : a.Valid) (hfits : a.Fits) (hwithin : Within a d) (hrel : Rel a d s)
    {thread : Thread} (ht : s.threads[t]? = some thread) (hstate : thread.state ≠ .last) :
    ∃ s', doOneThread a s t = .ok s' ∧
      ((∃ k < a.regioncount, d.taken k < chunks a ∧ Rel a (d.take k) s' ∧
          finished s' = finished s) ∨
        Rel a d s' ∧ finished s' = finished s + 1) := by
  obtain ⟨-, hregion⟩ := hrel.threads thread (List.mem_of_getElem? ht)
  unfold doOneThread
  rw [ht, require_eq_ok.mpr rfl, ok_bind]
  cases hcase : thread.state with
  | start => exact threadRW_spec h hfits hwithin hrel ht hstate thread
  | rw => exact threadRW_spec h hfits hwithin hrel ht hstate thread
  | rwFinish =>
      dsimp only
      rw [check_true (hregion hcase), ok_bind]
      exact threadRW_spec h hfits hwithin hrel ht hstate _
  | last => exact absurd hcase hstate

/-! ### Runs -/

/-- The number of chunks of all regions. -/
theorem sum_size (a : RunArg) :
    ∑ i ∈ Finset.range a.regioncount, size a i = a.regioncount * chunks a := by
  have hsize : ∀ i ∈ Finset.range a.regioncount, size a i = chunks a :=
    fun i hi => if_pos (Finset.mem_range.mp hi)
  rw [Finset.sum_const_nat hsize, Finset.card_range]

/-- There are chunks in the regions that there are. -/
theorem size_eq_zero {i : Nat} (hi : i ∉ Finset.range a.regioncount) : size a i = 0 :=
  if_neg fun hlt => hi (Finset.mem_range.mpr hlt)

/-- A run of the dispenser keeps within the regions. -/
theorem within_of_run {ks : List Nat} (hrun : Run (Dispense.Step (size a)) Dispense.start ks d) :
    Within a d :=
  ⟨Dispense.sound_of_run hrun,
    (Dispense.length_le (fun _ => size_eq_zero) hrun).trans_eq (sum_size a)⟩

/-- At first no chunk was handed out. -/
theorem rel_start (h : a.Valid) (hfits : a.Fits) : Rel a Dispense.start (doOneRun a) := by
  have hnone : finished (doOneRun a) = 0 := by
    refine List.countP_eq_zero.mpr fun th hth => ?_
    rw [List.eq_of_mem_replicate hth]
    decide
  refine ⟨?_, rfl, rfl, List.length_replicate, fun th hth => ?_, hnone.symm, fun hpos => ?_, ?_⟩
  · exact List.map_congr_left fun i hi => setupStream_eq h hfits (List.mem_range.mp hi)
  · rw [List.eq_of_mem_replicate hth]
    exact ⟨by decide, fun h => by cases h⟩
  · rw [hnone] at hpos
    exact absurd hpos (Nat.lt_irrefl 0)
  · rw [hnone]
    exact iff_of_false Bool.false_ne_true fun h => Nat.lt_irrefl 0 h.1

/-- Every run of the threads is one of the dispenser. A turn hands out a chunk or ends a thread. -/
theorem rel_of_run (h : a.Valid) (hfits : a.Fits) (hrun : Run (Step a) (doOneRun a) ts s) :
    ∃ ks d, Run (Dispense.Step (size a)) Dispense.start ks d ∧ Rel a d s ∧
      ts.length = d.handed.length + finished s := by
  have hstart : ∃ ks d, Run (Dispense.Step (size a)) Dispense.start ks d ∧ Rel a d (doOneRun a) ∧
      0 = d.handed.length + finished (doOneRun a) := by
    refine ⟨[], _, .nil _, rel_start h hfits, ?_⟩
    have hfini := (rel_start h hfits).finicount
    exact hfini.trans (Nat.zero_add _).symm
  suffices hsteps : ∀ {ts : List Nat} {s s' : State} {n : Nat}, Run (Step a) s ts s' →
      (∃ ks d, Run (Dispense.Step (size a)) Dispense.start ks d ∧ Rel a d s ∧
        n = d.handed.length + finished s) →
      ∃ ks d, Run (Dispense.Step (size a)) Dispense.start ks d ∧ Rel a d s' ∧
        n + ts.length = d.handed.length + finished s' by
    obtain ⟨ks, d, hd, hrel, hlength⟩ := hsteps hrun hstart
    exact ⟨ks, d, hd, hrel, (Nat.zero_add _).symm.trans hlength⟩
  intro ts s s' n hrun
  induction hrun generalizing n with
  | nil s => exact fun hd => hd
  | @cons s s₁ s' t ts hstep _ ih =>
      rintro ⟨ks, d, hd, hrel, hlength⟩
      rw [List.length_cons, Nat.add_comm ts.length 1, ← Nat.add_assoc]
      refine ih ?_
      cases hstep with
      | turn ht hstate hturn =>
          obtain ⟨s₂, hok, hcases⟩ := doOneThread_spec h hfits (within_of_run hd) hrel ht hstate
          cases hok.symm.trans hturn
          rcases hcases with ⟨k, hk, hlt, hrel', hfini⟩ | ⟨hrel', hfini⟩
          · have hstep : Dispense.Step (size a) d k (d.take k) :=
              .take (lt_of_lt_of_eq hlt (if_pos hk).symm)
            refine ⟨ks ++ [k], d.take k, hd.snoc hstep, hrel', ?_⟩
            rw [Dispense.length_take, hfini]
            omega
          · exact ⟨ks, d, hd, hrel', by omega⟩

/-- The bytes of two chunks. -/
def Apart (x y : Item) : Prop :=
  x.fid ≠ y.fid ∨ x.off + x.count ≤ y.off ∨ y.off + y.count ≤ x.off

/-- All the work is handed out exactly once. -/
structure Correct (a : RunArg) : Prop where
  apart : ∀ ts s, Run (Step a) (doOneRun a) ts s → s.items.Pairwise Apart
  inside : ∀ ts s, Run (Step a) (doOneRun a) ts s → ∀ x ∈ s.items,
    x.regionidx < a.regioncount ∧ x.fid = file a x.regionidx ∧ first a x.regionidx ≤ x.off ∧
      x.off + x.count ≤ first a x.regionidx + a.regionsize
  ends : ∃ n, ∀ ts s, Run (Step a) (doOneRun a) ts s → ts.length ≤ n
  live : ∀ ts s, Run (Step a) (doOneRun a) ts s → ∀ t thread, s.threads[t]? = some thread →
    thread.state ≠ .last → ∃ s', Step a s t s'
  signalled : ∀ ts s, Run (Step a) (doOneRun a) ts s →
    (s.signalled = true ↔ s.threads ≠ [] ∧ ∀ thread ∈ s.threads, thread.state = .last)
  total : ∀ ts s, Run (Step a) (doOneRun a) ts s → s.signalled = true →
    (s.items.map Item.count).sum = a.regionsize * a.regioncount ∧
      agvsize a = a.regionsize * a.regioncount

/-- Different chunks are apart. -/
theorem itemOf_apart (h : a.Valid) {x y : Nat × Nat} (hx : x.2 < chunks a) (hy : y.2 < chunks a)
    (hne : x ≠ y) : Apart (itemOf a x) (itemOf a y) := by
  obtain ⟨i, j⟩ := x
  obtain ⟨k, l⟩ := y
  -- two chunks of one region, then two of two regions
  have hchunk : ∀ {m n : Nat}, m < n → m * a.chunksize + a.chunksize ≤ n * a.chunksize := by
    intro m n hlt
    rw [← Nat.succ_mul]
    exact Nat.mul_le_mul_right _ hlt
  have hend : ∀ {m : Nat}, m < chunks a → m * a.chunksize + a.chunksize ≤ a.offset := by
    intro m hm
    have hle := chunk_le (a := a) (Nat.succ_le_of_lt hm)
    rw [Nat.succ_mul] at hle
    exact hle.trans h.regionsize
  by_cases hik : i = k
  · subst hik
    have hjl : j ≠ l := fun heq => hne (by rw [heq])
    unfold Apart itemOf
    dsimp only
    rcases Nat.lt_or_gt_of_ne hjl with hlt | hgt
    · have hle := hchunk hlt
      omega
    · have hle := hchunk hgt
      omega
  · by_cases hfpp : a.fpp = true
    · left
      show file a i ≠ file a k
      unfold file
      rwa [if_pos hfpp, if_pos hfpp]
    · have hfirst : ∀ n, first a n = a.offset * n := fun n => if_neg hfpp
      have hnext : ∀ {m n : Nat}, m < n → a.offset * m + a.offset ≤ a.offset * n := by
        intro m n hlt
        rw [← Nat.mul_succ]
        exact Nat.mul_le_mul_left _ hlt
      have hx := hend hx
      have hy := hend hy
      unfold Apart itemOf
      dsimp only at hx hy ⊢
      rw [hfirst, hfirst]
      rcases Nat.lt_or_gt_of_ne hik with hlt | hgt
      · have hle := hnext hlt
        omega
      · have hle := hnext hgt
        omega

/-- The bytes of some chunks. -/
theorem sum_count (a : RunArg) (l : List (Nat × Nat)) :
    ((l.map (itemOf a)).map Item.count).sum = l.length * a.chunksize := by
  induction l with
  | nil => exact (Nat.zero_mul _).symm
  | cons c l ih =>
      rw [List.map_cons, List.map_cons, List.sum_cons, ih, List.length_cons, Nat.succ_mul,
        Nat.add_comm]
      rfl

/-- When the thread of `do_one_run` is woken up, all full chunks were handed out. -/
theorem sum_of_signalled {ks : List Nat} (hd : Run (Dispense.Step (size a)) Dispense.start ks d)
    (hrel : Rel a d s) (hsignalled : s.signalled = true) :
    (s.items.map Item.count).sum = a.regioncount * chunks a * a.chunksize := by
  have hdone : ∀ i ∈ Finset.range a.regioncount, size a i ≤ d.taken i := by
    intro i hi
    have hlt := Finset.mem_range.mp hi
    unfold size
    rw [if_pos hlt]
    exact hrel.done (hrel.signalled.mp hsignalled).1 i hlt
  rw [hrel.items, sum_count, Dispense.length_of_done (fun _ => size_eq_zero) hd hdone, sum_size]

/-- All threads have finished when their number is the one of the threads. -/
theorem finished_eq_iff (s : State) :
    finished s = s.threads.length ↔ ∀ thread ∈ s.threads, thread.state = .last := by
  unfold finished
  rw [List.countP_eq_length]
  simp only [decide_eq_true_eq]

/-- The threads come to an end: some run finishes all of them. -/
theorem exists_finished_run (hcorrect : Correct a) : ∃ ts s, Run (Step a) (doOneRun a) ts s ∧
    ∀ thread ∈ s.threads, thread.state = .last := by
  obtain ⟨n, hn⟩ := hcorrect.ends
  by_contra hnever
  -- otherwise there are runs of every length
  have hlong : ∀ m, ∃ ts s, Run (Step a) (doOneRun a) ts s ∧ ts.length = m := by
    intro m
    induction m with
    | zero => exact ⟨[], _, .nil _, rfl⟩
    | succ m ih =>
        obtain ⟨ts, s, hrun, hlength⟩ := ih
        have hmore : ∃ thread ∈ s.threads, thread.state ≠ .last := by
          by_contra hall
          refine hnever ⟨ts, s, hrun, fun thread hth => ?_⟩
          by_contra hne
          exact hall ⟨thread, hth, hne⟩
        obtain ⟨thread, hth, hne⟩ := hmore
        obtain ⟨t, ht⟩ := List.mem_iff_getElem?.mp hth
        obtain ⟨s', hstep⟩ := hcorrect.live ts s hrun t thread ht hne
        exact ⟨ts ++ [t], s', hrun.snoc hstep, by rw [List.length_append, hlength]; rfl⟩
  obtain ⟨ts, s, hrun, hlength⟩ := hlong (n + 1)
  have hle := hn ts s hrun
  omega

/-- What holds whatever the sizes are: the chunks are apart and inside of their regions, and the
threads end. -/
theorem handed_out (h : a.Valid) (hfits : a.Fits) (hrun : Run (Step a) (doOneRun a) ts s) :
    s.items.Pairwise Apart ∧
    (∀ x ∈ s.items, x.regionidx < a.regioncount ∧ x.fid = file a x.regionidx ∧
      first a x.regionidx ≤ x.off ∧
      x.off + x.count ≤ first a x.regionidx + a.regionsize) ∧
    ts.length ≤ a.regioncount * chunks a + a.threadcount ∧
    (∀ t thread, s.threads[t]? = some thread → thread.state ≠ .last → ∃ s', Step a s t s') ∧
    (s.signalled = true ↔ s.threads ≠ [] ∧ ∀ thread ∈ s.threads, thread.state = .last) ∧
    (s.signalled = true →
      (s.items.map Item.count).sum = a.regioncount * chunks a * a.chunksize) := by
  obtain ⟨ks, d, hd, hrel, hlength⟩ := rel_of_run h hfits hrun
  have hwithin := within_of_run hd
  have hlt : ∀ c ∈ d.handed, c.1 < a.regioncount ∧ c.2 < chunks a := by
    rintro ⟨i, j⟩ hc
    have hj := (hwithin.sound.mem_iff i j).mp hc
    have hle := hwithin.sound.le_size i
    unfold size at hle
    split at hle
    · rename_i hi
      exact ⟨hi, Nat.lt_of_lt_of_le hj hle⟩
    · omega
  have hfini : finished s ≤ s.threads.length := List.countP_le_length
  rw [hrel.length] at hfini
  refine ⟨?_, fun x hx => ?_, ?_, fun t thread ht hstate => ?_, ?_, sum_of_signalled hd hrel⟩
  · rw [hrel.items, List.pairwise_map]
    exact hwithin.sound.nodup.imp_of_mem fun hx hy hne =>
      itemOf_apart h (hlt _ hx).2 (hlt _ hy).2 hne
  · rw [hrel.items] at hx
    obtain ⟨⟨i, j⟩, hc, rfl⟩ := List.mem_map.mp hx
    obtain ⟨hi, hj⟩ := hlt _ hc
    have hle := chunk_le (a := a) (Nat.succ_le_of_lt hj)
    rw [Nat.succ_mul] at hle
    dsimp only at hle
    refine ⟨hi, rfl, Nat.le_add_right _ _, ?_⟩
    show first a i + j * a.chunksize + a.chunksize ≤ first a i + a.regionsize
    omega
  · have hle := hwithin.length
    omega
  · obtain ⟨s', hok, -⟩ := doOneThread_spec h hfits hwithin hrel ht hstate
    exact ⟨s', .turn ht hstate hok⟩
  · rw [hrel.signalled, ← finished_eq_iff, hrel.length, ne_eq, ← List.length_eq_zero_iff,
      hrel.length]
    omega

/-- The total is right only when the chunks fill the regions. -/
theorem dvd_of_correct (h : a.Valid) (hfits : a.Fits) (hcorrect : Correct a) :
    a.threadcount = 0 ∨ a.regioncount = 0 ∨ a.chunksize ∣ a.regionsize := by
  rw [or_iff_not_imp_left, or_iff_not_imp_left]
  intro hthreads hregions
  obtain ⟨ts, s, hrun, hall⟩ := exists_finished_run hcorrect
  obtain ⟨-, -, -, -, hsignalled, hsum⟩ := handed_out h hfits hrun
  obtain ⟨ks, d, -, hrel, -⟩ := rel_of_run h hfits hrun
  have hne : s.threads ≠ [] := by
    intro hnil
    have hlength := hrel.length
    rw [hnil] at hlength
    exact hthreads hlength.symm
  have hyes := hsignalled.mpr ⟨hne, hall⟩
  have htotal := (hcorrect.total ts s hrun hyes).1
  rw [hsum hyes, Nat.mul_assoc, Nat.mul_comm a.regionsize] at htotal
  have hregion := Nat.eq_of_mul_eq_mul_left (Nat.pos_of_ne_zero hregions) htotal
  exact ⟨chunks a, by rw [Nat.mul_comm]; exact hregion.symm⟩

/-- **The work of a benchmark.** It is handed out exactly once, and `print_stats` counts it right,
exactly when `chunksize` divides `regionsize`, or there is nothing to do or nobody to do it. -/
theorem work_iff (h : a.Valid) (hfits : a.Fits) :
    Correct a ↔ a.threadcount = 0 ∨ a.regioncount = 0 ∨ a.chunksize ∣ a.regionsize := by
  have hagv : agvsize a = a.regionsize * a.regioncount := mul64_eq hfits.total
  refine ⟨dvd_of_correct h hfits, fun hcases => ⟨fun ts s hrun => (handed_out h hfits hrun).1,
    fun ts s hrun => (handed_out h hfits hrun).2.1,
    ⟨_, fun ts s hrun => (handed_out h hfits hrun).2.2.1⟩,
    fun ts s hrun => (handed_out h hfits hrun).2.2.2.1,
    fun ts s hrun => (handed_out h hfits hrun).2.2.2.2.1, fun ts s hrun hyes => ⟨?_, hagv⟩⟩⟩
  obtain ⟨-, -, -, -, hsignalled, hsum⟩ := handed_out h hfits hrun
  rw [hsum hyes]
  rcases hcases with hthreads | hregions | hdvd
  · obtain ⟨ks, d, -, hrel, -⟩ := rel_of_run h hfits hrun
    have hlength := hrel.length
    rw [hthreads, List.length_eq_zero_iff] at hlength
    exact absurd hlength (hsignalled.mp hyes).1
  · rw [hregions, Nat.zero_mul, Nat.zero_mul, Nat.mul_zero]
  · unfold chunks
    rw [Nat.mul_assoc, Nat.div_mul_cancel hdvd, Nat.mul_comm]

/-- Two regions of 8 in one file, in chunks of 2, and two threads. -/
def exampleArg : RunArg := ⟨2, 2, 2, 8, 8, false, false⟩

theorem exampleArg_valid : exampleArg.Valid := ⟨by decide, by decide, by decide⟩

theorem exampleArg_fits : exampleArg.Fits := ⟨by decide, by decide, by decide, by decide⟩

/-- All the work of the example is handed out. -/
theorem work_example : Correct exampleArg :=
  (work_iff exampleArg_valid exampleArg_fits).mpr (.inr (.inr ⟨4, rfl⟩))

/-- One region of 3 in chunks of 2: the last byte is not handed out. -/
theorem work_left_over : ¬ ∀ a : RunArg, a.Valid → a.Fits → Correct a := by
  intro hall
  have hvalid : (⟨1, 2, 1, 3, 3, true, false⟩ : RunArg).Valid :=
    ⟨by decide, by decide, by decide⟩
  have hfits : (⟨1, 2, 1, 3, 3, true, false⟩ : RunArg).Fits :=
    ⟨by decide, by decide, by decide, by decide⟩
  exact absurd (dvd_of_correct hvalid hfits (hall _ hvalid hfits)) (by decide)

end LustreSimulator.Pios
