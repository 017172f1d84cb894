import LustreSimulator.Ldlm
import LustreSimulator.Lib.Align
import LustreSimulator.Proofs.IntervalTree
import Mathlib.Data.Nat.Bitwise

/-!
# `LustreSimulator.Proofs.LdlmPolicy`: the extent that is granted

`ldlm_extent_policy` starts from the largest extent and only shrinks it, down to the extent of
the request at most:

* `policyGrantedLoop_spec`: past the granted locks the extent overlaps no tree of a mode that is
  not compatible;
* `limitBy_within`: a waiting lock shrinks the extent;
* `policyFixup_within`: so does the alignment.

`extentPolicy_spec` is the whole function.
-/

set_option autoImplicit false

namespace LustreSimulator

open Lib

/-- The extent `a` lies in the extent `b`. -/
def IntervalExtent.Within (a b : IntervalExtent) : Prop := b.start ≤ a.start ∧ a.end_ ≤ b.end_

namespace IntervalExtent.Within

variable {a b c : IntervalExtent}

theorem refl (a : IntervalExtent) : a.Within a := ⟨Nat.le_refl _, Nat.le_refl _⟩

theorem trans (hab : a.Within b) (hbc : b.Within c) : a.Within c :=
  ⟨Nat.le_trans hbc.1 hab.1, Nat.le_trans hab.2 hbc.2⟩

/-- What a smaller extent overlaps the larger one overlaps too. -/
theorem overlapped (h : a.Within b) (hover : a.overlapped c = true) : b.overlapped c = true := by
  simp only [IntervalExtent.overlapped, Bool.and_eq_true, decide_eq_true_eq] at hover ⊢
  exact ⟨Nat.le_trans h.1 hover.1, Nat.le_trans hover.2 h.2⟩

/-- What an extent with a larger one inside of another misses the larger one misses. -/
theorem not_overlapped (h : a.Within b) (hover : b.overlapped c = false) :
    a.overlapped c = false := by
  cases ha : a.overlapped c with
  | false => rfl
  | true => exact absurd (h.overlapped ha) (by simp [hover])

end IntervalExtent.Within

namespace Ldlm

variable {s : Resource} {req lock : Lock} {newEx ex : IntervalExtent}

/-! ### The alignment -/

/-- The lowest bit of `a` from the bit `j` on is the bit `i`. -/
structure LowestBit (a j i : Nat) : Prop where
  le : j ≤ i
  set : a.testBit i = true
  clear : ∀ n, j ≤ n → n < i → a.testBit n = false

/-- Where the bit `j` is clear the lowest bit lies above. -/
theorem lowestBit_succ {a j i : Nat} (hj : a.testBit j = false) :
    LowestBit a j i ↔ LowestBit a (j + 1) i := by
  constructor
  · rintro ⟨hle, hset, hclear⟩
    have hne : j ≠ i := by
      rintro rfl
      rw [hj] at hset
      cases hset
    exact ⟨by omega, hset, fun n hn => hclear n (by omega)⟩
  · rintro ⟨hle, hset, hclear⟩
    refine ⟨by omega, hset, fun n hn hni => ?_⟩
    rcases Nat.eq_or_lt_of_le hn with rfl | hn
    · exact hj
    · exact hclear n hn hni

/-- The loop finds the lowest bit, if there is one in the word. -/
theorem alignMask_eq_ok {a k j bit : Nat} :
    alignMask a k (2 ^ j) = .ok bit ↔ ∃ i, i < j + k ∧ bit = 2 ^ i ∧ LowestBit a j i := by
  induction k generalizing j with
  | zero =>
      rw [alignMask]
      constructor
      · intro h
        cases h
      · rintro ⟨i, hi, -, hlow⟩
        have := hlow.le
        omega
  | succ k ih =>
      have hbit : a &&& 2 ^ j = 0 ↔ a.testBit j = false := by
        cases htest : a.testBit j <;> simp [Nat.and_two_pow, htest]
      rw [alignMask]
      cases hj : a.testBit j with
      | false =>
          rw [if_pos (hbit.mpr hj), ← Nat.pow_succ, ih]
          simp only [lowestBit_succ hj, Nat.succ_eq_add_one, Nat.add_assoc, Nat.add_comm 1 k]
      | true =>
          rw [if_neg (by rw [hbit, hj]; decide)]
          constructor
          · intro h
            cases h
            exact ⟨j, by omega, rfl, Nat.le_refl _, hj, fun n hn hnj => by omega⟩
          · rintro ⟨i, -, rfl, hlow⟩
            have hi : i = j := by
              by_contra hne
              have hle := hlow.le
              have hclear := hlow.clear j (Nat.le_refl _) (by omega)
              rw [hj] at hclear
              cases hclear
            rw [hi]

/-- Below the lowest bit there is none. -/
theorem LowestBit.mod_eq_zero {a j i : Nat} (h : LowestBit a j i) (ha : a % 2 ^ j = 0) :
    a % 2 ^ i = 0 := by
  refine Nat.eq_of_testBit_eq fun n => ?_
  rw [Nat.testBit_mod_two_pow, Nat.zero_testBit]
  by_cases hn : n < j
  · have hbits := congrArg (fun x => x.testBit n) ha
    simpa [Nat.testBit_mod_two_pow, hn] using fun _ => hbits
  · by_cases hni : n < i
    · simp [h.clear n (by omega) hni]
    · simp [hni]

/-- A request of pages has no bit below the page bit. -/
theorem align_page {e : IntervalExtent} (hreq : PageExtent e) :
    (add64 e.end_ 1 ||| e.start) % 2 ^ 12 = 0 := by
  have hend : add64 e.end_ 1 % 2 ^ 12 = 0 := by
    have := hreq.end_page
    unfold add64
    omega
  rw [Nat.or_mod_two_pow, hend, show e.start % 2 ^ 12 = 0 from hreq.start_page]
  rfl

/-- Where `req_align` has no bit below `i` both ends of the request are multiples. -/
theorem align_ends {e : IntervalExtent} {i : Nat} (hi : i ≤ 64)
    (h : (add64 e.end_ 1 ||| e.start) % 2 ^ i = 0) :
    e.start % 2 ^ i = 0 ∧ (e.end_ + 1) % 2 ^ i = 0 := by
  rw [Nat.or_mod_two_pow, Nat.or_eq_zero_iff] at h
  refine ⟨h.2, ?_⟩
  -- the end of the request wraps where it ends with the last word
  rw [← h.1, add64, Nat.mod_mod_of_dvd]
  exact Nat.pow_dvd_pow 2 hi

/-- A bit below which neither end of the request has one, at a page or above. -/
theorem align_bit {e : IntervalExtent} {bit : Nat} (hreq : PageExtent e)
    (h : (if add64 e.end_ 1 ||| e.start = 0 then .ok 0x1000
      else alignMask (add64 e.end_ 1 ||| e.start) 52 0x1000) = (.ok bit : Except Fault Nat)) :
    ∃ i, i ≤ 64 ∧ bit = 2 ^ i ∧ e.start % 2 ^ i = 0 ∧ (e.end_ + 1) % 2 ^ i = 0 := by
  split at h
  · cases h
    exact ⟨12, by decide, by decide, hreq.start_page, hreq.end_page⟩
  · obtain ⟨i, hi, heq, hlow⟩ := (alignMask_eq_ok (j := 12)).mp h
    exact ⟨i, by omega, heq, align_ends (by omega) (hlow.mod_eq_zero (align_page hreq))⟩

/-- The alignment shrinks the extent, and not below the request. -/
theorem policyFixup_within {conflicting : Int} (hreq : PageExtent req.reqExtent)
    (hin : req.reqExtent.Within newEx) (hend : newEx.end_ < 2 ^ 64)
    (h : policyFixup req newEx conflicting = .ok ex) :
    ex.Within newEx ∧ req.reqExtent.Within ex := by
  rw [policyFixup] at h
  dsimp only at h
  generalize hgrown : (if conflicting > 32 ∧ (req.reqMode = .pw ∨ req.reqMode = .cw) ∧
      req.reqExtent.end_ < add64 req.reqExtent.start ldlmMaxGrownExtent then
      { newEx with end_ := min (add64 req.reqExtent.start ldlmMaxGrownExtent) newEx.end_ }
    else newEx) = e at h
  have he : e.Within newEx ∧ req.reqExtent.Within e := by
    obtain ⟨hstart, hend'⟩ := hin
    rw [← hgrown]
    split
    · rename_i hlarge
      exact ⟨⟨Nat.le_refl _, Nat.min_le_right _ _⟩,
        ⟨hstart, Nat.le_min.mpr ⟨Nat.le_of_lt hlarge.2.2, hend'⟩⟩⟩
    · exact ⟨.refl _, ⟨hstart, hend'⟩⟩
  split at h
  · cases h
    exact he
  · obtain ⟨bit, hbit, h⟩ := bind_eq_ok.mp h
    obtain ⟨-, -, h⟩ := bind_eq_ok.mp h
    cases h
    obtain ⟨i, hi, rfl, hs, hf⟩ := align_bit hreq hbit
    have hup := alignUp_le he.2.1 (Nat.lt_of_le_of_lt hreq.start_le hreq.end_lt) hi hs
    have hdown := alignDown_le he.2.2 (Nat.lt_of_le_of_lt he.1.2 hend) hi hf
    exact ⟨⟨Nat.le_trans he.1.1 hup.1, Nat.le_trans hdown.2 he.1.2⟩, ⟨hup.2, hdown.1⟩⟩

/-! ### The granted locks -/

/-- The trees of the modes `ms` that are not compatible with the request do not overlap `e`. -/
def ClearOf (s : Resource) (mode : Mode) (ms : List Mode) (e : IntervalExtent) : Prop :=
  ∀ m ∈ ms, lockmodeCompat m mode = false →
    ∀ x ∈ (s.itree m).toList, e.overlapped x.extent = false

/-- A smaller extent overlaps less. -/
theorem ClearOf.within {mode : Mode} {ms : List Mode} {a b : IntervalExtent}
    (h : ClearOf s mode ms b) (hab : a.Within b) : ClearOf s mode ms a :=
  fun m hm hne x hx => hab.not_overlapped (h m hm hne x hx)

/-- The loop over the interval trees only moves the limits inwards. Where the trees of the modes
that are not compatible do not overlap the request, they do not overlap what is left. -/
theorem policyGrantedLoop_spec {ms : List Mode} {limiter : IntervalExtent} {c : Int}
    {r : IntervalExtent × Int} (hwf : ∀ m, IntervalTree.WF (s.itree m))
    (hstart : limiter.start ≤ req.reqExtent.start)
    (h : policyGrantedLoop s req ms limiter c = .ok r) :
    r.1.Within limiter ∧
    (ClearOf s req.reqMode ms req.reqExtent → ClearOf s req.reqMode ms r.1) := by
  induction ms generalizing limiter c with
  | nil =>
      cases h
      exact ⟨.refl _, fun _ m hm => nomatch hm⟩
  | cons m ms ih =>
      have htail : ∀ {e}, ClearOf s req.reqMode (m :: ms) e → ClearOf s req.reqMode ms e :=
        fun h i hi => h i (List.mem_cons_of_mem _ hi)
      rw [policyGrantedLoop] at h
      split at h
      · rename_i hcompat
        obtain ⟨hwithin, hms⟩ := ih hstart h
        refine ⟨hwithin, fun hclear i hi hne => ?_⟩
        rcases List.mem_cons.mp hi with rfl | hi
        · rw [hcompat] at hne
          cases hne
        · exact hms (htail hclear) i hi hne
      · rename_i hcompat
        dsimp only at h
        generalize hl : (if c + s.litSize m > 4 then
          { limiter with start := req.reqExtent.start } else limiter) = l at h
        have hlwithin : l.Within limiter ∧ l.start ≤ req.reqExtent.start := by
          rw [← hl]
          split
          · exact ⟨⟨hstart, Nat.le_refl _⟩, Nat.le_refl _⟩
          · exact ⟨.refl _, hstart⟩
        obtain ⟨ext, hext, h⟩ := bind_eq_ok.mp h
        obtain ⟨hextstart, hextclear⟩ := IntervalTree.expand_ok (hwf m) hext
        generalize hl' : (⟨max l.start ext.start, min l.end_ ext.end_⟩ : IntervalExtent) = l' at h
        have hl'within : l'.Within limiter := by
          rw [← hl']
          exact ⟨Nat.le_trans hlwithin.1.1 (Nat.le_max_left _ _),
            Nat.le_trans (Nat.min_le_left _ _) hlwithin.1.2⟩
        have hl'ext : l'.Within ext := by
          rw [← hl']
          exact ⟨Nat.le_max_right _ _, Nat.min_le_right _ _⟩
        split at h
        · -- nothing is left to give up: the other trees do not overlap the request
          rename_i hreq
          cases h
          refine ⟨hl'within, fun hclear => ?_⟩
          dsimp only
          rwa [hreq]
        · have hl'start : l'.start ≤ req.reqExtent.start := by
            rw [← hl']
            exact Nat.max_le.mpr ⟨hlwithin.2, hextstart⟩
          obtain ⟨hwithin, hms⟩ := ih hl'start h
          refine ⟨hwithin.trans hl'within, fun hclear i hi hne x hx => ?_⟩
          rcases List.mem_cons.mp hi with rfl | hi
          · exact (hwithin.trans hl'ext).not_overlapped (hextclear x hx)
          · exact hms (htail hclear) i hi hne x hx

/-- Every mode has a tree. -/
theorem mem_modes (m : Mode) : m ∈ modes := by
  cases m <;> decide

/-- The part for the granted locks. -/
theorem policyGranted_spec (hwf : ∀ m, IntervalTree.WF (s.itree m))
    (hreq : PageExtent req.reqExtent) (h : policyGranted s req ⟨0, obdObjectEof⟩ = .ok ex) :
    req.reqExtent.Within ex ∧ ex.end_ < 2 ^ 64 ∧
    (ClearOf s req.reqMode modes req.reqExtent → ClearOf s req.reqMode modes ex) := by
  obtain ⟨r, hloop, h⟩ := bind_eq_ok.mp h
  obtain ⟨_, hcheck, h⟩ := bind_eq_ok.mp h
  rw [check_eq_ok] at hcheck
  obtain ⟨hwithin, hms⟩ := policyGrantedLoop_spec hwf (Nat.zero_le _) hloop
  have hend : r.1.end_ < 2 ^ 64 := Nat.lt_of_le_of_lt hwithin.2 (by decide)
  obtain ⟨hex, hreqex⟩ := policyFixup_within hreq hcheck hend h
  exact ⟨hreqex, Nat.lt_of_le_of_lt hex.2 hend, fun hclear => (hms hclear).within hex⟩

/-! ### The waiting locks -/

/-- A waiting lock that overlaps the extent, but not the request, shrinks the extent. -/
theorem limitBy_within (hreq : PageExtent req.reqExtent) (hlock : PageExtent lock.reqExtent)
    (hextent : lock.extent = lock.reqExtent) (hin : req.reqExtent.Within newEx)
    (hover : lock.extent.overlapped newEx = true)
    (hmiss : ¬ lock.reqExtent.overlapped req.reqExtent = true) :
    (limitBy req lock newEx).Within newEx ∧ req.reqExtent.Within (limitBy req lock newEx) := by
  obtain ⟨hstart, hend⟩ := hin
  have hle := hreq.start_le
  have hlt := hreq.end_lt
  have hlockle := hlock.start_le
  have hlocklt := hlock.end_lt
  simp only [hextent, IntervalExtent.overlapped, Bool.and_eq_true, decide_eq_true_eq,
    not_and_or, Nat.not_le] at hover hmiss
  -- the ends of the waiting lock have a neighbour on the side where it limits the extent
  have hadd : lock.reqExtent.end_ < req.reqExtent.start →
      add64 lock.reqExtent.end_ 1 = lock.reqExtent.end_ + 1 := fun _ => add64_eq (by omega)
  have hsub : req.reqExtent.end_ < lock.reqExtent.start →
      sub64 lock.reqExtent.start 1 = lock.reqExtent.start - 1 :=
    fun _ => sub64_eq (by omega) (by omega)
  unfold limitBy IntervalExtent.Within
  rw [hextent]
  dsimp only
  split_ifs <;> (try dsimp only at *) <;> omega

/-- The loop over the waiting locks only moves the limits inwards, and not beyond the request. -/
theorem policyWaitingLoop_within {l : Nat} {ls : List Nat} {c : Int}
    (hreq : PageExtent (s.locks l).reqExtent)
    (hls : ∀ i ∈ ls, PageExtent (s.locks i).reqExtent ∧
      (s.locks i).extent = (s.locks i).reqExtent)
    (hin : (s.locks l).reqExtent.Within newEx) :
    (policyWaitingLoop s l ls newEx c).1.Within newEx ∧
    (s.locks l).reqExtent.Within (policyWaitingLoop s l ls newEx c).1 := by
  induction ls generalizing newEx c with
  | nil => exact ⟨.refl _, hin⟩
  | cons i ls ih =>
      have hls' := fun j hj => hls j (List.mem_cons_of_mem i hj)
      rw [policyWaitingLoop]
      dsimp only
      split
      · exact ⟨.refl _, hin⟩
      split
      · exact ih hls' hin
      split
      · exact ih hls' hin
      generalize he : (if c + 1 > 4 then { newEx with start := (s.locks l).reqExtent.start }
        else newEx) = e
      have hein : e.Within newEx ∧ (s.locks l).reqExtent.Within e := by
        rw [← he]
        split
        · exact ⟨⟨hin.1, Nat.le_refl _⟩, ⟨Nat.le_refl _, hin.2⟩⟩
        · exact ⟨.refl _, hin⟩
      split
      · obtain ⟨hw, hr⟩ := ih (c := c + 1) hls' hein.2
        exact ⟨hw.trans hein.1, hr⟩
      split
      · obtain ⟨hw, hr⟩ := ih (c := c + 1) hls' hein.2
        exact ⟨hw.trans hein.1, hr⟩
      · rename_i hover hmiss
        obtain ⟨hpage, hextent⟩ := hls i List.mem_cons_self
        rw [Bool.not_eq_true, Bool.not_eq_false] at hover
        obtain ⟨hlimit, hreqlimit⟩ := limitBy_within hreq hpage hextent hein.2 hover hmiss
        obtain ⟨hw, hr⟩ := ih (c := c + 1) hls' hreqlimit
        exact ⟨hw.trans (hlimit.trans hein.1), hr⟩

/-- The part for the waiting locks. -/
theorem policyWaiting_within {l : Nat} (hreq : PageExtent (s.locks l).reqExtent)
    (hwaiting : ∀ i ∈ s.waiting, PageExtent (s.locks i).reqExtent ∧
      (s.locks i).extent = (s.locks i).reqExtent)
    (hin : (s.locks l).reqExtent.Within newEx) (hend : newEx.end_ < 2 ^ 64)
    (h : policyWaiting s l newEx = .ok ex) :
    ex.Within newEx ∧ (s.locks l).reqExtent.Within ex := by
  have hloop := policyWaitingLoop_within (c := 0) hreq hwaiting hin
  rw [policyWaiting] at h
  generalize policyWaitingLoop s l s.waiting newEx 0 = r at h hloop
  obtain ⟨e, c⟩ := r
  cases c with
  | none =>
      cases h
      exact hloop
  | some c =>
      obtain ⟨hw, hr⟩ := policyFixup_within hreq hloop.2 (Nat.lt_of_le_of_lt hloop.1.2 hend) h
      exact ⟨hw.trans hloop.1, hr⟩

@[simp]
theorem setLock_self (s : Resource) (l : Nat) : setLock s l (s.locks l) = s := by
  rw [setLock]
  congr 1
  funext i
  split
  · rename_i h
    rw [h]
  · rfl

/-- **The extent that is granted.** `ldlm_extent_policy` changes nothing but the extent of the
lock. The extent has the request in it. Where no granted lock of a mode that is not compatible
overlaps the request, none overlaps the extent. -/
theorem extentPolicy_spec {l : Nat} {flags flags' : Flags} {s' : Resource}
    (hwf : ∀ m, IntervalTree.WF (s.itree m)) (hreq : PageExtent (s.locks l).reqExtent)
    (hextent : (s.locks l).extent = (s.locks l).reqExtent)
    (hwaiting : ∀ i ∈ s.waiting, PageExtent (s.locks i).reqExtent ∧
      (s.locks i).extent = (s.locks i).reqExtent)
    (hok : extentPolicy s l flags = .ok (s', flags')) :
    ∃ e, s' = setLock s l { s.locks l with extent := e } ∧ (s.locks l).reqExtent.Within e ∧
      (ClearOf s (s.locks l).reqMode modes (s.locks l).reqExtent →
        ClearOf s (s.locks l).reqMode modes e) := by
  have hsame : setLock s l { s.locks l with extent := (s.locks l).reqExtent } = s := by
    rw [← hextent]
    exact setLock_self s l
  rw [extentPolicy] at hok
  split at hok
  · cases hok
    exact ⟨_, hsame.symm, .refl _, id⟩
  split at hok
  · cases hok
    exact ⟨_, hsame.symm, .refl _, id⟩
  · obtain ⟨e₁, hgranted, hok⟩ := bind_eq_ok.mp hok
    obtain ⟨e, hwait, hok⟩ := bind_eq_ok.mp hok
    obtain ⟨hin₁, hend₁, hclear₁⟩ := policyGranted_spec hwf hreq hgranted
    obtain ⟨hwithin, hin⟩ := policyWaiting_within hreq hwaiting hin₁ hend₁ hwait
    refine ⟨e, ?_, hin, fun hclear => (hclear₁ hclear).within hwithin⟩
    split at hok
    · cases hok
      rfl
    · rename_i hextent'
      cases hok
      rw [not_not] at hextent'
      rw [hextent']
      exact (setLock_self s l).symm

end Ldlm

end LustreSimulator
