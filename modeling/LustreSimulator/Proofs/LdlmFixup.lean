import LustreSimulator.Proofs.LdlmPolicy
import Mathlib.Data.Nat.Find

/-!
# `LustreSimulator.Proofs.LdlmFixup`: the alignment of an extent that is granted

`ldlm_extent_internal_policy_fixup` looks for the lowest bit of `(req_end + 1) | req_start` from the
page bit on, and rounds `new_ex` inwards to multiples of it. Its comment says that the request is
aligned already. Nothing makes it so: without a bit from the page bit on the loop has no end, and the
next multiple on either side can lie inside of the request, where an assertion fails.

`policyFixup_iff` says which requests it serves: exactly those with such a bit and a multiple of it
between each end of `new_ex` and the request. `policyFixup_page` is the case that the comment has in
mind, the requests that are aligned to pages.
-/

set_option autoImplicit false

namespace LustreSimulator

open Lib

namespace Ldlm

variable {req : Lock} {newEx ex : IntervalExtent} {c : Int}

/-- The extent with the limit for a busy resource. -/
def grownExtent (req : Lock) (newEx : IntervalExtent) (c : Int) : IntervalExtent :=
  if c > 32 ∧ (req.reqMode = .pw ∨ req.reqMode = .cw) ∧
      req.reqExtent.end_ < add64 req.reqExtent.start ldlmMaxGrownExtent then
    { newEx with end_ := min (add64 req.reqExtent.start ldlmMaxGrownExtent) newEx.end_ }
  else newEx

/-- `req_align`. -/
def reqAlign (req : Lock) : Nat := add64 req.reqExtent.end_ 1 ||| req.reqExtent.start

/-- The limit only moves the end in, and not into the request. -/
theorem grownExtent_within (hin : req.reqExtent.Within newEx) :
    (grownExtent req newEx c).start = newEx.start ∧
      (grownExtent req newEx c).end_ ≤ newEx.end_ ∧
      req.reqExtent.Within (grownExtent req newEx c) := by
  obtain ⟨hstart, hend⟩ := hin
  unfold grownExtent
  split
  · rename_i hlarge
    exact ⟨rfl, Nat.min_le_right _ _, hstart, Nat.le_min.mpr ⟨Nat.le_of_lt hlarge.2.2, hend⟩⟩
  · exact ⟨rfl, Nat.le_refl _, hstart, hend⟩

/-- It is a word. -/
theorem reqAlign_lt (hstart : req.reqExtent.start < 2 ^ 64) : reqAlign req < 2 ^ 64 :=
  Nat.or_lt_two_pow (add64_lt _ _) hstart

/-- The request of the whole object has no alignment. -/
theorem reqAlign_ne_zero (hend : req.reqExtent.end_ < 2 ^ 64)
    (h : ¬ (req.reqExtent.start = 0 ∧ req.reqExtent.end_ = obdObjectEof)) : reqAlign req ≠ 0 := by
  unfold reqAlign
  rw [Ne, Nat.or_eq_zero_iff]
  unfold add64 obdObjectEof at *
  omega

/-- The function with its first and its last step named. -/
theorem policyFixup_eq :
    policyFixup req newEx c =
      if (grownExtent req newEx c).start = 0 ∧ (grownExtent req newEx c).end_ = obdObjectEof then
        .ok (grownExtent req newEx c)
      else
        (if reqAlign req = 0 then .ok 0x1000 else alignMask (reqAlign req) 52 0x1000).bind
          fun bit =>
        let start := add64 (sub64 (grownExtent req newEx c).start 1 ||| (bit - 1)) 1
        let end_ := sub64 (add64 (grownExtent req newEx c).end_ 1 &&&
          (2 ^ 64 - 1 - (bit - 1))) 1
        (check (start ≤ req.reqExtent.start ∧ end_ ≥ req.reqExtent.end_) .lassert).bind fun _ =>
        .ok ⟨start, end_⟩ := rfl

/-- The function past its early return: the mask is found, and both assertions hold. -/
theorem policyFixup_eq_ok (hin : req.reqExtent.Within newEx) (hend : newEx.end_ < 2 ^ 64)
    (hwhole : grownExtent req newEx c ≠ ⟨0, obdObjectEof⟩) :
    policyFixup req newEx c = .ok ex ↔ ∃ i, i < 64 ∧ LowestBit (reqAlign req) 12 i ∧
      ex = ⟨add64 (sub64 newEx.start 1 ||| (2 ^ i - 1)) 1,
        sub64 (add64 (grownExtent req newEx c).end_ 1 &&& (2 ^ 64 - 1 - (2 ^ i - 1))) 1⟩ ∧
      req.reqExtent.Within ex := by
  obtain ⟨hstart, hle, hgrown⟩ := grownExtent_within (c := c) hin
  have hne : ¬ ((grownExtent req newEx c).start = 0 ∧
      (grownExtent req newEx c).end_ = obdObjectEof) := by
    rintro ⟨h0, heof⟩
    apply hwhole
    rw [← h0, ← heof]
  have halign : reqAlign req ≠ 0 := by
    refine reqAlign_ne_zero (by have := hin.2; omega) fun ⟨h0, heof⟩ => hne ?_
    obtain ⟨hgs, hge⟩ := hgrown
    unfold obdObjectEof at *
    omega
  rw [policyFixup_eq, if_neg hne, if_neg halign, bind_eq_ok, hstart]
  constructor
  · rintro ⟨bit, hbit, h⟩
    obtain ⟨i, hi, rfl, hlow⟩ := (alignMask_eq_ok (j := 12)).mp hbit
    obtain ⟨_, hcheck, h⟩ := bind_eq_ok.mp h
    cases h
    have hex := check_eq_ok.mp hcheck
    exact ⟨i, hi, hlow, rfl, hex.1, hex.2⟩
  · rintro ⟨i, hi, hlow, rfl, hex⟩
    exact ⟨2 ^ i, (alignMask_eq_ok (j := 12)).mpr ⟨i, hi, rfl, hlow⟩,
      bind_eq_ok.mpr ⟨(), check_true ⟨hex.1, hex.2⟩, rfl⟩⟩

/-- The bit is in the word. -/
theorem LowestBit.lt_word {a j i : Nat} (h : LowestBit a j i) (ha : a < 2 ^ 64) : i < 64 := by
  by_contra hge
  have hpow : 2 ^ 64 ≤ 2 ^ i := Nat.pow_le_pow_right (by decide) (by omega)
  have hset := h.set
  rw [Nat.testBit_lt_two_pow (Nat.lt_of_lt_of_le ha hpow)] at hset
  cases hset

/-- A bit of `req_align` is no larger than the end of the request. -/
theorem two_pow_le_end {i : Nat} (hreq : req.reqExtent.start ≤ req.reqExtent.end_)
    (hset : (reqAlign req).testBit i = true) : 2 ^ i ≤ req.reqExtent.end_ + 1 := by
  by_contra hlt
  have hword : add64 req.reqExtent.end_ 1 ≤ req.reqExtent.end_ + 1 := Nat.mod_le _ _
  have hor : reqAlign req < 2 ^ i := Nat.or_lt_two_pow (by omega) (by omega)
  rw [Nat.testBit_lt_two_pow hor] at hset
  cases hset

/-- **The alignment.** The function ends with an extent between the request and `new_ex` exactly if
`new_ex` is the whole object with the limit for a busy resource, or `req_align` has a bit from the
page bit on and a multiple of the lowest one lies between `new_ex` and the request on either side. -/
theorem policyFixup_iff (hreq : req.reqExtent.start ≤ req.reqExtent.end_)
    (hin : req.reqExtent.Within newEx) (hend : newEx.end_ < 2 ^ 64) :
    (∃ ex, policyFixup req newEx c = .ok ex ∧ ex.Within newEx ∧ req.reqExtent.Within ex) ↔
    grownExtent req newEx c = ⟨0, obdObjectEof⟩ ∨
      ∃ i, LowestBit (reqAlign req) 12 i ∧
        (∃ m, newEx.start ≤ m * 2 ^ i ∧ m * 2 ^ i ≤ req.reqExtent.start) ∧
        ∃ m, req.reqExtent.end_ + 1 ≤ m * 2 ^ i ∧
          m * 2 ^ i ≤ (grownExtent req newEx c).end_ + 1 := by
  obtain ⟨hstart, hle, hgrown⟩ := grownExtent_within (c := c) hin
  by_cases hwhole : grownExtent req newEx c = ⟨0, obdObjectEof⟩
  · -- the early return
    refine iff_of_true ⟨⟨0, obdObjectEof⟩, ?_, ?_, ?_⟩ (.inl hwhole)
    · rw [policyFixup_eq, hwhole, if_pos ⟨rfl, rfl⟩]
    · rw [hwhole] at hstart hle
      exact ⟨Nat.le_of_eq hstart.symm, hle⟩
    · rwa [hwhole] at hgrown
  · rw [or_iff_right hwhole]
    simp only [policyFixup_eq_ok hin hend hwhole]
    have hs : newEx.start ≤ req.reqExtent.start := hin.1
    have hf := hgrown.2
    constructor
    · -- the ends of the extent are the multiples, where they do not wrap
      rintro ⟨ex, ⟨i, hi, hlow, rfl, -⟩, hex, hreqex⟩
      have hself := alignDown_le_self (x := (grownExtent req newEx c).end_) (by omega)
        (Nat.le_of_lt hi) (Nat.le_trans (two_pow_le_end hreq hlow.set) (by omega))
      exact ⟨i, hlow, (alignUp_iff hs (by omega) (Nat.le_of_lt hi)).mp ⟨hex.1, hreqex.1⟩,
        (alignDown_iff hf (by omega) (Nat.le_of_lt hi)).mp ⟨hreqex.2, hself⟩⟩
    · rintro ⟨i, hlow, hup, hdown⟩
      have hi := hlow.lt_word (reqAlign_lt (by omega))
      have hup' := (alignUp_iff hs (by omega) (Nat.le_of_lt hi)).mpr hup
      have hdown' := (alignDown_iff hf (by omega) (Nat.le_of_lt hi)).mpr hdown
      exact ⟨_, ⟨i, hi, hlow, rfl, hup'.2, hdown'.1⟩,
        ⟨hup'.1, Nat.le_trans hdown'.2 hle⟩, hup'.2, hdown'.1⟩

/-- A lock with the request `ext`. -/
def lockFor (ext : IntervalExtent) : Lock where
  reqMode := .pw
  grantedMode := none
  client := some 1
  reqExtent := ext
  extent := ext
  gid := 0
  blockingAst := false
  discardData := false
  destroyed := false
  treeNode := some 1
  ast := ⟨false, false, none, 0⟩

/-- A request for the second page, with half a page more on both sides. -/
theorem policyFixup_second_page :
    ∃ ex, policyFixup (lockFor ⟨0x1000, 0x1fff⟩) ⟨0x800, 0x27ff⟩ 0 = .ok ex ∧
      ex.Within ⟨0x800, 0x27ff⟩ ∧ IntervalExtent.Within ⟨0x1000, 0x1fff⟩ ex :=
  (policyFixup_iff (by decide) ⟨by decide, by decide⟩ (by decide)).mpr
    (.inr ⟨12, ⟨by decide, by decide, fun n hn hlt => by omega⟩, ⟨1, by decide, by decide⟩,
      ⟨2, by decide, by decide⟩⟩)

/-- The loop for the mask has no end where the request is the first 100 bytes. -/
theorem policyFixup_loop :
    ¬ ∀ (req : Lock) (newEx : IntervalExtent) (c : Int),
      req.reqExtent.start ≤ req.reqExtent.end_ → req.reqExtent.Within newEx →
      newEx.end_ < 2 ^ 64 →
      ∃ ex, policyFixup req newEx c = .ok ex ∧ ex.Within newEx ∧ req.reqExtent.Within ex := by
  intro h
  have hloop : policyFixup (lockFor ⟨0, 99⟩) ⟨0, 199⟩ 0 = .error .loop := rfl
  obtain ⟨ex, hok, -⟩ := h (lockFor ⟨0, 99⟩) ⟨0, 199⟩ 0 (by decide) ⟨by decide, by decide⟩
    (by decide)
  rw [hloop] at hok
  cases hok

/-- A number with a bit has a lowest one from `j` on, where none is below. -/
theorem exists_lowestBit {a j : Nat} (ha : a ≠ 0) (hj : a % 2 ^ j = 0) : ∃ i, LowestBit a j i := by
  obtain ⟨i, hi⟩ := Nat.exists_testBit_of_ne_zero ha
  have hex : ∃ i, a.testBit i = true := ⟨i, hi⟩
  refine ⟨Nat.find hex, ?_, Nat.find_spec hex, fun n _ hn => ?_⟩
  · -- the bits below `j` are not set
    by_contra hlt
    have hzero := congrArg (fun x => x.testBit (Nat.find hex)) hj
    rw [Nat.testBit_mod_two_pow, Nat.find_spec hex, Nat.zero_testBit, Bool.and_true,
      decide_eq_false_iff_not] at hzero
    omega
  · simpa using Nat.find_min hex hn

/-- A request that is aligned to pages is always served. -/
theorem policyFixup_page (hreq : PageExtent req.reqExtent) (hin : req.reqExtent.Within newEx)
    (hend : newEx.end_ < 2 ^ 64) :
    ∃ ex, policyFixup req newEx c = .ok ex ∧ ex.Within newEx ∧ req.reqExtent.Within ex := by
  obtain ⟨-, hle, hgrown⟩ := grownExtent_within (c := c) hin
  have hgs := hgrown.1
  have hge := hgrown.2
  refine (policyFixup_iff hreq.start_le hin hend).mpr ?_
  by_cases halign : reqAlign req = 0
  · -- the request is the whole object, and so is the extent
    have hwhole : req.reqExtent.start = 0 ∧ req.reqExtent.end_ = obdObjectEof := by
      by_contra hne
      exact reqAlign_ne_zero hreq.end_lt hne halign
    left
    generalize grownExtent req newEx c = e at hle hgs hge
    obtain ⟨start, end_⟩ := e
    unfold obdObjectEof at *
    simp only at hle hgs hge
    rw [show start = 0 by omega, show end_ = 0xffffffffffffffff by omega]
  · obtain ⟨i, hlow⟩ := exists_lowestBit halign (align_page hreq)
    have hi := hlow.lt_word (reqAlign_lt (Nat.lt_of_le_of_lt hreq.start_le hreq.end_lt))
    obtain ⟨hs, hf⟩ := align_ends (Nat.le_of_lt hi) (hlow.mod_eq_zero (align_page hreq))
    have hs' := Nat.div_mul_cancel (Nat.dvd_of_mod_eq_zero hs)
    have hf' := Nat.div_mul_cancel (Nat.dvd_of_mod_eq_zero hf)
    have hin' := hin.1
    exact .inr ⟨i, hlow, ⟨req.reqExtent.start / 2 ^ i, by omega, by omega⟩,
      ⟨(req.reqExtent.end_ + 1) / 2 ^ i, by omega, by omega⟩⟩

end Ldlm

end LustreSimulator
