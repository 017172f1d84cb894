import LustreSimulator.AdaptiveTimeout
import LustreSimulator.Lib.Run
import LustreSimulator.Lib.Sliding
import Mathlib.Order.Lattice.Nat
import Mathlib.Order.Nat

/-!
# `LustreSimulator.Proofs.AdaptiveTimeout`: the largest value of a sliding window

`at_add` keeps the sub-windows of `Lib.Sliding`: `Windowed` says that `at_hist` slides along with
the calls, and that `at_max` is its largest value. The first call starts the sub-windows, and
`at_start` is the begin of the current one.

`Started` is the condition under which a call keeps that. `at_start` is 0 before the first call, and
it is still 0 after a call in the second 0: then the next call starts anew and forgets the values
so far (`max_forgotten`). And the distance to `at_start` has to fit into an `int`.
-/

set_option autoImplicit false

namespace LustreSimulator.AdaptiveTimeout

open Lib

variable {p : Params} {at_ at' : AdaptiveTimeout} {val t now : Nat}

/-! ### One call -/

/-- What `at_add` does to the windows: it starts them, it notes the value in the current one, it
leaves them alone, or it moves them. -/
theorem addValue_cases {r : AdaptiveTimeout × Bool} (h : at_.addValue p val t now = .ok r) :
    (at_.start = 0 ∧ r.1.hist = at_.hist.set 0 val ∧ r.1.max = val ∧
      r.1.start = now / p.timeUnit) ∨
    (at_.start ≠ 0 ∧ now / p.timeUnit - at_.start < p.step ∧
      r.1.hist = at_.hist.set 0 (at_.hist.headD 0 ⊔ val) ∧
      r.1.max = (if val > at_.hist.headD 0 then val ⊔ at_.max else at_.max) ∧
      r.1.start = at_.start) ∨
    ∃ shift, at_.start ≠ 0 ∧ toInt32 ((now / p.timeUnit - at_.start) / p.step) = shift ∧
      0 < shift ∧ p.step ≤ now / p.timeUnit - at_.start ∧
      r.1.hist = (List.replicate (min shift.toNat atWindCnt) 0 ++
        at_.hist.take (atWindCnt - shift.toNat)).set 0 val ∧
      r.1.max = (at_.hist.take (atWindCnt - shift.toNat)).foldl Nat.max val ∧
      r.1.start = at_.start + shift.toNat * p.step := by
  unfold addValue at h
  dsimp only at h
  split at h
  · rename_i hstart
    cases h
    exact .inl ⟨hstart, rfl, rfl, rfl⟩
  rename_i hstart
  right
  split at h
  · rename_i hsame
    left
    split at h
    · rename_i hmore
      cases h
      refine ⟨hstart, hsame, ?_, (if_pos hmore).symm, rfl⟩
      exact congrArg (at_.hist.set 0) (Nat.max_eq_right (Nat.le_of_lt hmore)).symm
    · rename_i hless
      cases h
      refine ⟨hstart, hsame, ?_, (if_neg hless).symm, rfl⟩
      rw [Nat.max_eq_left (Nat.not_lt.mp hless)]
      cases hhist : at_.hist with
      | nil => rfl
      | cons x l => rfl
  · rename_i hlater
    right
    obtain ⟨_, -, h⟩ := bind_eq_ok.mp h
    obtain ⟨_, hshift, h⟩ := bind_eq_ok.mp h
    cases h
    exact ⟨_, hstart, rfl, check_eq_ok.mp hshift, Nat.not_lt.mp hlater, rfl, rfl, rfl⟩

/-- `at_add` adds the value to the windows and computes an estimate. -/
theorem atAdd_eq (t now : Nat) (hflags : at_.flags ≠ .queuedRpc ∧ at_.flags ≠ .fixed) (hval : val ≠ 0)
    (hunit : p.timeUnit ≠ 0) :
    (∃ f, at_.addValue p val t now = .error f ∧ at_.atAdd p val t now = .error f) ∨
    ∃ r e, at_.addValue p val t now = .ok r ∧
      at_.atAdd p val t now = .ok { r.1 with estimate := e } := by
  unfold atAdd
  rw [if_neg (not_or.mpr hflags), check_true hunit, ok_bind, if_neg hval]
  cases hadd : at_.addValue p val t now with
  | error f => exact .inl ⟨f, rfl, rfl⟩
  | ok r => exact .inr ⟨r, _, rfl, rfl⟩

/-- `at_add` does not change the algorithm. -/
theorem addValue_flags {r : AdaptiveTimeout × Bool} (h : at_.addValue p val t now = .ok r) :
    r.1.flags = at_.flags := by
  unfold addValue at h
  dsimp only at h
  split at h
  · cases h
    rfl
  split at h
  · split at h
    · cases h
      rfl
    · cases h
      rfl
  · obtain ⟨_, -, h⟩ := bind_eq_ok.mp h
    obtain ⟨_, -, h⟩ := bind_eq_ok.mp h
    cases h
    rfl

/-- A call is accepted when the distance to `at_start` fits. -/
theorem exists_addValue (val t : Nat) (hstep : 0 < p.step)
    (hfits : at_.start = 0 ∨ (now / p.timeUnit - at_.start) / p.step < 2 ^ 31) :
    ∃ r, at_.addValue p val t now = .ok r := by
  unfold addValue
  dsimp only
  split
  · exact ⟨_, rfl⟩
  rename_i hstart
  split
  · split
    · exact ⟨_, rfl⟩
    · exact ⟨_, rfl⟩
  · rename_i hlater
    have hpos : 0 < (now / p.timeUnit - at_.start) / p.step :=
      Nat.div_pos (Nat.not_lt.mp hlater) hstep
    rw [check_true (Nat.ne_of_gt hstep), ok_bind, toInt32_eq (hfits.resolve_left hstart),
      check_true (by omega), ok_bind]
    exact ⟨_, rfl⟩

/-- The largest value of a list, from another one on. -/
theorem foldl_max (v : Nat) (l : List Nat) : l.foldl Nat.max v = v ⊔ supAll l := by
  induction l generalizing v with
  | nil => exact (sup_bot_eq v).symm
  | cons x l ih => rw [List.foldl_cons, ih, supAll_cons, ← sup_assoc]

/-! ### Calls one after the other -/

/-- A call `at_add(at, val, t)` at the time `now`. -/
structure Add where
  val : Nat
  t : Nat
  now : Nat
  deriving DecidableEq, Repr

/-- A timeout with the calls so far. -/
structure Logged where
  at_ : AdaptiveTimeout
  adds : List Add

/-- A call with a value, not before the calls so far. -/
inductive Step (p : Params) : Logged → Add → Logged → Prop where
  | add {s : Logged} {a : Add} {at' : AdaptiveTimeout} :
      (∀ b ∈ s.adds, b.now ≤ a.now) → a.val ≠ 0 → s.at_.atAdd p a.val a.t a.now = .ok at' →
      Step p s a ⟨at', s.adds ++ [a]⟩

/-- The second of a call. -/
def Add.secs (p : Params) (a : Add) : Nat := a.now / p.timeUnit

/-- The second of the first call. -/
def origin (p : Params) (adds : List Add) : Nat := (adds.head?.map (Add.secs p)).getD 0

/-- The number of the sub-window of a call. The first call is in the sub-window 0. -/
def subWindow (p : Params) (adds : List Add) (a : Add) : Nat :=
  (a.secs p - origin p adds) / p.step

/-- The largest value of a list, and 0 of an empty one. -/
def largest (l : List Nat) : Nat := l.foldr Nat.max 0

/-- `at_max` is the largest value of the last sub-windows up to the one of the last call, and the
largest one in `at_hist`. -/
structure Exact (p : Params) (s : Logged) : Prop where
  window : ∀ a, s.adds.getLast? = some a → s.at_.max =
    largest ((s.adds.filter fun b =>
      decide (subWindow p s.adds a < subWindow p s.adds b + atWindCnt)).map Add.val)
  hist : s.adds ≠ [] → s.at_.max = largest s.at_.hist
  length : s.at_.hist.length = atWindCnt

/-- `at_start` is set unless there is no value yet, and the distance to it fits into an `int`. -/
structure Started (p : Params) (at_ : AdaptiveTimeout) (now : Nat) : Prop where
  start : at_.start = 0 → at_.hist.headD 0 = 0
  fits : at_.start ≠ 0 → (now / p.timeUnit - at_.start) / p.step < 2 ^ 31

/-- The values with their sub-windows. -/
def past (p : Params) (adds : List Add) : List (Nat × Nat) :=
  adds.map fun a => (subWindow p adds a, a.val)

/-- The windows after the call `a`. -/
structure Windowed (p : Params) (s : Logged) (a : Add) : Prop where
  slides : Slides atWindCnt s.at_.hist (subWindow p s.adds a) (past p s.adds)
  start : s.at_.start = origin p s.adds + subWindow p s.adds a * p.step
  max : s.at_.max = supAll s.at_.hist
  first : origin p s.adds ≤ a.secs p
  noted : s.at_.hist.headD 0 ≠ 0

/-- The windows before the first call and after each one. -/
structure Inv (p : Params) (s : Logged) : Prop where
  flags : s.at_.flags = .max
  fresh : s.adds = [] → s.at_.start = 0 ∧ s.at_.hist = List.replicate atWindCnt 0
  windowed : ∀ a, s.adds.getLast? = some a → Windowed p s a

/-- A later call does not change the numbers of the sub-windows. -/
theorem subWindow_snoc {adds : List Add} (hne : adds ≠ []) (a b : Add) :
    subWindow p (adds ++ [a]) b = subWindow p adds b := by
  unfold subWindow origin
  rw [List.head?_append_of_ne_nil _ hne]

/-- The values with one more call. -/
theorem past_snoc {adds : List Add} (hne : adds ≠ []) (a : Add) :
    past p (adds ++ [a]) = past p adds ++ [(subWindow p adds a, a.val)] := by
  unfold past
  rw [List.map_append, List.map_singleton, subWindow_snoc hne]
  congr 1
  exact List.map_congr_left fun b _ => by rw [subWindow_snoc hne]

/-- The first call. -/
theorem windowed_first {at₀ : AdaptiveTimeout} {a : Add} (hval : a.val ≠ 0)
    (hhist : at₀.hist = (List.replicate atWindCnt 0).set 0 a.val) (hmax : at₀.max = a.val)
    (hstart : at₀.start = a.secs p) : Windowed p ⟨at₀, [a]⟩ a := by
  have hself : subWindow p [a] a = 0 := by
    show (a.secs p - a.secs p) / p.step = 0
    rw [Nat.sub_self, Nat.zero_div]
  have hslides := (slides_nil (β := Nat) atWindCnt 0).record (x := 0) rfl a.val
  rw [show (0 : Nat) ⊔ a.val = a.val from bot_sup_eq _] at hslides
  refine ⟨?_, ?_, ?_, Nat.le_refl _, ?_⟩
  · show Slides atWindCnt at₀.hist (subWindow p [a] a) [(subWindow p [a] a, a.val)]
    rw [hhist, hself]
    exact hslides
  · show at₀.start = a.secs p + subWindow p [a] a * p.step
    rw [hself, Nat.zero_mul, hstart]
    rfl
  · show at₀.max = supAll at₀.hist
    rw [hmax, hhist]
    exact (sup_bot_eq a.val).symm
  · show at₀.hist.headD 0 ≠ 0
    rw [hhist]
    exact hval

/-- The distance of a later call to the begin of the current sub-window. -/
theorem Windowed.distance {s : Logged} {a b : Add} (hw : Windowed p s b) (hle : b.now ≤ a.now) :
    (a.secs p - s.at_.start) / p.step = subWindow p s.adds a - subWindow p s.adds b ∧
      subWindow p s.adds b ≤ subWindow p s.adds a := by
  have hsecs : b.secs p ≤ a.secs p := Nat.div_le_div_right hle
  have hmono : b.secs p - origin p s.adds ≤ a.secs p - origin p s.adds :=
    Nat.sub_le_sub_right hsecs _
  refine ⟨?_, Nat.div_le_div_right hmono⟩
  rw [hw.start, Nat.sub_add_eq, Nat.mul_comm, Nat.sub_mul_div]
  rfl

/-- The windows after one more call, in terms of the calls in front of it. -/
theorem Windowed.snoc {s : Logged} {a b : Add} {at' : AdaptiveTimeout} (hw : Windowed p s b)
    (hne : s.adds ≠ []) (hle : b.now ≤ a.now)
    (hslides : Slides atWindCnt at'.hist (subWindow p s.adds a)
      (past p s.adds ++ [(subWindow p s.adds a, a.val)]))
    (hstart : at'.start = origin p s.adds + subWindow p s.adds a * p.step)
    (hmax : at'.max = supAll at'.hist) (hnoted : at'.hist.headD 0 ≠ 0) :
    Windowed p ⟨at', s.adds ++ [a]⟩ a := by
  have hsecs : b.secs p ≤ a.secs p := Nat.div_le_div_right hle
  have horigin : origin p (s.adds ++ [a]) = origin p s.adds := by
    unfold origin
    rw [List.head?_append_of_ne_nil _ hne]
  have hwindow : subWindow p (s.adds ++ [a]) a = subWindow p s.adds a := subWindow_snoc hne a a
  refine ⟨?_, ?_, hmax, ?_, hnoted⟩
  · show Slides atWindCnt at'.hist (subWindow p (s.adds ++ [a]) a) (past p (s.adds ++ [a]))
    rw [hwindow, past_snoc hne]
    exact hslides
  · show at'.start = origin p (s.adds ++ [a]) + subWindow p (s.adds ++ [a]) a * p.step
    rw [hstart, horigin, hwindow]
  · show origin p (s.adds ++ [a]) ≤ a.secs p
    rw [horigin]
    exact Nat.le_trans hw.first hsecs

/-- There is a current sub-window. -/
theorem Windowed.head? {s : Logged} {b : Add} (hw : Windowed p s b) :
    s.at_.hist.head? = some (s.at_.hist.headD 0) := by
  cases hhist : s.at_.hist with
  | nil =>
      have hlen := hw.slides.length
      rw [hhist] at hlen
      exact absurd hlen (by decide)
  | cons x l => rfl

/-- A later call goes on with the windows. -/
theorem Windowed.next {s : Logged} {a b : Add} {r : AdaptiveTimeout × Bool} {e : Nat}
    (hw : Windowed p s b) (hne : s.adds ≠ []) (hle : b.now ≤ a.now) (hval : a.val ≠ 0)
    (hstarted : Started p s.at_ a.now) (hadd : s.at_.addValue p a.val a.t a.now = .ok r) :
    Windowed p ⟨{ r.1 with estimate := e }, s.adds ++ [a]⟩ a := by
  obtain ⟨hdist, hmono⟩ := hw.distance hle
  rcases addValue_cases hadd with ⟨hzero, -⟩ | ⟨-, hsame, hhist, hmax, hstart⟩ |
    ⟨shift, hpos, hshift, hgt, hlater, hhist, hmax, hstart⟩
  · exact absurd (hstarted.start hzero) hw.noted
  · -- the sub-window of the last call
    have hk : subWindow p s.adds a = subWindow p s.adds b := by
      have hnone : (a.secs p - s.at_.start) / p.step = 0 := Nat.div_eq_of_lt hsame
      omega
    have hhead := hw.head?
    have hslides := hw.slides.record hhead a.val
    have hsup := supAll_record hhead a.val
    apply hw.snoc hne hle
    · show Slides atWindCnt r.1.hist _ _
      rw [hhist, hk]
      exact hslides
    · show r.1.start = _
      rw [hstart, hk]
      exact hw.start
    · show r.1.max = supAll r.1.hist
      rw [hmax, hhist, hsup, ← hw.max]
      split
      · exact sup_comm _ _
      · rename_i hless
        refine (sup_eq_left.mpr (Nat.le_trans (Nat.not_lt.mp hless) ?_)).symm
        rw [hw.max]
        exact le_supAll (List.mem_of_head? hhead)
    · show r.1.hist.headD 0 ≠ 0
      rw [hhist]
      cases hl : s.at_.hist with
      | nil =>
          rw [hl] at hhead
          cases hhead
      | cons x l =>
          show x ⊔ a.val ≠ 0
          exact fun h => hval (Nat.le_zero.mp (le_trans le_sup_right (le_of_eq h)))
  · -- a later one
    have hshift' : shift = (subWindow p s.adds a - subWindow p s.adds b : Nat) := by
      rw [← hshift, ← hdist]
      exact toInt32_eq (hstarted.fits hpos)
    have hk : subWindow p s.adds a = subWindow p s.adds b + shift.toNat := by omega
    have hmin : min shift.toNat atWindCnt ≠ 0 := by
      unfold atWindCnt
      omega
    obtain ⟨m, hm⟩ := Nat.exists_eq_succ_of_ne_zero hmin
    have hzero : (List.replicate (min shift.toNat atWindCnt) 0 ++
        s.at_.hist.take (atWindCnt - shift.toNat)).head? = some 0 := by
      rw [hm]
      rfl
    have hslides := (hw.slides.shift shift.toNat).record hzero a.val
    have hsup := supAll_record hzero a.val
    rw [show (0 : Nat) ⊔ a.val = a.val from bot_sup_eq _] at hslides hsup
    apply hw.snoc hne hle
    · show Slides atWindCnt r.1.hist _ _
      rw [hhist, hk]
      exact hslides
    · show r.1.start = _
      rw [hstart, hk, hw.start, Nat.add_mul, Nat.add_assoc]
    · show r.1.max = supAll r.1.hist
      rw [hmax, hhist, hsup, foldl_max, supAll_append]
      rw [show supAll (List.replicate (min shift.toNat atWindCnt) 0) = (0 : Nat) from
        supAll_replicate_bot _, sup_comm, show (0 : Nat) ⊔ _ = _ from bot_sup_eq _]
    · show r.1.hist.headD 0 ≠ 0
      rw [hhist, hm]
      exact hval

/-- A timeout set up by `at_init`. -/
theorem inv_start (v : Nat) : Inv p ⟨atInit v .max, []⟩ :=
  ⟨rfl, fun _ => ⟨rfl, rfl⟩, fun _ h => nomatch h⟩

/-- Every call keeps the windows. -/
theorem Inv.step {s s' : Logged} {a : Add} (h : Inv p s) (hstarted : Started p s.at_ a.now)
    (hcall : Step p s a s') : Inv p s' := by
  cases hcall with
  | @add at' hlater hval hadd =>
      have hunit : p.timeUnit ≠ 0 := by
        intro hzero
        unfold atAdd at hadd
        rw [if_neg (by rw [h.flags]; decide)] at hadd
        obtain ⟨_, hcheck, -⟩ := bind_eq_ok.mp hadd
        exact check_eq_ok.mp hcheck hzero
      have hflags : s.at_.flags ≠ .queuedRpc ∧ s.at_.flags ≠ .fixed := by
        rw [h.flags]
        decide
      rcases atAdd_eq a.t a.now hflags hval hunit with
        ⟨f, -, hfail⟩ | ⟨r, e, hvalue, hok⟩
      · rw [hfail] at hadd
        cases hadd
      rw [hok] at hadd
      cases hadd
      refine ⟨(addValue_flags hvalue).trans h.flags, (fun hnil => absurd hnil (by simp)), ?_⟩
      intro a' ha'
      rw [List.getLast?_concat] at ha'
      cases ha'
      cases hlast : s.adds.getLast? with
      | some b =>
          have hb : b ∈ s.adds := List.mem_of_getLast? hlast
          exact (h.windowed b hlast).next (List.ne_nil_of_mem hb) (hlater b hb) hval hstarted hvalue
      | none =>
          have hnil : s.adds = [] := List.getLast?_eq_none_iff.mp hlast
          obtain ⟨hstart, hhist⟩ := h.fresh hnil
          rcases addValue_cases hvalue with ⟨-, hhist', hmax, hstart'⟩ | ⟨hpos, -⟩ | ⟨_, hpos, -⟩
          · rw [hnil]
            exact windowed_first hval (hhist'.trans (by rw [hhist])) hmax hstart'
          · exact absurd hstart hpos
          · exact absurd hstart hpos

/-- The windows give the largest value. -/
theorem Inv.exact {s : Logged} (h : Inv p s) : Exact p s := by
  refine ⟨fun a hlast => ?_, fun hne => ?_, ?_⟩
  · have hw := h.windowed a hlast
    rw [hw.max, hw.slides.supAll_eq]
    unfold supWhere past
    rw [List.filter_map, List.map_map]
    rfl
  · obtain ⟨a, hlast⟩ := Option.ne_none_iff_exists'.mp (mt List.getLast?_eq_none_iff.mp hne)
    exact (h.windowed a hlast).max
  · cases hlast : s.adds.getLast? with
    | none =>
        rw [(h.fresh (List.getLast?_eq_none_iff.mp hlast)).2]
        rfl
    | some a => exact (h.windowed a hlast).slides.length

/-- **The window maximum.** In every run whose calls find `at_start` set once there is a value, and
not `2 ^ 31` sub-windows back, `at_max` is exact after each call, and the next such call returns. -/
theorem window_max {v : Nat} {adds : List Add} {s : Logged} (hstep : 0 < p.step)
    (hunit : 0 < p.timeUnit)
    (hrun : Run (fun s a t => Started p s.at_ a.now ∧ Step p s a t) ⟨atInit v .max, []⟩ adds s) :
    Exact p s ∧ ∀ a : Add, (∀ b ∈ s.adds, b.now ≤ a.now) → a.val ≠ 0 → Started p s.at_ a.now →
      ∃ s', Step p s a s' := by
  have hinv : Inv p s := hrun.invariant
    (fun _ _ _ h hcall => h.step hcall.1 hcall.2) (inv_start v)
  refine ⟨hinv.exact, fun a hlater hval hstarted => ?_⟩
  have hflags : s.at_.flags ≠ .queuedRpc ∧ s.at_.flags ≠ .fixed := by
    rw [hinv.flags]
    decide
  obtain ⟨r, hr⟩ := exists_addValue a.val a.t hstep (or_iff_not_imp_left.mpr hstarted.fits)
  rcases atAdd_eq a.t a.now hflags hval (Nat.ne_of_gt hunit) with
    ⟨f, hfail, -⟩ | ⟨r', e, -, hok⟩
  · rw [hr] at hfail
    cases hfail
  · exact ⟨_, .add hlater hval hok⟩

/-- The parameters of the source, with a trivial fit. -/
def exampleParams : Params := ⟨1000000000, 600, 5, fun at_ _ => at_.estimate⟩

/-- Two values in the second 1, and one in the next sub-window. -/
theorem window_max_two :
    ∃ s, Run (fun s a t => Started exampleParams s.at_ a.now ∧ Step exampleParams s a t)
        ⟨atInit 0 .max, []⟩ [⟨7, 0, 1000000000⟩, ⟨9, 0, 1000000000⟩, ⟨3, 0, 7000000000⟩] s ∧
      s.at_.max = 9 ∧ Exact exampleParams s ∧
      ∀ a : Add, (∀ b ∈ s.adds, b.now ≤ a.now) → a.val ≠ 0 → Started exampleParams s.at_ a.now →
        ∃ s', Step exampleParams s a s' := by
  have hrun : ∃ s, Run (fun s a t => Started exampleParams s.at_ a.now ∧ Step exampleParams s a t)
      ⟨atInit 0 .max, []⟩ [⟨7, 0, 1000000000⟩, ⟨9, 0, 1000000000⟩, ⟨3, 0, 7000000000⟩] s ∧
      s.at_.max = 9 :=
    ⟨_, .cons ⟨⟨by decide, by decide⟩, .add (by decide) (by decide) rfl⟩ <|
      .cons ⟨⟨by decide, by decide⟩, .add (by decide) (by decide) rfl⟩ <|
      .cons ⟨⟨by decide, by decide⟩, .add (by decide) (by decide) rfl⟩ (.nil _), rfl⟩
  obtain ⟨s, hrun, hmax⟩ := hrun
  exact ⟨s, hrun, hmax, window_max (by decide) (by decide) hrun⟩

/-- Two values in the second 0: the second one starts anew and forgets the first. -/
theorem max_forgotten :
    ¬ ∀ (p : Params) (v : Nat) (adds : List Add) (s : Logged), 0 < p.step → 0 < p.timeUnit →
      Run (Step p) ⟨atInit v .max, []⟩ adds s → Exact p s := by
  intro hall
  have hrun : ∃ s, Run (Step exampleParams) ⟨atInit 0 .max, []⟩ [⟨10, 0, 0⟩, ⟨3, 0, 0⟩] s ∧
      s.adds = [⟨10, 0, 0⟩, ⟨3, 0, 0⟩] ∧ s.at_.max = 3 :=
    ⟨_, .cons (.add (by decide) (by decide) rfl) <| .cons (.add (by decide) (by decide) rfl)
      (.nil _), rfl, rfl⟩
  obtain ⟨s, hrun, hadds, hmax⟩ := hrun
  have hwindow := (hall _ _ _ s (by decide) (by decide) hrun).window ⟨3, 0, 0⟩ (by rw [hadds]; rfl)
  rw [hmax, hadds] at hwindow
  exact absurd hwindow (by decide)

end LustreSimulator.AdaptiveTimeout
