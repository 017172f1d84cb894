import LustreSimulator.LdlmEnqueue
import LustreSimulator.Proofs.LdlmPolicy
import Mathlib.Data.List.Induction

/-!
# `LustreSimulator.Proofs.LdlmWaiting`: the waiting locks and the extent that is granted

`ldlm_extent_internal_policy_waiting` takes a turn for each waiting lock. The start of `new_ex` only
moves up, and the request always stays inside. The end is different. A lock that reaches over the
end of the request sets the end of `new_ex` to the place in front of its own requested extent, also
where this place lies behind the end of `new_ex`. The policy for the granted locks takes a minimum
there.

`Turned` says what is known of `new_ex` when a part of the queue has had its turns, in terms of the
queue alone. `waitingTurn_turned` is one turn. `waiting_within_iff` is the loop: it leaves `new_ex`
inside its input value exactly if each lock that raises the end over this value is followed by one
that lowers it, or a part at the front has cut `new_ex` down to the request, where the loop returns.

The queue can be any list of locks with any extents, as `replayed_run` shows: a lock that is replayed
goes to its end without a question.
-/

set_option autoImplicit false

namespace LustreSimulator

open Lib

namespace Ldlm

variable {s : Resource} {req l : Nat} {newEx e : IntervalExtent} {b : Nat} {c : Int} {p ls : List Nat}

/-! ### What a waiting lock does -/

/-- The waiting lock counts as a conflict with the request. -/
def Contends (s : Resource) (req l : Nat) : Prop :=
  req ≠ l ∧ ¬ (lockmodeCompat (s.locks l).reqMode (s.locks req).reqMode = true ∧
    (s.locks l).client ≠ (s.locks req).client)

instance (s : Resource) (req l : Nat) : Decidable (Contends s req l) :=
  inferInstanceAs (Decidable (_ ∧ _))

/-- The waiting lock may limit the extent: it conflicts, though not in the requested extents. -/
def Limits (s : Resource) (req l : Nat) : Prop :=
  Contends s req l ∧ (s.locks l).reqExtent.overlapped (s.locks req).reqExtent = false

/-- The waiting lock puts the end of the extent behind `b`: it reaches over the end of the request,
and its own request starts behind `b + 1`, or at 0. -/
def Raises (s : Resource) (req b l : Nat) : Prop :=
  Limits s req l ∧ (s.locks l).extent.start ≤ (s.locks req).reqExtent.end_ ∧
    (s.locks req).reqExtent.end_ < (s.locks l).extent.end_ ∧
    b < sub64 (s.locks l).reqExtent.start 1

/-- The waiting lock puts the end of the extent to `b` or in front of it. -/
def Lowers (s : Resource) (req b l : Nat) : Prop :=
  Limits s req l ∧ (s.locks req).reqExtent.end_ < (s.locks l).extent.end_ ∧
    if (s.locks l).extent.start ≤ (s.locks req).reqExtent.end_ then
      sub64 (s.locks l).reqExtent.start 1 ≤ b
    else (s.locks l).extent.start ≤ b + 1

/-- After the turns of the locks `p` the extent ends at `b` or in front of it: the last lock that
raises the end over `b` is followed by one that lowers it. -/
def EndsBy (s : Resource) (req : Nat) (newEx : IntervalExtent) (b : Nat) (p : List Nat) : Prop :=
  (newEx.end_ ≤ b ∧ ∀ i ∈ p, ¬ Raises s req b i) ∨
    ∃ p₁ i p₂, p = p₁ ++ i :: p₂ ∧ Lowers s req b i ∧ ∀ k ∈ p₂, ¬ Raises s req b k

/-- After the turns of the locks `p` the extent starts with the request: there are more than 4
conflicts, or a lock in front of the request ends next to it or in it. -/
def StartsAtRequest (s : Resource) (req : Nat) (newEx : IntervalExtent) (p : List Nat) : Prop :=
  newEx.start = (s.locks req).reqExtent.start ∨ 4 < p.countP (fun i => decide (Contends s req i)) ∨
    ∃ i ∈ p, Limits s req i ∧ (s.locks i).extent.start < (s.locks req).reqExtent.start ∧
      (s.locks req).reqExtent.start ≤ (s.locks i).extent.end_ + 1

/-- The turns of the locks `p` leave nothing but the request. -/
def CutDown (s : Resource) (req : Nat) (newEx : IntervalExtent) (p : List Nat) : Prop :=
  StartsAtRequest s req newEx p ∧ EndsBy s req newEx (s.locks req).reqExtent.end_ p

/-- One more turn: the last lock decides, where it moves the end over `b`. -/
theorem endsBy_concat :
    EndsBy s req newEx b (p ++ [l]) ↔
      Lowers s req b l ∨ (EndsBy s req newEx b p ∧ ¬ Raises s req b l) := by
  constructor
  · rintro (⟨hend, hp⟩ | ⟨p₁, i, p₂, heq, hi, hp₂⟩)
    · exact .inr ⟨.inl ⟨hend, fun i hi => hp i (List.mem_append_left _ hi)⟩, hp l (by simp)⟩
    · rcases List.eq_nil_or_concat p₂ with rfl | ⟨p₂, k, rfl⟩
      · obtain ⟨-, hl⟩ := List.append_inj' heq rfl
        cases hl
        exact .inl hi
      · rw [List.concat_eq_append, ← List.cons_append, ← List.append_assoc] at heq
        obtain ⟨rfl, hl⟩ := List.append_inj' heq rfl
        cases hl
        exact .inr ⟨.inr ⟨p₁, i, p₂, rfl, hi, fun k hk => hp₂ k (by simp [hk])⟩, hp₂ l (by simp)⟩
  · rintro (hl | ⟨⟨hend, hp⟩ | ⟨p₁, i, p₂, rfl, hi, hp₂⟩, hl⟩)
    · exact .inr ⟨p, l, [], rfl, hl, by simp⟩
    · refine .inl ⟨hend, fun i hi => ?_⟩
      rcases List.mem_append.mp hi with hi | hi
      · exact hp i hi
      · rwa [List.mem_singleton.mp hi]
    · refine .inr ⟨p₁, i, p₂ ++ [l], by simp, hi, fun k hk => ?_⟩
      rcases List.mem_append.mp hk with hk | hk
      · exact hp₂ k hk
      · rwa [List.mem_singleton.mp hk]

/-! ### One turn -/

/-- With more than 4 conflicts the extent starts with the request. -/
def cutStart (mine : Lock) (c : Int) (e : IntervalExtent) : IntervalExtent :=
  if c > 4 then { e with start := mine.reqExtent.start } else e

@[simp]
theorem cutStart_end (mine : Lock) : (cutStart mine c e).end_ = e.end_ := by
  unfold cutStart
  split <;> rfl

theorem cutStart_start (mine : Lock) :
    (cutStart mine c e).start = if c > 4 then mine.reqExtent.start else e.start := by
  unfold cutStart
  split <;> rfl

/-- Cutting off the start keeps the request. -/
theorem cutStart_within {mine : Lock} (hin : mine.reqExtent.Within e) :
    mine.reqExtent.Within (cutStart mine c e) := by
  refine ⟨?_, by simpa using hin.2⟩
  rw [cutStart_start]
  split
  · exact Nat.le_refl _
  · exact hin.1

/-- The turn of the lock `l`, with `new_ex` and `conflicting`. -/
def waitingTurn (s : Resource) (req l : Nat) (e : IntervalExtent) (c : Int) :
    IntervalExtent × Int :=
  let mine := s.locks req
  let lock := s.locks l
  if Contends s req l then
    let e := cutStart mine (c + 1) e
    if lock.extent.overlapped e = true ∧ lock.reqExtent.overlapped mine.reqExtent = false then
      (limitBy mine lock e, c + 1)
    else (e, c + 1)
  else (e, c)

/-- The loop takes its turns until the request is left. -/
theorem policyWaitingLoop_cons :
    policyWaitingLoop s req (l :: ls) e c =
      if e = (s.locks req).reqExtent then (e, none)
      else policyWaitingLoop s req ls (waitingTurn s req l e c).1 (waitingTurn s req l e c).2 := by
  rw [policyWaitingLoop, waitingTurn]
  dsimp only
  unfold Contends cutStart
  split_ifs <;> first | rfl | simp_all

/-- What is known of `new_ex` and `conflicting` after the turns of the locks `p`. -/
structure Turned (s : Resource) (req : Nat) (newEx : IntervalExtent) (p : List Nat)
    (e : IntervalExtent) (c : Int) : Prop where
  count : c = p.countP (fun i => decide (Contends s req i))
  start_le : newEx.start ≤ e.start
  inside : (s.locks req).reqExtent.Within e
  end_lt : e.end_ < 2 ^ 64
  starts : e.start = (s.locks req).reqExtent.start ↔ StartsAtRequest s req newEx p
  ends : ∀ b, (s.locks req).reqExtent.end_ ≤ b → (e.end_ ≤ b ↔ EndsBy s req newEx b p)

/-- Before the first turn. -/
theorem Turned.nil (hin : (s.locks req).reqExtent.Within newEx) (hend : newEx.end_ < 2 ^ 64) :
    Turned s req newEx [] newEx 0 where
  count := rfl
  start_le := Nat.le_refl _
  inside := hin
  end_lt := hend
  starts := by simp [StartsAtRequest]
  ends := by simp [EndsBy]

/-- A lock that is not in front of the request leaves the start, and one that is moves it up, to the
start of the request at most. -/
theorem limitBy_start {mine lock : Lock} (hin : mine.reqExtent.Within e)
    (hlt : mine.reqExtent.start < 2 ^ 64) (hover : lock.extent.overlapped e = true) :
    (limitBy mine lock e).start =
      if lock.extent.start < mine.reqExtent.start then
        max e.start (min (lock.extent.end_ + 1) mine.reqExtent.start)
      else e.start := by
  have hstart := hin.1
  simp only [IntervalExtent.overlapped, Bool.and_eq_true, decide_eq_true_eq] at hover
  have hadd : lock.extent.end_ < mine.reqExtent.start →
      add64 lock.extent.end_ 1 = lock.extent.end_ + 1 := fun _ => add64_eq (by omega)
  unfold limitBy
  dsimp only
  split_ifs <;> (try dsimp only at *) <;> omega

/-- A lock that reaches over the end of the request sets the end to the place in front of its own
request, and a lock behind the request only moves the end down. -/
theorem limitBy_end {mine lock : Lock} (hend : e.end_ < 2 ^ 64)
    (hover : lock.extent.overlapped e = true) :
    (limitBy mine lock e).end_ =
      if lock.extent.end_ ≤ mine.reqExtent.end_ then e.end_
      else if lock.extent.start ≤ mine.reqExtent.end_ then
        max (sub64 lock.reqExtent.start 1) mine.reqExtent.end_
      else lock.extent.start - 1 := by
  simp only [IntervalExtent.overlapped, Bool.and_eq_true, decide_eq_true_eq] at hover
  have hsub : mine.reqExtent.end_ < lock.extent.start →
      sub64 lock.extent.start 1 = lock.extent.start - 1 :=
    fun _ => sub64_eq (by omega) (by omega)
  unfold limitBy
  dsimp only
  split_ifs <;> (try dsimp only at *) <;> omega

/-- What a turn can do: nothing, when the lock does not contend; otherwise the extent `e'`, whose
start may be cut, is limited by the lock or left. -/
theorem waitingTurn_cases (hin : (s.locks req).reqExtent.Within e) :
    (¬ Contends s req l ∧ waitingTurn s req l e c = (e, c)) ∨
    (Contends s req l ∧ ∃ e', (s.locks req).reqExtent.Within e' ∧ e'.end_ = e.end_ ∧
      e'.start = (if c + 1 > 4 then (s.locks req).reqExtent.start else e.start) ∧
      (((s.locks l).extent.overlapped e' = true ∧
          (s.locks l).reqExtent.overlapped (s.locks req).reqExtent = false ∧
          waitingTurn s req l e c = (limitBy (s.locks req) (s.locks l) e', c + 1)) ∨
        (¬ ((s.locks l).extent.overlapped e' = true ∧
            (s.locks l).reqExtent.overlapped (s.locks req).reqExtent = false) ∧
          waitingTurn s req l e c = (e', c + 1)))) := by
  unfold waitingTurn
  dsimp only
  split
  · rename_i hcontends
    refine .inr ⟨hcontends, _, cutStart_within hin, cutStart_end _, cutStart_start _, ?_⟩
    split
    · rename_i hover
      exact .inl ⟨hover.1, hover.2, rfl⟩
    · rename_i hover
      exact .inr ⟨hover, rfl⟩
  · rename_i hcontends
    exact .inl ⟨hcontends, rfl⟩

/-- The end after a turn. -/
theorem waitingTurn_ends (hreq : (s.locks req).reqExtent.start ≤ (s.locks req).reqExtent.end_)
    (hin : (s.locks req).reqExtent.Within e) (hend : e.end_ < 2 ^ 64)
    (hb : (s.locks req).reqExtent.end_ ≤ b) :
    (waitingTurn s req l e c).1.end_ ≤ b ↔
      Lowers s req b l ∨ (e.end_ ≤ b ∧ ¬ Raises s req b l) := by
  unfold Lowers Raises Limits
  rcases @waitingTurn_cases s req l e c hin with ⟨hcontends, hturn⟩ |
    ⟨hcontends, e', hcut, hcutend, -, ⟨hover, hapart, hturn⟩ | ⟨hover, hturn⟩⟩
  · rw [hturn]
    simp [hcontends]
  · rw [hturn, limitBy_end (hcutend ▸ hend) hover, hcutend]
    simp only [IntervalExtent.overlapped, Bool.and_eq_true, decide_eq_true_eq] at hover
    simp only [hcontends, hapart, true_and]
    split_ifs <;> omega
  · -- a lock that reaches over the end of the request overlaps the extent
    rw [hturn, hcutend]
    obtain ⟨hstart, hend'⟩ := hcut
    simp only [hcontends, true_and, IntervalExtent.overlapped, Bool.and_eq_true,
      Bool.and_eq_false_iff, decide_eq_true_eq, decide_eq_false_iff_not] at hover ⊢
    split_ifs <;> omega

/-- The start after a turn. -/
theorem waitingTurn_start (hreq : (s.locks req).reqExtent.start ≤ (s.locks req).reqExtent.end_)
    (hin : (s.locks req).reqExtent.Within e) (hend : e.end_ < 2 ^ 64) :
    e.start ≤ (waitingTurn s req l e c).1.start ∧
    (waitingTurn s req l e c).1.start ≤ (s.locks req).reqExtent.start ∧
    ((waitingTurn s req l e c).1.start = (s.locks req).reqExtent.start ↔
      e.start = (s.locks req).reqExtent.start ∨ (Contends s req l ∧ 4 < c + 1) ∨
        (Limits s req l ∧ (s.locks l).extent.start < (s.locks req).reqExtent.start ∧
          (s.locks req).reqExtent.start ≤ (s.locks l).extent.end_ + 1)) := by
  have hle := hin.1
  unfold Limits
  rcases @waitingTurn_cases s req l e c hin with ⟨hcontends, hturn⟩ |
    ⟨hcontends, e', ⟨hstart', hend'⟩, hcutend, hcutstart, ⟨hover, hapart, hturn⟩ | ⟨hover, hturn⟩⟩
  · rw [hturn]
    simp [hcontends, hle]
  · rw [hturn, limitBy_start ⟨hstart', hend'⟩ (by omega) hover]
    simp only [IntervalExtent.overlapped, Bool.and_eq_true, decide_eq_true_eq] at hover
    simp only [hcontends, hapart, true_and]
    split_ifs at hcutstart ⊢ <;> omega
  · -- a lock that ends next to the request overlaps an extent that starts in front of it
    rw [hturn]
    simp only [hcontends, true_and, IntervalExtent.overlapped, Bool.and_eq_true,
      Bool.and_eq_false_iff, decide_eq_true_eq, decide_eq_false_iff_not] at hover ⊢
    split_ifs at hcutstart <;> omega

/-- The end stays behind the request, and a word. -/
theorem waitingTurn_end (hin : (s.locks req).reqExtent.Within e) (hend : e.end_ < 2 ^ 64) :
    (s.locks req).reqExtent.end_ ≤ (waitingTurn s req l e c).1.end_ ∧
      (waitingTurn s req l e c).1.end_ < 2 ^ 64 := by
  rcases @waitingTurn_cases s req l e c hin with ⟨-, hturn⟩ |
    ⟨-, e', hcut, hcutend, -, ⟨hover, -, hturn⟩ | ⟨-, hturn⟩⟩
  · rw [hturn]
    exact ⟨hin.2, hend⟩
  · have hword := sub64_lt (s.locks l).reqExtent.start 1
    have hle := hcut.2
    rw [hturn, limitBy_end (hcutend ▸ hend) hover]
    simp only [IntervalExtent.overlapped, Bool.and_eq_true, decide_eq_true_eq] at hover
    split_ifs <;> omega
  · rw [hturn]
    exact ⟨hcut.2, hcutend ▸ hend⟩

/-- A lock that contends is counted. -/
theorem waitingTurn_snd :
    (waitingTurn s req l e c).2 = if Contends s req l then c + 1 else c := by
  unfold waitingTurn
  dsimp only
  split_ifs <;> rfl

/-- One turn for what is known of the start. -/
theorem startsAtRequest_concat :
    StartsAtRequest s req newEx (p ++ [l]) ↔ StartsAtRequest s req newEx p ∨
      (Contends s req l ∧ 4 < p.countP (fun i => decide (Contends s req i)) + 1) ∨
        (Limits s req l ∧ (s.locks l).extent.start < (s.locks req).reqExtent.start ∧
          (s.locks req).reqExtent.start ≤ (s.locks l).extent.end_ + 1) := by
  have hcount : 4 < (p ++ [l]).countP (fun i => decide (Contends s req i)) ↔
      4 < p.countP (fun i => decide (Contends s req i)) ∨
        (Contends s req l ∧ 4 < p.countP (fun i => decide (Contends s req i)) + 1) := by
    by_cases hl : Contends s req l
    · simp [hl]
      omega
    · simp [hl]
  unfold StartsAtRequest
  rw [hcount]
  simp only [List.mem_append, List.mem_singleton, or_and_right, exists_or, exists_eq_left]
  simp only [or_assoc, or_left_comm, or_comm]

/-- **One turn.** -/
theorem waitingTurn_turned (hreq : (s.locks req).reqExtent.start ≤ (s.locks req).reqExtent.end_)
    (h : Turned s req newEx p e c) :
    Turned s req newEx (p ++ [l]) (waitingTurn s req l e c).1 (waitingTurn s req l e c).2 := by
  obtain ⟨hle, hle', hstarts⟩ := waitingTurn_start (l := l) (c := c) hreq h.inside h.end_lt
  have hends := fun b hb => waitingTurn_ends (l := l) (c := c) (b := b) hreq h.inside h.end_lt hb
  obtain ⟨hend, hend'⟩ := waitingTurn_end (l := l) (c := c) h.inside h.end_lt
  refine ⟨?_, Nat.le_trans h.start_le hle, ⟨hle', hend⟩, hend', ?_, ?_⟩
  · rw [waitingTurn_snd, h.count, List.countP_append, List.countP_singleton]
    by_cases hl : Contends s req l
    · simp [hl]
    · simp [hl]
  · rw [hstarts, startsAtRequest_concat, h.starts, h.count]
    norm_cast
  · intro b hb
    rw [hends b hb, endsBy_concat, h.ends b hb]

/-- The rest of the loop. -/
theorem policyWaitingLoop_end
    (hreq : (s.locks req).reqExtent.start ≤ (s.locks req).reqExtent.end_)
    (hin : (s.locks req).reqExtent.end_ ≤ newEx.end_) (h : Turned s req newEx p e c) :
    newEx.start ≤ (policyWaitingLoop s req ls e c).1.start ∧
    (s.locks req).reqExtent.Within (policyWaitingLoop s req ls e c).1 ∧
    ((policyWaitingLoop s req ls e c).1.end_ ≤ newEx.end_ ↔
      (∃ q, q <+: ls ∧ CutDown s req newEx (p ++ q)) ∨
        EndsBy s req newEx newEx.end_ (p ++ ls)) := by
  -- an extent that is cut down to the request ends with it
  have hcut : ∀ {p' e' c'}, Turned s req newEx p' e' c' → CutDown s req newEx p' →
      e'.end_ ≤ newEx.end_ := fun h' hc =>
    Nat.le_trans ((h'.ends _ (Nat.le_refl _)).mpr hc.2) hin
  induction ls generalizing p e c with
  | nil =>
      rw [policyWaitingLoop]
      refine ⟨h.start_le, h.inside, ?_⟩
      rw [h.ends _ hin, List.append_nil]
      constructor
      · exact .inr
      · rintro (⟨q, hq, hc⟩ | hends)
        · rw [List.prefix_nil.mp hq, List.append_nil] at hc
          exact (h.ends _ hin).mp (hcut h hc)
        · exact hends
  | cons l ls ih =>
      rw [policyWaitingLoop_cons]
      split
      · -- the loop returns with the request
        rename_i he
        have hc : CutDown s req newEx p :=
          ⟨h.starts.mp (by rw [he]), (h.ends _ (Nat.le_refl _)).mp (by rw [he])⟩
        exact ⟨h.start_le, h.inside, iff_of_true (hcut h hc)
          (.inl ⟨[], List.nil_prefix, by rwa [List.append_nil]⟩)⟩
      · rename_i he
        have hnot : ¬ CutDown s req newEx p := fun hc => he (by
          have hs := h.starts.mpr hc.1
          have hf := (h.ends _ (Nat.le_refl _)).mpr hc.2
          have := h.inside.2
          cases e
          simp only at hs hf this
          rw [hs, Nat.le_antisymm hf this])
        obtain ⟨hstart, hinside, hiff⟩ := ih (waitingTurn_turned hreq h)
        refine ⟨hstart, hinside, ?_⟩
        rw [hiff, List.append_assoc, List.singleton_append]
        refine or_congr_left ⟨?_, ?_⟩
        · rintro ⟨q, hq, hc⟩
          exact ⟨l :: q, (List.prefix_cons_inj l).mpr hq, by simpa using hc⟩
        · rintro ⟨q, hq, hc⟩
          rcases List.prefix_cons_iff.mp hq with rfl | ⟨q, rfl, hq'⟩
          · rw [List.append_nil] at hc
            exact absurd hc hnot
          · exact ⟨q, hq', by simpa using hc⟩

/-! ### The queues -/

/-- A lock that is replayed as a waiting one leaves its list and joins the waiting queue. -/
theorem lockEnqueue_replay {q : Queues} (prm : Params)
    (hunlink : resourceUnlinkLock q.res l = .ok s) (hnode : (s.locks l).treeNode ≠ none) :
    lockEnqueue prm false 0 q l (Call.replayWaiting l).flags =
      (resourceAddWaiting s l).bind fun t =>
        .ok (⟨t, q.converting.erase l⟩, (Call.replayWaiting l).flags, 0) := by
  have hset : setLock s l { s.locks l with discardData := (s.locks l).discardData || false } =
      s := by
    rw [Bool.or_false]
    exact setLock_self s l
  dsimp only [lockEnqueue, Call.replayWaiting]
  rw [if_neg (by simp), hunlink, Except.bind]
  rw [if_neg hnode, hset, if_neg (by decide), if_pos (by decide), enqueueAs, if_neg (by decide),
    if_pos rfl]
  cases resourceAddWaiting s l <;> rfl

/-- It goes to the end of the queue. -/
theorem replay_step {locks : Nat → Lock} (prm : Params) (hnew : l ∉ ls)
    (hlive : (locks l).destroyed = false) (hnode : (locks l).treeNode ≠ none) :
    EnqueueStep prm false ⟨{ start locks with waiting := ls }, []⟩ (.replayWaiting l)
      ⟨{ start locks with waiting := ls ++ [l] }, []⟩ := by
  obtain ⟨n, hn⟩ := Option.ne_none_iff_exists'.mp hnode
  have hunlink : resourceUnlinkLock { start locks with waiting := ls } l =
      .ok { start locks with waiting := ls } := by
    have hextent : extentUnlinkLock { start locks with waiting := ls } l =
        .ok { start locks with waiting := ls } := by
      simp [extentUnlinkLock, start, hn]
    rw [resourceUnlinkLock, hextent]
    simp [Except.bind, listDel, start, List.erase_of_not_mem hnew]
  have hlinked : ¬ Linked { start locks with waiting := ls } l := by
    simp [Linked, start, hnew]
  have hadd : resourceAddWaiting { start locks with waiting := ls } l =
      .ok { start locks with waiting := ls ++ [l] } := by
    rw [resourceAddWaiting, if_neg (by simp [start, hlive]), check_true hlinked]
    rfl
  refine ⟨((Call.replayWaiting l).flags, 0), ?_⟩
  rw [show (Call.replayWaiting l).now = 0 from rfl, show (Call.replayWaiting l).l = l from rfl,
    lockEnqueue_replay prm hunlink hnode, hadd]
  rfl

/-- **The queue can be any list of locks.** A server that replays the locks `ls` has them in its
waiting queue, with the extents that they came with. -/
theorem replayed_run {locks : Nat → Lock} (prm : Params) (hnodup : ls.Nodup)
    (hlive : ∀ i ∈ ls, (locks i).destroyed = false ∧ (locks i).treeNode ≠ none) :
    Run (EnqueueStep prm false) ⟨start locks, []⟩ (ls.map Call.replayWaiting)
      ⟨{ start locks with waiting := ls }, []⟩ := by
  induction ls using List.reverseRecOn with
  | nil => exact .nil _
  | append_singleton ls l ih =>
      rw [List.nodup_append] at hnodup
      have hnew : l ∉ ls := fun hl => hnodup.2.2 l hl l (by simp) rfl
      obtain ⟨hl, hl'⟩ := hlive l (by simp)
      rw [List.map_append]
      exact (ih hnodup.1 fun i hi => hlive i (by simp [hi])).snoc (replay_step prm hnew hl hl')

/-! ### The loop -/

/-- **The loop over the waiting locks** keeps the request inside, and it leaves `new_ex` inside its
input value exactly if the last lock that raises the end over this value is followed by one that
lowers it, or a part at the front of the queue cuts `new_ex` down to the request. -/
theorem waiting_within_iff
    (hreq : (s.locks req).reqExtent.start ≤ (s.locks req).reqExtent.end_)
    (hin : (s.locks req).reqExtent.Within newEx) (hend : newEx.end_ < 2 ^ 64) :
    ((policyWaitingLoop s req s.waiting newEx 0).1.Within newEx ∧
      (s.locks req).reqExtent.Within (policyWaitingLoop s req s.waiting newEx 0).1) ↔
    EndsBy s req newEx newEx.end_ s.waiting ∨ ∃ q, q <+: s.waiting ∧ CutDown s req newEx q := by
  obtain ⟨hstart, hinside, hiff⟩ :=
    @policyWaitingLoop_end s req newEx newEx 0 [] s.waiting hreq hin.2 (.nil hin hend)
  simp only [List.nil_append] at hiff
  rw [or_comm, ← hiff]
  exact ⟨fun h => h.1.2, fun h => ⟨⟨hstart, h⟩, hinside⟩⟩

/-- A lock that was granted more than it asked for, and waits again. -/
def largeLock : Lock where
  reqMode := .pw
  grantedMode := none
  client := some 1
  reqExtent := ⟨0x8000, 0xffff⟩
  extent := ⟨0, 0xffff⟩
  gid := 0
  blockingAst := false
  discardData := false
  destroyed := false
  treeNode := some 1
  ast := ⟨false, false, none, 0⟩

/-- A request for the first page, from another client. -/
def pageLock : Lock :=
  { largeLock with
    client := some 2, reqExtent := ⟨0, 0xfff⟩, extent := ⟨0, 0xfff⟩, treeNode := some 2 }

/-- The waiting lock does not raise the end over the one of the whole object. -/
theorem waiting_within_object :
    let s := { start fun l => if l = 1 then largeLock else pageLock with waiting := [1] }
    ((policyWaitingLoop s 2 s.waiting ⟨0, obdObjectEof⟩ 0).1.Within ⟨0, obdObjectEof⟩ ∧
      pageLock.reqExtent.Within (policyWaitingLoop s 2 s.waiting ⟨0, obdObjectEof⟩ 0).1) := by
  refine (waiting_within_iff (by decide) ⟨by decide, by decide⟩ (by decide)).mpr
    (.inl (.inl ⟨Nat.le_refl _, ?_⟩))
  rintro i hi ⟨-, -, -, hlt⟩
  exact absurd hlt (Nat.not_lt.mpr (Nat.le_of_lt_succ (sub64_lt _ _)))

/-- The first page with the second one becomes the first 8 pages when the other lock is replayed. -/
theorem waiting_grows :
    ¬ ∀ (prm : Params) (client : Bool) (locks : Nat → Lock) (calls : List Call) (q : Queues)
        (req : Nat) (newEx : IntervalExtent),
      Run (EnqueueStep prm client) ⟨start locks, []⟩ calls q →
      (q.res.locks req).reqExtent.start ≤ (q.res.locks req).reqExtent.end_ →
      (q.res.locks req).reqExtent.Within newEx → newEx.end_ < 2 ^ 64 →
      (policyWaitingLoop q.res req q.res.waiting newEx 0).1.Within newEx ∧
        (q.res.locks req).reqExtent.Within
          (policyWaitingLoop q.res req q.res.waiting newEx 0).1 := by
  intro h
  have hrun : Run (EnqueueStep ⟨0, 0, 0⟩ false)
      ⟨start fun l => if l = 1 then largeLock else pageLock, []⟩ ([1].map Call.replayWaiting)
      ⟨{ start fun l => if l = 1 then largeLock else pageLock with waiting := [1] }, []⟩ :=
    replayed_run _ (by decide) (by decide)
  have hend := (h _ _ _ _ _ 2 ⟨0, 0x1fff⟩ hrun (by decide) ⟨by decide, by decide⟩
    (by decide)).1.2
  revert hend
  decide

end Ldlm

end LustreSimulator
