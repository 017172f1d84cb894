import Mathlib.Algebra.BigOperators.Group.List.Basic
import Mathlib.Algebra.GroupWithZero.Nat
import Mathlib.Data.List.Nodup
import Mathlib.Data.Set.Insert
import Mathlib.Logic.Function.Basic
import Mathlib.Tactic.Tauto

/-!
# `LustreSimulator.Lib.Courier`: loads that are carried in parts

A load is cut into parts, one after the other. A part is posted and leaves, it arrives at the end of
the queue of its destination, and there it is received. Parts that have left arrive in any order.
The part that leaves nothing of the load is marked as the last one, and who receives the last part
takes the load for complete.

`Sound` is the invariant. Every step keeps it, except that a last part must not overtake: when it
arrives, no other part of its load may be on the way (`Punctual`). `complete_receive` is what
follows for the receiver of a last part.
-/

set_option autoImplicit false

namespace LustreSimulator.Lib

/-- What is written on a part: its load, its destination, its size, and whether it is the last. -/
structure Label (ι κ α : Type*) where
  load : α → ι
  dst : α → κ
  size : α → Nat
  last : α → Bool

/-- What is left of a load, its length, and the parts that were cut from it and received. -/
@[ext]
structure Account (α : Type*) where
  rest : Nat
  len : Nat
  cut : List α
  got : List α

/-- The loads, and the parts that are posted, on the way, and in the queues of the destinations. -/
@[ext]
structure Courier (ι κ α : Type*) where
  account : ι → Account α
  posted : Set α
  way : Set α
  held : κ → List α

namespace Courier

variable {ι κ α : Type*} (L : Label ι κ α)

/-- The part was cut and is not received. -/
def Flying (s : Courier ι κ α) (a : α) : Prop :=
  a ∈ s.posted ∨ a ∈ s.way ∨ a ∈ s.held (L.dst a)

/-! ### The steps -/

section

variable [DecidableEq ι] [DecidableEq κ]

/-- A load of the length `n` is sent. -/
def send (s : Courier ι κ α) (i : ι) (n : Nat) : Courier ι κ α :=
  { s with account := Function.update s.account i ⟨n, n, [], []⟩ }

/-- A part is cut and posted. -/
def cutOff (s : Courier ι κ α) (a : α) : Courier ι κ α :=
  { s with
    account := Function.update s.account (L.load a)
      { s.account (L.load a) with
        rest := (s.account (L.load a)).rest - L.size a
        cut := (s.account (L.load a)).cut ++ [a] }
    posted := insert a s.posted }

/-- A part leaves. -/
def leave (s : Courier ι κ α) (a : α) : Courier ι κ α :=
  { s with posted := s.posted \ {a}, way := insert a s.way }

/-- A part arrives. -/
def arrive (s : Courier ι κ α) (a : α) : Courier ι κ α :=
  { s with
    way := s.way \ {a}
    held := Function.update s.held (L.dst a) (s.held (L.dst a) ++ [a]) }

/-- The first part in the queue of its destination is received. -/
def receive (s : Courier ι κ α) (a : α) : Courier ι κ α :=
  { s with
    account := Function.update s.account (L.load a)
      { s.account (L.load a) with got := (s.account (L.load a)).got ++ [a] }
    held := Function.update s.held (L.dst a) (s.held (L.dst a)).tail }

end

section

variable [DecidableEq ι] (s : Courier ι κ α) (a : α)

/-- The accounts after a load was sent. -/
theorem account_send (i k : ι) (n : Nat) :
    (s.send i n).account k = if k = i then ⟨n, n, [], []⟩ else s.account k :=
  Function.update_apply ..

/-- The accounts after a part was cut. -/
theorem account_cutOff (k : ι) : (s.cutOff L a).account k = if k = L.load a then
    { s.account (L.load a) with
      rest := (s.account (L.load a)).rest - L.size a
      cut := (s.account (L.load a)).cut ++ [a] } else s.account k :=
  Function.update_apply ..

/-- The accounts after a part was received. -/
theorem account_receive [DecidableEq κ] (k : ι) : (s.receive L a).account k =
    if k = L.load a then
      { s.account (L.load a) with got := (s.account (L.load a)).got ++ [a] } else s.account k :=
  Function.update_apply ..

/-- The queues after a part was received. -/
theorem held_receive [DecidableEq κ] (k : κ) : (s.receive L a).held k =
    if k = L.dst a then (s.held (L.dst a)).tail else s.held k :=
  Function.update_apply ..

end

/-- The queues after a part has arrived. -/
theorem held_arrive [DecidableEq κ] (s : Courier ι κ α) (a : α) (k : κ) :
    (s.arrive L a).held k = if k = L.dst a then s.held (L.dst a) ++ [a] else s.held k :=
  Function.update_apply ..

/-- What happens to a courier. -/
inductive Action (ι α : Type*) where
  | send (i : ι) (n : Nat)
  | cut (a : α)
  | leave (a : α)
  | arrive (a : α)
  | receive (a : α)

/-- The steps of a courier. A load is sent when nothing of it is under way. A part is cut when no
other part of the load is posted. -/
inductive Step [DecidableEq ι] [DecidableEq κ] :
    Courier ι κ α → Action ι α → Courier ι κ α → Prop where
  | send {s : Courier ι κ α} {i : ι} {n : Nat} : 0 < n → (s.account i).rest = 0 →
      (∀ a, s.Flying L a → L.load a ≠ i) → Step s (.send i n) (s.send i n)
  | cut {s : Courier ι κ α} {a : α} : ¬ s.Flying L a → a ∉ (s.account (L.load a)).got →
      0 < L.size a → L.size a ≤ (s.account (L.load a)).rest →
      (L.last a = true ↔ L.size a = (s.account (L.load a)).rest) →
      (∀ b ∈ s.posted, L.load b ≠ L.load a) →
      (∀ b ∈ (s.account (L.load a)).cut, L.dst b = L.dst a) → Step s (.cut a) (s.cutOff L a)
  | leave {s : Courier ι κ α} {a : α} : a ∈ s.posted → Step s (.leave a) (s.leave a)
  | arrive {s : Courier ι κ α} {a : α} : a ∈ s.way → Step s (.arrive a) (s.arrive L a)
  | receive {s : Courier ι κ α} {a : α} {rest : List α} : s.held (L.dst a) = a :: rest →
      Step s (.receive a) (s.receive L a)

/-- A last part that arrives is the only part of its load on the way. -/
def Punctual (s : Courier ι κ α) : Action ι α → Prop
  | .arrive a => L.last a = true → ∀ b ∈ s.way, L.load b = L.load a → b = a
  | _ => True

/-! ### The invariant -/

/-- Every part that was cut from a load is under way or received, and only one of these. The last
part is the one that left nothing, in the queue of its destination it is behind the others, and when
it is received no other one is under way. -/
structure Sound (s : Courier ι κ α) : Prop where
  mem : ∀ i a, a ∈ (s.account i).cut ↔ L.load a = i ∧ (a ∈ (s.account i).got ∨ s.Flying L a)
  apart : ∀ i, ∀ a ∈ (s.account i).got, L.load a = i ∧ ¬ s.Flying L a
  cut_nodup : ∀ i, (s.account i).cut.Nodup
  got_nodup : ∀ i, (s.account i).got.Nodup
  posted : ∀ a ∈ s.posted, a ∉ s.way ∧ ∀ k, a ∉ s.held k
  way : ∀ a ∈ s.way, ∀ k, a ∉ s.held k
  held : ∀ k, ∀ a ∈ s.held k, L.dst a = k
  held_nodup : ∀ k, (s.held k).Nodup
  dst : ∀ i, ∀ a ∈ (s.account i).cut, ∀ b ∈ (s.account i).cut, L.dst a = L.dst b
  len : ∀ i, 0 < (s.account i).rest ∨ (s.account i).cut ≠ [] →
    ((s.account i).cut.map L.size).sum + (s.account i).rest = (s.account i).len
  opened : ∀ i, 0 < (s.account i).rest → ∀ a ∈ (s.account i).cut, L.last a = false
  closed : ∀ i, (s.account i).rest = 0 → (s.account i).cut ≠ [] →
    (s.account i).cut.countP L.last = 1
  cutting : ∀ a ∈ s.posted, L.last a = false → 0 < (s.account (L.load a)).rest
  order : ∀ k l a m, s.held k = l ++ a :: m → L.last a = true →
    ∀ b, s.Flying L b → L.load b = L.load a → b ≠ a → b ∈ l
  done : ∀ i, ∀ a ∈ (s.account i).got, L.last a = true → ∀ b, s.Flying L b → L.load b ≠ i

variable {L} {s : Courier ι κ α} {a b : α} {i : ι} {n : Nat}

/-- A part in a queue is under way. -/
theorem Sound.flying_held (h : Sound L s) {k : κ} (ha : a ∈ s.held k) : s.Flying L a := by
  have hdst := h.held k a ha
  subst hdst
  exact .inr (.inr ha)

/-- Nothing is left of a load when its last part was cut. -/
theorem Sound.rest_eq_zero (h : Sound L s) (ha : s.Flying L a) (hlast : L.last a = true) :
    (s.account (L.load a)).rest = 0 := by
  by_contra hne
  have hopen := h.opened (L.load a) (Nat.pos_of_ne_zero hne) a ((h.mem _ a).mpr ⟨rfl, .inr ha⟩)
  rw [hlast] at hopen
  cases hopen

/-- A load has one last part. -/
theorem Sound.last_unique (h : Sound L s) (ha : s.Flying L a) (hlast : L.last a = true)
    (hb : s.Flying L b) (hlastb : L.last b = true) (hload : L.load b = L.load a) : b = a := by
  have hcuta := (h.mem (L.load a) a).mpr ⟨rfl, .inr ha⟩
  have hcutb := (h.mem (L.load a) b).mpr ⟨hload, .inr hb⟩
  have hcount := h.closed _ (h.rest_eq_zero ha hlast) (List.ne_nil_of_mem hcuta)
  rw [List.countP_eq_length_filter, List.length_eq_one_iff] at hcount
  obtain ⟨c, hc⟩ := hcount
  have hone : ∀ d ∈ (s.account (L.load a)).cut, L.last d = true → d = c := by
    intro d hd hld
    have hmem : d ∈ (s.account (L.load a)).cut.filter L.last := List.mem_filter.mpr ⟨hd, hld⟩
    rw [hc] at hmem
    exact List.mem_singleton.mp hmem
  exact (hone b hcutb hlastb).trans (hone a hcuta hlast).symm

/-- A courier without loads. -/
theorem sound_empty (h : ∀ i, (s.account i).rest = 0 ∧ (s.account i).cut = [] ∧
    (s.account i).got = []) (hposted : s.posted = ∅) (hway : s.way = ∅)
    (hheld : ∀ k, s.held k = []) : Sound L s := by
  have hnone : ∀ a, ¬ s.Flying L a := by
    intro a
    unfold Flying
    rw [hposted, hway, hheld]
    simp
  exact {
    mem := fun i a => by
      rw [(h i).2.1, (h i).2.2]
      simp [hnone a]
    apart := fun i a ha => by
      rw [(h i).2.2] at ha
      cases ha
    cut_nodup := fun i => by
      rw [(h i).2.1]
      exact List.nodup_nil
    got_nodup := fun i => by
      rw [(h i).2.2]
      exact List.nodup_nil
    posted := fun a ha => by
      rw [hposted] at ha
      exact absurd ha (Set.notMem_empty a)
    way := fun a ha => by
      rw [hway] at ha
      exact absurd ha (Set.notMem_empty a)
    held := fun k a ha => by
      rw [hheld k] at ha
      cases ha
    held_nodup := fun k => by
      rw [hheld k]
      exact List.nodup_nil
    dst := fun i a ha => by
      rw [(h i).2.1] at ha
      cases ha
    len := fun i hi => by
      rw [(h i).1, (h i).2.1] at hi
      exact absurd rfl (hi.resolve_left (Nat.lt_irrefl 0))
    opened := fun i hi => by
      rw [(h i).1] at hi
      exact absurd hi (Nat.lt_irrefl 0)
    closed := fun i _ hi => absurd (h i).2.1 hi
    cutting := fun a ha => by
      rw [hposted] at ha
      exact absurd ha (Set.notMem_empty a)
    order := fun k l a m hk => by
      rw [hheld k] at hk
      simp at hk
    done := fun i a _ _ b hb => absurd hb (hnone b) }

/-! ### The steps keep the invariant -/

section

variable [DecidableEq ι]

/-- Sending a load. -/
theorem Sound.send (h : Sound L s) (hn : 0 < n) (hfree : ∀ a, s.Flying L a → L.load a ≠ i) :
    Sound L (s.send i n) := by
  have hcases : ∀ {P : ι → Account α → Prop}, P i ⟨n, n, [], []⟩ → (∀ j, P j (s.account j)) →
      ∀ j, P j ((s.send i n).account j) := fun {P} hi hj =>
    (Function.forall_update_iff s.account P).mpr ⟨hi, fun j _ => hj j⟩
  exact {
    mem := by
      refine hcases (P := fun i A =>
        ∀ a, a ∈ A.cut ↔ L.load a = i ∧ (a ∈ A.got ∨ s.Flying L a)) ?_ h.mem
      intro a
      refine iff_of_false List.not_mem_nil fun ⟨hload, hfly⟩ => ?_
      exact hfree a (hfly.resolve_left List.not_mem_nil) hload
    apart := hcases (P := fun i A => ∀ a ∈ A.got, L.load a = i ∧ ¬ s.Flying L a)
        (fun a ha => absurd ha List.not_mem_nil) h.apart
    cut_nodup := hcases (P := fun _ A => A.cut.Nodup) List.nodup_nil h.cut_nodup
    got_nodup := hcases (P := fun _ A => A.got.Nodup) List.nodup_nil h.got_nodup
    posted := h.posted
    way := h.way
    held := h.held
    held_nodup := h.held_nodup
    dst := hcases (P := fun _ A => ∀ a ∈ A.cut, ∀ b ∈ A.cut, L.dst a = L.dst b)
        (fun a ha => absurd ha List.not_mem_nil) h.dst
    len := hcases (P := fun _ A => 0 < A.rest ∨ A.cut ≠ [] →
        (A.cut.map L.size).sum + A.rest = A.len) (fun _ => Nat.zero_add n) h.len
    opened := hcases (P := fun _ A => 0 < A.rest → ∀ a ∈ A.cut, L.last a = false)
        (fun _ a ha => absurd ha List.not_mem_nil) h.opened
    closed := hcases (P := fun _ A => A.rest = 0 → A.cut ≠ [] → A.cut.countP L.last = 1)
        (fun hzero => absurd hzero (Nat.ne_of_gt hn)) h.closed
    cutting := by
      intro a ha hlast
      show 0 < (Function.update s.account i _ (L.load a)).rest
      rw [Function.update_of_ne (hfree a (.inl ha))]
      exact h.cutting a ha hlast
    order := h.order
    done := hcases (P := fun i A => ∀ a ∈ A.got, L.last a = true → ∀ b, s.Flying L b → L.load b ≠ i)
        (fun a ha => absurd ha List.not_mem_nil) h.done }

/-- What is under way after a part was cut. -/
theorem flying_cutOff : (s.cutOff L a).Flying L b ↔ b = a ∨ s.Flying L b := by
  unfold Flying cutOff
  rw [Set.mem_insert_iff, or_assoc]

/-- Cutting a part. -/
theorem Sound.cutOff (h : Sound L s) (hnew : ¬ s.Flying L a)
    (hgot : a ∉ (s.account (L.load a)).got) (hpos : 0 < L.size a)
    (hle : L.size a ≤ (s.account (L.load a)).rest)
    (hlast : L.last a = true ↔ L.size a = (s.account (L.load a)).rest)
    (hfree : ∀ b ∈ s.posted, L.load b ≠ L.load a)
    (hdst : ∀ b ∈ (s.account (L.load a)).cut, L.dst b = L.dst a) : Sound L (s.cutOff L a) := by
  have hnotCut : a ∉ (s.account (L.load a)).cut := fun hin =>
    ((h.mem _ a).mp hin).2.elim hgot hnew
  have hopen : ∀ b ∈ (s.account (L.load a)).cut, L.last b = false :=
    h.opened _ (Nat.lt_of_lt_of_le hpos hle)
  have hcases : ∀ {P : ι → Account α → Prop}, P (L.load a) { s.account (L.load a) with
      rest := (s.account (L.load a)).rest - L.size a, cut := (s.account (L.load a)).cut ++ [a] } →
      (∀ j, j ≠ L.load a → P j (s.account j)) → ∀ j, P j ((s.cutOff L a).account j) :=
    fun {P} hi hj => (Function.forall_update_iff s.account P).mpr ⟨hi, hj⟩
  exact {
    mem := by
      refine hcases (P := fun i A => ∀ b, b ∈ A.cut ↔
        L.load b = i ∧ (b ∈ A.got ∨ (s.cutOff L a).Flying L b)) ?_ ?_
      · intro b
        rw [flying_cutOff, List.mem_append, List.mem_singleton, h.mem]
        constructor
        · rintro (⟨hload, hb⟩ | rfl)
          · exact ⟨hload, hb.imp_right .inr⟩
          · exact ⟨rfl, .inr (.inl rfl)⟩
        · rintro ⟨hload, hb | rfl | hb⟩
          · exact .inl ⟨hload, .inl hb⟩
          · exact .inr rfl
          · exact .inl ⟨hload, .inr hb⟩
      · intro j hj b
        rw [flying_cutOff, h.mem]
        refine and_congr_right fun hload => or_congr Iff.rfl ⟨.inr, fun hb => hb.resolve_left ?_⟩
        rintro rfl
        exact hj hload.symm
    apart := by
      refine hcases (P := fun i A => ∀ b ∈ A.got, L.load b = i ∧ ¬ (s.cutOff L a).Flying L b) ?_ ?_
      · intro b hb
        refine ⟨(h.apart _ b hb).1, fun hfly => ?_⟩
        rcases flying_cutOff.mp hfly with rfl | hfly
        · exact hgot hb
        · exact (h.apart _ b hb).2 hfly
      · intro j hj b hb
        refine ⟨(h.apart j b hb).1, fun hfly => ?_⟩
        rcases flying_cutOff.mp hfly with rfl | hfly
        · exact hj (h.apart j b hb).1.symm
        · exact (h.apart j b hb).2 hfly
    cut_nodup := by
      refine hcases (P := fun _ A => A.cut.Nodup) ?_ fun j _ => h.cut_nodup j
      exact (List.perm_append_singleton a _).nodup_iff.mpr
        (List.nodup_cons.mpr ⟨hnotCut, h.cut_nodup _⟩)
    got_nodup := hcases (P := fun _ A => A.got.Nodup) (h.got_nodup _) fun j _ => h.got_nodup j
    posted := by
      intro b hb
      rcases hb with rfl | hb
      · exact ⟨fun hway => hnew (.inr (.inl hway)), fun k hk => hnew (h.flying_held hk)⟩
      · exact h.posted b hb
    way := h.way
    held := h.held
    held_nodup := h.held_nodup
    dst := by
      refine hcases (P := fun _ A => ∀ b ∈ A.cut, ∀ c ∈ A.cut, L.dst b = L.dst c) ?_
        fun j _ => h.dst j
      have hall : ∀ b ∈ (s.account (L.load a)).cut ++ [a], L.dst b = L.dst a := by
        intro b hb
        rcases List.mem_append.mp hb with hb | hb
        · exact hdst b hb
        · rw [List.mem_singleton.mp hb]
      exact fun b hb c hc => (hall b hb).trans (hall c hc).symm
    len := by
      -- what is cut and what is left make up the load still
      refine hcases (P := fun _ A => 0 < A.rest ∨ A.cut ≠ [] →
        (A.cut.map L.size).sum + A.rest = A.len) ?_ fun j _ => h.len j
      intro _
      have hlen := h.len (L.load a) (.inl (Nat.lt_of_lt_of_le hpos hle))
      show (((s.account (L.load a)).cut ++ [a]).map L.size).sum +
        ((s.account (L.load a)).rest - L.size a) = (s.account (L.load a)).len
      rw [List.map_append, List.sum_append, List.map_singleton, List.sum_singleton]
      omega
    opened := by
      -- something is left, so the new part is not the last one
      refine hcases (P := fun _ A => 0 < A.rest → ∀ b ∈ A.cut, L.last b = false) ?_
        fun j _ => h.opened j
      intro hrest b hb
      rcases List.mem_append.mp hb with hb | hb
      · exact hopen b hb
      · rw [List.mem_singleton.mp hb, ← Bool.not_eq_true, hlast]
        exact fun heq => Nat.ne_of_gt (Nat.lt_of_sub_pos hrest) heq.symm
    closed := by
      -- nothing is left, so the new part is the last one, and the only one
      refine hcases (P := fun _ A => A.rest = 0 → A.cut ≠ [] → A.cut.countP L.last = 1) ?_
        fun j _ => h.closed j
      intro hrest _
      have hzero : (s.account (L.load a)).cut.countP L.last = 0 :=
        List.countP_eq_zero.mpr fun b hb => Bool.not_eq_true _ ▸ hopen b hb
      show ((s.account (L.load a)).cut ++ [a]).countP L.last = 1
      rw [List.countP_append, hzero, List.countP_singleton,
        if_pos (hlast.mpr (Nat.le_antisymm hle (Nat.le_of_sub_eq_zero hrest)))]
    cutting := by
      -- a new part that is not the last one leaves something
      intro b hb hlastb
      show 0 < (Function.update s.account (L.load a) _ (L.load b)).rest
      rcases hb with rfl | hb
      · rw [Function.update_self]
        have hne : L.size b ≠ (s.account (L.load b)).rest := by
          rw [Ne, ← hlast, hlastb]
          exact Bool.false_ne_true
        exact Nat.sub_pos_of_lt (Nat.lt_of_le_of_ne hle hne)
      · rw [Function.update_of_ne (hfree b hb)]
        exact h.cutting b hb hlastb
    order := by
      intro k l c m hk hlastc b hb hload hne
      rcases flying_cutOff.mp hb with rfl | hb
      · -- the load of the new part has no last part yet
        have hc : c ∈ s.held k := by
          rw [show s.held k = l ++ c :: m from hk]
          simp
        have hcut := (h.mem (L.load b) c).mpr ⟨hload.symm, .inr (h.flying_held hc)⟩
        rw [hopen c hcut] at hlastc
        cases hlastc
      · exact h.order k l c m hk hlastc b hb hload hne
    done := by
      refine hcases (P := fun i A => ∀ c ∈ A.got, L.last c = true →
        ∀ b, (s.cutOff L a).Flying L b → L.load b ≠ i) ?_ ?_
      · intro c hc hlastc
        rw [hopen c ((h.mem _ c).mpr ⟨(h.apart _ c hc).1, .inl hc⟩)] at hlastc
        cases hlastc
      · intro j hj c hc hlastc b hb
        rcases flying_cutOff.mp hb with rfl | hb
        · exact Ne.symm hj
        · exact h.done j c hc hlastc b hb }

end

/-- A part that leaves is under way still. -/
theorem flying_leave (ha : a ∈ s.posted) : (s.leave a).Flying L b ↔ s.Flying L b := by
  unfold Flying leave
  rw [Set.mem_sdiff, Set.mem_singleton_iff, Set.mem_insert_iff]
  by_cases hba : b = a
  · subst hba
    exact iff_of_true (.inr (.inl (.inl rfl))) (.inl ha)
  · rw [or_iff_right hba, and_iff_left hba]

/-- A part leaves. -/
theorem Sound.leave (h : Sound L s) (ha : a ∈ s.posted) : Sound L (s.leave a) := by
  have hfly : ∀ b, (s.leave a).Flying L b ↔ s.Flying L b := fun b => flying_leave ha
  exact {
    mem := fun i b => by
      rw [hfly b]
      exact h.mem i b
    apart := fun i b hb => by
      rw [hfly b]
      exact h.apart i b hb
    cut_nodup := h.cut_nodup
    got_nodup := h.got_nodup
    posted := fun b hb => by
      refine ⟨?_, (h.posted b hb.1).2⟩
      rintro (rfl | hway)
      · exact hb.2 rfl
      · exact (h.posted b hb.1).1 hway
    way := fun b hb => by
      rcases hb with rfl | hb
      · exact (h.posted b ha).2
      · exact h.way b hb
    held := h.held
    held_nodup := h.held_nodup
    dst := h.dst
    len := h.len
    opened := h.opened
    closed := h.closed
    cutting := fun b hb => h.cutting b hb.1
    order := fun k l c m hk hlast b hb => h.order k l c m hk hlast b ((hfly b).mp hb)
    done := fun i c hc hlast b hb => h.done i c hc hlast b ((hfly b).mp hb) }

/-- When the last part is on the way, the other parts are on the way or in the queue of its
destination. -/
theorem Sound.behind (h : Sound L s) (ha : a ∈ s.way) (hlast : L.last a = true)
    (hb : s.Flying L b) (hload : L.load b = L.load a) (hne : b ≠ a) :
    b ∈ s.way ∨ b ∈ s.held (L.dst a) := by
  have hfly : s.Flying L a := .inr (.inl ha)
  rcases hb with hposted | hway | hheld
  · cases hlastb : L.last b with
    | true => exact absurd (h.last_unique hfly hlast (.inl hposted) hlastb hload) hne
    | false =>
        -- the load of a posted part that is not the last one is not used up
        have hrest := h.cutting b hposted hlastb
        rw [hload, h.rest_eq_zero hfly hlast] at hrest
        exact absurd hrest (Nat.lt_irrefl 0)
  · exact .inl hway
  · have hdst := h.dst (L.load a) a ((h.mem _ a).mpr ⟨rfl, .inr hfly⟩) b
      ((h.mem _ b).mpr ⟨hload, .inr (.inr (.inr hheld))⟩)
    rw [hdst]
    exact .inr hheld

section

variable [DecidableEq κ]

/-- A part that arrives is under way still. -/
theorem flying_arrive (ha : a ∈ s.way) : (s.arrive L a).Flying L b ↔ s.Flying L b := by
  unfold Flying arrive
  dsimp only
  rw [Set.mem_sdiff, Set.mem_singleton_iff]
  by_cases hba : b = a
  · subst hba
    refine iff_of_true (.inr (.inr ?_)) (.inr (.inl ha))
    rw [Function.update_self]
    simp
  · rw [and_iff_left hba]
    refine or_congr Iff.rfl (or_congr Iff.rfl ?_)
    by_cases hdst : L.dst b = L.dst a
    · rw [hdst, Function.update_self, List.mem_append, List.mem_singleton, or_iff_left hba]
    · rw [Function.update_of_ne hdst]

/-- A part arrives. -/
theorem Sound.arrive (h : Sound L s) (ha : a ∈ s.way)
    (hpunctual : L.last a = true → ∀ b ∈ s.way, L.load b = L.load a → b = a) :
    Sound L (s.arrive L a) := by
  have hfly : ∀ b, (s.arrive L a).Flying L b ↔ s.Flying L b := fun b => flying_arrive ha
  have hcases : ∀ {P : κ → List α → Prop}, P (L.dst a) (s.held (L.dst a) ++ [a]) →
      (∀ k, k ≠ L.dst a → P k (s.held k)) → ∀ k, P k ((s.arrive L a).held k) :=
    fun {P} hi hj => (Function.forall_update_iff s.held P).mpr ⟨hi, hj⟩
  exact {
    mem := fun i b => by
      rw [hfly b]
      exact h.mem i b
    apart := fun i b hb => by
      rw [hfly b]
      exact h.apart i b hb
    cut_nodup := h.cut_nodup
    got_nodup := h.got_nodup
    posted := fun b hb => by
      obtain ⟨hway, hheld⟩ := h.posted b hb
      refine ⟨fun hb => hway hb.1, hcases (P := fun _ l => b ∉ l) ?_ fun k _ => hheld k⟩
      rw [List.mem_append, List.mem_singleton]
      rintro (hb | rfl)
      · exact hheld _ hb
      · exact hway ha
    way := fun b hb => by
      refine hcases (P := fun _ l => b ∉ l) ?_ fun k _ => h.way b hb.1 k
      rw [List.mem_append, List.mem_singleton]
      exact fun hin => hin.elim (h.way b hb.1 _) hb.2
    held := by
      refine hcases (P := fun k l => ∀ b ∈ l, L.dst b = k) (fun b hb => ?_) fun k _ => h.held k
      rcases List.mem_append.mp hb with hb | hb
      · exact h.held _ b hb
      · rw [List.mem_singleton.mp hb]
    held_nodup := by
      refine hcases (P := fun _ l => l.Nodup) ?_ fun k _ => h.held_nodup k
      exact (List.perm_append_singleton a _).nodup_iff.mpr
        (List.nodup_cons.mpr ⟨h.way a ha _, h.held_nodup _⟩)
    dst := h.dst
    len := h.len
    opened := h.opened
    closed := h.closed
    cutting := h.cutting
    order := by
      refine hcases (P := fun _ q => ∀ l c m, q = l ++ c :: m → L.last c = true →
        ∀ b, (s.arrive L a).Flying L b → L.load b = L.load c → b ≠ c → b ∈ l) ?_ ?_
      · intro l c m hq hlast b hb hload hne
        rw [hfly b] at hb
        rcases List.eq_nil_or_concat m with rfl | ⟨m', d, rfl⟩
        · -- the part that arrives is the last one
          obtain ⟨hl, hc⟩ := List.append_inj' hq rfl
          cases hc
          rw [← hl]
          exact (h.behind ha hlast hb hload hne).resolve_left fun hway =>
            hne (hpunctual hlast b hway hload)
        · rw [List.concat_eq_append, ← List.cons_append, ← List.append_assoc] at hq
          exact h.order _ l c m' (List.append_inj' hq rfl).1 hlast b hb hload hne
      · intro k _ l c m hq hlast b hb
        exact h.order k l c m hq hlast b ((hfly b).mp hb)
    done := fun i c hc hlast b hb => h.done i c hc hlast b ((hfly b).mp hb) }

/-- What is under way after a part was received. -/
theorem flying_receive [DecidableEq ι] {rest : List α} (h : Sound L s)
    (hheld : s.held (L.dst a) = a :: rest) :
    (s.receive L a).Flying L b ↔ s.Flying L b ∧ b ≠ a := by
  have hin : a ∈ s.held (L.dst a) := by
    rw [hheld]
    exact List.mem_cons_self
  have hnodup := h.held_nodup (L.dst a)
  rw [hheld, List.nodup_cons] at hnodup
  unfold Flying receive
  dsimp only
  by_cases hba : b = a
  · subst hba
    refine iff_of_false ?_ fun hb => hb.2 rfl
    rw [Function.update_self, hheld]
    rintro (hb | hb | hb)
    · exact (h.posted b hb).2 _ hin
    · exact h.way b hb _ hin
    · exact hnodup.1 hb
  · rw [and_iff_left hba]
    refine or_congr Iff.rfl (or_congr Iff.rfl ?_)
    by_cases hdst : L.dst b = L.dst a
    · rw [hdst, Function.update_self, hheld, List.tail_cons, List.mem_cons, or_iff_right hba]
    · rw [Function.update_of_ne hdst]

end

/-- A part is received. -/
theorem Sound.receive [DecidableEq ι] [DecidableEq κ] {rest : List α} (h : Sound L s)
    (hheld : s.held (L.dst a) = a :: rest) : Sound L (s.receive L a) := by
  have hin : a ∈ s.held (L.dst a) := by
    rw [hheld]
    exact List.mem_cons_self
  have hnotGot : ∀ i, a ∉ (s.account i).got := fun i hgot =>
    (h.apart i a hgot).2 (h.flying_held hin)
  have hfly : ∀ b, (s.receive L a).Flying L b ↔ s.Flying L b ∧ b ≠ a := fun b =>
    flying_receive h hheld
  have hcases : ∀ {P : ι → Account α → Prop}, P (L.load a) { s.account (L.load a) with
      got := (s.account (L.load a)).got ++ [a] } → (∀ j, j ≠ L.load a → P j (s.account j)) →
      ∀ j, P j ((s.receive L a).account j) :=
    fun {P} hi hj => (Function.forall_update_iff s.account P).mpr ⟨hi, hj⟩
  have hqueues : ∀ {P : κ → List α → Prop}, (∀ k, P k (s.held k)) →
      P (L.dst a) (s.held (L.dst a)).tail → ∀ k, P k ((s.receive L a).held k) :=
    fun {P} hj hi => (Function.forall_update_iff s.held P).mpr ⟨hi, fun k _ => hj k⟩
  exact {
    mem := by
      refine hcases (P := fun i A => ∀ b, b ∈ A.cut ↔
        L.load b = i ∧ (b ∈ A.got ∨ (s.receive L a).Flying L b)) ?_ ?_
      · intro b
        rw [hfly b, h.mem, List.mem_append, List.mem_singleton]
        refine and_congr_right fun _ => ?_
        by_cases hba : b = a
        · subst hba
          exact iff_of_true (.inr (h.flying_held hin)) (.inl (.inr rfl))
        · rw [or_iff_left hba, and_iff_left hba]
      · intro j hj b
        rw [hfly b, h.mem]
        refine and_congr_right fun hload => or_congr Iff.rfl (iff_self_and.mpr fun _ => ?_)
        rintro rfl
        exact hj hload.symm
    apart := by
      refine hcases (P := fun i A => ∀ b ∈ A.got, L.load b = i ∧ ¬ (s.receive L a).Flying L b) ?_ ?_
      · intro b hb
        rw [hfly b]
        rcases List.mem_append.mp hb with hb | hb
        · exact ⟨(h.apart _ b hb).1, fun hf => (h.apart _ b hb).2 hf.1⟩
        · rw [List.mem_singleton.mp hb]
          exact ⟨rfl, fun hf => hf.2 rfl⟩
      · intro j _ b hb
        rw [hfly b]
        exact ⟨(h.apart j b hb).1, fun hf => (h.apart j b hb).2 hf.1⟩
    cut_nodup := hcases (P := fun _ A => A.cut.Nodup) (h.cut_nodup _) fun j _ => h.cut_nodup j
    got_nodup := by
      refine hcases (P := fun _ A => A.got.Nodup) ?_ fun j _ => h.got_nodup j
      exact (List.perm_append_singleton a _).nodup_iff.mpr
        (List.nodup_cons.mpr ⟨hnotGot _, h.got_nodup _⟩)
    posted := fun b hb => by
      obtain ⟨hway, hheld'⟩ := h.posted b hb
      exact ⟨hway, hqueues (P := fun _ l => b ∉ l) hheld' fun hb =>
        hheld' _ (List.mem_of_mem_tail hb)⟩
    way := fun b hb => by
      exact hqueues (P := fun _ l => b ∉ l) (h.way b hb) fun hb' =>
        h.way b hb _ (List.mem_of_mem_tail hb')
    held := hqueues (P := fun k l => ∀ b ∈ l, L.dst b = k) h.held fun b hb =>
        h.held _ b (List.mem_of_mem_tail hb)
    held_nodup := hqueues (P := fun _ l => l.Nodup) h.held_nodup ((h.held_nodup _).tail)
    dst := hcases (P := fun _ A => ∀ b ∈ A.cut, ∀ c ∈ A.cut, L.dst b = L.dst c) (h.dst _)
        fun j _ => h.dst j
    len := hcases (P := fun _ A => 0 < A.rest ∨ A.cut ≠ [] →
        (A.cut.map L.size).sum + A.rest = A.len) (h.len _) fun j _ => h.len j
    opened := hcases (P := fun _ A => 0 < A.rest → ∀ b ∈ A.cut, L.last b = false) (h.opened _)
        fun j _ => h.opened j
    closed := by
      exact hcases (P := fun _ A => A.rest = 0 → A.cut ≠ [] → A.cut.countP L.last = 1) (h.closed _)
        fun j _ => h.closed j
    cutting := by
      intro b hb hlastb
      exact hcases (P := fun i A => L.load b = i → 0 < A.rest)
        (fun hload => by rw [← hload]; exact h.cutting b hb hlastb)
        (fun j _ hload => by rw [← hload]; exact h.cutting b hb hlastb) _ rfl
    order := by
      refine hqueues (P := fun _ q => ∀ l c m, q = l ++ c :: m → L.last c = true →
        ∀ b, (s.receive L a).Flying L b → L.load b = L.load c → b ≠ c → b ∈ l) ?_ ?_
      · exact fun k l c m hq hlast b hb => h.order k l c m hq hlast b ((hfly b).mp hb).1
      · intro l c m hq hlast b hb hload hne
        rw [hheld, List.tail_cons] at hq
        have hmem := h.order (L.dst a) (a :: l) c m (by rw [hheld, hq]; rfl) hlast b
          ((hfly b).mp hb).1 hload hne
        exact (List.mem_cons.mp hmem).resolve_left ((hfly b).mp hb).2
    done := by
      refine hcases (P := fun i A => ∀ c ∈ A.got, L.last c = true →
        ∀ b, (s.receive L a).Flying L b → L.load b ≠ i) ?_ ?_
      · intro c hc hlastc b hb hload
        obtain ⟨hb, hne⟩ := (hfly b).mp hb
        rcases List.mem_append.mp hc with hc | hc
        · exact h.done _ c hc hlastc b hb hload
        · -- in front of the first part of the queue there is none
          rw [List.mem_singleton.mp hc] at hlastc
          exact List.not_mem_nil (h.order _ [] a rest hheld hlastc b hb hload hne)
      · exact fun j _ c hc hlastc b hb => h.done j c hc hlastc b ((hfly b).mp hb).1 }

/-- Nothing of a load is under way when it is used up and its last part is not under way. -/
theorem Sound.not_flying (h : Sound L s) (hrest : (s.account i).rest = 0)
    (hlast : ∀ a, s.Flying L a → L.load a = i → L.last a = false) (ha : s.Flying L a) :
    L.load a ≠ i := by
  rintro rfl
  have hcount := h.closed _ hrest (List.ne_nil_of_mem ((h.mem _ a).mpr ⟨rfl, .inr ha⟩))
  obtain ⟨c, hc, hlastc⟩ := List.countP_pos_iff.mp (Nat.lt_of_lt_of_eq Nat.one_pos hcount.symm)
  obtain ⟨hload, hgot | hfly⟩ := (h.mem _ c).mp hc
  · exact h.done _ c hgot hlastc a ha rfl
  · rw [hlast c hfly hload] at hlastc
    cases hlastc

/-- Every step whose last parts do not overtake keeps the invariant. -/
theorem Step.sound [DecidableEq ι] [DecidableEq κ] {s' : Courier ι κ α} {act : Action ι α}
    (hstep : Step L s act s') (hpunctual : s.Punctual L act) (h : Sound L s) : Sound L s' := by
  cases hstep with
  | send hn _ hfree => exact h.send hn hfree
  | cut hnew hgot hpos hle hlast hfree hdst => exact h.cutOff hnew hgot hpos hle hlast hfree hdst
  | leave ha => exact h.leave ha
  | arrive ha => exact h.arrive ha hpunctual
  | receive hheld => exact h.receive hheld

/-- **The last part completes the load.** When it is received, nothing is left of the load, all
parts were received, they have the length of the load, and only one of them is marked as the last
one. -/
theorem complete_receive [DecidableEq ι] [DecidableEq κ] {rest : List α} (h : Sound L s)
    (hheld : s.held (L.dst a) = a :: rest) (hlast : L.last a = true) :
    ((s.receive L a).account (L.load a)).rest = 0 ∧
      ((s.receive L a).account (L.load a)).got.Perm (s.account (L.load a)).cut ∧
      ((s.account (L.load a)).cut.map L.size).sum = (s.account (L.load a)).len ∧
      (s.account (L.load a)).cut.countP L.last = 1 := by
  have hin : a ∈ s.held (L.dst a) := by
    rw [hheld]
    exact List.mem_cons_self
  have hfly := h.flying_held hin
  have hrest := h.rest_eq_zero hfly hlast
  have hcut : (s.account (L.load a)).cut ≠ [] :=
    List.ne_nil_of_mem ((h.mem _ a).mpr ⟨rfl, .inr hfly⟩)
  have haccount : (s.receive L a).account (L.load a) =
      { s.account (L.load a) with got := (s.account (L.load a)).got ++ [a] } :=
    Function.update_self ..
  have hnodup := (h.receive hheld).got_nodup (L.load a)
  rw [haccount] at hnodup ⊢
  refine ⟨hrest, ?_, ?_, h.closed _ hrest hcut⟩
  · refine (List.perm_ext_iff_of_nodup hnodup (h.cut_nodup _)).mpr fun b => ?_
    show b ∈ (s.account (L.load a)).got ++ [a] ↔ _
    rw [h.mem, List.mem_append, List.mem_singleton]
    constructor
    · rintro (hb | rfl)
      · exact ⟨(h.apart _ b hb).1, .inl hb⟩
      · exact ⟨rfl, .inr hfly⟩
    · rintro ⟨hload, hb | hb⟩
      · exact .inl hb
      · -- in front of the first part of the queue there is none
        refine .inr (by_contra fun hne => ?_)
        exact List.not_mem_nil (h.order _ [] a rest hheld hlast b hb hload hne)
  · have hlen := h.len _ (.inr hcut)
    rw [hrest] at hlen
    exact hlen

end Courier

end LustreSimulator.Lib
