import Mathlib.Data.List.Cycle
import Mathlib.Logic.Function.Basic

/-!
# `LustreSimulator.Lib.Ring`: circular doubly linked lists inside of the nodes

A node holds a `next` and a `prev`, and a list without a separate head is a ring of nodes. A node
that is in no list is a ring of its own. `Links` holds the pointers of all nodes. `listAdd` and
`listDelInit` write them one after the other, as the lists of the Linux kernel do.

`IsRing` says that a list of nodes is linked to a ring in its order. `IsRing.insert` and
`IsRing.erase` are the two operations on one ring, and `IsRing.congr` is the frame rule.

Often a list is cut into classes with a ring for each class: `Rings L κ xs` has the rings of the
nodes of `xs` with equal `κ`, in the order of `xs`, and leaves every other node alone. Its rules
`Rings.insert`, `Rings.insertNew` and `Rings.remove` need no other knowledge of the rings.
-/

set_option autoImplicit false

namespace LustreSimulator.Lib

/-- The pointers of nodes of the type `α`. -/
structure Links (α : Type*) where
  next : α → α
  prev : α → α

namespace Links

variable {α : Type*} {L M : Links α} {a b e n : α} {pre post t xs : List α}

/-- Every node is initialised. -/
def init : Links α := ⟨id, id⟩

/-- `list_empty(head)`. -/
def Empty (L : Links α) (head : α) : Prop := L.next head = head

instance [DecidableEq α] (L : Links α) (head : α) : Decidable (L.Empty head) :=
  inferInstanceAs (Decidable (_ = _))

section
variable [DecidableEq α]

/-- `a->next = b`. -/
def setNext (L : Links α) (a b : α) : Links α := { L with next := Function.update L.next a b }

/-- `a->prev = b`. -/
def setPrev (L : Links α) (a b : α) : Links α := { L with prev := Function.update L.prev a b }

/-- `list_add(n, head)`: put `n` behind `head`. -/
def listAdd (L : Links α) (n head : α) : Links α :=
  let next := L.next head
  (((L.setPrev next n).setNext n next).setPrev n head).setNext head n

/-- `list_del_init(entry)`. -/
def listDelInit (L : Links α) (entry : α) : Links α :=
  let prev := L.prev entry
  let next := L.next entry
  (((L.setPrev next prev).setNext prev next).setNext entry entry).setPrev entry entry

theorem listAdd_next (L : Links α) (n head a : α) :
    (L.listAdd n head).next a =
      if a = head then n else if a = n then L.next head else L.next a := by
  simp [listAdd, setNext, setPrev, Function.update_apply]

theorem listAdd_prev (L : Links α) (n head a : α) :
    (L.listAdd n head).prev a =
      if a = n then head else if a = L.next head then n else L.prev a := by
  simp [listAdd, setNext, setPrev, Function.update_apply]

theorem update_fixed {f : α → α} (h : f n = n) : Function.update f n n = f :=
  (congrArg (Function.update f n) h.symm).trans (Function.update_eq_self n f)

/-- A node on its own can be put behind itself. -/
theorem listAdd_self (hnext : L.next n = n) (hprev : L.prev n = n) : L.listAdd n n = L := by
  simp [listAdd, setNext, setPrev, hnext, update_fixed hnext, update_fixed hprev]

/-- A node on its own stays when it is deleted. -/
theorem listDelInit_self (hnext : L.next n = n) (hprev : L.prev n = n) : L.listDelInit n = L := by
  simp [listDelInit, setNext, setPrev, hnext, hprev, update_fixed hnext, update_fixed hprev]

theorem listDelInit_next (L : Links α) (e a : α) :
    (L.listDelInit e).next a =
      if a = e then e else if a = L.prev e then L.next e else L.next a := by
  simp [listDelInit, setNext, setPrev, Function.update_apply]

theorem listDelInit_prev (L : Links α) (e a : α) :
    (L.listDelInit e).prev a =
      if a = e then e else if a = L.next e then L.prev e else L.prev a := by
  simp [listDelInit, setNext, setPrev, Function.update_apply]

end

/-! ### One ring -/

/-- `b` follows `a`. -/
def Adj (L : Links α) (a b : α) : Prop := L.next a = b ∧ L.prev b = a

/-- The nodes `xs` are linked to a ring in this order. -/
def IsRing (L : Links α) (xs : List α) : Prop := Cycle.Chain L.Adj (xs : Cycle α)

theorem isRing_nil : L.IsRing [] := Cycle.Chain.nil _

theorem isRing_cons : L.IsRing (a :: t) ↔ List.IsChain L.Adj (a :: (t ++ [a])) :=
  Cycle.chain_coe_cons _ _ _

/-- A node on its own. -/
theorem isRing_singleton : L.IsRing [a] ↔ L.next a = a ∧ L.prev a = a :=
  Cycle.chain_singleton _ _

/-- A list with one of its elements in front. -/
theorem perm_front (pre post : List α) (a : α) :
    (a :: (post ++ pre)).Perm (pre ++ a :: post) := by
  rw [← List.cons_append]
  exact List.perm_append_comm

/-- A ring has no begin. -/
theorem isRing_append_comm : L.IsRing (pre ++ post) ↔ L.IsRing (post ++ pre) := by
  unfold IsRing
  rw [show ((pre ++ post : List α) : Cycle α) = ((post ++ pre : List α) : Cycle α) from
    Cycle.coe_eq_coe.mpr List.isRotated_append]

namespace IsRing

/-- The neighbours in a ring. -/
theorem adj (h : L.IsRing (pre ++ a :: b :: post)) : L.Adj a b := by
  rw [isRing_append_comm, List.cons_append, isRing_cons, List.cons_append, List.cons_append,
    List.isChain_cons_cons] at h
  exact h.1

/-- The first two nodes of the list are neighbours. -/
theorem adj_cons (h : L.IsRing (a :: b :: post)) : L.Adj a b :=
  adj (show L.IsRing ([] ++ a :: b :: post) from h)

/-- The last node of the list comes in front of the first. -/
theorem adj_last (h : L.IsRing (a :: t)) (hlast : a :: t = pre ++ [b]) : L.Adj b a := by
  have hchain := (Cycle.chain_ne_nil L.Adj (List.cons_ne_nil a t)).mp h
  have hb : (a :: t).getLast (List.cons_ne_nil a t) = b := by
    rw [List.getLast_congr _ _ hlast, List.getLast_append_singleton]
    exact List.append_ne_nil_of_right_ne_nil _ (List.cons_ne_nil b [])
  rw [List.isChain_cons_cons, hb] at hchain
  exact hchain.1

/-- A node that is its own neighbour is alone. -/
theorem eq_singleton (h : L.IsRing (pre ++ a :: post)) (hnodup : (pre ++ a :: post).Nodup)
    (ha : L.next a = a) : pre ++ a :: post = [a] := by
  rw [isRing_append_comm, List.cons_append] at h
  rw [← (perm_front pre post a).nodup_iff] at hnodup
  have hrest : post ++ pre = [] := by
    cases hrest : post ++ pre with
    | nil => rfl
    | cons b t =>
        rw [hrest] at h hnodup
        have hadj := adj_cons h
        rw [Adj, ha] at hadj
        exact absurd hadj.1 (fun heq => (List.nodup_cons.mp hnodup).1 (heq ▸ List.mem_cons_self))
  rw [List.append_eq_nil_iff] at hrest
  rw [hrest.1, hrest.2, List.nil_append]

/-- A neighbour in a ring is in the ring. -/
theorem next_mem (h : L.IsRing xs) (ha : a ∈ xs) : L.next a ∈ xs := by
  obtain ⟨pre, post, rfl⟩ := List.append_of_mem ha
  rw [isRing_append_comm, List.cons_append] at h
  rw [← (perm_front pre post a).mem_iff]
  cases hrest : post ++ pre with
  | nil =>
      rw [hrest, isRing_singleton] at h
      simp [h.1]
  | cons b t =>
      rw [hrest] at h
      have hadj := adj_cons h
      simp [hadj.1]

/-- So is the other one. -/
theorem prev_mem (h : L.IsRing xs) (ha : a ∈ xs) : L.prev a ∈ xs := by
  obtain ⟨pre, post, rfl⟩ := List.append_of_mem ha
  rw [isRing_append_comm, List.cons_append] at h
  rw [← (perm_front pre post a).mem_iff]
  obtain ⟨ys, b, hlast⟩ := List.eq_nil_or_concat (a :: (post ++ pre)) |>.resolve_left (by simp)
  rw [List.concat_eq_append] at hlast
  rw [(h.adj_last hlast).2, hlast]
  simp

/-- A segment stays linked where its pointers stay, apart from the outer ones. -/
theorem chain_congr (h : List.IsChain L.Adj (a :: (t ++ [b])))
    (hnext : ∀ x ∈ a :: t, M.next x = L.next x) (hprev : ∀ x ∈ t ++ [b], M.prev x = L.prev x) :
    List.IsChain M.Adj (a :: (t ++ [b])) := by
  induction t generalizing a with
  | nil =>
      rw [List.nil_append, List.isChain_pair] at h ⊢
      exact ⟨(hnext a (by simp)).trans h.1, (hprev b (by simp)).trans h.2⟩
  | cons c t ih =>
      rw [List.cons_append, List.isChain_cons_cons] at h ⊢
      exact ⟨⟨(hnext a (by simp)).trans h.1.1, (hprev c (by simp)).trans h.1.2⟩,
        ih h.2 (fun x hx => hnext x (List.mem_cons_of_mem _ hx))
          fun x hx => hprev x (List.mem_cons_of_mem _ hx)⟩

/-- A ring stays where the pointers of its nodes stay. -/
theorem congr (h : L.IsRing xs) (hnext : ∀ x ∈ xs, M.next x = L.next x)
    (hprev : ∀ x ∈ xs, M.prev x = L.prev x) : M.IsRing xs := by
  cases xs with
  | nil => exact isRing_nil
  | cons a t =>
      rw [isRing_cons] at h ⊢
      exact chain_congr h hnext fun x hx => hprev x (by simpa [or_comm] using hx)

section
variable [DecidableEq α]

/-- `list_add` behind the first node of the list. -/
theorem insert_cons (h : L.IsRing (a :: t)) (hnodup : (a :: t).Nodup) (hn : n ∉ a :: t) :
    (L.listAdd n a).IsRing (a :: n :: t) := by
  rw [isRing_cons] at h
  rw [isRing_cons, List.cons_append, List.isChain_cons_cons]
  rw [List.mem_cons, not_or] at hn
  obtain ⟨hna, hnt⟩ := hn
  obtain ⟨hat, hnodup⟩ := List.nodup_cons.mp hnodup
  have han : (L.listAdd n a).Adj a n := by
    simp [Adj, listAdd_next, listAdd_prev]
  refine ⟨han, ?_⟩
  cases t with
  | nil =>
      -- the ring had one node
      rw [List.nil_append, List.isChain_pair] at h ⊢
      simp [Adj, listAdd_next, listAdd_prev, hna, Ne.symm hna, h.1]
  | cons y t =>
      rw [List.cons_append, List.isChain_cons_cons] at h ⊢
      rw [List.mem_cons, not_or] at hnt
      obtain ⟨hyt, -⟩ := List.nodup_cons.mp hnodup
      refine ⟨?_, chain_congr h.2 (fun x hx => ?_) fun x hx => ?_⟩
      · simp [Adj, listAdd_next, listAdd_prev, hna, Ne.symm hnt.1, h.1.1]
      · have hxa : x ≠ a := fun heq => hat (heq ▸ hx)
        have hxn : x ≠ n := by
          rintro rfl
          rcases List.mem_cons.mp hx with rfl | hx
          · exact hnt.1 rfl
          · exact hnt.2 hx
        rw [listAdd_next, if_neg hxa, if_neg hxn]
      · have hxn : x ≠ n := by
          rintro rfl
          rcases List.mem_append.mp hx with hx | hx
          · exact hnt.2 hx
          · exact hna (List.mem_singleton.mp hx)
        have hxy : x ≠ L.next a := by
          rw [h.1.1]
          rintro rfl
          rcases List.mem_append.mp hx with hx | hx
          · exact hyt hx
          · exact hat (List.mem_singleton.mp hx ▸ List.mem_cons_self)
        rw [listAdd_prev, if_neg hxn, if_neg hxy]

/-- **`list_add`** puts the node behind another one of the ring. -/
theorem insert (h : L.IsRing (pre ++ a :: post)) (hnodup : (pre ++ a :: post).Nodup)
    (hn : n ∉ pre ++ a :: post) : (L.listAdd n a).IsRing (pre ++ a :: n :: post) := by
  have hperm := perm_front pre post a
  rw [isRing_append_comm, List.cons_append] at h ⊢
  exact insert_cons h (hperm.nodup_iff.mpr hnodup) fun hmem => hn (hperm.mem_iff.mp hmem)

/-- `list_del_init` of the first node of the list. -/
theorem erase_cons (h : L.IsRing (e :: t)) (hnodup : (e :: t).Nodup) :
    (L.listDelInit e).IsRing t := by
  rw [isRing_cons] at h
  obtain ⟨het, hnodup⟩ := List.nodup_cons.mp hnodup
  cases t with
  | nil => exact isRing_nil
  | cons y t =>
      rw [List.cons_append, List.isChain_cons_cons] at h
      obtain ⟨⟨hey, hye⟩, h⟩ := h
      have hye' : e ≠ y := fun heq => het (heq ▸ List.mem_cons_self)
      rcases List.eq_nil_or_concat t with rfl | ⟨mid, z, rfl⟩
      · -- one node is left
        rw [List.nil_append, List.isChain_pair] at h
        rw [isRing_singleton, listDelInit_next, listDelInit_prev, h.2, hey]
        simp [Ne.symm hye']
      · rw [List.concat_eq_append] at het hnodup h ⊢
        rw [List.append_assoc, List.singleton_append, List.isChain_cons_split,
          List.isChain_pair] at h
        obtain ⟨hmid, hze⟩ := h
        rw [isRing_cons, List.append_assoc, List.singleton_append, List.isChain_cons_split,
          List.isChain_pair]
        rw [List.mem_cons, List.mem_append, List.mem_singleton, not_or, not_or] at het
        rw [List.nodup_cons, List.mem_append, List.mem_singleton, not_or] at hnodup
        obtain ⟨-, hemid, hez⟩ := het
        obtain ⟨⟨hymid, hyz⟩, hnodup⟩ := hnodup
        have hzmid : z ∉ mid := fun hz =>
          (List.nodup_append.mp hnodup).2.2 z hz z (List.mem_singleton.mpr rfl) rfl
        refine ⟨chain_congr hmid (fun x hx => ?_) fun x hx => ?_, ?_⟩
        · have hxe : x ≠ e := by
            rintro rfl
            rcases List.mem_cons.mp hx with heq | hx
            · exact hye' heq
            · exact hemid hx
          have hxz : x ≠ L.prev e := by
            rw [hze.2]
            rintro rfl
            rcases List.mem_cons.mp hx with heq | hx
            · exact hyz heq.symm
            · exact hzmid hx
          rw [listDelInit_next, if_neg hxe, if_neg hxz]
        · have hxe : x ≠ e := by
            rintro rfl
            rcases List.mem_append.mp hx with hx | hx
            · exact hemid hx
            · exact hez (List.mem_singleton.mp hx)
          have hxy : x ≠ L.next e := by
            rw [hey]
            rintro rfl
            rcases List.mem_append.mp hx with hx | hx
            · exact hymid hx
            · exact hyz (List.mem_singleton.mp hx)
          rw [listDelInit_prev, if_neg hxe, if_neg hxy]
        · constructor
          · rw [listDelInit_next, if_neg (Ne.symm hez), if_pos hze.2.symm, hey]
          · rw [listDelInit_prev, if_neg (Ne.symm hye'), if_pos hey.symm, hze.2]

/-- **`list_del_init`** takes a node out of the ring. -/
theorem erase (h : L.IsRing (pre ++ e :: post)) (hnodup : (pre ++ e :: post).Nodup) :
    (L.listDelInit e).IsRing (pre ++ post) := by
  have hperm := perm_front pre post e
  rw [isRing_append_comm, List.cons_append] at h
  rw [isRing_append_comm]
  exact erase_cons h (hperm.nodup_iff.mpr hnodup)

end

end IsRing

/-! ### The rings of the classes -/

variable {K : Type*} [DecidableEq K] {κ κ' : α → K}

/-- The nodes of `xs` with the same `κ` are linked to a ring, in the order of `xs`, and every other
node is on its own. -/
structure Rings (L : Links α) (κ : α → K) (xs : List α) : Prop where
  ring : ∀ k, L.IsRing (xs.filter fun a => decide (κ a = k))
  alone : ∀ a, a ∉ xs → L.next a = a ∧ L.prev a = a

namespace Rings

/-- Nodes without a list. -/
theorem init (κ : α → K) : Rings (Links.init : Links α) κ [] :=
  ⟨fun _ => isRing_nil, fun _ _ => ⟨rfl, rfl⟩⟩

/-- The key counts for the nodes of the list. -/
theorem congr_key (h : Rings L κ xs) (hκ : ∀ a ∈ xs, κ' a = κ a) : Rings L κ' xs := by
  refine ⟨fun k => ?_, h.alone⟩
  rw [List.filter_congr fun a ha => by rw [hκ a ha]]
  exact h.ring k

/-- The neighbour of a node of the list has the same key. -/
theorem next_mem (h : Rings L κ xs) (ha : a ∈ xs) : L.next a ∈ xs ∧ κ (L.next a) = κ a := by
  have hmem := (h.ring (κ a)).next_mem (List.mem_filter.mpr ⟨ha, decide_eq_true rfl⟩)
  rw [List.mem_filter, decide_eq_true_eq] at hmem
  exact hmem

/-- So has the one on the other side. -/
theorem prev_mem (h : Rings L κ xs) (ha : a ∈ xs) : L.prev a ∈ xs ∧ κ (L.prev a) = κ a := by
  have hmem := (h.ring (κ a)).prev_mem (List.mem_filter.mpr ⟨ha, decide_eq_true rfl⟩)
  rw [List.mem_filter, decide_eq_true_eq] at hmem
  exact hmem

/-- The first node of a class knows the last one. -/
theorem prev_first {g g₀ : List α} (h : Rings L κ (pre ++ (a :: g ++ post)))
    (hpre : ∀ x ∈ pre, κ x ≠ κ a) (hg : ∀ x ∈ g, κ x = κ a) (hpost : ∀ x ∈ post, κ x ≠ κ a)
    (hlast : a :: g = g₀ ++ [b]) : L.prev a = b := by
  have hring := h.ring (κ a)
  have hpre' : pre.filter (fun x => decide (κ x = κ a)) = [] := by
    simpa [List.filter_eq_nil_iff] using hpre
  have hg' : (a :: g).filter (fun x => decide (κ x = κ a)) = a :: g := by
    simpa [List.filter_eq_self] using hg
  have hpost' : post.filter (fun x => decide (κ x = κ a)) = [] := by
    simpa [List.filter_eq_nil_iff] using hpost
  rw [List.filter_append, List.filter_append, hpre', hg', hpost', List.nil_append,
    List.append_nil] at hring
  exact (hring.adj_last hlast).2

section
variable [DecidableEq α]

/-- `list_add` of a node behind one of its class. -/
theorem insert (h : Rings L κ (pre ++ a :: post)) (hnodup : (pre ++ a :: post).Nodup)
    (hn : n ∉ pre ++ a :: post) (hκ : κ n = κ a) :
    Rings (L.listAdd n a) κ (pre ++ a :: n :: post) := by
  have hmema : a ∈ pre ++ a :: post := by simp
  obtain ⟨hnext, hnextκ⟩ := h.next_mem hmema
  constructor
  · intro k
    by_cases hk : κ a = k
    · have hring := h.ring k
      have hf : ∀ x ∈ (pre ++ a :: post).filter (fun x => decide (κ x = k)),
          x ∈ pre ++ a :: post := fun x hx => List.mem_of_mem_filter hx
      have hnodup' := hnodup.filter (fun x => decide (κ x = k))
      rw [List.filter_append, List.filter_cons_of_pos (by simpa using hk)] at hring hf hnodup'
      rw [List.filter_append, List.filter_cons_of_pos (by simpa using hk),
        List.filter_cons_of_pos (by simpa [hκ] using hk)]
      exact hring.insert hnodup' fun hmem => hn (hf n hmem)
    · have hfilter : (pre ++ a :: n :: post).filter (fun x => decide (κ x = k)) =
          (pre ++ a :: post).filter (fun x => decide (κ x = k)) := by
        simp [hκ, hk]
      rw [hfilter]
      refine (h.ring k).congr (fun x hx => ?_) fun x hx => ?_ <;>
        rw [List.mem_filter, decide_eq_true_eq] at hx
      · have hxa : x ≠ a := fun heq => hk (heq ▸ hx.2)
        have hxn : x ≠ n := fun heq => hn (heq ▸ hx.1)
        rw [listAdd_next, if_neg hxa, if_neg hxn]
      · have hxn : x ≠ n := fun heq => hn (heq ▸ hx.1)
        have hxnext : x ≠ L.next a := by
          rintro rfl
          exact hk (hnextκ.symm.trans hx.2)
        rw [listAdd_prev, if_neg hxn, if_neg hxnext]
  · intro x hx
    have hx' : x ∉ pre ++ a :: post ∧ x ≠ n := by
      simp only [List.mem_append, List.mem_cons] at hx ⊢
      tauto
    have hxa : x ≠ a := fun heq => hx'.1 (heq ▸ hmema)
    have hxnext : x ≠ L.next a := fun heq => hx'.1 (heq ▸ hnext)
    rw [listAdd_next, if_neg hxa, if_neg hx'.2, listAdd_prev, if_neg hx'.2, if_neg hxnext]
    exact h.alone x hx'.1

/-- `list_add` of a node behind itself: it is the first of its class. -/
theorem insertNew (h : Rings L κ (pre ++ post)) (hn : n ∉ pre ++ post)
    (hκ : ∀ x ∈ pre ++ post, κ x ≠ κ n) : Rings (L.listAdd n n) κ (pre ++ n :: post) := by
  obtain ⟨hnext, hprev⟩ := h.alone n hn
  rw [listAdd_self hnext hprev]
  constructor
  · intro k
    by_cases hk : κ n = k
    · -- no other node has the key
      have hnone : ∀ ys : List α, (∀ x ∈ ys, κ x ≠ κ n) →
          ys.filter (fun x => decide (κ x = k)) = [] := fun ys hys => by
        rw [List.filter_eq_nil_iff]
        intro x hx
        rw [decide_eq_true_eq, ← hk]
        exact hys x hx
      rw [List.filter_append, List.filter_cons_of_pos (by simpa using hk),
        hnone pre fun x hx => hκ x (List.mem_append_left _ hx),
        hnone post fun x hx => hκ x (List.mem_append_right _ hx), List.nil_append,
        isRing_singleton]
      exact ⟨hnext, hprev⟩
    · rw [List.filter_append, List.filter_cons_of_neg (by simpa using hk),
        ← List.filter_append]
      exact h.ring k
  · intro x hx
    refine h.alone x fun hmem => hx ?_
    rw [List.mem_append] at hmem ⊢
    exact hmem.imp_right (List.mem_cons_of_mem n)

/-- `list_del_init` of a node of the list. -/
theorem remove (h : Rings L κ (pre ++ e :: post)) (hnodup : (pre ++ e :: post).Nodup) :
    Rings (L.listDelInit e) κ (pre ++ post) := by
  have he : e ∈ pre ++ e :: post := by simp
  obtain ⟨hnext, hnextκ⟩ := h.next_mem he
  obtain ⟨hprev, hprevκ⟩ := h.prev_mem he
  constructor
  · intro k
    have hring := h.ring k
    by_cases hk : κ e = k
    · have hnodup' := hnodup.filter (fun x => decide (κ x = k))
      rw [List.filter_append, List.filter_cons_of_pos (by simpa using hk)] at hring hnodup'
      rw [List.filter_append]
      exact hring.erase hnodup'
    · rw [List.filter_append, List.filter_cons_of_neg (by simpa using hk),
        ← List.filter_append] at hring
      refine hring.congr (fun x hx => ?_) fun x hx => ?_ <;>
        rw [List.mem_filter, decide_eq_true_eq] at hx
      · have hxe : x ≠ e := fun heq => hk (heq ▸ hx.2)
        have hxprev : x ≠ L.prev e := by
          rintro rfl
          exact hk (hprevκ.symm.trans hx.2)
        rw [listDelInit_next, if_neg hxe, if_neg hxprev]
      · have hxe : x ≠ e := fun heq => hk (heq ▸ hx.2)
        have hxnext : x ≠ L.next e := by
          rintro rfl
          exact hk (hnextκ.symm.trans hx.2)
        rw [listDelInit_prev, if_neg hxe, if_neg hxnext]
  · intro x hx
    by_cases hxe : x = e
    · rw [listDelInit_next, listDelInit_prev, if_pos hxe, if_pos hxe]
      exact ⟨hxe.symm, hxe.symm⟩
    · have hx' : x ∉ pre ++ e :: post := by
        simp only [List.mem_append, List.mem_cons] at hx ⊢
        tauto
      have hxprev : x ≠ L.prev e := fun heq => hx' (heq ▸ hprev)
      have hxnext : x ≠ L.next e := fun heq => hx' (heq ▸ hnext)
      rw [listDelInit_next, listDelInit_prev, if_neg hxe, if_neg hxe, if_neg hxprev,
        if_neg hxnext]
      exact h.alone x hx'

end

end Rings

end Links

/-! ### Classes without a gap -/

variable {α K : Type*} {κ κ' : α → K} {pre post xs ys : List α} {a n : α}

/-- The elements with the same `κ` stand together. -/
def Clustered (κ : α → K) (xs : List α) : Prop :=
  ∀ a b c, [a, b, c].Sublist xs → κ a = κ c → κ b = κ a

namespace Clustered

theorem nil : Clustered κ [] := by
  intro a b c h
  cases h

/-- A part of the list. -/
theorem sublist (h : Clustered κ ys) (hsub : xs.Sublist ys) : Clustered κ xs :=
  fun a b c habc => h a b c (habc.trans hsub)

/-- The key counts for the elements of the list. -/
theorem congr_key (h : Clustered κ xs) (hκ : ∀ a ∈ xs, κ' a = κ a) : Clustered κ' xs := by
  intro a b c habc
  have hmem := fun x hx => hκ x (habc.subset hx)
  rw [hmem a (by simp), hmem b (by simp), hmem c (by simp)]
  exact h a b c habc

/-- Three elements of a list with `n` in the middle: none of them is `n`, or one is. -/
theorem sublist_insert {b c d : α} (h : [b, c, d].Sublist (pre ++ n :: post)) :
    [b, c, d].Sublist (pre ++ post) ∨ (b = n ∧ [c, d].Sublist post) ∨
      (c = n ∧ b ∈ pre ∧ d ∈ post) ∨ (d = n ∧ [b, c].Sublist pre) := by
  obtain ⟨l₁, l₂, heq, hpre, hpost⟩ := List.sublist_append_iff.mp h
  rcases List.sublist_cons_iff.mp hpost with hpost | ⟨r, rfl, hr⟩
  · rw [heq]
    exact .inl (hpre.append hpost)
  · rcases l₁ with _ | ⟨x, _ | ⟨y, _ | ⟨z, l₁⟩⟩⟩
    · cases heq
      exact .inr (.inl ⟨rfl, hr⟩)
    · cases heq
      exact .inr (.inr (.inl ⟨rfl, List.singleton_sublist.mp hpre, List.singleton_sublist.mp hr⟩))
    · cases heq
      exact .inr (.inr (.inr ⟨rfl, hpre⟩))
    · simp at heq

/-- An element next to one of its class. -/
theorem insert (h : Clustered κ (pre ++ a :: post)) (hκ : κ n = κ a) :
    Clustered κ (pre ++ a :: n :: post) := by
  intro b c d hbcd hbd
  have hbcd' : [b, c, d].Sublist ((pre ++ [a]) ++ n :: post) := by simpa using hbcd
  rcases sublist_insert hbcd' with hsub | ⟨rfl, hsub⟩ | ⟨rfl, hb, hd⟩ | ⟨rfl, hsub⟩
  · exact h b c d (by simpa using hsub) hbd
  · rw [hκ] at hbd
    rw [hκ]
    exact h a c d ((hsub.cons_cons a).trans (List.sublist_append_right pre _)) hbd
  · rw [hκ]
    rcases List.mem_append.mp hb with hb | hb
    · refine h b a d ?_ hbd
      exact (List.singleton_sublist.mpr hb).append ((List.singleton_sublist.mpr hd).cons_cons a)
    · rw [List.mem_singleton.mp hb]
  · rw [hκ] at hbd
    obtain ⟨l₁, l₂, heq, hpre, hlast⟩ := List.sublist_append_iff.mp hsub
    rcases List.sublist_cons_iff.mp hlast with hnil | ⟨r, rfl, hr⟩
    · rw [List.sublist_nil.mp hnil, List.append_nil] at heq
      rw [← heq] at hpre
      exact h b c a (hpre.append ((List.nil_sublist post).cons_cons a)) hbd
    · rw [List.sublist_nil.mp hr] at heq
      have hc : c = a := by
        have := congrArg List.getLast? heq
        simpa using this
      rw [hc, hbd]

/-- The first element of its class, between two classes. -/
theorem insertNew (h : Clustered κ (pre ++ post)) (hκ : ∀ x ∈ pre ++ post, κ x ≠ κ n)
    (hcut : ∀ x ∈ pre, ∀ y ∈ post, κ x ≠ κ y) : Clustered κ (pre ++ n :: post) := by
  intro b c d hbcd hbd
  rcases sublist_insert hbcd with hsub | ⟨rfl, hsub⟩ | ⟨rfl, hb, hd⟩ | ⟨rfl, hsub⟩
  · exact h b c d hsub hbd
  · exact absurd hbd.symm (hκ d (List.mem_append_right _ (hsub.subset (List.mem_cons_of_mem c List.mem_cons_self))))
  · exact absurd hbd (hcut b hb d hd)
  · exact absurd hbd (hκ b (List.mem_append_left _ (hsub.subset List.mem_cons_self)))

/-- The class of the first element is an initial part. -/
theorem exists_class [DecidableEq K] (h : Clustered κ (a :: xs)) :
    ∃ g rest, xs = g ++ rest ∧ (∀ x ∈ g, κ x = κ a) ∧ ∀ x ∈ rest, κ x ≠ κ a := by
  induction xs with
  | nil => exact ⟨[], [], rfl, by simp, by simp⟩
  | cons y ys ih =>
      by_cases hy : κ y = κ a
      · obtain ⟨g, rest, rfl, hg, hrest⟩ :=
          ih (h.sublist ((List.sublist_cons_self y ys).cons_cons a))
        refine ⟨y :: g, rest, rfl, fun x hx => ?_, hrest⟩
        rcases List.mem_cons.mp hx with rfl | hx
        · exact hy
        · exact hg x hx
      · refine ⟨[], y :: ys, rfl, by simp, fun x hx hxa => ?_⟩
        rcases List.mem_cons.mp hx with rfl | hx
        · exact hy hxa
        · -- the element `y` would stand between two of the class
          exact hy (h a y x (((List.singleton_sublist.mpr hx).cons_cons y).cons_cons a) hxa.symm)

end Clustered

end LustreSimulator.Lib
