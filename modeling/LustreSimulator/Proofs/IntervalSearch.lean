import Mathlib.Data.List.Nodup
import LustreSimulator.IntervalSearch
import LustreSimulator.Proofs.IntervalTree

/-!
# `LustreSimulator.Proofs.IntervalSearch`: the loop does what the recursion does

`searchLoop_visit` relates the loop of `interval_search` to the recursion `visit`: from a node on,
the loop does what the recursion does below the node, and then climbs. It takes at most as many
turns as there are nodes. With `search_eq` this gives the result for every tree that
`interval_insert` and `interval_erase` can build (`interval_search_exact`).
-/

set_option autoImplicit false

namespace LustreSimulator

open Lib

namespace IntervalTree

section Loop

variable {σ ε : Type*} {ext : IntervalExtent} {func : IntervalNode → σ → Except ε (σ × Bool)}

/-- What the loop does after it has seen everything below a node: it climbs and goes on there. -/
def resume (ext : IntervalExtent) (func : IntervalNode → σ → Except ε (σ × Bool)) (fuel : Nat)
    (node : IntervalTree) (path : List (Frame IntervalNode)) (s : σ) : Option (Except ε σ) :=
  match climb node path with
  | none => some (.ok s)
  | some (parent, p) =>
      if mayOverlap parent ext then searchLoop ext func fuel p s else some (.ok s)

/-- What the loop does after the recursion below a node. -/
def afterVisit (ext : IntervalExtent) (func : IntervalNode → σ → Except ε (σ × Bool)) (fuel : Nat)
    (node : IntervalTree) (path : List (Frame IntervalNode)) :
    Except ε (σ × Bool) → Option (Except ε σ)
  | .error e => some (.error e)
  | .ok (s, true) => some (.ok s)
  | .ok (s, false) => resume ext func fuel node path s

/-- From a left child whose parent has a right child, the loop goes on there if the parent may
overlap. -/
theorem resume_left (fuel : Nat) (node : IntervalTree) (c c' : Color) (l r : IntervalTree)
    (x y : IntervalNode) (path : List (Frame IntervalNode)) (s : σ) :
    resume ext func fuel node (⟨.left, c, x, .node c' l y r⟩ :: path) s =
      if mayOverlap x ext then
        searchLoop ext func fuel ⟨c', l, y, r, ⟨.right, c, x, node⟩ :: path⟩ s
      else some (.ok s) := rfl

/-- From a left child whose parent has no right child, the loop climbs on. -/
theorem resume_left_nil (fuel : Nat) (node : IntervalTree) (c : Color) (x : IntervalNode)
    (path : List (Frame IntervalNode)) (s : σ) :
    resume ext func fuel node (⟨.left, c, x, .nil⟩ :: path) s =
      resume ext func fuel (.node c node x .nil) path s := rfl

/-- From a right child the loop climbs on. -/
theorem resume_right (fuel : Nat) (node : IntervalTree) (c : Color) (x : IntervalNode)
    (l : IntervalTree) (path : List (Frame IntervalNode)) (s : σ) :
    resume ext func fuel node (⟨.right, c, x, l⟩ :: path) s =
      resume ext func fuel (.node c l x node) path s := rfl

/-- A turn that goes on at a node. -/
theorem searchLoop_turn {fuel : Nat} {p q : Pos IntervalNode} {s s' : σ}
    (h : searchTurn ext func p s = .ok (s', some q)) :
    searchLoop ext func (fuel + 1) p s = searchLoop ext func fuel q s' := by
  rw [searchLoop, h]

/-- A turn that climbs. -/
theorem searchLoop_climb {fuel : Nat} {p : Pos IntervalNode} {s s' : σ}
    (h : searchTurn ext func p s = .ok (s', climbNext ext p)) :
    searchLoop ext func (fuel + 1) p s = resume ext func fuel p.subtree p.path s' := by
  rw [searchLoop, h]
  unfold climbNext resume
  cases climb p.subtree p.path with
  | none => rfl
  | some r =>
      obtain ⟨parent, q⟩ := r
      by_cases hmay : mayOverlap parent ext = true
      · dsimp only
        rw [if_pos hmay, if_pos hmay]
      · dsimp only
        rw [if_neg hmay, if_neg hmay]

/-- From a right child on, what is left to do is the same as from its parent on. -/
theorem afterVisit_right (fuel : Nat) (c : Color) (l : IntervalTree) (x : IntervalNode)
    (r : IntervalTree) (path : List (Frame IntervalNode)) (v : Except ε (σ × Bool)) :
    afterVisit ext func fuel r (⟨.right, c, x, l⟩ :: path) v =
      afterVisit ext func fuel (.node c l x r) path v := by
  match v with
  | .error e => rfl
  | .ok (s, true) => rfl
  | .ok (s, false) => exact resume_right fuel r c x l path s

/-- Left of a node that starts behind the extent, the loop ends at the node if that has a right
child, and climbs on if not. -/
theorem afterVisit_left {x : IntervalNode} (hlow : ext.end_ < low x) (fuel : Nat) (c : Color)
    (l r : IntervalTree) (path : List (Frame IntervalNode)) (v : Except ε (σ × Bool)) :
    afterVisit ext func fuel l (⟨.left, c, x, r⟩ :: path) v =
      afterVisit ext func fuel (.node c l x r) path
        (v.bind fun v => .ok (v.1, v.2 || decide (r ≠ .nil))) := by
  have hmay : ¬ mayOverlap x ext = true := by
    simp only [mayOverlap, Bool.and_eq_true, decide_eq_true_eq]
    omega
  rcases v with e | ⟨s, _ | _⟩
  · rfl
  · -- the walk goes on, to the right subtree if there is one
    cases r with
    | nil => exact resume_left_nil fuel l c x path s
    | node c' l' y r' =>
        have hright : decide (RbTree.node c' l' y r' ≠ .nil) = true := by simp
        rw [ok_bind, hright, Bool.false_or, afterVisit, afterVisit, resume_left, if_neg hmay]
  · rfl

/-- The loop below a tree does what the recursion does, in no more turns than there are nodes. -/
def Simulated (ext : IntervalExtent) (func : IntervalNode → σ → Except ε (σ × Bool))
    (t : IntervalTree) : Prop :=
  ∀ path p s, childPos path t = some p → ∃ n, n ≤ t.toList.length ∧ ∀ k,
    searchLoop ext func (n + k) p s = afterVisit ext func k t path (visit ext func t s)

/-- Behind the left subtree of a node that may overlap comes the right one. -/
theorem resume_simulated {r : IntervalTree} (hr : Simulated ext func r) (c : Color)
    (l : IntervalTree) {x : IntervalNode} (path : List (Frame IntervalNode)) (s : σ)
    (hmay : mayOverlap x ext = true) : ∃ n, n ≤ r.toList.length ∧ ∀ k,
      resume ext func (n + k) l (⟨.left, c, x, r⟩ :: path) s =
        afterVisit ext func k (.node c l x r) path (visit ext func r s) := by
  cases r with
  | nil => exact ⟨0, Nat.le_refl _, fun k => by rw [Nat.zero_add, resume_left_nil]; rfl⟩
  | node c' l' y r' =>
      obtain ⟨n, hn, hloop⟩ := hr (⟨.right, c, x, l⟩ :: path) _ s rfl
      refine ⟨n, hn, fun k => ?_⟩
      rw [resume_left, if_pos hmay, hloop k, afterVisit_right]

/-- The number of nodes below a node. -/
theorem length_node (c : Color) (l : IntervalTree) (x : IntervalNode) (r : IntervalTree) :
    (RbTree.node c l x r).toList.length = l.toList.length + (r.toList.length + 1) := by
  rw [RbTree.toList_node, List.length_append, List.length_cons]

/-- A node that starts behind the extent: the loop goes to the left. -/
theorem simulated_behind {l : IntervalTree} {x : IntervalNode} (hl : Simulated ext func l)
    (hlow : ext.end_ < low x) (c : Color) (r : IntervalTree) :
    Simulated ext func (.node c l x r) := by
  intro path p s hp
  obtain rfl : (⟨c, l, x, r, path⟩ : Pos IntervalNode) = p := Option.some.inj hp
  rw [length_node, visit, if_pos hlow]
  cases l with
  | nil =>
      refine ⟨1, by omega, fun k => ?_⟩
      have hturn : searchTurn ext func ⟨c, .nil, x, r, path⟩ s =
          .ok (s, climbNext ext ⟨c, .nil, x, r, path⟩) := if_pos hlow
      rw [Nat.add_comm, searchLoop_climb hturn]
      rfl
  | node cl ll xl rl =>
      obtain ⟨n, hn, hloop⟩ := hl (⟨.left, c, x, r⟩ :: path) _ s rfl
      refine ⟨n + 1, by omega, fun k => ?_⟩
      have hturn : searchTurn ext func ⟨c, .node cl ll xl rl, x, r, path⟩ s =
          .ok (s, some ⟨cl, ll, xl, rl, ⟨.left, c, x, r⟩ :: path⟩) := if_pos hlow
      rw [Nat.add_right_comm, searchLoop_turn hturn, hloop k, if_neg (by simp),
        afterVisit_left hlow]

/-- A node that ends before the extent, with all below it: the loop climbs. -/
theorem simulated_before {x : IntervalNode} (hlow : ¬ ext.end_ < low x)
    (hmay : ¬ mayOverlap x ext = true) (c : Color) (l r : IntervalTree) :
    Simulated ext func (.node c l x r) := by
  intro path p s hp
  obtain rfl : (⟨c, l, x, r, path⟩ : Pos IntervalNode) = p := Option.some.inj hp
  rw [length_node, visit, if_neg hlow, if_neg hmay]
  refine ⟨1, by omega, fun k => ?_⟩
  have hturn : searchTurn ext func ⟨c, l, x, r, path⟩ s =
      .ok (s, climbNext ext ⟨c, l, x, r, path⟩) := by
    unfold searchTurn
    rw [if_neg hlow, if_neg hmay]
  rw [Nat.add_comm, searchLoop_climb hturn]
  rfl

/-- The call of the function at a node. -/
def callAt (ext : IntervalExtent) (func : IntervalNode → σ → Except ε (σ × Bool))
    (x : IntervalNode) (s : σ) : Except ε (σ × Bool) :=
  if ext.overlapped x.extent then func x s else .ok (s, false)

/-- The turn at a node that may overlap. -/
theorem searchTurn_may {p : Pos IntervalNode} {s : σ} (hlow : ¬ ext.end_ < low p.entry)
    (hmay : mayOverlap p.entry ext = true) :
    searchTurn ext func p s = (callAt ext func p.entry s).bind fun v =>
      if v.2 then .ok (v.1, none)
      else
        match inLeft p with
        | some left => .ok (v.1, some left)
        | none =>
            match inRight p with
            | some right => .ok (v.1, some right)
            | none => .ok (v.1, climbNext ext p) := by
  unfold searchTurn
  rw [if_neg hlow, if_pos hmay]
  rfl

/-- The turn at a node that may overlap, and the loop in its left subtree. -/
theorem searchLoop_down {l : IntervalTree} {x : IntervalNode} (hl : Simulated ext func l)
    (hlow : ¬ ext.end_ < low x) (hmay : mayOverlap x ext = true) {s s₁ : σ}
    (hcall : callAt ext func x s = .ok (s₁, false)) (c : Color) (r : IntervalTree)
    (path : List (Frame IntervalNode)) : ∃ n, n ≤ l.toList.length ∧ ∀ k,
      searchLoop ext func (n + k + 1) ⟨c, l, x, r, path⟩ s =
        afterVisit ext func k l (⟨.left, c, x, r⟩ :: path) (visit ext func l s₁) := by
  cases l with
  | nil =>
      refine ⟨0, Nat.le_refl _, fun k => ?_⟩
      rw [Nat.zero_add, visit, afterVisit]
      cases r with
      | nil =>
          have hturn : searchTurn ext func ⟨c, .nil, x, .nil, path⟩ s =
              .ok (s₁, climbNext ext ⟨c, .nil, x, .nil, path⟩) := by
            rw [searchTurn_may hlow hmay, hcall]
            rfl
          rw [searchLoop_climb hturn, resume_left_nil]
          rfl
      | node cr lr xr rr =>
          rw [resume_left, if_pos hmay, searchLoop_turn]
          rw [searchTurn_may hlow hmay, hcall]
          rfl
  | node cl ll xl rl =>
      obtain ⟨n, hn, hloop⟩ := hl (⟨.left, c, x, r⟩ :: path) _ s₁ rfl
      refine ⟨n, hn, fun k => ?_⟩
      rw [← hloop k, searchLoop_turn]
      rw [searchTurn_may hlow hmay, hcall]
      rfl

/-- A node that may overlap: the function is called, the loop goes to the left, and then to the
right unless it was stopped. -/
theorem simulated_may {l r : IntervalTree} {x : IntervalNode} (hl : Simulated ext func l)
    (hr : Simulated ext func r) (hlow : ¬ ext.end_ < low x) (hmay : mayOverlap x ext = true)
    (c : Color) : Simulated ext func (.node c l x r) := by
  intro path p s hp
  obtain rfl : (⟨c, l, x, r, path⟩ : Pos IntervalNode) = p := Option.some.inj hp
  rw [length_node, visit, if_neg hlow, if_pos hmay]
  change ∃ n, _ ∧ ∀ k, searchLoop ext func (n + k) _ s = afterVisit ext func k _ path
    ((callAt ext func x s).bind _)
  cases hcall : callAt ext func x s with
  | error e =>
      refine ⟨1, by omega, fun k => ?_⟩
      have hturn : searchTurn ext func ⟨c, l, x, r, path⟩ s = .error e := by
        rw [searchTurn_may hlow hmay, hcall]
        rfl
      rw [Nat.add_comm, searchLoop, hturn]
      rfl
  | ok v =>
      obtain ⟨s₁, stop⟩ := v
      cases stop with
      | true =>
          refine ⟨1, by omega, fun k => ?_⟩
          have hturn : searchTurn ext func ⟨c, l, x, r, path⟩ s = .ok (s₁, none) := by
            rw [searchTurn_may hlow hmay, hcall]
            rfl
          rw [Nat.add_comm, searchLoop, hturn]
          rfl
      | false =>
          obtain ⟨n, hn, hloop⟩ := searchLoop_down hl hlow hmay hcall c r path
          cases hvisit : visit ext func l s₁ with
          | error e =>
              refine ⟨n + 1, by omega, fun k => ?_⟩
              rw [Nat.add_right_comm, hloop k, hvisit, ok_bind, if_neg Bool.false_ne_true, hvisit]
              rfl
          | ok w =>
              obtain ⟨s₂, ended⟩ := w
              cases ended with
              | true =>
                  refine ⟨n + 1, by omega, fun k => ?_⟩
                  rw [Nat.add_right_comm, hloop k, hvisit, ok_bind, if_neg Bool.false_ne_true,
                    hvisit]
                  rfl
              | false =>
                  obtain ⟨m, hm, hresume⟩ := resume_simulated hr c l path s₂ hmay
                  refine ⟨n + m + 1, by omega, fun k => ?_⟩
                  rw [Nat.add_right_comm, Nat.add_assoc n m k, hloop, hvisit, ok_bind,
                    if_neg Bool.false_ne_true, hvisit, afterVisit, hresume]
                  rfl

/-- From a node on, the loop does what the recursion does below it, and then climbs. -/
theorem searchLoop_visit (t : IntervalTree) : Simulated ext func t := by
  induction t with
  | nil => exact fun path p s hp => nomatch hp
  | node c l x r ihl ihr =>
      by_cases hlow : ext.end_ < low x
      · exact simulated_behind ihl hlow c r
      · by_cases hmay : mayOverlap x ext = true
        · exact simulated_may ihl ihr hlow hmay c
        · exact simulated_before hlow hmay c l r

/-- The whole loop does what the recursion does. -/
theorem searchLoop_eq {root : IntervalTree} {node : Pos IntervalNode} {fuel : Nat}
    (hroot : childPos [] root = some node) (hfuel : root.toList.length ≤ fuel) (s : σ) :
    searchLoop ext func fuel node s = some (search root ext func s) := by
  obtain ⟨n, hn, hloop⟩ := searchLoop_visit root [] node s hroot
  obtain ⟨k, rfl⟩ := Nat.exists_eq_add_of_le (Nat.le_trans hn hfuel)
  rw [hloop k, search]
  rcases visit ext func root s with e | ⟨s', _ | _⟩
  · rfl
  · rfl
  · rfl

/-- Storing `rc` changes nothing in a walk, and `rc` tells at the end whether it was stopped. -/
theorem walk_storeRc (xs : List IntervalNode) (s : σ) :
    walk (storeRc func) xs (s, false) = (walk func xs s).map fun v => (v, v.2) := by
  induction xs generalizing s with
  | nil => rfl
  | cons x xs ih =>
      rw [walk, walk, storeRc]
      rcases func x s with e | ⟨s', _ | _⟩
      · rfl
      · exact ih s'
      · rfl

/-- **The loop of `interval_search`.** On a well-formed tree it ends, and calls its function on the
nodes that overlap the extent until it is stopped. -/
theorem intervalSearch_eq {root : IntervalTree} (h : WF root) {fuel : Nat}
    (hfuel : root.toList.length ≤ fuel) (s : σ) :
    intervalSearch fuel root ext func s = some (walk func (overlapping ext root) s) := by
  unfold intervalSearch
  cases hroot : childPos [] root with
  | none =>
      cases root with
      | nil => rfl
      | node => cases hroot
  | some node =>
      dsimp only
      rw [searchLoop_eq hroot hfuel, search_eq h, walk_storeRc]
      match walk func (overlapping ext root) s with
      | .error e => rfl
      | .ok v => rfl

end Loop

/-- `interval_is_overlapped` ends, with the result of the recursion. -/
theorem intervalIsOverlapped_eq {t : IntervalTree} (h : WF t) {fuel : Nat}
    (hfuel : t.toList.length ≤ fuel) (ext : IntervalExtent) :
    intervalIsOverlapped fuel t ext = some (isOverlapped t ext) := by
  rw [intervalIsOverlapped, intervalSearch_eq h hfuel, isOverlapped, search_eq h]
  cases overlapping ext t <;> rfl

/-! ### Trees in use -/

/-- A tree that calls of `interval_insert` and `interval_erase` have built. `interval_set` is called
before each insertion. -/
inductive Built : IntervalTree → Prop where
  | nil : Built .nil
  | insert {t t' : IntervalTree} {addr start end_ : Nat} {found : Option IntervalNode} :
      Built t → start ≤ end_ → insert (intervalSet addr start end_) t = some (found, t') → Built t'
  | erase {p : Pos IntervalNode} {t' : IntervalTree} : Built p.tree → erase p = some t' → Built t'

/-- Every tree in use is well formed. -/
theorem Built.wf {t : IntervalTree} (h : Built t) : WF t := by
  induction h with
  | nil => exact wf_nil
  | @insert t t' addr start end_ found _ _ hinsert ih =>
      rcases @insert_spec t (intervalSet addr start end_) ih rfl with
        ⟨x, u, hu, -, -, hwf, -⟩ | ⟨u, l, m, hu, hwf, -⟩
      · rw [hinsert] at hu
        cases hu
        exact hwf
      · rw [hinsert] at hu
        cases hu
        exact hwf
  | erase _ herase ih =>
      obtain ⟨u, l, m, hu, hwf, -⟩ := erase_spec ih
      rw [herase] at hu
      cases hu
      exact hwf

/-- The preorder has the nodes of the tree. -/
theorem preorder_perm (t : IntervalTree) : (preorder t).Perm t.toList := by
  induction t with
  | nil => exact List.Perm.refl _
  | node c l x r ihl ihr =>
      rw [preorder, RbTree.toList_node]
      exact ((ihl.append ihr).cons x).trans List.perm_middle.symm

/-- No node overlaps twice. -/
theorem overlapping_nodup {t : IntervalTree} (h : WF t) (ext : IntervalExtent) :
    (overlapping ext t).Nodup := by
  have hnodup : t.toList.Nodup := List.Nodup.of_map _ h.sorted.nodup
  exact ((preorder_perm t).nodup_iff.mpr hnodup).filter _

/-- **Searching is complete and exact.** In every tree in use, and for every extent, there is a list
of the nodes that overlap the extent, each of them once, such that `interval_search` ends and calls
its function on the nodes of this list until it returns `INTERVAL_ITER_STOP`.
`interval_is_overlapped` tells whether there is such a node. -/
theorem interval_search_exact {t : IntervalTree} (h : Built t) (ext : IntervalExtent) :
    ∃ xs : List IntervalNode, xs.Nodup ∧
      (∀ x, x ∈ xs ↔ x ∈ t.toList ∧ ext.overlapped x.extent = true) ∧
      ∀ fuel, t.toList.length ≤ fuel →
        (∀ (σ ε : Type) (func : IntervalNode → σ → Except ε (σ × Bool)) (s : σ),
          intervalSearch fuel t ext func s = some (walk func xs s)) ∧
        ∃ has, intervalIsOverlapped fuel t ext = some has ∧
          (has = true ↔ ∃ x ∈ t.toList, ext.overlapped x.extent = true) := by
  refine ⟨overlapping ext t, overlapping_nodup h.wf ext, fun x => mem_overlapping,
    fun fuel hfuel => ⟨fun σ ε func s => intervalSearch_eq h.wf hfuel s, ?_⟩⟩
  exact ⟨_, intervalIsOverlapped_eq h.wf hfuel ext, isOverlapped_iff h.wf⟩

/-- Two of three extents overlap the query. -/
theorem interval_search_exact_three : ∃ t, Built t ∧ t.toList.length = 3 ∧
    intervalIsOverlapped 3 t ⟨4000, 9000⟩ = some true ∧
    ∃ xs : List IntervalNode, xs.Nodup ∧
      ∀ x, x ∈ xs ↔ x ∈ t.toList ∧ IntervalExtent.overlapped ⟨4000, 9000⟩ x.extent = true := by
  obtain ⟨t, hbuilt, hlen, hover⟩ : ∃ t, Built t ∧ t.toList.length = 3 ∧
      intervalIsOverlapped 3 t ⟨4000, 9000⟩ = some true :=
    ⟨_, @Built.insert _ _ 3 16384 20479 _
      (@Built.insert _ _ 2 8192 12287 _ (@Built.insert _ _ 1 0 4095 _ .nil (by decide) rfl)
        (by decide) rfl) (by decide) rfl, rfl, rfl⟩
  obtain ⟨xs, hnodup, hmem, -⟩ := interval_search_exact hbuilt ⟨4000, 9000⟩
  exact ⟨t, hbuilt, hlen, hover, xs, hnodup, hmem⟩

end IntervalTree

end LustreSimulator
