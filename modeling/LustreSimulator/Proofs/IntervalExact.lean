import LustreSimulator.Lib.Run
import LustreSimulator.Proofs.IntervalSearch

/-!
# `LustreSimulator.Proofs.IntervalExact`: when `in_max_high` is exact (`intervaltree.cpp`)

`Exact` says that `in_max_high` of every node is the largest end of the extents in its subtree.
It is `Tracks` with equality (`exact_iff_tracks`), so rebalancing keeps it.

`update_maxhigh` starts at the child of the node that `interval_erase` unlinks, and does nothing
when there is none. Then the ancestors keep the end that has left the tree, unless another end
covers it. `Repairs` is the condition under which nothing is lost, and `exact_erase` is the step:
the climb of `update_maxhigh` may stop as soon as a value is not below the old one
(`above_climbMaxhigh`), and the second climb repairs what the first one left
(`climbMaxhigh_climbMaxhigh`). Where the condition fails, the value stays in the tree, at the place
where the parent was (`not_tracks_unlink`). `exact_run_iff` is the result for runs.
-/

set_option autoImplicit false

namespace LustreSimulator

open Lib

namespace IntervalTree

variable {t : IntervalTree} {old m : Nat} {path : List (Frame IntervalNode)}

/-- The ends of the extents of a tree. -/
def ends (t : IntervalTree) : List Nat := t.toList.map high

/-- `m` is the largest end of the extents of a tree. -/
def Largest (m : Nat) (t : IntervalTree) : Prop := m ∈ ends t ∧ ∀ e ∈ ends t, e ≤ m

/-- `in_max_high` of each node is the largest end in the subtree of the node. -/
def Exact : IntervalTree → Prop
  | .nil => True
  | .node c l x r => Largest x.maxHigh (.node c l x r) ∧ Exact l ∧ Exact r

/-- The ends of a subtree, from the parts. -/
theorem mem_ends_node {c : Color} {l r : IntervalTree} {x : IntervalNode} {e : Nat} :
    e ∈ ends (.node c l x r) ↔ e ∈ ends l ∨ e = high x ∨ e ∈ ends r := by
  unfold ends
  rw [RbTree.toList_node, List.map_append, List.map_cons, List.mem_append, List.mem_cons]

/-- In an exact tree the value at the root is the largest end, or 0 when there is none. -/
theorem Exact.le_maxHigh (h : Exact t) : ∀ e ∈ ends t, e ≤ maxHigh t := by
  cases t with
  | nil => exact fun e he => nomatch he
  | node c l x r => exact h.1.2

theorem Exact.maxHigh_mem (h : Exact t) : maxHigh t = 0 ∨ maxHigh t ∈ ends t := by
  cases t with
  | nil => exact Or.inl rfl
  | node c l x r => exact Or.inr h.1.1

/-- The largest end is what `update_maxhigh` computes. -/
theorem largest_iff {c : Color} {l r : IntervalTree} {x : IntervalNode} (hl : Exact l)
    (hr : Exact r) :
    Largest m (.node c l x r) ↔ m = max (high x) (max (maxHigh l) (maxHigh r)) := by
  have hle : ∀ e ∈ ends (.node c l x r), e ≤ max (high x) (max (maxHigh l) (maxHigh r)) := by
    intro e he
    rcases mem_ends_node.mp he with he | rfl | he
    · have := hl.le_maxHigh e he
      omega
    · omega
    · have := hr.le_maxHigh e he
      omega
  have hmem : max (high x) (max (maxHigh l) (maxHigh r)) ∈ ends (.node c l x r) := by
    rw [mem_ends_node]
    rcases hl.maxHigh_mem with hl | hl <;> rcases hr.maxHigh_mem with hr | hr <;> grind
  constructor
  · intro h
    exact Nat.le_antisymm (hle m h.1) (h.2 _ hmem)
  · rintro rfl
    exact ⟨hmem, hle⟩

/-- Exactness is a matter of each node and its children. -/
theorem exact_iff_tracks (t : IntervalTree) : Exact t ↔ Tracks True t := by
  induction t with
  | nil => exact Iff.rfl
  | node c l x r ihl ihr =>
      rw [tracks_node, ← ihl, ← ihr]
      show Largest x.maxHigh (.node c l x r) ∧ Exact l ∧ Exact r ↔ _
      constructor
      · rintro ⟨hroot, hl, hr⟩
        have heq := (largest_iff hl hr).mp hroot
        exact ⟨⟨Nat.le_of_eq heq.symm, fun _ => Nat.le_of_eq heq⟩, hl, hr⟩
      · rintro ⟨⟨hle, hge⟩, hl, hr⟩
        exact ⟨(largest_iff hl hr).mpr (Nat.le_antisymm (hge trivial) hle), hl, hr⟩

/-! ### Insertion -/

/-- The walk of an insertion stops at a node with the same extent. -/
theorem insertWalk_focus {node x : IntervalNode} {c : Color} {l r : IntervalTree}
    (h : (insertWalk node t path).1 = .node c l x r) : x.extent = node.extent := by
  induction t generalizing path with
  | nil => cases h
  | node c' l' x' r' ihl ihr =>
      rw [insertWalk] at h
      split at h
      · rename_i heq
        obtain ⟨-, -, rfl, -⟩ := RbTree.node.inj h
        exact heq
      · -- the raised value does not matter
        dsimp only at h
        generalize (if x'.maxHigh < high node then { x' with maxHigh := high node } else x') = y
          at h
        split at h
        · exact ihl h
        · exact ihr h

/-- `interval_insert` keeps the values. -/
theorem tracks_insert {P : Prop} {node : IntervalNode} {found : Option IntervalNode}
    {t' : IntervalTree} (h : insert node t = some (found, t')) (hnode : node.maxHigh = high node)
    (ht : Tracks P t) : Tracks P t' := by
  obtain ⟨hfocus, hpath⟩ := @tracks_insertWalk P node t [] ht trivial
  have hstop := @insertWalk_focus t [] node
  unfold insert at h
  generalize insertWalk node t [] = w at *
  obtain ⟨focus, path⟩ := w
  cases focus with
  | nil =>
      obtain ⟨u, hu, heq⟩ := Option.map_eq_some_iff.mp h
      obtain ⟨-, rfl⟩ := Prod.mk.inj heq
      refine tracks_insertColor hu ((tracks_zip _ _).mpr ⟨?_, ?_⟩)
      · simp [hnode]
      · rw [maxHigh_node, hnode]
        simpa using hpath
  | node c l x r =>
      -- the ends above cover the one of the node that is found
      obtain ⟨-, rfl⟩ := Prod.mk.inj (Option.some.inj h)
      have hhigh : high x = high node := congrArg IntervalExtent.end_ (hstop rfl)
      refine (tracks_zip _ _).mpr ⟨hfocus, ?_⟩
      rw [maxHigh_node] at hpath ⊢
      rw [tracks_node] at hfocus
      rwa [Nat.max_eq_left (by omega)] at hpath

/-! ### Erasure -/

/-- An exact node stays as it is when it is recomputed. -/
theorem recompute_eq {x : IntervalNode} {a b : Nat} (h : x.maxHigh = max (high x) (max a b)) :
    recompute x a b = x := by
  unfold recompute
  rw [← h]

/-- The exact values above a hole. -/
theorem above_true_cons (m : Nat) (f : Frame IntervalNode) (fs : List (Frame IntervalNode)) :
    Above True m (f :: fs) ↔ f.entry.maxHigh = max (high f.entry) (max m (maxHigh f.sibling)) ∧
      Tracks True f.sibling ∧ Above True f.entry.maxHigh fs := by
  rw [above_cons]
  constructor
  · rintro ⟨⟨hle, hge⟩, hrest⟩
    exact ⟨Nat.le_antisymm (hge trivial) hle, hrest⟩
  · rintro ⟨heq, hrest⟩
    exact ⟨⟨Nat.le_of_eq heq.symm, fun _ => Nat.le_of_eq heq⟩, hrest⟩

/-- The climb of `update_maxhigh` makes the values above a hole exact, where they were exact for a
larger value `old` of the hole. It may stop at a value that is not below `old`: this is the value
that was there. -/
theorem above_climbMaxhigh (h : Above True old path) (hm : m ≤ old) :
    Above True m (climbMaxhigh old m path) := by
  induction path generalizing m with
  | nil => trivial
  | cons f fs ih =>
      obtain ⟨hf, hsib, hfs⟩ := (above_true_cons _ _ _).mp h
      rw [climbMaxhigh]
      split
      · rename_i hstop
        rw [maxHigh_recompute] at hstop
        have heq : f.entry.maxHigh = max (high f.entry) (max m (maxHigh f.sibling)) := by omega
        rw [recompute_eq heq]
        exact (above_true_cons _ _ _).mpr ⟨heq, hsib, hfs⟩
      · rename_i hgo
        rw [maxHigh_recompute] at hgo
        have hold : f.entry.maxHigh = old := by omega
        rw [above_true_cons]
        refine ⟨rfl, hsib, ?_⟩
        rw [hold] at hfs
        exact ih hfs (by rw [maxHigh_recompute]; omega)

/-- The value at the root does not rise in the climb. -/
theorem maxHigh_zip_climb_le {u : IntervalTree} (h : Above True old path) (hu : maxHigh u = old)
    (ht : maxHigh t ≤ old) :
    maxHigh (zip t (climbMaxhigh old (maxHigh t) path)) ≤ maxHigh (zip u path) := by
  induction path generalizing t u with
  | nil => exact Nat.le_trans ht (Nat.le_of_eq hu.symm)
  | cons f fs ih =>
      obtain ⟨hf, -, hfs⟩ := (above_true_cons _ _ _).mp h
      have hle : (recompute f.entry (maxHigh t) (maxHigh f.sibling)).maxHigh ≤
          f.entry.maxHigh := by
        rw [maxHigh_recompute]
        omega
      rw [climbMaxhigh]
      split
      · exact maxHigh_zip_le fs (by rw [maxHigh_plug, maxHigh_plug]; exact hle)
      · rename_i hgo
        rw [maxHigh_recompute] at hgo
        have hold : f.entry.maxHigh = old := by omega
        rw [hold] at hfs hle
        have hih := @ih ((⟨f.side, f.color, recompute f.entry (maxHigh t) (maxHigh f.sibling),
          f.sibling⟩ : Frame IntervalNode).plug t) (f.plug u) hfs
          ((maxHigh_plug f u).trans hold) (by rw [maxHigh_plug]; exact hle)
        rw [maxHigh_plug] at hih
        exact hih

/-- A climb for a larger value does again what an earlier climb for a smaller one has done. -/
theorem climbMaxhigh_climbMaxhigh {old' : Nat} (hle : old ≤ old') :
    climbMaxhigh old' m (climbMaxhigh old m path) = climbMaxhigh old' m path := by
  induction path generalizing m with
  | nil => rfl
  | cons f fs ih =>
      -- a node is computed from its end and its children, so a second time gives the same
      have hsame : ∀ gs, climbMaxhigh old' m
          ({ f with entry := recompute f.entry m (maxHigh f.sibling) } :: gs) =
            if (recompute f.entry m (maxHigh f.sibling)).maxHigh ≥ old'
            then { f with entry := recompute f.entry m (maxHigh f.sibling) } :: gs
            else { f with entry := recompute f.entry m (maxHigh f.sibling) } ::
              climbMaxhigh old' (recompute f.entry m (maxHigh f.sibling)).maxHigh gs :=
        fun gs => rfl
      rw [climbMaxhigh, climbMaxhigh]
      split
      · exact hsame fs
      · rename_i hgo
        rw [hsame, if_neg (fun hstop => hgo (Nat.le_trans hle hstop)),
          if_neg (fun hstop => hgo (Nat.le_trans hle hstop)), ih]

/-- The climb changes no link. -/
theorem length_climbMaxhigh (old m : Nat) (path : List (Frame IntervalNode)) :
    (climbMaxhigh old m path).length = path.length := by
  have hkey := congrArg List.length (climbMaxhigh_key old m path)
  rwa [List.length_map, List.length_map] at hkey

/-- The climb on a path that goes on behind `fs` ends on `fs` or goes on there. -/
theorem climbMaxhigh_append_cases (old : Nat) (t : IntervalTree)
    (fs gs : List (Frame IntervalNode)) :
    climbMaxhigh old (maxHigh t) (fs ++ gs) = climbMaxhigh old (maxHigh t) fs ++ gs ∨
    climbMaxhigh old (maxHigh t) (fs ++ gs) = climbMaxhigh old (maxHigh t) fs ++
      climbMaxhigh old (maxHigh (zip t (climbMaxhigh old (maxHigh t) fs))) gs := by
  induction fs generalizing t with
  | nil => exact Or.inr rfl
  | cons f fs ih =>
      rw [List.cons_append, climbMaxhigh, climbMaxhigh]
      split
      · exact Or.inl rfl
      · have hih := ih ((⟨f.side, f.color, recompute f.entry (maxHigh t) (maxHigh f.sibling),
          f.sibling⟩ : Frame IntervalNode).plug t)
        rw [maxHigh_plug] at hih
        rcases hih with hih | hih
        · exact Or.inl (congrArg (List.cons _) hih)
        · exact Or.inr (congrArg (List.cons _) hih)

/-- `update_maxhigh` from a node on leaves the tree exact, where the values above the node were
exact for a value `old` that is not smaller. -/
theorem exact_updateMaxhigh {c : Color} {l r : IntervalTree} {x : IntervalNode}
    (ht : Tracks True (.node c l x r)) (hpath : Above True old path) (hle : x.maxHigh ≤ old) :
    Tracks True (zip (updateMaxhigh old (.node c l x r) path).1
      (updateMaxhigh old (.node c l x r) path).2) := by
  obtain ⟨⟨hlow, hhigh⟩, -, -⟩ := (tracks_node c l x r).mp ht
  have heq : x.maxHigh = max (high x) (max (maxHigh l) (maxHigh r)) :=
    Nat.le_antisymm (hhigh trivial) hlow
  rw [updateMaxhigh, recompute_eq heq]
  dsimp only
  rw [tracks_zip, maxHigh_node]
  refine ⟨ht, ?_⟩
  split
  · rwa [Nat.le_antisymm hle (by assumption)]
  · exact above_climbMaxhigh hpath hle

/-- An end `e` that leaves the tree at the hole of a path is covered: there is no node above, or
the next one or its other subtree has an end that is not smaller. -/
def Covered (e : Nat) : List (Frame IntervalNode) → Prop
  | [] => True
  | f :: _ => e ≤ max (high f.entry) (maxHigh f.sibling)

/-- Above a hole with a covered value nothing changes. -/
theorem Covered.above (hc : Covered old path) (h : Above True old path) :
    Above True 0 path := by
  cases path with
  | nil => trivial
  | cons f fs =>
      obtain ⟨hf, hrest⟩ := (above_true_cons _ _ _).mp h
      have hc : old ≤ max (high f.entry) (maxHigh f.sibling) := hc
      exact (above_true_cons _ _ _).mpr ⟨by omega, hrest⟩

/-- The condition on an erasure. A node is unlinked that has no child: this is the erased node, or
its successor when it has two children. Then its end is covered at the place where it was. The
place of a successor that is the right child of the erased node needs no cover, as the node that
it replaces is recomputed. -/
def Repairs (p : Pos IntervalNode) : Prop :=
  match p.left, p.right with
  | .nil, .nil => Covered (high p.entry) p.path
  | .node _ _ _ _, .node c l x r =>
      (leftmost c l x r []).right = .nil →
        Covered (high (leftmost c l x r []).entry) (leftmost c l x r []).path
  | _, _ => True

/-- The first call of `update_maxhigh` for a node with two children, with the place of the node
behind `fs`: below the place the values are exact, and above it there is the old path, or what the
climb has made of it. -/
theorem exact_updateMaxhigh_append {u left : IntervalTree} {fs gs : List (Frame IntervalNode)}
    {color : Color} {s : IntervalNode} (ht : Tracks True t) (hfs : Above True s.maxHigh fs)
    (hu : maxHigh u = s.maxHigh) (hle : maxHigh t ≤ s.maxHigh)
    (hc : t = .nil → Covered s.maxHigh fs) :
    ∃ fs' f gs', updateMaxhigh s.maxHigh t (fs ++ ⟨.right, color, s, left⟩ :: gs) =
        (t, fs' ++ f :: gs') ∧ fs'.length = fs.length ∧ Tracks True (zip t fs') ∧
      maxHigh (zip t fs') ≤ maxHigh (zip u fs) ∧ f.side = .right ∧ f.color = color ∧
      f.sibling = left ∧ high f.entry = high s ∧
      (gs' = gs ∨ ∃ n, n = max (high s) (max (maxHigh (zip t fs')) (maxHigh left)) ∧
        n < s.maxHigh ∧ gs' = climbMaxhigh s.maxHigh n gs) := by
  set f₀ : Frame IntervalNode := ⟨.right, color, s, left⟩ with hf₀
  have hroot := maxHigh_zip_climb_le hfs hu hle
  have hlower : maxHigh (zip t fs) ≤ maxHigh (zip u fs) := maxHigh_zip_le fs (hu ▸ hle)
  cases t with
  | nil =>
      exact ⟨fs, f₀, gs, rfl, rfl, (tracks_zip _ _).mpr ⟨trivial, (hc rfl).above hfs⟩, hlower, rfl,
        rfl, rfl, rfl, .inl rfl⟩
  | node c l x r =>
      obtain ⟨⟨hlow, hhigh⟩, -, -⟩ := (tracks_node c l x r).mp ht
      rw [updateMaxhigh, recompute_eq (Nat.le_antisymm (hhigh trivial) hlow)]
      rw [maxHigh_node] at hle
      split
      · -- the first node has the old value
        refine ⟨fs, f₀, gs, rfl, rfl, (tracks_zip _ _).mpr ⟨ht, ?_⟩, hlower, rfl, rfl, rfl, rfl,
          .inl rfl⟩
        rwa [maxHigh_node, Nat.le_antisymm hle (by assumption)]
      · have hzip : Tracks True (zip (.node c l x r) (climbMaxhigh s.maxHigh x.maxHigh fs)) :=
          (tracks_zip _ _).mpr ⟨ht, above_climbMaxhigh hfs hle⟩
        have hlen := length_climbMaxhigh s.maxHigh x.maxHigh fs
        rcases climbMaxhigh_append_cases s.maxHigh (.node c l x r) fs (f₀ :: gs) with h | h
        · -- the climb ends below the place of the node
          exact ⟨_, f₀, gs, congrArg (Prod.mk _) h, hlen, hzip, hroot, rfl, rfl, rfl, rfl, .inl rfl⟩
        · rw [climbMaxhigh] at h
          split at h
          · exact ⟨_, _, gs, congrArg (Prod.mk _) h, hlen, hzip, hroot, rfl, rfl, rfl, rfl,
              .inl rfl⟩
          · rename_i hgo
            exact ⟨_, _, _, congrArg (Prod.mk _) h, hlen, hzip, hroot, rfl, rfl, rfl, rfl,
              .inr ⟨_, rfl, Nat.not_le.mp hgo, rfl⟩⟩

/-- The second call of `update_maxhigh` for a node with two children, whose value goes down from
`x` to `n`. It repairs what the first call has made of the path above. -/
theorem above_secondClimb {x n : Nat} {gs : List (Frame IntervalNode)} (hpath : Above True x path)
    (hn : n ≤ x) (hold : old ≤ x) (hgs : gs = path ∨ n < old ∧ gs = climbMaxhigh old n path) :
    Above True n (if n ≥ x then gs else climbMaxhigh x n gs) := by
  rcases hgs with rfl | ⟨hlt, rfl⟩
  · split
    · rwa [Nat.le_antisymm hn (by assumption)]
    · exact above_climbMaxhigh hpath hn
  · rw [if_neg (by omega), climbMaxhigh_climbMaxhigh hold]
    exact above_climbMaxhigh hpath hn

/-- `interval_erase` keeps the values exact, where nothing is lost. -/
theorem exact_erase {p : Pos IntervalNode} (h : erase p = some t) (hp : Tracks True p.tree)
    (hrep : Repairs p) : Tracks True t := by
  obtain ⟨color, l, x, r, path⟩ := p
  obtain ⟨⟨⟨hlow, hhigh⟩, hl, hr⟩, hpath⟩ := (tracks_zip (.node color l x r) path).mp hp
  have hx : x.maxHigh = max (high x) (max (maxHigh l) (maxHigh r)) :=
    Nat.le_antisymm (hhigh trivial) hlow
  rw [maxHigh_node] at hpath
  cases l with
  | nil =>
      refine tracks_unlink h ?_
      cases r with
      | nil =>
          -- a leaf
          have hend : x.maxHigh = high x := by simpa using hx
          have hcover : Covered x.maxHigh path := hend ▸ hrep
          exact (tracks_zip _ _).mpr ⟨trivial, hcover.above hpath⟩
      | node rc rl rx rr =>
          exact exact_updateMaxhigh hr hpath (by rw [hx, maxHigh_node]; omega)
  | node lc ll lx lr =>
      cases r with
      | nil =>
          exact tracks_unlink h (exact_updateMaxhigh hl hpath (by rw [hx, maxHigh_node]; omega))
      | node rc rl rx rr =>
          rw [erase] at h
          dsimp only at h
          obtain ⟨hleft, htree⟩ := leftmost_spec rc rl rx rr []
          have hrep : (leftmost rc rl rx rr []).right = .nil →
            Covered (high (leftmost rc rl rx rr []).entry) (leftmost rc rl rx rr []).path := hrep
          set succ := leftmost rc rl rx rr [] with hsucc
          rw [Pos.tree, Pos.subtree, hleft, zip_nil] at htree
          rw [← htree] at hr
          obtain ⟨⟨⟨hslow, hshigh⟩, -, hright⟩, habove⟩ := (tracks_zip _ _).mp hr
          have hs : succ.entry.maxHigh = max (high succ.entry) (max 0 (maxHigh succ.right)) :=
            Nat.le_antisymm (hshigh trivial) hslow
          have hroot := maxHigh_le_zip ((tracks_false _).mp (tracks_bound hr))
          rw [maxHigh_node] at habove hroot
          obtain ⟨fs, f, gs, hchild, hlen, hfs, hfsle, -, -, hsib, hfhigh, hgs⟩ :=
            @exact_updateMaxhigh_append succ.right (.node succ.color .nil succ.entry succ.right)
              (.node lc ll lx lr) succ.path path color succ.entry hright habove rfl (by omega) (by
                intro hnil
                have hend : succ.entry.maxHigh = high succ.entry := by
                  rw [hnil] at hs
                  simpa using hs
                exact hend ▸ hrep hnil)
          rw [hchild, List.take_left' hlen, List.drop_left' hlen] at h
          dsimp only at h
          refine tracks_unlink h ?_
          rw [htree] at hfsle hroot
          -- the value of the successor at its new place
          obtain ⟨n, hn⟩ : ∃ n, (recompute f.entry (maxHigh (.node lc ll lx lr))
            (maxHigh (zip succ.right fs))).maxHigh = n := ⟨_, rfl⟩
          have hmax := hn
          rw [maxHigh_recompute, hfhigh] at hmax
          rw [zip_append, tracks_zip]
          refine ⟨hfs, (above_true_cons _ _ _).mpr ⟨?_, hsib ▸ hl, ?_⟩⟩
          · show max (high f.entry) (max _ _) = max (high f.entry) (max _ (maxHigh f.sibling))
            rw [hsib, Nat.max_comm (maxHigh (RbTree.node lc ll lx lr))]
          · show Above True (recompute f.entry _ _).maxHigh _
            rw [hn]
            refine above_secondClimb hpath (by omega) (Nat.le_trans hroot (by omega)) ?_
            rcases hgs with hgs | ⟨k, hk, hlt, hgs⟩
            · exact Or.inl hgs
            · obtain rfl : k = n := by omega
              exact Or.inr ⟨hlt, hgs⟩


/-! ### What is lost -/

/-- A left rotation keeps the left child. -/
theorem left_of_rotateLeft {P : Prop} {c : Color} {l r t' : IntervalTree} {x : IntervalNode}
    (h : rotateLeft (.node c l x r) = some t') (ht : Tracks P t') : Tracks P l := by
  cases r with
  | nil => cases h
  | node c' rl y rr =>
      cases h
      exact ht.2.1.2.1

/-- A right rotation keeps the right child. -/
theorem right_of_rotateRight {P : Prop} {c : Color} {l r t' : IntervalTree} {x : IntervalNode}
    (h : rotateRight (.node c l x r) = some t') (ht : Tracks P t') : Tracks P r := by
  cases l with
  | nil => cases h
  | node c' ll y lr =>
      cases h
      exact ht.2.2.2.2

/-- A turn of the loop of an erasure keeps the subtree of `node`. -/
theorem tracks_of_eraseStep {P : Prop} {node : IntervalTree} {parent : Frame IntervalNode}
    {r : IntervalTree × Bool} (h : eraseStep node parent = some r) (hr : Tracks P r.1) :
    Tracks P node := by
  obtain ⟨side, c, x, s⟩ := parent
  cases s with
  | nil => cases h
  | node oc ol ox orr =>
      unfold eraseStep at h
      dsimp only at h
      split at h
      · cases h
        exact ((tracks_plug _ _).mp hr).1
      · cases side with
        | left =>
            obtain ⟨tmp, -, h⟩ := Option.bind_eq_some_iff.mp h
            cases tmp with
            | nil => cases h
            | node tc tl tx tr =>
                obtain ⟨top, htop, h⟩ := Option.bind_eq_some_iff.mp h
                cases h
                exact left_of_rotateLeft htop hr
        | right =>
            obtain ⟨tmp, -, h⟩ := Option.bind_eq_some_iff.mp h
            cases tmp with
            | nil => cases h
            | node tc tl tx tr =>
                obtain ⟨top, htop, h⟩ := Option.bind_eq_some_iff.mp h
                cases h
                exact right_of_rotateRight htop hr

/-- Rebalancing after an erasure keeps the subtree of `node`. -/
theorem tracks_of_eraseColor {P : Prop} {node : IntervalTree} {path : List (Frame IntervalNode)}
    (h : eraseColor node path = some t) (ht : Tracks P t) : Tracks P node := by
  induction path generalizing node with
  | nil =>
      cases h
      simpa using ht
  | cons parent rest ih =>
      rw [eraseColor] at h
      split at h
      · cases h
        simpa using ((tracks_zip _ _).mp ht).1
      · split at h
        · obtain ⟨r, hr, h⟩ := Option.bind_eq_some_iff.mp h
          refine tracks_of_eraseStep hr ?_
          split at h
          · cases h
            simpa using ((tracks_zip _ _).mp ht).1
          · cases h
            rw [tracks_setBlack] at ht
            exact ((tracks_zip _ _).mp ht).1
        · obtain ⟨r, hr, h⟩ := Option.bind_eq_some_iff.mp h
          refine tracks_of_eraseStep hr ?_
          split at h
          · exact ih h
          · cases h
            rw [tracks_setBlack] at ht
            exact ((tracks_zip _ _).mp ht).1

/-- A turn of the loop of an erasure leaves the value of the parent at its place. -/
theorem maxHigh_eraseStep {node : IntervalTree} {parent : Frame IntervalNode}
    {r : IntervalTree × Bool} (h : eraseStep node parent = some r) :
    maxHigh r.1 = parent.entry.maxHigh := by
  obtain ⟨side, c, x, s⟩ := parent
  cases s with
  | nil => cases h
  | node oc ol ox orr =>
      unfold eraseStep at h
      dsimp only at h
      split at h
      · cases h
        exact maxHigh_plug _ _
      · cases side with
        | left =>
            obtain ⟨tmp, -, h⟩ := Option.bind_eq_some_iff.mp h
            cases tmp with
            | nil => cases h
            | node tc tl tx tr =>
                obtain ⟨top, htop, h⟩ := Option.bind_eq_some_iff.mp h
                cases h
                cases htop
                rfl
        | right =>
            obtain ⟨tmp, -, h⟩ := Option.bind_eq_some_iff.mp h
            cases tmp with
            | nil => cases h
            | node tc tl tx tr =>
                obtain ⟨top, htop, h⟩ := Option.bind_eq_some_iff.mp h
                cases h
                cases htop
                rfl

/-- A value that no end covers does not become exact in a turn: it goes to the node that takes the
place of the parent. -/
theorem not_tracks_eraseStep {parent : Frame IntervalNode} {r : IntervalTree × Bool}
    (h : eraseStep .nil parent = some r) (hs : Tracks True parent.sibling)
    (hlost : max (high parent.entry) (maxHigh parent.sibling) < parent.entry.maxHigh) :
    ¬ Tracks True r.1 := by
  intro hr
  obtain ⟨side, c, x, s⟩ := parent
  dsimp only at hs hlost
  cases s with
  | nil => cases h
  | node oc ol ox orr =>
      unfold eraseStep at h
      dsimp only at h
      split at h
      · cases h
        obtain ⟨heq, -⟩ := (above_true_cons _ _ _).mp ((tracks_plug _ _).mp hr).2
        simp only [maxHigh_nil, maxHigh_node] at heq hlost
        omega
      · cases side with
        | left =>
            obtain ⟨tmp, htmp, h⟩ := Option.bind_eq_some_iff.mp h
            obtain ⟨hb, hmax⟩ := tracks_innerLeft htmp hs
            cases tmp with
            | nil => cases h
            | node tc tl tx tr =>
                obtain ⟨top, htop, h⟩ := Option.bind_eq_some_iff.mp h
                cases h
                cases htop
                simp only [tracks_node, maxHigh_node, maxHigh_setBlack, maxHigh_recompute,
                  high_setMaxHigh, maxHigh_nil, true_imp_iff] at hr hb hmax hlost
                omega
        | right =>
            obtain ⟨tmp, htmp, h⟩ := Option.bind_eq_some_iff.mp h
            obtain ⟨hb, hmax⟩ := tracks_innerRight htmp hs
            cases tmp with
            | nil => cases h
            | node tc tl tx tr =>
                obtain ⟨top, htop, h⟩ := Option.bind_eq_some_iff.mp h
                cases h
                cases htop
                simp only [tracks_node, maxHigh_node, maxHigh_setBlack, maxHigh_recompute,
                  high_setMaxHigh, maxHigh_nil, true_imp_iff] at hr hb hmax hlost
                omega

/-- Where an end was not covered, the tree is not exact after the end of an erasure. -/
theorem not_tracks_unlink {color : Color} {f : Frame IntervalNode} {fs : List (Frame IntervalNode)}
    (h : unlink color .nil (f :: fs) = some t) (hs : Tracks True f.sibling)
    (hlost : max (high f.entry) (maxHigh f.sibling) < f.entry.maxHigh) : ¬ Tracks True t := by
  intro ht
  unfold unlink at h
  split at h
  · rw [eraseColor] at h
    split at h
    · rename_i hred
      cases hred
    · split at h
      · -- a red sibling takes the place of the parent, with its value
        rename_i ol ox orr hsib
        obtain ⟨r, hr, h⟩ := Option.bind_eq_some_iff.mp h
        have hmax := maxHigh_eraseStep hr
        have habove : Above True (maxHigh r.1) ((rotateSibling .nil f ol ox orr).2 :: fs) := by
          split at h
          · cases h
            rw [← maxHigh_setBlack r.1]
            exact ((tracks_zip _ _).mp ht).2
          · cases h
            rw [tracks_setBlack] at ht
            exact ((tracks_zip _ _).mp ht).2
        obtain ⟨heq, -⟩ := (above_true_cons _ _ _).mp habove
        obtain ⟨side, c, x, s⟩ := f
        obtain rfl : s = _ := hsib
        rw [hmax] at heq
        cases side <;>
          simp only [rotateSibling, tracks_node, maxHigh_node, maxHigh_recompute, high_setMaxHigh,
            maxHigh_nil, true_imp_iff] at heq hs hlost <;>
          omega
      · obtain ⟨r, hr, h⟩ := Option.bind_eq_some_iff.mp h
        refine not_tracks_eraseStep hr hs hlost ?_
        split at h
        · exact tracks_of_eraseColor h ht
        · cases h
          rw [tracks_setBlack] at ht
          exact ((tracks_zip _ _).mp ht).1
  · cases h
    obtain ⟨heq, -⟩ := (above_true_cons _ _ _).mp ((tracks_zip _ _).mp ht).2
    rw [maxHigh_nil] at heq
    omega

/-- Above a hole whose end is not covered there is a node that keeps it. -/
theorem lost_of_not_covered (hc : ¬ Covered old path) (h : Above True old path) :
    ∃ f fs, path = f :: fs ∧ Tracks True f.sibling ∧
      max (high f.entry) (maxHigh f.sibling) < f.entry.maxHigh := by
  cases path with
  | nil => exact absurd trivial hc
  | cons f fs =>
      obtain ⟨hf, hs, -⟩ := (above_true_cons _ _ _).mp h
      have hc : ¬ old ≤ max (high f.entry) (maxHigh f.sibling) := hc
      exact ⟨f, fs, rfl, hs, by omega⟩

/-- `interval_erase` keeps the values exact only where nothing is lost. -/
theorem repairs_of_exact {p : Pos IntervalNode} (h : erase p = some t) (hp : Tracks True p.tree)
    (ht : Tracks True t) : Repairs p := by
  obtain ⟨color, l, x, r, path⟩ := p
  obtain ⟨⟨⟨hlow, hhigh⟩, hl, hr⟩, hpath⟩ := (tracks_zip (.node color l x r) path).mp hp
  rw [maxHigh_node] at hpath
  cases l with
  | nil =>
      cases r with
      | nil =>
          have hend : x.maxHigh = high x := by
            simp only [maxHigh_nil, true_imp_iff] at hlow hhigh
            omega
          rw [hend] at hpath
          show Covered (high x) path
          by_contra hc
          obtain ⟨f, fs, rfl, hs, hlost⟩ := lost_of_not_covered hc hpath
          exact not_tracks_unlink h hs hlost ht
      | node rc rl rx rr => trivial
  | node lc ll lx lr =>
      cases r with
      | nil => trivial
      | node rc rl rx rr =>
          rw [erase] at h
          dsimp only at h
          intro hnil
          obtain ⟨hleft, htree⟩ := leftmost_spec rc rl rx rr []
          set succ := leftmost rc rl rx rr [] with hsucc
          rw [Pos.tree, Pos.subtree, hleft, zip_nil] at htree
          rw [← htree, hnil] at hr
          obtain ⟨⟨⟨hslow, hshigh⟩, -⟩, habove⟩ := (tracks_zip _ _).mp hr
          have hend : succ.entry.maxHigh = high succ.entry := by
            simp only [maxHigh_nil, true_imp_iff] at hslow hshigh
            omega
          rw [maxHigh_node, hend] at habove
          by_contra hc
          obtain ⟨f, fs, hpath', hs, hlost⟩ := lost_of_not_covered hc habove
          -- nothing is recomputed below the place of the erased node
          rw [hnil, updateMaxhigh, List.take_left, List.drop_left, hpath'] at h
          exact not_tracks_unlink h hs hlost ht

/-! ### Runs -/

/-- A call of `interval_insert`, behind `interval_set`, or of `interval_erase`. -/
inductive Op where
  | insert (addr start end_ : Nat)
  | erase (p : Pos IntervalNode)

/-- What a call does to the tree. -/
inductive Edit : IntervalTree → Op → IntervalTree → Prop where
  | insert {t t' : IntervalTree} {addr start end_ : Nat} {found : Option IntervalNode} :
      start ≤ end_ → insert (intervalSet addr start end_) t = some (found, t') →
      Edit t (.insert addr start end_) t'
  | erase {p : Pos IntervalNode} {t' : IntervalTree} :
      erase p = some t' → Edit p.tree (.erase p) t'

/-- The condition on a call. -/
def Op.Repairs : Op → Prop
  | .insert _ _ _ => True
  | .erase p => IntervalTree.Repairs p

/-- One call on an exact tree leaves it exact when it meets the condition, and only then. -/
theorem Edit.exact_iff {t' : IntervalTree} {op : Op} (h : Edit t op t') (ht : Exact t) :
    Exact t' ↔ op.Repairs := by
  rw [exact_iff_tracks] at ht ⊢
  cases h with
  | insert _ hinsert => exact ⟨fun _ => trivial, fun _ => tracks_insert hinsert rfl ht⟩
  | erase herase => exact ⟨repairs_of_exact herase ht, exact_erase herase ht⟩

/-- A run whose calls all meet the condition leaves the tree exact. -/
theorem exact_of_run {ops : List Op} {t' : IntervalTree} (hrun : Run Edit t ops t') (ht : Exact t)
    (hrep : ∀ op ∈ ops, op.Repairs) : Exact t' := by
  induction hrun with
  | nil => exact ht
  | cons hstep _ ih =>
      obtain ⟨hop, hrest⟩ := List.forall_mem_cons.mp hrep
      exact ih ((hstep.exact_iff ht).mpr hop) hrest

/-- In a run of insertions and erasures from the empty tree, every tree that is reached has in each
node the largest end of the subtree in `in_max_high`, exactly when every call meets the condition:
wherever a node without a child is unlinked, its end is covered. -/
theorem exact_run_iff {ops : List Op} (hrun : Run Edit .nil ops t) :
    (∀ pre s, pre <+: ops → Run Edit .nil pre s → Exact s) ↔ ∀ op ∈ ops, op.Repairs := by
  constructor
  · intro hexact op hop
    obtain ⟨pre, post, s, s', rfl, hpre, hstep, -⟩ := hrun.exists_of_mem hop
    have hs : Exact s := hexact pre s (List.prefix_append _ _) hpre
    refine (hstep.exact_iff hs).mp (hexact (pre ++ [op]) s' ?_ (hpre.snoc hstep))
    exact ⟨post, by rw [List.append_assoc, List.singleton_append]⟩
  · intro hrep pre s hpre hrun
    exact exact_of_run hrun trivial fun op hop => hrep op (hpre.subset hop)

/-- Two insertions, and the erasure of the node at the root, whose child takes its place. -/
theorem exact_run_iff_three :
    (∀ pre s, pre <+: [.insert 1 0 10, .insert 2 20 30,
        .erase ⟨.black, .nil, ⟨1, ⟨0, 10⟩, 30⟩, .node .red .nil ⟨2, ⟨20, 30⟩, 30⟩ .nil, []⟩] →
      Run Edit .nil pre s → Exact s) ↔
    ∀ op ∈ [Op.insert 1 0 10, .insert 2 20 30,
      .erase ⟨.black, .nil, ⟨1, ⟨0, 10⟩, 30⟩, .node .red .nil ⟨2, ⟨20, 30⟩, 30⟩ .nil, []⟩],
      op.Repairs :=
  exact_run_iff (.cons (.insert (by decide) rfl) (.cons (.insert (by decide) rfl)
    (.cons (@Edit.erase ⟨.black, .nil, ⟨1, ⟨0, 10⟩, 30⟩,
      .node .red .nil ⟨2, ⟨20, 30⟩, 30⟩ .nil, []⟩ _ rfl) (.nil _))))

/-- The erasure of a leaf leaves its end in its parent. -/
theorem not_exact_erase_leaf :
    Run Edit .nil [.insert 1 0 10, .insert 2 20 30,
      .erase ⟨.red, .nil, ⟨2, ⟨20, 30⟩, 30⟩, .nil, [⟨.right, .black, ⟨1, ⟨0, 10⟩, 30⟩, .nil⟩]⟩]
      (.node .black .nil ⟨1, ⟨0, 10⟩, 30⟩ .nil) ∧
    ¬ Exact (.node .black .nil ⟨1, ⟨0, 10⟩, 30⟩ .nil) := by
  refine ⟨.cons (.insert (by decide) rfl) (.cons (.insert (by decide) rfl)
    (.cons (@Edit.erase ⟨.red, .nil, ⟨2, ⟨20, 30⟩, 30⟩, .nil,
      [⟨.right, .black, ⟨1, ⟨0, 10⟩, 30⟩, .nil⟩]⟩ _ rfl) (.nil _))), fun hexact => ?_⟩
  have hmem : 30 ∈ [10] := hexact.1.1
  exact absurd hmem (by decide)

end IntervalTree

end LustreSimulator
