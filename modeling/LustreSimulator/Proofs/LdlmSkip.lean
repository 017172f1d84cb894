import LustreSimulator.LdlmSkip
import LustreSimulator.Lib.Run

/-!
# `LustreSimulator.Proofs.LdlmSkip`: granted locks stand in groups

`Skips s order` says that the granted locks are `order`, and that the three lists are rings over it:
one for all, one for each mode, and one for each policy group. A policy group of a `LDLM_PLAIN`
resource is a single lock, so `policyKey` is the lock itself there.

`search_granted_lock` walks from group to group. The first lock of a group knows the last one
(`Rings.prev_first`), and the lock behind this one is the first of the next group, since no group has
a gap. `searchMode_place` and `searchPolicy_place` are the two loops: the search comes to an end, and
the place that it finds (`Place`) is one of three. `Place.skips` puts the lock there.

`skiplist_grouped` is the result over all runs.
-/

set_option autoImplicit false

namespace LustreSimulator

open Lib Links

namespace LdlmSkip

open Ldlm (Mode Fault)

variable {s s' : Resource} {order pre post : List Nat} {req l lock modeEnd turns : Nat}
  {p : SlInsertPoint}

/-! ### Groups -/

/-- The key of a mode group. -/
def modeKey (s : Resource) (l : Nat) : Mode := (s.locks l).reqMode

/-- The key of a policy group. -/
def policyKey (s : Resource) (l : Nat) : Mode × Nat :=
  ((s.locks l).reqMode,
    match s.lrType with
    | .plain => l
    | .ibits => (s.locks l).bits)

/-- A policy group has one mode. -/
theorem modeKey_eq {a b : Nat} (h : policyKey s a = policyKey s b) : modeKey s a = modeKey s b :=
  congrArg Prod.fst h

/-- The granted locks are `order`, and the lists are rings over it. -/
structure Skips (s : Resource) (order : List Nat) : Prop where
  nodup : order.Nodup
  res : s.resLink.Rings (fun _ => ()) (none :: order.map some)
  mode : s.slMode.Rings (modeKey s) order
  policy : s.slPolicy.Rings (policyKey s) order
  modeClustered : Clustered (modeKey s) order
  policyClustered : Clustered (policyKey s) order

namespace Skips

/-- The whole list is one ring. -/
theorem ring (h : Skips s order) : s.resLink.IsRing (none :: order.map some) := by
  have hring := h.res.ring ()
  rwa [List.filter_eq_self.mpr fun _ _ => decide_eq_true rfl] at hring

/-- No node of the list is there twice. -/
theorem nodes_nodup (h : Skips s order) : (none :: order.map some).Nodup := by
  rw [List.nodup_cons]
  exact ⟨by simp, h.nodup.map (Option.some_injective _)⟩

/-- `list_for_each` goes from the end of one part of the list to the begin of the next. -/
theorem next_getLast? {rest : List Nat} (h : Skips s order) (heq : order = pre ++ rest) :
    s.resLink.next pre.getLast? = rest.head? := by
  have hring := h.ring
  rw [heq, List.map_append] at hring
  rcases List.eq_nil_or_concat pre with rfl | ⟨pre, a, rfl⟩
  · cases rest with
    | nil => exact (isRing_singleton.mp hring).1
    | cons b rest => exact hring.adj_cons.1
  · rw [List.concat_eq_append] at hring ⊢
    rw [List.getLast?_concat]
    rw [List.map_append] at hring
    cases rest with
    | nil =>
        rw [List.map_nil, List.append_nil] at hring
        exact (hring.adj_last (List.cons_append).symm).1
    | cons b rest =>
        rw [List.append_assoc, ← List.cons_append] at hring
        exact (IsRing.adj hring).1

/-- `queue->prev` is the last lock. -/
theorem prev_none (h : Skips s order) : s.resLink.prev none = order.getLast? := by
  rcases List.eq_nil_or_concat order with rfl | ⟨pre, a, rfl⟩
  · exact (isRing_singleton.mp h.ring).2
  · have hring := h.ring
    rw [List.concat_eq_append, List.map_append] at hring
    rw [List.concat_eq_append, List.getLast?_concat]
    exact (hring.adj_last (List.cons_append).symm).2

/-- `list_empty(&lock->l_res_link)`. -/
theorem empty_iff (h : Skips s order) : s.resLink.Empty (some l) ↔ l ∉ order := by
  constructor
  · intro hempty hl
    obtain ⟨pre, post, rfl⟩ := List.append_of_mem hl
    have hring := h.ring
    have hnodup := h.nodes_nodup
    rw [List.map_append, List.map_cons, ← List.cons_append] at hring hnodup
    have heq := hring.eq_singleton hnodup hempty
    simp at heq
  · intro hl
    exact (h.res.alone (some l) (by simpa using hl)).1

/-- Behind the last lock of a mode group the other locks of the list have other policies. -/
theorem policy_cut {a : Nat} (h : Skips s order) (heq : order = pre ++ a :: post)
    (hpost : ∀ y ∈ post, modeKey s y ≠ modeKey s a) :
    ∀ x ∈ pre ++ [a], ∀ y ∈ post, policyKey s x ≠ policyKey s y := by
  intro x hx y hy hxy
  rcases List.mem_append.mp hx with hx | hx
  · have hsub : [x, a, y].Sublist order := by
      rw [heq]
      exact (List.singleton_sublist.mpr hx).append ((List.singleton_sublist.mpr hy).cons_cons a)
    have ha := h.modeClustered x a y hsub (modeKey_eq hxy)
    exact hpost y hy ((modeKey_eq hxy).symm.trans ha.symm)
  · rw [List.mem_singleton.mp hx] at hxy
    exact hpost y hy (modeKey_eq hxy).symm

end Skips

/-! ### The search -/

/-- The places for a lock: behind the last lock of its policy group, or behind the last lock of its
mode group when it has no policy group, or at the end when it has no mode group. -/
inductive Place (s : Resource) (req : Nat) (order : List Nat) : SlInsertPoint → Prop where
  | policy {pre post : List Nat} {a : Nat} :
      order = pre ++ a :: post → policyKey s a = policyKey s req → Place s req order ⟨some a, a, a⟩
  | mode {pre post : List Nat} {a : Nat} :
      order = pre ++ a :: post → modeKey s a = modeKey s req →
      (∀ x ∈ order, policyKey s x ≠ policyKey s req) →
      (∀ y ∈ post, modeKey s y ≠ modeKey s a) → Place s req order ⟨some a, a, req⟩
  | last :
      (∀ x ∈ order, modeKey s x ≠ modeKey s req) → Place s req order ⟨order.getLast?, req, req⟩

section

variable {K : Type} {κ : Nat → K} {k : K} {passed g group rest : List Nat}

/-- A group of another class has been passed. -/
theorem passed_ne (hpassed : ∀ x ∈ passed, κ x ≠ k) (hg : ∀ x ∈ lock :: g, κ x = κ lock)
    (hlock : κ lock ≠ k) : ∀ x ∈ passed ++ lock :: g, κ x ≠ k := by
  intro x hx
  rcases List.mem_append.mp hx with hx | hx
  · exact hpassed x hx
  · rw [hg x hx]
    exact hlock

/-- The class of a group that has been passed does not come again. -/
theorem passed_cut (hcut : ∀ x ∈ passed, ∀ y ∈ lock :: (g ++ rest), κ x ≠ κ y)
    (hg : ∀ x ∈ lock :: g, κ x = κ lock) (hrest : ∀ y ∈ rest, κ y ≠ κ lock) :
    ∀ x ∈ passed ++ lock :: g, ∀ y ∈ rest, κ x ≠ κ y := by
  intro x hx y hy
  rcases List.mem_append.mp hx with hx | hx
  · exact hcut x hx y (List.mem_cons_of_mem _ (List.mem_append_right g hy))
  · rw [hg x hx]
    exact (hrest y hy).symm

/-- The group of the lock `lock`, whose last lock `z` is in front of it in the ring. -/
theorem exists_group [DecidableEq K] {L : Links Nat}
    (h : Rings L κ (passed ++ (lock :: group ++ rest)))
    (hclustered : Clustered κ (lock :: group)) (hpassed : ∀ x ∈ passed, κ x ≠ κ lock)
    (hrest : ∀ y ∈ rest, κ y ≠ κ lock) :
    ∃ g group' g₀ z, group = g ++ group' ∧ lock :: g = g₀ ++ [z] ∧ L.prev lock = z ∧
      (∀ x ∈ lock :: g, κ x = κ lock) ∧ ∀ y ∈ group', κ y ≠ κ lock := by
  obtain ⟨g, group', rfl, hg, hgroup'⟩ := hclustered.exists_class
  obtain ⟨g₀, z, hz⟩ := (List.eq_nil_or_concat (lock :: g)).resolve_left (by simp)
  rw [List.concat_eq_append] at hz
  refine ⟨g, group', g₀, z, rfl, hz, ?_, List.forall_mem_cons.mpr ⟨rfl, hg⟩, hgroup'⟩
  rw [← List.cons_append, List.append_assoc] at h
  refine h.prev_first hpassed hg (fun y hy => ?_) hz
  exact (List.mem_append.mp hy).elim (hgroup' y) (hrest y)

end

/-- `list_for_each` goes on behind the last lock of a group. -/
theorem next_group {passed g g₀ rest : List Nat} {z : Nat} (h : Skips s order)
    (heq : order = (passed ++ lock :: g) ++ rest) (hz : lock :: g = g₀ ++ [z]) :
    s.resLink.next (some z) = rest.head? := by
  have hnext := h.next_getLast? heq
  rwa [hz, ← List.append_assoc, List.getLast?_concat] at hnext

/-- The loop over the policy groups, from the lock `lock` on. The groups in front have been passed,
and the rest of the mode group is `lock` with `group`. -/
theorem searchPolicy_place {passed group group₀ rest : List Nat} (h : Skips s order)
    (hty : s.lrType = .ibits) (heq : order = passed ++ (lock :: group ++ rest))
    (hlast : lock :: group = group₀ ++ [modeEnd])
    (hgroup : ∀ x ∈ lock :: group, modeKey s x = modeKey s req)
    (hrest : ∀ x ∈ rest, modeKey s x ≠ modeKey s req)
    (hpassed : ∀ x ∈ passed, policyKey s x ≠ policyKey s req)
    (hcut : ∀ x ∈ passed, ∀ y ∈ lock :: group, policyKey s x ≠ policyKey s y) :
    (∀ p, searchPolicy s req modeEnd turns lock = .ok p → Place s req order p) ∧
      (group.length < turns → ∃ p, searchPolicy s req modeEnd turns lock = .ok p) := by
  induction turns generalizing passed lock group group₀ with
  | zero => exact ⟨fun p hp => (nomatch hp), fun hlt => absurd hlt (Nat.not_lt_zero _)⟩
  | succ k ih =>
      have hlock := hgroup lock List.mem_cons_self
      have hclustered : Clustered (policyKey s) (lock :: group) := by
        refine h.policyClustered.sublist ?_
        rw [heq]
        exact (List.sublist_append_left _ rest).trans (List.sublist_append_right passed _)
      obtain ⟨g, group', g₀, z, rfl, hz, hprev, hg, hgroup'⟩ :=
        exists_group (heq ▸ h.policy) hclustered
          (fun x hx => hcut x hx lock List.mem_cons_self)
          fun x hx hkey => hrest x hx ((modeKey_eq hkey).trans hlock)
      have hzmem : z ∈ lock :: g := by
        rw [hz]
        simp
      have heqr : order = (passed ++ lock :: g) ++ (group' ++ rest) := by
        rw [heq]
        simp
      have hplace : order = (passed ++ g₀) ++ z :: (group' ++ rest) := by
        rw [heqr, hz]
        simp
      have hkey : policyKey s lock = policyKey s req ↔
          (s.locks lock).bits = (s.locks req).bits := by
        unfold policyKey
        rw [hty]
        exact ⟨congrArg Prod.snd, fun hbits => Prod.ext hlock hbits⟩
      rw [searchPolicy, hprev]
      by_cases hbits : (s.locks lock).bits = (s.locks req).bits
      · -- the policy group is found
        rw [if_pos hbits]
        refine ⟨fun p hp => ?_, fun _ => ⟨_, rfl⟩⟩
        cases hp
        exact .policy hplace ((hg z hzmem).trans (hkey.mpr hbits))
      · have hpassed' := passed_ne hpassed hg (mt hkey.mp hbits)
        rw [if_neg hbits]
        cases group' with
        | nil =>
            -- it was the last one of the mode group
            have hend : z = modeEnd := by
              rw [List.append_nil, hz] at hlast
              exact (List.append_inj' hlast rfl).2 |> List.singleton_inj.mp
            rw [if_pos hend, ← hend]
            refine ⟨fun p hp => ?_, fun _ => ⟨_, rfl⟩⟩
            cases hp
            have hzmode : modeKey s z = modeKey s req := (modeKey_eq (hg z hzmem)).trans hlock
            refine .mode hplace hzmode (fun x hx => ?_) fun y hy => ?_
            · rw [heqr] at hx
              rcases List.mem_append.mp hx with hx | hx
              · exact hpassed' x hx
              · exact fun hkey => hrest x hx (modeKey_eq hkey)
            · rw [hzmode]
              exact hrest y hy
        | cons m group' =>
            -- the loop goes on with the lock behind the group
            obtain ⟨m₀, e, hm⟩ := (List.eq_nil_or_concat (m :: group')).resolve_left (by simp)
            rw [List.concat_eq_append] at hm
            rw [← List.cons_append, hm, ← List.append_assoc] at hlast
            obtain rfl := List.singleton_inj.mp (List.append_inj' hlast rfl).2
            have hend : z ≠ e := by
              rintro rfl
              have hnodup := h.nodup
              rw [heqr, List.append_assoc, List.nodup_append] at hnodup
              have hdisjoint := (List.nodup_append.mp hnodup.2.1).2.2 z hzmem z
              exact hdisjoint (List.mem_append_left _ (by rw [hm]; simp)) rfl
            have hnext : s.resLink.next (some z) = some m := next_group h heqr hz
            obtain ⟨hfound, htotal⟩ := ih heqr hm
              (fun x hx => hgroup x (List.mem_cons_of_mem _ (List.mem_append_right g hx)))
              hpassed' (passed_cut hcut hg hgroup')
            rw [if_neg hend, hnext]
            refine ⟨hfound, fun hlt => htotal ?_⟩
            simp only [List.length_append, List.length_cons] at hlt
            omega

/-- The loop over the mode groups, from the locks `rest` on. -/
theorem searchMode_place {passed rest : List Nat} (h : Skips s order) (hreq : req ∉ order)
    (heq : order = passed ++ rest) (hpassed : ∀ x ∈ passed, modeKey s x ≠ modeKey s req)
    (hcut : ∀ x ∈ passed, ∀ y ∈ rest, modeKey s x ≠ modeKey s y) :
    (∀ p, searchMode s req turns rest.head? = .ok p → Place s req order p) ∧
      (rest.length < turns → ∃ p, searchMode s req turns rest.head? = .ok p) := by
  induction turns generalizing passed rest with
  | zero => exact ⟨fun p hp => (nomatch hp), fun hlt => absurd hlt (Nat.not_lt_zero _)⟩
  | succ k ih =>
      cases rest with
      | nil =>
          rw [List.append_nil] at heq
          rw [List.head?_nil, searchMode, h.prev_none]
          refine ⟨fun p hp => ?_, fun _ => ⟨_, rfl⟩⟩
          cases hp
          exact .last (by rwa [heq])
      | cons lock rest =>
          have hclustered : Clustered (modeKey s) (lock :: rest) := by
            refine h.modeClustered.sublist ?_
            rw [heq]
            exact List.sublist_append_right passed _
          have hrings : s.slMode.Rings (modeKey s) (passed ++ (lock :: rest ++ [])) := by
            rw [List.append_nil, ← heq]
            exact h.mode
          obtain ⟨g, rest', g₀, z, rfl, hz, hprev, hg, hrest'⟩ := exists_group hrings hclustered
            (fun x hx => hcut x hx lock List.mem_cons_self) (by simp)
          have heqr : order = (passed ++ lock :: g) ++ rest' := by
            rw [heq]
            simp
          have hzkey : modeKey s z = modeKey s lock := hg z (by rw [hz]; simp)
          rw [List.head?_cons, searchMode, hprev]
          by_cases hmode : modeKey s lock = modeKey s req
          · -- the mode group is found
            have heqmode : ¬ (s.locks lock).reqMode ≠ (s.locks req).reqMode := not_not.mpr hmode
            rw [if_neg heqmode]
            cases hty : s.lrType with
            | plain =>
                refine ⟨fun p hp => ?_, fun _ => ⟨_, rfl⟩⟩
                cases hp
                have hplace : order = (passed ++ g₀) ++ z :: rest' := by
                  rw [heqr, hz]
                  simp
                refine .mode hplace (hzkey.trans hmode) (fun x hx hkey => ?_)
                  (by rwa [hzkey])
                -- every lock has a policy group of its own
                unfold policyKey at hkey
                rw [hty] at hkey
                obtain rfl : x = req := congrArg Prod.snd hkey
                exact hreq hx
            | ibits =>
                obtain ⟨hplace, htotal⟩ : (∀ p, searchPolicy s req z k lock = .ok p →
                    Place s req order p) ∧
                    (g.length < k → ∃ p, searchPolicy s req z k lock = .ok p) :=
                  searchPolicy_place h hty heq hz (fun x hx => (hg x hx).trans hmode)
                    (hmode ▸ hrest') (fun x hx hkey => hpassed x hx (modeKey_eq hkey))
                    fun x hx y hy hkey => hcut x hx y
                      (List.mem_append_left rest' hy) (modeKey_eq hkey)
                refine ⟨hplace, fun hlt => htotal ?_⟩
                simp only [List.length_append, List.length_cons] at hlt
                omega
          · -- the loop goes on with the lock behind the group
            have hne : (s.locks lock).reqMode ≠ (s.locks req).reqMode := hmode
            obtain ⟨hplace, htotal⟩ := ih heqr (passed_ne hpassed hg hmode)
              (passed_cut hcut hg hrest')
            rw [if_pos hne, next_group h heqr hz]
            refine ⟨hplace, fun hlt => htotal ?_⟩
            simp only [List.length_append, List.length_cons] at hlt
            omega

/-- The search of a lock that is in no list: it comes to an end, and finds a place. -/
theorem searchGrantedLock_place (h : Skips s order) (hreq : req ∉ order) :
    (∀ p, searchGrantedLock s turns req = .ok p → Place s req order p) ∧
      (order.length < turns → ∃ p, searchGrantedLock s turns req = .ok p) := by
  have hfront : order = [] ++ order := rfl
  have hfirst := h.next_getLast? hfront
  rw [List.getLast?_nil] at hfirst
  rw [searchGrantedLock, hfirst]
  exact searchMode_place h hreq hfront (by simp) (by simp)

/-! ### The steps -/

/-- A lock that is put into the list is there once. -/
theorem nodup_insert (hnodup : (pre ++ post).Nodup) (hl : l ∉ pre ++ post) :
    (pre ++ l :: post).Nodup :=
  List.nodup_middle.mpr (List.nodup_cons.mpr ⟨hl, hnodup⟩)

/-- The lock behind another one in the list of the resource. -/
theorem Skips.res_insert {a : Nat} (h : Skips s (pre ++ a :: post)) (hl : l ∉ pre ++ a :: post) :
    (s.resLink.listAdd (some l) (some a)).Rings (fun _ => ())
      (none :: (pre ++ a :: l :: post).map some) := by
  have hres := h.res
  have hnodup := h.nodes_nodup
  rw [List.map_append, List.map_cons, ← List.cons_append] at hres hnodup
  rw [List.map_append, List.map_cons, List.map_cons, ← List.cons_append]
  exact hres.insert hnodup (by simpa using hl) rfl

/-- The lock at the end of the list of the resource. -/
theorem Skips.res_last (h : Skips s order) (hl : l ∉ order) :
    (s.resLink.listAdd (some l) order.getLast?).Rings (fun _ => ())
      (none :: (order ++ [l]).map some) := by
  rcases List.eq_nil_or_concat order with rfl | ⟨pre, a, rfl⟩
  · have hres : s.resLink.Rings (fun _ => ()) ([] ++ none :: []) := h.res
    exact hres.insert h.nodes_nodup (by simp) rfl
  · rw [List.concat_eq_append] at h hl ⊢
    rw [List.getLast?_concat, List.append_assoc]
    exact h.res_insert hl

/-- The lock is put to its place. -/
theorem Place.skips (h : Skips s order) (hl : l ∉ order) (hp : Place s l order p) :
    ∃ order', Skips { s with
        resLink := s.resLink.listAdd (some l) p.resLink
        slMode := s.slMode.listAdd l p.modeLink
        slPolicy := s.slPolicy.listAdd l p.policyLink } order' := by
  have hnodup := h.nodup
  cases hp with
  | @policy pre post a heq hkey =>
      subst heq
      have happend : pre ++ a :: post = (pre ++ [a]) ++ post := by simp
      have happend' : pre ++ a :: l :: post = (pre ++ [a]) ++ l :: post := by simp
      refine ⟨pre ++ a :: l :: post, ?_, h.res_insert hl,
        h.mode.insert hnodup hl (modeKey_eq hkey).symm, h.policy.insert hnodup hl hkey.symm,
        h.modeClustered.insert (modeKey_eq hkey).symm, h.policyClustered.insert hkey.symm⟩
      rw [happend] at hnodup hl
      rw [happend']
      exact nodup_insert hnodup hl
  | @mode pre post a heq hkey hnew hpost =>
      have hcut := h.policy_cut heq hpost
      subst heq
      have happend : pre ++ a :: post = (pre ++ [a]) ++ post := by simp
      have happend' : pre ++ a :: l :: post = (pre ++ [a]) ++ l :: post := by simp
      have hmode := h.mode.insert hnodup hl hkey.symm
      have hres := h.res_insert hl
      have hpolicy := h.policy
      have hclustered := h.policyClustered
      have hmodeClustered := h.modeClustered.insert hkey.symm
      rw [happend] at hnodup hpolicy hclustered hl hnew
      rw [happend'] at hmode hres hmodeClustered
      exact ⟨_, nodup_insert hnodup hl, hres, hmode, hpolicy.insertNew hl hnew, hmodeClustered,
        hclustered.insertNew hnew hcut⟩
  | last hnew =>
      have hres := h.res_last hl
      rw [← List.append_nil order] at hl hnew hnodup h
      have hnew' : ∀ x ∈ order ++ [], policyKey s x ≠ policyKey s l :=
        fun x hx hkey => hnew x hx (modeKey_eq hkey)
      exact ⟨order ++ [l], nodup_insert hnodup hl, hres, h.mode.insertNew hl hnew,
        h.policy.insertNew hl hnew', h.modeClustered.insertNew hnew (by simp),
        h.policyClustered.insertNew hnew' (by simp)⟩

/-- **A grant** keeps the groups. -/
theorem grant_skips (h : Skips s order) (hok : grantLockWithSkiplist s turns l = .ok s') :
    ∃ order', Skips s' order' := by
  obtain ⟨_, -, hok⟩ := bind_eq_ok.mp hok
  obtain ⟨p, hsearch, hok⟩ := bind_eq_ok.mp hok
  rw [grantedListAddLock] at hok
  split at hok
  · cases hok
    exact ⟨order, h⟩
  · obtain ⟨_, hempty, hok⟩ := bind_eq_ok.mp hok
    obtain ⟨_, -, hok⟩ := bind_eq_ok.mp hok
    obtain ⟨_, -, hok⟩ := bind_eq_ok.mp hok
    cases hok
    have hl := h.empty_iff.mp (check_eq_ok.mp hempty)
    exact ((searchGrantedLock_place h hl).1 p hsearch).skips h hl

/-- A grant leaves the type. -/
theorem grant_lrType (hok : grantLockWithSkiplist s turns l = .ok s') : s'.lrType = s.lrType := by
  obtain ⟨_, -, hok⟩ := bind_eq_ok.mp hok
  obtain ⟨p, -, hok⟩ := bind_eq_ok.mp hok
  rw [grantedListAddLock] at hok
  split at hok
  · cases hok
    rfl
  · obtain ⟨_, -, hok⟩ := bind_eq_ok.mp hok
    obtain ⟨_, -, hok⟩ := bind_eq_ok.mp hok
    obtain ⟨_, -, hok⟩ := bind_eq_ok.mp hok
    cases hok
    rfl

/-- A grant of a lock that is in no list succeeds. -/
theorem grant_total (h : Skips s order) (hl : l ∉ order)
    (hmode : (s.locks l).grantedMode = some (s.locks l).reqMode) :
    ∃ turns s', grantLockWithSkiplist s turns l = .ok s' := by
  obtain ⟨p, hp⟩ := (searchGrantedLock_place h hl).2 (Nat.lt_succ_self order.length)
  have hadd : ∃ s', grantedListAddLock s l p = .ok s' := by
    rw [grantedListAddLock]
    split
    · exact ⟨s, rfl⟩
    · exact ⟨_, bind_eq_ok.mpr ⟨(), check_true (h.empty_iff.mpr hl),
        bind_eq_ok.mpr ⟨(), check_true (h.mode.alone l hl).1,
          bind_eq_ok.mpr ⟨(), check_true (h.policy.alone l hl).1, rfl⟩⟩⟩⟩
  obtain ⟨s', hs'⟩ := hadd
  exact ⟨order.length + 1, s', bind_eq_ok.mpr ⟨(), check_true hmode.symm,
    bind_eq_ok.mpr ⟨p, hp, hs'⟩⟩⟩

/-- **An unlink** keeps the groups. -/
theorem unlink_skips (h : Skips s order) (l : Nat) :
    ∃ order', Skips (resourceUnlinkLock s l) order' := by
  by_cases hl : l ∈ order
  · obtain ⟨pre, post, rfl⟩ := List.append_of_mem hl
    have hres := h.res
    have hnodes := h.nodes_nodup
    have hsub : (pre ++ post).Sublist (pre ++ l :: post) :=
      (List.sublist_cons_self l post).append_left pre
    rw [List.map_append, List.map_cons, ← List.cons_append] at hres hnodes
    refine ⟨pre ++ post, h.nodup.sublist hsub, ?_, h.mode.remove h.nodup,
      h.policy.remove h.nodup, h.modeClustered.sublist hsub, h.policyClustered.sublist hsub⟩
    rw [List.map_append, ← List.cons_append]
    exact hres.remove hnodes
  · -- a lock that is in no list stays in none
    have hsame : resourceUnlinkLock s l = s := by
      obtain ⟨hrn, hrp⟩ := h.res.alone (some l) (by simpa using hl)
      obtain ⟨hmn, hmp⟩ := h.mode.alone l hl
      obtain ⟨hpn, hpp⟩ := h.policy.alone l hl
      unfold resourceUnlinkLock unlinkLockSkiplist
      dsimp only
      rw [listDelInit_self hrn hrp, listDelInit_self hmn hmp, listDelInit_self hpn hpp]
    rw [hsame]
    exact ⟨order, h⟩

/-- Other code keeps the groups. -/
theorem set_skips (h : Skips s order) {new : Lock}
    (hset : ¬ s.resLink.Empty (some l) →
      new.reqMode = (s.locks l).reqMode ∧ new.bits = (s.locks l).bits) :
    Skips { s with locks := Function.update s.locks l new } order := by
  have hkeys : ∀ x ∈ order, (Function.update s.locks l new x).reqMode = (s.locks x).reqMode ∧
      (Function.update s.locks l new x).bits = (s.locks x).bits := by
    intro x hx
    by_cases hxl : x = l
    · rw [hxl, Function.update_self]
      exact hset fun hempty => h.empty_iff.mp hempty (hxl ▸ hx)
    · rw [Function.update_of_ne hxl]
      exact ⟨rfl, rfl⟩
  have hmode : ∀ x ∈ order,
      modeKey { s with locks := Function.update s.locks l new } x = modeKey s x :=
    fun x hx => (hkeys x hx).1
  have hpolicy : ∀ x ∈ order,
      policyKey { s with locks := Function.update s.locks l new } x = policyKey s x := by
    intro x hx
    unfold policyKey
    dsimp only
    rw [(hkeys x hx).1, (hkeys x hx).2]
  exact ⟨h.nodup, h.res, h.mode.congr_key hmode, h.policy.congr_key hpolicy,
    h.modeClustered.congr_key hmode, h.policyClustered.congr_key hpolicy⟩

/-! ### Runs -/

/-- Before the first grant. -/
theorem start_skips (lrType : LrType) (locks : Nat → Lock) : Skips (start lrType locks) [] where
  nodup := List.nodup_nil
  res := by
    refine ⟨fun k => ?_, fun a _ => ⟨rfl, rfl⟩⟩
    exact isRing_singleton.mpr ⟨rfl, rfl⟩
  mode := .init _
  policy := .init _
  modeClustered := .nil
  policyClustered := .nil

/-- One step. -/
theorem step_skips {a : Action} (h : ∃ order, Skips s order) (hstep : Step s a s') :
    (∃ order, Skips s' order) ∧ s'.lrType = s.lrType := by
  obtain ⟨order, h⟩ := h
  cases hstep with
  | grant hok => exact ⟨grant_skips h hok, grant_lrType hok⟩
  | unlink l => exact ⟨unlink_skips h l, rfl⟩
  | set hset => exact ⟨⟨order, set_skips h hset⟩, rfl⟩

/-- A run keeps the groups. -/
theorem run_skips {lrType : LrType} {locks : Nat → Lock} {as : List Action}
    (hrun : Run Step (start lrType locks) as s) : (∃ order, Skips s order) ∧ s.lrType = lrType :=
  hrun.invariant (P := fun s => (∃ order, Skips s order) ∧ s.lrType = lrType)
    (fun _ _ _ h hstep =>
      ⟨(step_skips h.1 hstep).1, (step_skips h.1 hstep).2.trans h.2⟩)
    ⟨⟨[], start_skips lrType locks⟩, rfl⟩

/-- What the lists are when `order` are the granted locks. -/
structure Grouped (lrType : LrType) (s : Resource) (order : List Nat) : Prop where
  nodup : order.Nodup
  granted : s.resLink.IsRing (none :: order.map some)
  modes : Clustered (fun l => (s.locks l).reqMode) order
  policies : lrType = .ibits → Clustered (fun l => ((s.locks l).reqMode, (s.locks l).bits)) order
  /-- the ring of each mode, in the order of the list -/
  slMode : ∀ m, s.slMode.IsRing (order.filter fun l => decide ((s.locks l).reqMode = m))
  /-- the ring of each mode with the same bits -/
  slPolicy : lrType = .ibits → ∀ m b, s.slPolicy.IsRing
    (order.filter fun l => decide (((s.locks l).reqMode, (s.locks l).bits) = (m, b)))
  slPolicy_plain : lrType = .plain → ∀ l ∈ order, s.slPolicy.IsRing [l]
  /-- every other lock is in no list -/
  others : ∀ l, l ∉ order →
    s.resLink.IsRing [some l] ∧ s.slMode.IsRing [l] ∧ s.slPolicy.IsRing [l]
  /-- a grant of another lock comes to its end -/
  grants : ∀ l, l ∉ order → (s.locks l).grantedMode = some (s.locks l).reqMode →
    ∃ turns s', grantLockWithSkiplist s turns l = .ok s'

/-- **Granted locks stay grouped.** In every state of every run the list of the resource is a ring
over some locks, once each, where the locks of a mode stand together, and for `LDLM_IBITS` also the
locks of a mode with the same bits. The ring `l_sl_mode` links the locks of each mode, the ring
`l_sl_policy` those of each policy group, both in the order of the list. -/
theorem skiplist_grouped (lrType : LrType) (locks : Nat → Lock) (as : List Action) (s : Resource)
    (hrun : Run Step (start lrType locks) as s) : ∃ order, Grouped lrType s order := by
  obtain ⟨⟨order, h⟩, rfl⟩ := run_skips hrun
  have hkey : s.lrType = .ibits →
      policyKey s = fun l => ((s.locks l).reqMode, (s.locks l).bits) := by
    intro hty
    funext l
    unfold policyKey
    rw [hty]
  have hplain : s.lrType = .plain → ∀ a b, policyKey s a = policyKey s b → a = b := by
    intro hty a b hab
    unfold policyKey at hab
    rw [hty] at hab
    exact congrArg Prod.snd hab
  refine ⟨order, h.nodup, h.ring, h.modeClustered, fun hty => ?_, h.mode.ring, fun hty m b => ?_,
    fun hty l hl => ?_, fun l hl => ?_, fun l => grant_total h⟩
  · rw [← hkey hty]
    exact h.policyClustered
  · have hring := h.policy.ring (m, b)
    rw [hkey hty] at hring
    exact hring
  · exact isRing_singleton.mpr ⟨hplain hty _ _ (h.policy.next_mem hl).2,
      hplain hty _ _ (h.policy.prev_mem hl).2⟩
  · exact ⟨isRing_singleton.mpr (h.res.alone _ (by simpa using hl)),
      isRing_singleton.mpr (h.mode.alone l hl), isRing_singleton.mpr (h.policy.alone l hl)⟩

/-- Locks of one mode, where every second one has the same bits. -/
def exampleLocks (l : Nat) : Lock := ⟨.pr, some .pr, l % 2, false⟩

/-- The third lock goes between the first two, and the first one leaves. -/
theorem skiplist_three :
    ∃ s, Run Step (start .ibits exampleLocks) [.grant 0, .grant 1, .grant 2, .unlink 0] s ∧
      s.resLink.next none = some 2 ∧ s.resLink.next (some 2) = some 1 ∧
      ∃ order, Grouped .ibits s order := by
  have hrun : ∃ s, Run Step (start .ibits exampleLocks)
      [.grant 0, .grant 1, .grant 2, .unlink 0] s ∧
      s.resLink.next none = some 2 ∧ s.resLink.next (some 2) = some 1 :=
    ⟨_, .cons (@Step.grant _ _ 4 0 rfl) (.cons (@Step.grant _ _ 4 1 rfl)
      (.cons (@Step.grant _ _ 4 2 rfl) (.cons (.unlink _ 0) (.nil _)))), by decide, by decide⟩
  obtain ⟨s, hrun, hfirst, hsecond⟩ := hrun
  exact ⟨s, hrun, hfirst, hsecond, skiplist_grouped _ _ _ s hrun⟩

end LdlmSkip

end LustreSimulator
