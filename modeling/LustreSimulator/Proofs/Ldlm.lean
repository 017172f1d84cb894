import LustreSimulator.Proofs.LdlmScan

/-!
# `LustreSimulator.Proofs.Ldlm`: the granted locks of a run

A search with the result 1 has passed all trees, and the lock can be granted. A search with the
result 2 has returned at a mate of a `GROUP` lock, whatever it has found before (`Bypasses`).

* `Verdict.grantable`: where the search does not bypass a lock the request can be granted;
* `Inv.enqueue` and `Inv.reprocess`: then a pass keeps the invariant;
* `granted_compatible`: so do the runs.
-/

set_option autoImplicit false

namespace LustreSimulator.Ldlm

open Lib IntervalTree

variable {s s' : Resource} {sc : Scan} {l : Nat} {p : Params} {now : Nat} {flags : Flags}

/-- A granted lock of a mode that is not compatible overlaps the request. -/
def Conflicts (s : Resource) (l : Nat) : Prop :=
  ∃ i ∈ s.granted, ∃ m ∈ modes, (s.locks i).grantedMode = some m ∧
    lockmodeCompat m (s.locks l).reqMode = false ∧
    (s.locks l).reqExtent.overlapped (s.locks i).extent = true

instance (s : Resource) (l : Nat) : Decidable (Conflicts s l) :=
  inferInstanceAs (Decidable (∃ i ∈ s.granted, ∃ m ∈ modes, (s.locks i).grantedMode = some m ∧
    lockmodeCompat m (s.locks l).reqMode = false ∧
    (s.locks l).reqExtent.overlapped (s.locks i).extent = true))

/-- A granted `GROUP` lock has another `gid`. -/
def OtherGroup (s : Resource) (l : Nat) : Prop :=
  ∃ i ∈ s.granted, (s.locks i).grantedMode = some .group ∧ (s.locks i).gid ≠ (s.locks l).gid

instance (s : Resource) (l : Nat) : Decidable (OtherGroup s l) :=
  inferInstanceAs (Decidable (∃ i ∈ s.granted, (s.locks i).grantedMode = some .group ∧
    (s.locks i).gid ≠ (s.locks l).gid))

/-- The search for the `GROUP` lock `l` returns at its mate past a granted lock that is in the way:
a first enqueue past a conflict in a tree before the mate, and past a lock of another group in the
tree behind it. -/
def Bypasses (s : Resource) (l : Nat) (firstEnq : Bool) : Prop :=
  (s.locks l).reqMode = .group ∧
  ((firstEnq = true ∧ (groupMate s l .nl = true ∨ groupMate s l .group = true) ∧ Conflicts s l) ∨
    (groupMate s l .nl = true ∧ (firstEnq = true ∨ ¬ Conflicts s l) ∧ OtherGroup s l))

instance (s : Resource) (l : Nat) (firstEnq : Bool) : Decidable (Bypasses s l firstEnq) :=
  inferInstanceAs (Decidable (_ ∧ _))

/-- The search of an action bypasses a granted lock. -/
def Action.Bypasses (s : Resource) : Action → Prop
  | .enqueue l _ _ => Ldlm.Bypasses s l true
  | .reprocess l _ => Ldlm.Bypasses s l false
  | .unlink _ => False

instance (s : Resource) (a : Action) : Decidable (a.Bypasses s) :=
  match a with
  | .enqueue l _ _ => inferInstanceAs (Decidable (Ldlm.Bypasses s l true))
  | .reprocess l _ => inferInstanceAs (Decidable (Ldlm.Bypasses s l false))
  | .unlink _ => inferInstanceAs (Decidable False)

/-! ### What a search lets pass -/

/-- No granted lock is in the way of the lock `l`. -/
structure Grantable (s : Resource) (l : Nat) : Prop where
  clear : ClearOf s (s.locks l).reqMode modes (s.locks l).reqExtent
  gid : (s.locks l).reqMode = .group → ∀ i ∈ s.granted, (s.locks i).grantedMode = some .group →
    (s.locks i).gid = (s.locks l).gid

/-- The trees that are not compatible overlap the request when a granted lock does. -/
theorem Inv.clear_iff (h : Inv s) :
    ClearOf s (s.locks l).reqMode modes (s.locks l).reqExtent ↔ ¬ Conflicts s l := by
  constructor
  · rintro hclear ⟨i, hi, m, hm, hmode, hne, hover⟩
    obtain ⟨m', k, hk, -, hmode', hextent⟩ := h.holder hi
    obtain rfl : m = m' := Option.some.inj (hmode.symm.trans hmode')
    obtain ⟨x, hx, rfl⟩ := List.mem_map.mp hk
    rw [hextent] at hover
    exact Bool.false_ne_true ((hclear m hm hne x hx).symm.trans hover)
  · intro hno m hm hne x hx
    by_contra hover
    rw [Bool.not_eq_false] at hover
    have hk : x.key ∈ keys (s.itree m) := List.mem_map_of_mem hx
    obtain ⟨i, hi⟩ := List.exists_mem_of_ne_nil _ (h.node m x.key hk).2
    obtain ⟨hmode, hextent, hgranted⟩ := h.group m x.key hk i hi
    exact hno ⟨i, hgranted, m, hm, hmode, hne, hextent ▸ hover⟩

/-- The mate of a request in the tree of `GROUP` is granted. -/
theorem Inv.mate_granted (h : Inv s) (hmate : groupMate s l .group = true) :
    ∃ i ∈ s.granted, (s.locks i).grantedMode = some .group ∧
      (s.locks i).gid = (s.locks l).gid := by
  rw [groupMate] at hmate
  split at hmate
  · cases hmate
  · rename_i c lt root rt htree
    split at hmate
    · cases hmate
    · rename_i i hi
      have hk : root.key ∈ keys (s.itree .group) := by
        rw [keys, htree]
        exact List.mem_map_of_mem (by simp)
      obtain ⟨hmode, -, hgranted⟩ := h.group .group root.key hk i (List.mem_of_mem_head? hi)
      exact ⟨i, hgranted, hmode, (of_decide_eq_true hmate).symm⟩

/-- **A request that a search lets pass can be granted**, unless the search has bypassed a granted
lock. -/
theorem Verdict.grantable {firstEnq : Bool} {rc : Int} (h : Inv s) (hv : Verdict s l firstEnq rc)
    (hrc : rc ≠ 0) (hbypass : ¬ Bypasses s l firstEnq) : Grantable s l := by
  cases hv with
  | blocked => exact absurd rfl hrc
  | clear hfree =>
      refine ⟨fun m _ hne => (hfree m).extent hne, fun hgroup i hi hmode => ?_⟩
      obtain ⟨m, k, hk, -, hmode', -⟩ := h.holder hi
      obtain rfl : m = .group := Option.some.inj (hmode'.symm.trans hmode)
      rw [(hfree .group).group hgroup rfl] at hk
      cases hk
  | @mate m hgroup hcompat hmate hfree =>
      -- a reprocessed lock has passed the trees that are not compatible
      have hconflicts : firstEnq = false → ¬ Conflicts s l := by
        intro hfirst
        refine h.clear_iff.mp fun i _ hne => (hfree hfirst i ?_).extent hne
        rw [hgroup] at hne
        revert hne hcompat
        cases i <;> cases m <;> decide
      have hm : m = .nl ∨ m = .group := by
        revert hcompat
        cases m <;> decide
      have hclear : ¬ Conflicts s l := by
        intro hconf
        refine hbypass ⟨hgroup, .inl ⟨?_, ?_, hconf⟩⟩
        · by_contra hfirst
          exact hconflicts (Bool.eq_false_iff.mpr hfirst) hconf
        · rcases hm with rfl | rfl
          · exact .inl hmate
          · exact .inr hmate
      refine ⟨h.clear_iff.mpr hclear, fun _ i hi hmode => ?_⟩
      rcases hm with rfl | rfl
      · by_contra hgid
        exact hbypass ⟨hgroup, .inr ⟨hmate, .inr hclear, i, hi, hmode, hgid⟩⟩
      · obtain ⟨j, hj, hjmode, hjgid⟩ := h.mate_granted hmate
        by_cases hij : i = j
        · rw [hij, hjgid]
        · exact ((h.compatible i hi j hj hij _ _ hmode hjmode).2 rfl rfl).trans hjgid

/-! ### The steps -/

theorem Kept.grantable (h : Kept s s') (hg : Grantable s l) : Grantable s' l where
  clear := by
    rw [ClearOf, h.reqMode, h.reqExtent, h.itree]
    exact hg.clear
  gid := by
    simp only [h.reqMode, h.granted, h.grantedMode, h.gid]
    exact hg.gid

/-- A lock that is not in the way of the extent of the request. -/
theorem Inv.extent_of_waiting (h : Inv s) : ∀ i ∈ s.waiting,
    PageExtent (s.locks i).reqExtent ∧ (s.locks i).extent = (s.locks i).reqExtent :=
  fun i hi => ⟨h.request i, (h.fresh i (h.waiting i hi).1).2.2.2⟩

/-- The lock leaves the waiting list, and it is granted with an extent that the policy has
chosen. -/
def Places (s : Resource) (l : Nat) (s' : Resource) : Prop :=
  ∃ e : IntervalExtent, (s.locks l).reqExtent.Within e ∧
    (ClearOf s (s.locks l).reqMode modes (s.locks l).reqExtent →
      ClearOf s (s.locks l).reqMode modes e) ∧
    grantLock (setLock (Ldlm.listDel s l) l { s.locks l with extent := e }) l = .ok s'

/-- A lock that can be granted is placed. -/
theorem Inv.place (h : Inv s) (hmode : (s.locks l).grantedMode = none)
    (hdestroyed : (s.locks l).destroyed = false) (hg : Grantable s l) (hp : Places s l s') :
    Inv s' := by
  obtain ⟨e, -, hclear, hok⟩ := hp
  have hdel := h.listDel (h.not_in_tree hmode)
  have hlinked : ¬ Linked (Ldlm.listDel s l) l := by
    obtain ⟨hgranted, hwaiting, -⟩ := List.nodup_append.mp h.links
    rintro (hmem | hmem)
    · exact hgranted.not_mem_erase hmem
    · exact hwaiting.not_mem_erase hmem
  exact hdel.grant hmode hdestroyed hlinked (hclear hg.clear)
    (fun hgroup i hi => hg.gid hgroup i (List.mem_of_mem_erase hi)) hok

/-- A `GROUP` lock that is placed over a granted lock is not compatible with it. -/
theorem Inv.place_conflict (h : Inv s) (hmode : (s.locks l).grantedMode = none)
    (hdestroyed : (s.locks l).destroyed = false) (hgroup : (s.locks l).reqMode = .group)
    (hconf : Conflicts s l ∨ OtherGroup s l) (hp : Places s l s') : ¬ Compatible s' := by
  obtain ⟨e, hwithin, -, hok⟩ := hp
  obtain ⟨k, hj⟩ := (h.listDel (h.not_in_tree hmode)).grant_joined hmode hdestroyed hok
  have hself : s'.locks l = { s.locks l with
      extent := e, grantedMode := some .group, treeNode := some k.1 } := by
    rw [hj.locks, if_pos rfl, setLock_locks_self, show (Ldlm.listDel s l).locks = s.locks from rfl,
      hgroup]
  have hnew : l ∈ s'.granted := by
    rw [hj.granted]
    exact List.mem_append_right _ List.mem_cons_self
  have hne : ∀ i ∈ s.granted, i ≠ l := by
    rintro i hi rfl
    exact h.not_granted hmode hi
  have hold : ∀ i ∈ s.granted, i ∈ s'.granted ∧ s'.locks i = s.locks i := by
    intro i hi
    refine ⟨?_, ?_⟩
    · rw [hj.granted]
      exact List.mem_append_left _ ((List.mem_erase_of_ne (hne i hi)).mpr hi)
    · rw [hj.locks, if_neg (hne i hi), setLock_locks_ne (hne i hi)]
      rfl
  intro hc
  rcases hconf with ⟨i, hi, m, -, hm, hbad, hover⟩ | ⟨i, hi, hm, hgid⟩
  · obtain ⟨hi', hlock⟩ := hold i hi
    have hapart := (hc i hi' l hnew (hne i hi) m .group (by rw [hlock, hm]) (by rw [hself])).1
      (hgroup ▸ hbad)
    rw [hlock, hself, overlapped_comm] at hapart
    exact Bool.false_ne_true (hapart.symm.trans (hwithin.overlapped hover))
  · obtain ⟨hi', hlock⟩ := hold i hi
    have hsame := (hc i hi' l hnew (hne i hi) .group .group (by rw [hlock, hm])
      (by rw [hself])).2 rfl rfl
    rw [hlock, hself] at hsame
    exact hgid hsame

/-- The code at `grant`. -/
theorem Inv.grantFirst {o : Outcome} (h : Inv sc.res)
    (hmode : (sc.res.locks l).grantedMode = none) (hok : grantFirst l sc = .ok o) :
    Places sc.res l o.res := by
  obtain ⟨htree, -, hin, hextent⟩ := h.fresh l hmode
  obtain ⟨⟨s₁, flags₁⟩, hpolicy, hok⟩ := bind_eq_ok.mp hok
  obtain ⟨e, rfl, hwithin, hclear⟩ := extentPolicy_spec h.wf (h.request l) hextent
    h.extent_of_waiting hpolicy
  obtain ⟨s₂, hunlink, hok⟩ := bind_eq_ok.mp hok
  obtain rfl := Except.ok.inj
    (hunlink.symm.trans (resourceUnlinkLock_eq (by simpa using htree) hin))
  obtain ⟨s₃, hgrant, hok⟩ := bind_eq_ok.mp hok
  cases hok
  exact ⟨e, hwithin, hclear, hgrant⟩

/-- The end of `ldlm_process_extent_lock` for a lock that is reprocessed and granted. -/
theorem Inv.grantAgain {o : Outcome} (h : Inv s) (hmode : (s.locks l).grantedMode = none)
    (hok : ((resourceUnlinkLock s l).bind fun s => (extentPolicy s l flags).bind fun q =>
      (grantLock q.1 l).bind fun s => .ok ⟨s, q.2, 0, ldlmIterContinue⟩) = .ok o) :
    Places s l o.res := by
  obtain ⟨htree, -, hin, hextent⟩ := h.fresh l hmode
  rw [resourceUnlinkLock_eq htree hin, ok_bind] at hok
  obtain ⟨⟨s₁, flags₁⟩, hpolicy, hok⟩ := bind_eq_ok.mp hok
  have hdel := h.listDel (h.not_in_tree hmode)
  obtain ⟨e, rfl, hwithin, hclear⟩ := extentPolicy_spec hdel.wf (hdel.request l) hextent
    hdel.extent_of_waiting hpolicy
  obtain ⟨s₃, hgrant, hok⟩ := bind_eq_ok.mp hok
  cases hok
  exact ⟨e, hwithin, hclear, hgrant⟩

/-- The lock waits. -/
theorem Inv.waitFirst {o : Outcome} (h : Inv sc.res) (hmode : (sc.res.locks l).grantedMode = none)
    (hdestroyed : (sc.res.locks l).destroyed = false) (hok : waitFirst l sc = .ok o) :
    Inv o.res := by
  obtain ⟨s₁, hadd, hok⟩ := bind_eq_ok.mp hok
  obtain ⟨w, -, hok⟩ := bind_eq_ok.mp hok
  obtain ⟨s₂, hrun, hok⟩ := bind_eq_ok.mp hok
  cases hok
  obtain ⟨hkept, hwaiting⟩ := runBlAstWork_kept hrun
  refine Inv.of_kept_waiting ?_ hkept hwaiting
  split at hadd
  · cases hadd
    exact h
  · rename_i hlinked
    rw [resourceAddWaiting, hdestroyed, if_neg Bool.false_ne_true, check_true hlinked] at hadd
    cases hadd
    refine h.of_kept ⟨(Kept.refl _).lock, rfl, rfl, rfl, rfl⟩ ?_ ?_
    · intro i hi
      rw [List.mem_append, List.mem_singleton] at hi
      rcases hi with hi | rfl
      · exact h.waiting i hi
      · exact ⟨hmode, hdestroyed⟩
    · rw [← List.append_assoc, ← List.concat_eq_append]
      exact h.links.concat fun hmem => hlinked (List.mem_append.mp hmem)

/-- The lock is refused. -/
theorem Inv.outFirst {o : Outcome} {rc : Int} (h : Inv sc.res) (hok : outFirst l sc rc = .ok o) :
    Inv o.res := by
  obtain ⟨w, -, hok⟩ := bind_eq_ok.mp hok
  split at hok
  · cases hok
    exact h
  · obtain ⟨-, -, hok⟩ := bind_eq_ok.mp hok
    obtain ⟨s₁, hdiscard, hok⟩ := bind_eq_ok.mp hok
    cases hok
    obtain ⟨hkept, hwaiting⟩ := discardBlList_kept hdiscard
    exact h.of_kept_waiting hkept hwaiting

/-- **A pass of a first enqueue.** -/
theorem Inv.enqueue {o : Outcome} (h : Inv s) (hmode : (s.locks l).grantedMode = none)
    (hdestroyed : (s.locks l).destroyed = false) (hbypass : ¬ Bypasses s l true)
    (hok : enqueueLock p now s l flags = .ok o) : Inv o.res := by
  obtain ⟨⟨sc₁, rc₁⟩, hfirst, hok⟩ := bind_eq_ok.mp hok
  dsimp only at hok
  rcases extentCompatGranted_spec h hmode hfirst with ⟨hneg, hinv₁, -⟩ | ⟨hscan, hverdict⟩
  · rw [if_pos hneg] at hok
    exact hinv₁.outFirst hok
  have hinv₁ := hscan.inv h
  have hmode₁ := (hscan.kept.grantedMode l).trans hmode
  have hdestroyed₁ := (hscan.kept.destroyed l).trans hdestroyed
  have hg : rc₁ ≠ 0 → Grantable sc₁.res l :=
    fun hne => hscan.kept.grantable (hverdict.grantable h hne hbypass)
  split at hok
  · exact hinv₁.outFirst hok
  split at hok
  · rename_i htwo
    exact hinv₁.place hmode₁ hdestroyed₁ (hg (htwo ▸ by decide)) (hinv₁.grantFirst hmode₁ hok)
  obtain ⟨⟨sc₂, rc₂⟩, hsecond, hok⟩ := bind_eq_ok.mp hok
  dsimp only at hok
  rcases extentCompatWaiting_spec hinv₁ hmode₁ hsecond with ⟨hneg, hinv₂, -⟩ | ⟨hscan₂, hrc⟩
  · rw [if_pos hneg] at hok
    exact hinv₂.outFirst hok
  have hinv₂ := hscan₂.inv hinv₁
  have hmode₂ := (hscan₂.kept.grantedMode l).trans hmode₁
  have hdestroyed₂ := (hscan₂.kept.destroyed l).trans hdestroyed₁
  split at hok
  · exact hinv₂.outFirst hok
  split at hok
  · -- the waiting locks give 1 at most, so the granted ones have given 1
    rename_i hsum
    have hne : rc₁ ≠ 0 := by
      rintro rfl
      rcases hrc with hrc | hrc <;> omega
    exact hinv₂.place hmode₂ hdestroyed₂ (hscan₂.kept.grantable (hg hne))
      (hinv₂.grantFirst hmode₂ hok)
  · exact hinv₂.waitFirst hmode₂ hdestroyed₂ hok

/-- **Reprocessing a waiting lock.** -/
theorem Inv.reprocess {o : Outcome} (h : Inv s) (hl : l ∈ s.waiting)
    (hbypass : ¬ Bypasses s l false) (hok : reprocessLock p now s l .zero = .ok o) :
    Inv o.res := by
  obtain ⟨hmode, hdestroyed⟩ := h.waiting l hl
  obtain ⟨-, -, hok⟩ := bind_eq_ok.mp hok
  obtain ⟨⟨sc₁, rc₁⟩, hfirst, hok⟩ := bind_eq_ok.mp hok
  obtain ⟨⟨sc₂, rc₂⟩, hsecond, hok⟩ := bind_eq_ok.mp hok
  -- without flags nothing is refused
  obtain ⟨hscan, hverdict⟩ := (extentCompatGranted_spec h hmode hfirst).resolve_left
    fun hneg => hneg.2.2.elim (fun hf => nomatch hf) fun hf => nomatch hf
  have hinv₁ := hscan.inv h
  have hboth : Kept sc₁.res sc₂.res ∧ Inv sc₂.res ∧ (rc₂ ≠ 0 → rc₁ ≠ 0) := by
    dsimp only at hsecond
    split at hsecond
    · rename_i hone
      have hmode₁ := (hscan.kept.grantedMode l).trans hmode
      obtain ⟨hscan₂, -⟩ :=
        (extentCompatWaiting_spec hinv₁ hmode₁ hsecond).resolve_left fun hneg => by
          rw [hscan.blockNowait, hscan.denyOnContention] at hneg
          exact hneg.2.2.elim (fun hf => nomatch hf) fun hf => nomatch hf
      exact ⟨hscan₂.kept, hscan₂.inv hinv₁, fun _ => hone ▸ Int.one_ne_zero⟩
    · cases hsecond
      exact ⟨.refl _, hinv₁, id⟩
  obtain ⟨hkept₂, hinv₂, hne⟩ := hboth
  split at hok
  · cases hok
    exact hinv₂
  · rename_i hrc₂
    have hkept := hscan.kept.trans hkept₂
    have hmode₂ := (hkept.grantedMode l).trans hmode
    have hdestroyed₂ := (hkept.destroyed l).trans hdestroyed
    exact hinv₂.place hmode₂ hdestroyed₂
      (hkept.grantable (hverdict.grantable h (hne hrc₂) hbypass)) (hinv₂.grantAgain hmode₂ hok)

/-- **A step keeps the invariant** unless its search bypasses a granted lock. -/
theorem Inv.step {a : Action} (h : Inv s) (hbypass : ¬ a.Bypasses s) (hstep : Step p s a s') :
    Inv s' := by
  cases hstep with
  | enqueue hmode hdestroyed hok =>
      obtain ⟨-, -, hok⟩ := bind_eq_ok.mp hok
      exact h.enqueue hmode hdestroyed hbypass hok
  | reprocess hl hok =>
      obtain ⟨-, -, hok⟩ := bind_eq_ok.mp hok
      exact h.reprocess hl hbypass hok
  | unlink hok => exact h.unlink hok

/-! ### What a search bypasses -/

/-- A search that bypasses a granted lock has a mate, and a reprocessed lock has passed the trees
before it. -/
theorem Bypasses.mate {firstEnq : Bool} (hb : Bypasses s l firstEnq) :
    ∃ m, lockmodeCompat .group m = true ∧ groupMate s l m = true ∧
      (firstEnq = false → m = .nl ∧ ¬ Conflicts s l) := by
  obtain ⟨-, ⟨rfl, hmate | hmate, -⟩ | ⟨hmate, hclear, -⟩⟩ := hb
  · exact ⟨.nl, rfl, hmate, fun hf => nomatch hf⟩
  · exact ⟨.group, rfl, hmate, fun hf => nomatch hf⟩
  · refine ⟨.nl, rfl, hmate, fun hfirst => ⟨rfl, hclear.resolve_left ?_⟩⟩
    rw [hfirst]
    exact Bool.false_ne_true

/-- The granted lock that it bypasses. -/
theorem Bypasses.conflict {firstEnq : Bool} (hb : Bypasses s l firstEnq) :
    Conflicts s l ∨ OtherGroup s l :=
  hb.2.imp (fun h => h.2.2) fun h => h.2.2

theorem Kept.conflict (h : Kept s s') (hc : Conflicts s l ∨ OtherGroup s l) :
    Conflicts s' l ∨ OtherGroup s' l := by
  simp only [Conflicts, OtherGroup, h.granted, h.grantedMode, h.reqMode, h.reqExtent, h.extent,
    h.gid]
  exact hc

/-- The search ends at the mate. -/
theorem Inv.search_bypass {firstEnq : Bool} {r : Scan × Int} (h : Inv sc.res)
    (hb : Bypasses sc.res l firstEnq) (hwork : sc.workList = none → firstEnq = false)
    (hok : extentCompatGranted p now l sc = .ok r) :
    Kept sc.res r.1.res ∧ Inv r.1.res ∧ r.2 = 2 := by
  obtain ⟨m, hcompat, hmate, hfirst⟩ := hb.mate
  obtain ⟨⟨sc₁, e⟩, hloop, hok⟩ := bind_eq_ok.mp hok
  have hfree : sc.workList = none → ∀ i ∈ modes, i.bit < m.bit → ∀ x ∈ (sc.res.itree i).toList,
      (sc.res.locks l).reqExtent.overlapped x.extent = false := by
    intro hnone i hi hlt
    obtain ⟨rfl, hclear⟩ := hfirst (hwork hnone)
    refine h.clear_iff.mpr hclear i hi ?_
    rw [hb.1]
    revert hlt
    cases i <;> decide
  obtain ⟨hscan, hret⟩ := compatGranted_mate (by exact h) (by decide)
    (mem_modes m) (by exact hb.1) hcompat (by exact hmate) (by exact hfree) hloop
  dsimp only at hret
  rw [hret] at hok
  cases hok
  exact ⟨hscan.kept, hscan.inv h, rfl⟩

/-- A first enqueue that bypasses a granted lock is granted. -/
theorem Inv.enqueue_bypass {o : Outcome} (h : Inv s) (hmode : (s.locks l).grantedMode = none)
    (hdestroyed : (s.locks l).destroyed = false) (hb : Bypasses s l true)
    (hok : enqueueLock p now s l flags = .ok o) : ¬ Compatible o.res := by
  obtain ⟨⟨sc₁, rc₁⟩, hfirst, hok⟩ := bind_eq_ok.mp hok
  obtain ⟨hkept, hinv₁, rfl⟩ := h.search_bypass hb (by exact fun hnone => nomatch hnone) hfirst
  have hmode₁ := (hkept.grantedMode l).trans hmode
  exact hinv₁.place_conflict hmode₁ ((hkept.destroyed l).trans hdestroyed)
    ((hkept.reqMode l).trans hb.1) (hkept.conflict hb.conflict) (hinv₁.grantFirst hmode₁ hok)

/-- So is a lock that is reprocessed. -/
theorem Inv.reprocess_bypass {o : Outcome} (h : Inv s) (hl : l ∈ s.waiting)
    (hb : Bypasses s l false) (hok : reprocessLock p now s l .zero = .ok o) :
    ¬ Compatible o.res := by
  obtain ⟨hmode, hdestroyed⟩ := h.waiting l hl
  obtain ⟨-, -, hok⟩ := bind_eq_ok.mp hok
  obtain ⟨⟨sc₁, rc₁⟩, hfirst, hok⟩ := bind_eq_ok.mp hok
  obtain ⟨hkept, hinv₁, rfl⟩ := h.search_bypass hb (fun _ => rfl) hfirst
  have hmode₁ := (hkept.grantedMode l).trans hmode
  exact hinv₁.place_conflict hmode₁ ((hkept.destroyed l).trans hdestroyed)
    ((hkept.reqMode l).trans hb.1) (hkept.conflict hb.conflict) (hinv₁.grantAgain hmode₁ hok)

/-- **A step whose search bypasses a granted lock breaks the compatibility.** -/
theorem Inv.step_bypass {a : Action} (h : Inv s) (hb : a.Bypasses s) (hstep : Step p s a s') :
    ¬ Compatible s' := by
  cases hstep with
  | enqueue hmode hdestroyed hok =>
      obtain ⟨-, -, hok⟩ := bind_eq_ok.mp hok
      exact h.enqueue_bypass hmode hdestroyed hb hok
  | reprocess hl hok =>
      obtain ⟨-, -, hok⟩ := bind_eq_ok.mp hok
      exact h.reprocess_bypass hl hb hok
  | unlink hok => exact absurd hb id

/-! ### Runs -/

/-- A resource without locks. -/
theorem inv_start {locks : Nat → Lock} (hfresh : ∀ l, Fresh l (locks l)) : Inv (start locks) where
  wf _ := wf_nil
  request l := (hfresh l).request
  fresh l _ := ⟨(hfresh l).treeNode, rfl, rfl, (hfresh l).extent⟩
  node _ _ hk := nomatch hk
  group _ _ hk := nomatch hk
  inIntree _ hn := nomatch hn
  attached l n := by
    rw [show (start locks).locks l = locks l from rfl, (hfresh l).treeNode,
      show (start locks).liGroup n = [n] from rfl, Option.some_inj, List.mem_singleton]
  groupNodup n := List.nodup_singleton n
  granted _ hl := nomatch hl
  waiting _ hl := nomatch hl
  links := List.nodup_nil
  compatible _ ha := nomatch ha

/-- **Granted locks are compatible.** After a run of first enqueues, reprocessings and unlinks in
which no search bypasses a granted lock, two granted locks whose modes are not compatible have
extents apart, and two granted `GROUP` locks have one `gid`. The next step keeps this if and only
if its search does not bypass a granted lock. -/
theorem granted_compatible {locks : Nat → Lock} {as : List Action}
    (hfresh : ∀ l, Fresh l (locks l))
    (hrun : Run (fun s a t => ¬ a.Bypasses s ∧ Step p s a t) (start locks) as s) :
    Compatible s ∧ ∀ a t, Step p s a t → (Compatible t ↔ ¬ a.Bypasses s) := by
  have hinv : Inv s := hrun.invariant (fun _ _ _ h hstep => h.step hstep.1 hstep.2)
    (inv_start hfresh)
  refine ⟨hinv.compatible, fun a t hstep => ⟨fun hc hb => ?_, fun hb => ?_⟩⟩
  · exact hinv.step_bypass hb hstep hc
  · exact (hinv.step hb hstep).compatible

/-! ### Execution -/

/-- The step of an action, where it can be taken. -/
def Action.next (p : Params) (s : Resource) : Action → Option Resource
  | .enqueue l flags now =>
      if (s.locks l).grantedMode = none ∧ (s.locks l).destroyed = false then
        (processExtentLock p now s l flags true).toOption.map Outcome.res
      else none
  | .reprocess l now =>
      if l ∈ s.waiting then (processExtentLock p now s l .zero false).toOption.map Outcome.res
      else none
  | .unlink l => (resourceUnlinkLock s l).toOption

/-- The step relation is a function. -/
theorem Action.next_eq_some {a : Action} : a.next p s = some s' ↔ Step p s a s' := by
  constructor
  · intro h
    cases a with
    | enqueue l flags now =>
        rw [next] at h
        split at h
        · rename_i hnew
          obtain ⟨o, ho, rfl⟩ := Option.map_eq_some_iff.mp h
          exact .enqueue hnew.1 hnew.2 (toOption_eq_some.mp ho)
        · cases h
    | reprocess l now =>
        rw [next] at h
        split at h
        · rename_i hl
          obtain ⟨o, ho, rfl⟩ := Option.map_eq_some_iff.mp h
          exact .reprocess hl (toOption_eq_some.mp ho)
        · cases h
    | unlink l => exact .unlink (toOption_eq_some.mp h)
  · intro h
    cases h with
    | enqueue hmode hdestroyed hok => simp [next, hmode, hdestroyed, hok, Except.toOption]
    | reprocess hl hok => simp [next, hl, hok, Except.toOption]
    | unlink hok => simp [next, hok, Except.toOption]

/-- The state after a list of actions that satisfy `c`. -/
def execute (p : Params) (c : Resource → Action → Bool) : List Action → Resource → Option Resource
  | [], s => some s
  | a :: as, s => if c s a then (a.next p s).bind (execute p c as) else none

/-- An execution is a run. -/
theorem run_of_execute {c : Resource → Action → Bool} {as : List Action}
    (h : execute p c as s = some s') :
    Run (fun s a t => c s a = true ∧ Step p s a t) s as s' := by
  induction as generalizing s with
  | nil =>
      cases h
      exact .nil _
  | cons a as ih =>
      rw [execute] at h
      split at h
      · rename_i hc
        obtain ⟨t, ht, h⟩ := Option.bind_eq_some_iff.mp h
        exact .cons ⟨hc, Action.next_eq_some.mp ht⟩ (ih h)
      · cases h

/-- A lock before its first enqueue. -/
def sampleLock (l : Nat) (mode : Mode) (ext : IntervalExtent) (gid : Nat) : Lock :=
  ⟨mode, none, some l, ext, ext, gid, true, false, false, some l, ⟨false, false, none, 0⟩⟩

/-- Three `PW` locks, and then `GROUP` locks, each of another client. -/
def sampleLocks (l : Nat) : Lock :=
  match l with
  | 0 => sampleLock l .pw ⟨0, obdObjectEof⟩ 0
  | 1 => sampleLock l .pw ⟨0, 4095⟩ 0
  | 2 => sampleLock l .pw ⟨4096, 8191⟩ 0
  | 3 => sampleLock l .group ⟨4096, 8191⟩ 7
  | _ => sampleLock l .group ⟨0, obdObjectEof⟩ 7

theorem fresh_sampleLocks (l : Nat) : Fresh l (sampleLocks l) := by
  have hfresh (mode : Mode) (ext : IntervalExtent) (gid : Nat) (hext : PageExtent ext) :
      Fresh l (sampleLock l mode ext gid) := ⟨rfl, rfl, rfl, hext⟩
  unfold sampleLocks
  split <;> exact hfresh _ _ _ ⟨by decide, by decide, by decide, by decide⟩

/-- The locks 1 and 3 share the file. -/
def sampleActions : List Action :=
  [.enqueue 0 .zero 0, .enqueue 1 .zero 0, .enqueue 2 .zero 0, .unlink 0, .reprocess 1 0,
    .unlink 2, .enqueue 3 .zero 0]

theorem granted_compatible_sample : ∃ s, s.granted = [1, 3] ∧ Compatible s ∧
    ∀ a t, Step ⟨4, 0, 0⟩ s a t → (Compatible t ↔ ¬ a.Bypasses s) := by
  have hrun : (execute ⟨4, 0, 0⟩ (fun s a => !decide (a.Bypasses s)) sampleActions
      (start sampleLocks)).any (fun s => s.granted = [1, 3]) = true := by
    decide +kernel
  obtain ⟨s, hs, hgranted⟩ := (Option.any_eq_true _ _).mp hrun
  have hguard : Run (fun s a t => ¬ a.Bypasses s ∧ Step ⟨4, 0, 0⟩ s a t) (start sampleLocks)
      sampleActions s :=
    (run_of_execute hs).mono fun s a t hstep => ⟨by simpa using hstep.1, hstep.2⟩
  exact ⟨s, of_decide_eq_true hgranted, granted_compatible fresh_sampleLocks hguard⟩

/-- The whole-file `GROUP` lock 4 has the `gid` of the lock 3, and it is granted over the `PW`
lock 1. -/
theorem granted_conflict_sample : (∀ l, Fresh l (sampleLocks l)) ∧
    ∃ s, Run (Step ⟨4, 0, 0⟩) (start sampleLocks) (sampleActions ++ [.enqueue 4 .zero 0]) s ∧
      ¬ Compatible s := by
  have hrun : (execute ⟨4, 0, 0⟩ (fun _ _ => true) (sampleActions ++ [.enqueue 4 .zero 0])
      (start sampleLocks)).any (fun s => 1 ∈ s.granted ∧ 4 ∈ s.granted ∧
        (s.locks 1).grantedMode = some .pw ∧ (s.locks 4).grantedMode = some .group ∧
        (s.locks 1).extent.overlapped (s.locks 4).extent = true) = true := by
    decide +kernel
  obtain ⟨s, hs, hstate⟩ := (Option.any_eq_true _ _).mp hrun
  obtain ⟨hone, hfour, hpw, hgroup, hover⟩ := of_decide_eq_true hstate
  refine ⟨fresh_sampleLocks, s, (run_of_execute hs).mono fun _ _ _ hstep => hstep.2, fun hc => ?_⟩
  have hapart := (hc 1 hone 4 hfour (by decide) .pw .group hpw hgroup).1 (by decide)
  exact Bool.false_ne_true (hapart.symm.trans hover)

end LustreSimulator.Ldlm
