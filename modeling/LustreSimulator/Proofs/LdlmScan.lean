import LustreSimulator.Proofs.LdlmGrant

/-!
# `LustreSimulator.Proofs.LdlmScan`: the search for conflicts

`Kept` says what the search leaves alone: all but the callbacks and the waiting list. `Scanned`
adds the invariant, and what the search does with its own variables.

`Verdict` is the meaning of the result of a search of the granted locks. With 1 no granted lock is
in the way of the request. With 2 a `GROUP` lock has met its mate: the first lock at the root of
the tree of `NL` or `GROUP` has its `gid`. A reprocessed lock has then passed the trees before
that one, and a first enqueue has not.
-/

set_option autoImplicit false

namespace LustreSimulator.Ldlm

open Lib IntervalTree

variable {s s' s'' : Resource} {sc sc' sc'' : Scan} {l req : Nat} {m : Mode}

/-! ### What a search leaves alone -/

/-- The resources differ in the callbacks of the locks and the waiting list at most. -/
structure Kept (s s' : Resource) : Prop where
  lock : ∀ i, ∃ ast, s'.locks i = { s.locks i with ast := ast }
  liGroup : s'.liGroup = s.liGroup
  inIntree : s'.inIntree = s.inIntree
  itree : s'.itree = s.itree
  granted : s'.granted = s.granted

namespace Kept

theorem refl (s : Resource) : Kept s s :=
  ⟨fun i => ⟨(s.locks i).ast, rfl⟩, rfl, rfl, rfl, rfl⟩

theorem trans (h : Kept s s') (h' : Kept s' s'') : Kept s s'' where
  lock i := by
    obtain ⟨a, ha⟩ := h.lock i
    obtain ⟨b, hb⟩ := h'.lock i
    exact ⟨b, by rw [hb, ha]⟩
  liGroup := h'.liGroup.trans h.liGroup
  inIntree := h'.inIntree.trans h.inIntree
  itree := h'.itree.trans h.itree
  granted := h'.granted.trans h.granted

/-- A field of the locks that is not the callback. -/
theorem field (h : Kept s s') {α : Type} (f : Lock → α)
    (hf : ∀ lock ast, f { lock with ast := ast } = f lock) (i : Nat) :
    f (s'.locks i) = f (s.locks i) := by
  obtain ⟨ast, ha⟩ := h.lock i
  rw [ha, hf]

theorem reqMode (h : Kept s s') (i : Nat) : (s'.locks i).reqMode = (s.locks i).reqMode :=
  h.field Lock.reqMode (fun _ _ => rfl) i

theorem grantedMode (h : Kept s s') (i : Nat) :
    (s'.locks i).grantedMode = (s.locks i).grantedMode :=
  h.field Lock.grantedMode (fun _ _ => rfl) i

theorem reqExtent (h : Kept s s') (i : Nat) : (s'.locks i).reqExtent = (s.locks i).reqExtent :=
  h.field Lock.reqExtent (fun _ _ => rfl) i

theorem extent (h : Kept s s') (i : Nat) : (s'.locks i).extent = (s.locks i).extent :=
  h.field Lock.extent (fun _ _ => rfl) i

theorem gid (h : Kept s s') (i : Nat) : (s'.locks i).gid = (s.locks i).gid :=
  h.field Lock.gid (fun _ _ => rfl) i

theorem treeNode (h : Kept s s') (i : Nat) : (s'.locks i).treeNode = (s.locks i).treeNode :=
  h.field Lock.treeNode (fun _ _ => rfl) i

theorem destroyed (h : Kept s s') (i : Nat) : (s'.locks i).destroyed = (s.locks i).destroyed :=
  h.field Lock.destroyed (fun _ _ => rfl) i

/-- A new callback. -/
theorem setAst (s : Resource) (l : Nat) (ast : Ast) :
    Kept s (setLock s l { s.locks l with ast := ast }) where
  lock i := by
    by_cases hi : i = l
    · exact ⟨ast, by rw [hi, setLock_locks_self]⟩
    · exact ⟨(s.locks i).ast, by rw [setLock_locks_ne hi]⟩
  liGroup := rfl
  inIntree := rfl
  itree := rfl
  granted := rfl

end Kept

/-- The invariant reads five fields of a lock. -/
theorem Inv.congr (h : Inv s)
    (hlock : ∀ i, (s'.locks i).reqExtent = (s.locks i).reqExtent ∧
      (s'.locks i).grantedMode = (s.locks i).grantedMode ∧
      (s'.locks i).treeNode = (s.locks i).treeNode ∧
      (s'.locks i).extent = (s.locks i).extent ∧ (s'.locks i).gid = (s.locks i).gid)
    (hgroup : s'.liGroup = s.liGroup) (hmarks : s'.inIntree = s.inIntree)
    (htree : s'.itree = s.itree) (hgranted : s'.granted = s.granted)
    (hwaiting : ∀ i ∈ s'.waiting,
      (s'.locks i).grantedMode = none ∧ (s'.locks i).destroyed = false)
    (hlinks : (s.granted ++ s'.waiting).Nodup) : Inv s' where
  wf i := htree ▸ h.wf i
  request i := (hlock i).1 ▸ h.request i
  fresh i hi := by
    obtain ⟨hreq, hmode, hnode, hextent, -⟩ := hlock i
    rw [hmode] at hi
    rw [hnode, hgroup, hmarks, hextent, hreq]
    exact h.fresh i hi
  node i k hkey := by
    rw [htree] at hkey
    rw [hmarks, hgroup]
    exact h.node i k hkey
  group i k hkey j hj := by
    obtain ⟨-, hmode, -, hextent, -⟩ := hlock j
    rw [htree] at hkey
    rw [hgroup] at hj
    rw [hmode, hextent, hgranted]
    exact h.group i k hkey j hj
  inIntree n hn := by
    rw [hmarks] at hn
    rw [htree]
    exact h.inIntree n hn
  attached i n := by
    rw [(hlock i).2.2.1, hgroup]
    exact h.attached i n
  groupNodup n := hgroup ▸ h.groupNodup n
  granted i hi := by
    rw [hgranted] at hi
    rw [(hlock i).2.2.1, hmarks]
    exact h.granted i hi
  waiting := hwaiting
  links := hgranted ▸ hlinks
  compatible := h.compatible.of_subset fun i hi =>
    ⟨hgranted ▸ hi, (hlock i).2.1, (hlock i).2.2.2⟩

/-- A search keeps the invariant when what it leaves in the waiting list may be there. -/
theorem Inv.of_kept (h : Inv s) (hk : Kept s s')
    (hwaiting : ∀ i ∈ s'.waiting, (s.locks i).grantedMode = none ∧ (s.locks i).destroyed = false)
    (hlinks : (s.granted ++ s'.waiting).Nodup) : Inv s' := by
  refine h.congr (fun i => ⟨hk.reqExtent i, hk.grantedMode i, hk.treeNode i, hk.extent i,
    hk.gid i⟩) hk.liGroup hk.inIntree hk.itree hk.granted (fun i hi => ?_) hlinks
  rw [hk.grantedMode, hk.destroyed]
  exact hwaiting i hi

/-- The same with the same waiting list. -/
theorem Inv.of_kept_waiting (h : Inv s) (hk : Kept s s') (hw : s'.waiting = s.waiting) : Inv s' :=
  h.of_kept hk (hw ▸ h.waiting) (hw ▸ h.links)

/-- A lock that has not been granted is destroyed. -/
theorem Inv.destroy (h : Inv s) (hmode : (s.locks l).grantedMode = none) :
    Inv (setLock (Ldlm.listDel s l) l { s.locks l with destroyed := true }) := by
  have hdel := h.listDel (h.not_in_tree hmode)
  have hfield {α : Type} (f : Lock → α) (hf : f { s.locks l with destroyed := true } =
      f (s.locks l)) := setLock_field (s := Ldlm.listDel s l) f hf
  refine hdel.congr (fun i => ⟨hfield Lock.reqExtent rfl i, hfield Lock.grantedMode rfl i,
    hfield Lock.treeNode rfl i, hfield Lock.extent rfl i, hfield Lock.gid rfl i⟩)
    rfl rfl rfl rfl (fun i hi => ?_) hdel.links
  have hil : i ≠ l := by
    rintro rfl
    exact List.Nodup.not_mem_erase (List.nodup_append.mp h.links).2.1 hi
  rw [setLock_locks_ne hil]
  exact hdel.waiting i hi

/-- What a part of a search does: the invariant is kept, `work_list` stays `NULL` or not, the two
flags that refuse a lock stay, and `compat` stays or becomes 0. -/
structure Scanned (sc sc' : Scan) : Prop where
  kept : Kept sc.res sc'.res
  inv : Inv sc.res → Inv sc'.res
  workList : sc'.workList = none ↔ sc.workList = none
  blockNowait : sc'.flags.blockNowait = sc.flags.blockNowait
  denyOnContention : sc'.flags.denyOnContention = sc.flags.denyOnContention
  compat : sc'.compat = sc.compat ∨ sc'.compat = 0

namespace Scanned

theorem refl (sc : Scan) : Scanned sc sc :=
  ⟨.refl _, id, Iff.rfl, rfl, rfl, .inl rfl⟩

theorem trans (h : Scanned sc sc') (h' : Scanned sc' sc'') : Scanned sc sc'' where
  kept := h.kept.trans h'.kept
  inv hs := h'.inv (h.inv hs)
  workList := h'.workList.trans h.workList
  blockNowait := h'.blockNowait.trans h.blockNowait
  denyOnContention := h'.denyOnContention.trans h.denyOnContention
  compat := by
    rcases h'.compat with h' | h'
    · rw [h']
      exact h.compat
    · exact .inr h'

/-- A search that ends with `compat` set has had it set all the time. -/
theorem compat_ne (h : Scanned sc sc') (hne : sc'.compat ≠ 0) : sc.compat ≠ 0 := by
  rcases h.compat with heq | heq
  · rwa [← heq]
  · exact absurd heq hne

/-- A change of the callbacks. -/
theorem of_kept (hk : Kept sc.res s) (hw : s.waiting = sc.res.waiting) :
    Scanned sc { sc with res := s } :=
  ⟨hk, fun h => h.of_kept_waiting hk hw, Iff.rfl, rfl, rfl, .inl rfl⟩

/-- A change of `compat` and of the count. -/
theorem of_compat (sc : Scan) (n : Nat) : Scanned sc { sc with contendedLocks := n, compat := 0 } :=
  ⟨.refl _, id, Iff.rfl, rfl, rfl, .inr rfl⟩

/-- The flag of a `GROUP` lock. -/
theorem noTimeout (sc : Scan) :
    Scanned sc { sc with flags := { sc.flags with noTimeout := true } } :=
  ⟨.refl _, id, Iff.rfl, rfl, rfl, .inl rfl⟩

end Scanned

/-! ### The callbacks -/

/-- A work item changes a callback only. -/
theorem addBlWorkItem_kept {w : List Nat} {r : Resource × List Nat}
    (hok : addBlWorkItem s l req w = .ok r) : Kept s r.1 ∧ r.1.waiting = s.waiting := by
  rw [addBlWorkItem] at hok
  dsimp only at hok
  split at hok
  · cases hok
    exact ⟨.refl s, rfl⟩
  · obtain ⟨-, -, hok⟩ := bind_eq_ok.mp hok
    cases hok
    exact ⟨.setAst s l _, rfl⟩

/-- So does a list of them. -/
theorem addWorkItems_scanned {ls : List Nat} (hok : addWorkItems req ls sc = .ok sc') :
    Scanned sc sc' ∧ sc'.compat = sc.compat := by
  induction ls generalizing sc with
  | nil =>
      cases hok
      exact ⟨.refl _, rfl⟩
  | cons l ls ih =>
      rw [addWorkItems] at hok
      split at hok
      · obtain ⟨w, hw, hok⟩ := bind_eq_ok.mp hok
        obtain ⟨r, hr, hok⟩ := bind_eq_ok.mp hok
        rw [require_eq_ok] at hw
        obtain ⟨hkept, hwaiting⟩ := addBlWorkItem_kept hr
        obtain ⟨hscan, hcompat⟩ := ih hok
        have hone : Scanned sc { sc with res := r.1, workList := some r.2 } :=
          ⟨hkept, fun h => h.of_kept_waiting hkept hwaiting, by simp [hw], rfl, rfl, .inl rfl⟩
        exact ⟨hone.trans hscan, hcompat⟩
      · exact ih hok

/-- The function of the search finds a conflict, and it never stops. -/
theorem extentCompatCb_scanned {n : IntervalNode} {v : Scan × Bool}
    (hok : extentCompatCb req m n sc = .ok v) :
    Scanned sc v.1 ∧ v.1.compat = 0 ∧ v.2 = false := by
  obtain ⟨-, -, hok⟩ := bind_eq_ok.mp hok
  obtain ⟨sc₁, hitems, hok⟩ := bind_eq_ok.mp hok
  obtain ⟨i, -, hok⟩ := bind_eq_ok.mp hok
  cases hok
  exact ⟨(addWorkItems_scanned hitems).1.trans (.of_compat sc₁ _), rfl, rfl⟩

/-- A walk over the nodes that are in conflict. -/
theorem walk_scanned {xs : List IntervalNode} {v : Scan × Bool}
    (hok : walk (extentCompatCb req m) xs sc = .ok v) :
    Scanned sc v.1 ∧ (xs ≠ [] → v.1.compat = 0) := by
  induction xs generalizing sc with
  | nil =>
      cases hok
      exact ⟨.refl sc, fun h => absurd rfl h⟩
  | cons x xs ih =>
      rw [walk] at hok
      obtain ⟨v₁, hcb, hok⟩ := bind_eq_ok.mp hok
      obtain ⟨hone, hcompat, hgo⟩ := extentCompatCb_scanned hcb
      rw [hgo, if_neg Bool.false_ne_true] at hok
      obtain ⟨hrest, -⟩ := ih hok
      refine ⟨hone.trans hrest, fun _ => ?_⟩
      rcases hrest.compat with heq | heq
      · rw [heq, hcompat]
      · exact heq

/-- The callbacks are run. -/
theorem runBlAstWork_kept {ls : List Nat} (hok : runBlAstWork ls s = .ok s') :
    Kept s s' ∧ s'.waiting = s.waiting := by
  induction ls generalizing s with
  | nil =>
      cases hok
      exact ⟨.refl _, rfl⟩
  | cons l ls ih =>
      obtain ⟨-, -, hok⟩ := bind_eq_ok.mp hok
      obtain ⟨hkept, hwaiting⟩ := ih hok
      exact ⟨(Kept.setAst s l _).trans hkept, hwaiting⟩

/-- The callbacks are given up. -/
theorem discardBlList_kept {ls : List Nat} (hok : discardBlList ls s = .ok s') :
    Kept s s' ∧ s'.waiting = s.waiting := by
  induction ls generalizing s with
  | nil =>
      cases hok
      exact ⟨.refl _, rfl⟩
  | cons l ls ih =>
      obtain ⟨-, -, hok⟩ := bind_eq_ok.mp hok
      obtain ⟨hkept, hwaiting⟩ := ih hok
      exact ⟨(Kept.setAst s l _).trans hkept, hwaiting⟩

/-! ### The granted locks -/

/-- The tree of the mode `m` is not in the way of the request. -/
structure Free (s : Resource) (req : Nat) (m : Mode) : Prop where
  extent : lockmodeCompat m (s.locks req).reqMode = false →
    ∀ x ∈ (s.itree m).toList, (s.locks req).reqExtent.overlapped x.extent = false
  group : (s.locks req).reqMode = .group → m = .group → s.itree m = .nil

/-- The first lock at the root of the tree of the mode `m` has the `gid` of the request. -/
def groupMate (s : Resource) (req : Nat) (m : Mode) : Bool :=
  match s.itree m with
  | .nil => false
  | .node _ _ root _ =>
      match (s.liGroup root.addr).head? with
      | none => false
      | some l => (s.locks req).gid = (s.locks l).gid

theorem Kept.free (h : Kept s s') (hfree : Free s' req m) : Free s req m := by
  obtain ⟨hextent, hgroup⟩ := hfree
  rw [h.reqMode, h.itree, h.reqExtent] at hextent
  rw [h.reqMode, h.itree] at hgroup
  exact ⟨hextent, hgroup⟩

theorem Kept.groupMate (h : Kept s s') : groupMate s' req m = groupMate s req m := by
  simp only [Ldlm.groupMate, h.itree, h.liGroup, h.gid]

/-- A tree that is empty is in nobody's way. -/
theorem free_nil (h : s.itree m = .nil) : Free s req m where
  extent _ x hx := by
    rw [h] at hx
    cases hx
  group _ _ := h

/-- A tree that has not been skipped. -/
theorem blockedTree_spec {r : Scan × Exit} (hinv : Inv sc.res)
    (hok : blockedTree req m sc = .ok r) :
    Scanned sc r.1 ∧
    match r.2 with
    | .done => r.1.compat ≠ 0 ∨ sc.workList = none → Free sc.res req m
    | .ret rc => rc = 0
    | .destroylock rc => rc < 0 ∧ sc.flags.blockNowait = true := by
  rw [blockedTree] at hok
  dsimp only at hok
  split at hok
  · split at hok
    · rename_i hnowait
      cases hok
      exact ⟨.refl sc, by decide, hnowait⟩
    split at hok
    · cases hok
      exact ⟨.noTimeout sc, rfl⟩
    · rename_i w hw
      obtain ⟨sc₁, hiter, hok⟩ := bind_eq_ok.mp hok
      cases hok
      obtain ⟨v, hwalk, hiter⟩ := bind_eq_ok.mp hiter
      cases hiter
      obtain ⟨hscan, -⟩ := walk_scanned hwalk
      refine ⟨((Scanned.noTimeout sc).trans (.of_compat _ sc.contendedLocks)).trans hscan, ?_⟩
      have hzero : v.1.compat = 0 := hscan.compat.elim id id
      rintro (hne | hnone)
      · exact absurd hzero hne
      · rw [hw] at hnone
        cases hnone
  · rename_i hm
    split at hok
    · rename_i hw
      split at hok
      · cases hok
        exact ⟨.refl sc, rfl⟩
      · rename_i hover
        cases hok
        refine ⟨.refl sc, fun _ => ⟨fun _ x hx => ?_, fun _ hg => absurd hg hm⟩⟩
        by_contra hx'
        rw [Bool.not_eq_false] at hx'
        exact hover ((isOverlapped_iff (hinv.wf m)).mpr ⟨x, hx, hx'⟩)
    · rename_i w hw
      obtain ⟨sc₁, hsearch, hok⟩ := bind_eq_ok.mp hok
      cases hok
      rw [search_eq (hinv.wf m)] at hsearch
      cases hwalk : walk (extentCompatCb req m)
          (overlapping (sc.res.locks req).reqExtent (sc.res.itree m)) sc with
      | error e =>
          rw [hwalk] at hsearch
          cases hsearch
      | ok v =>
          rw [hwalk] at hsearch
          cases hsearch
          obtain ⟨hscan, hzero⟩ := walk_scanned hwalk
          have hend : Scanned v.1 { v.1 with
              compat := if v.1.workList ≠ some [] ∧ v.1.compat ≠ 0 then 0 else v.1.compat } := by
            refine ⟨.refl _, id, Iff.rfl, rfl, rfl, ?_⟩
            dsimp only
            split
            · exact .inr rfl
            · exact .inl rfl
          refine ⟨hscan.trans hend, ?_⟩
          rintro (hne | hnone)
          · refine ⟨fun _ x hx => ?_, fun _ hg => absurd hg hm⟩
            by_contra hx'
            rw [Bool.not_eq_false] at hx'
            have hmem := mem_overlapping.mpr ⟨hx, hx'⟩
            exact hend.compat_ne hne (hzero (List.ne_nil_of_mem hmem))
          · rw [hw] at hnone
            cases hnone

/-- What the end of a turn, or of the loop over the interval trees, says about the trees `ms` it
has looked at. -/
def TreesSpec (req : Nat) (ms : List Mode) (sc : Scan) (r : Scan × Exit) : Prop :=
  match r.2 with
  | .done => r.1.compat ≠ 0 ∨ sc.workList = none → ∀ m ∈ ms, Free sc.res req m
  | .ret rc => rc = 0 ∨ rc = 2 ∧ (sc.res.locks req).reqMode = .group ∧
      ∃ m ∈ ms, lockmodeCompat .group m = true ∧ groupMate sc.res req m = true ∧
        (sc.workList = none → ∀ i ∈ ms, i.bit < m.bit → Free sc.res req i)
  | .destroylock rc => rc < 0 ∧ sc.flags.blockNowait = true

/-- A turn of the loop over the interval trees. -/
theorem compatTree_spec {r : Scan × Exit} (hinv : Inv sc.res) (hok : compatTree req m sc = .ok r) :
    Scanned sc r.1 ∧ TreesSpec req [m] sc r := by
  have hblocked : blockedTree req m sc = .ok r → Scanned sc r.1 ∧ TreesSpec req [m] sc r := by
    intro hok
    obtain ⟨hscan, hspec⟩ := blockedTree_spec hinv hok
    refine ⟨hscan, ?_⟩
    rw [TreesSpec]
    split at hspec
    · simpa only [List.forall_mem_singleton] using hspec
    · exact .inl hspec
    · exact hspec
  rw [compatTree] at hok
  split at hok
  · rename_i htree
    cases hok
    refine ⟨.refl _, fun _ => ?_⟩
    rw [List.forall_mem_singleton]
    exact free_nil htree
  · rename_i c l root r' htree
    split at hok
    · rename_i hcompat
      split at hok
      · rename_i hgroup
        cases hok
        refine ⟨.refl _, fun _ => ?_⟩
        rw [List.forall_mem_singleton]
        refine ⟨fun hne => ?_, fun heq => absurd heq hgroup⟩
        rw [lockmodeCompat_comm, hcompat] at hne
        cases hne
      · rename_i hgroup
        rw [ne_eq, not_not] at hgroup
        obtain ⟨i, hi, hok⟩ := bind_eq_ok.mp hok
        split at hok
        · rename_i hgid
          cases hok
          refine ⟨.refl _, .inr ⟨rfl, hgroup, m, List.mem_singleton_self m, hgroup ▸ hcompat, ?_,
            fun _ j hj hlt => ?_⟩⟩
          · rw [intervalLock, require_eq_ok] at hi
            simp [groupMate, htree, hi, hgid]
          · obtain rfl := List.mem_singleton.mp hj
            exact absurd hlt (Nat.lt_irrefl _)
        · exact hblocked hok
    · exact hblocked hok

/-- **The loop over the interval trees.** -/
theorem compatGranted_spec {ms : List Mode} {r : Scan × Exit} (hinv : Inv sc.res)
    (hms : ms.Pairwise fun a b => a.bit < b.bit) (hok : compatGranted req ms sc = .ok r) :
    Scanned sc r.1 ∧ TreesSpec req ms sc r := by
  induction ms generalizing sc with
  | nil =>
      cases hok
      exact ⟨.refl _, fun _ i hi => nomatch hi⟩
  | cons m ms ih =>
      obtain ⟨hlt, hms⟩ := List.pairwise_cons.mp hms
      rw [compatGranted] at hok
      obtain ⟨q, hq, hok⟩ := bind_eq_ok.mp hok
      obtain ⟨hone, hspec⟩ := compatTree_spec hinv hq
      obtain ⟨sc₁, e⟩ := q
      cases e with
      | done =>
          obtain ⟨hrest, hrestspec⟩ := ih (hone.inv hinv) hms hok
          refine ⟨hone.trans hrest, ?_⟩
          have hwork := hone.workList
          rw [TreesSpec] at hspec hrestspec ⊢
          dsimp only at hspec hone hrest hwork
          rw [List.forall_mem_singleton] at hspec
          split at hrestspec
          · intro hend i hi
            have hend₁ := hend.imp_left hrest.compat_ne
            rcases List.mem_cons.mp hi with rfl | hi
            · exact hspec hend₁
            · exact hone.kept.free (hrestspec (hend.imp_right hwork.mpr) i hi)
          · refine hrestspec.imp_right ?_
            rintro ⟨hrc, hgroup, i, hi, hcompat, hmate, hfree⟩
            rw [hone.kept.groupMate] at hmate
            rw [hone.kept.reqMode] at hgroup
            refine ⟨hrc, hgroup, i, List.mem_cons_of_mem m hi, hcompat, hmate,
              fun hnone j hj hji => ?_⟩
            rcases List.mem_cons.mp hj with rfl | hj
            · exact hspec (.inr hnone)
            · exact hone.kept.free (hfree (hwork.mpr hnone) j hj hji)
          · exact ⟨hrestspec.1, hone.blockNowait ▸ hrestspec.2⟩
      | ret rc =>
          cases hok
          refine ⟨hone, ?_⟩
          refine hspec.imp_right ?_
          rintro ⟨hrc, hgroup, i, hi, hcompat, hmate, -⟩
          obtain rfl := List.mem_singleton.mp hi
          refine ⟨hrc, hgroup, i, List.mem_cons_self, hcompat, hmate, fun _ j hj hji => ?_⟩
          rcases List.mem_cons.mp hj with rfl | hj
          · exact absurd hji (Nat.lt_irrefl _)
          · exact absurd (hlt j hj) (Nat.lt_asymm hji)
      | destroylock rc =>
          cases hok
          exact ⟨hone, hspec⟩

/-- The loop returns at a mate. -/
theorem compatTree_mate {r : Scan × Exit} (hgroup : (sc.res.locks req).reqMode = .group)
    (hcompat : lockmodeCompat .group m = true) (hmate : groupMate sc.res req m = true)
    (hok : compatTree req m sc = .ok r) : r = (sc, .ret 2) := by
  rw [groupMate] at hmate
  rw [compatTree] at hok
  split at hmate
  · cases hmate
  · rename_i c lt root rt htree
    split at hmate
    · cases hmate
    · rename_i i hi
      rw [htree] at hok
      simp only [hgroup, hcompat, if_true, ne_eq, not_true, if_false, intervalLock, hi] at hok
      rw [show require (some i) Fault.lassert = .ok i from rfl, ok_bind,
        if_pos (of_decide_eq_true hmate)] at hok
      exact (Except.ok.inj hok).symm

/-- A tree of another mode than `GROUP` does not end the loop, except at a mate, or where a
reprocessed lock overlaps it. -/
theorem compatTree_turn {r : Scan × Exit} (hm : m ≠ .group)
    (hgroup : (sc.res.locks req).reqMode = .group) (hwf : WF (sc.res.itree m))
    (hfree : sc.workList = none →
      ∀ x ∈ (sc.res.itree m).toList, (sc.res.locks req).reqExtent.overlapped x.extent = false)
    (hok : compatTree req m sc = .ok r) : r.2 = .done ∨ r.2 = .ret 2 := by
  have hblocked : blockedTree req m sc = .ok r → r.2 = .done := by
    intro hok
    rw [blockedTree] at hok
    dsimp only at hok
    rw [if_neg hm] at hok
    split at hok
    · rename_i hw
      split at hok
      · rename_i hover
        obtain ⟨x, hx, hx'⟩ := (isOverlapped_iff hwf).mp hover
        cases (hfree hw x hx).symm.trans hx'
      · cases hok
        rfl
    · obtain ⟨sc₁, -, hok⟩ := bind_eq_ok.mp hok
      cases hok
      rfl
  rw [compatTree] at hok
  split at hok
  · cases hok
    exact .inl rfl
  · split at hok
    · rw [if_neg (not_not.mpr hgroup)] at hok
      obtain ⟨i, -, hok⟩ := bind_eq_ok.mp hok
      split at hok
      · cases hok
        exact .inr rfl
      · exact .inl (hblocked hok)
    · exact .inl (hblocked hok)

/-- **A mate ends the loop**, unless a reprocessed lock overlaps a tree before it. -/
theorem compatGranted_mate {ms : List Mode} {r : Scan × Exit} (hinv : Inv sc.res)
    (hms : ms.Pairwise fun a b => a.bit < b.bit) (hm : m ∈ ms)
    (hgroup : (sc.res.locks req).reqMode = .group)
    (hcompat : lockmodeCompat .group m = true) (hmate : groupMate sc.res req m = true)
    (hfree : sc.workList = none → ∀ i ∈ ms, i.bit < m.bit →
      ∀ x ∈ (sc.res.itree i).toList, (sc.res.locks req).reqExtent.overlapped x.extent = false)
    (hok : compatGranted req ms sc = .ok r) : Scanned sc r.1 ∧ r.2 = .ret 2 := by
  refine ⟨(compatGranted_spec hinv hms hok).1, ?_⟩
  induction ms generalizing sc with
  | nil => cases hm
  | cons a ms ih =>
      obtain ⟨hlt, hms⟩ := List.pairwise_cons.mp hms
      rw [compatGranted] at hok
      obtain ⟨⟨sc₁, e⟩, hq, hok⟩ := bind_eq_ok.mp hok
      rcases List.mem_cons.mp hm with rfl | hm
      · cases compatTree_mate hgroup hcompat hmate hq
        cases hok
        rfl
      · have ham := hlt m hm
        have hane : a ≠ .group := by
          rintro rfl
          revert ham
          cases m <;> decide
        have hturn := compatTree_turn hane hgroup (hinv.wf a)
          (fun hnone => hfree hnone a List.mem_cons_self ham) hq
        obtain ⟨hone, -⟩ := compatTree_spec hinv hq
        rcases hturn with rfl | rfl
        · refine ih (hone.inv hinv) hms hm ?_ ?_ (fun hnone i hi him => ?_) hok
          · exact (hone.kept.reqMode req).trans hgroup
          · rw [hone.kept.groupMate, hmate]
          · rw [hone.kept.itree, hone.kept.reqExtent]
            exact hfree (hone.workList.mp hnone) i (List.mem_cons_of_mem a hi) him
        · cases hok
          rfl

/-! ### The result of a search -/

/-- The end of `ldlm_extent_compat_queue`: the lock is refused and destroyed, or the result is
the one of the loop. -/
theorem finishQueue_spec (p : Params) (now : Nat) {e : Exit} (hinv : Inv sc.res)
    (hmode : (sc.res.locks req).grantedMode = none)
    (hdestroy : ∀ rc, e = .destroylock rc → rc < 0 ∧ sc.flags.blockNowait = true) :
    ((finishQueue p now req sc e).2 < 0 ∧ Inv (finishQueue p now req sc e).1.res ∧
      (sc.flags.blockNowait = true ∨ sc.flags.denyOnContention = true)) ∨
    Scanned sc (finishQueue p now req sc e).1 ∧
      (e = .ret (finishQueue p now req sc e).2 ∨
        e = .done ∧ (finishQueue p now req sc e).2 = sc.compat) := by
  cases e with
  | ret rc => exact .inr ⟨.refl sc, .inl rfl⟩
  | destroylock rc =>
      obtain ⟨hneg, hnowait⟩ := hdestroy rc rfl
      exact .inl ⟨hneg, hinv.destroy hmode, .inl hnowait⟩
  | done =>
      have hkept : Kept sc.res (checkContention p now sc.contendedLocks sc.res).1 ∧
          (checkContention p now sc.contendedLocks sc.res).1.waiting = sc.res.waiting := by
        dsimp only [checkContention]
        split
        · exact ⟨⟨(Kept.refl sc.res).lock, rfl, rfl, rfl, rfl⟩, rfl⟩
        · exact ⟨.refl _, rfl⟩
      have hscan := Scanned.of_kept hkept.1 hkept.2
      rw [finishQueue]
      dsimp only
      split
      · rename_i hdeny
        refine .inl ⟨show eusers < 0 by decide, (hscan.inv hinv).destroy ?_, .inr hdeny.2.2.1⟩
        exact (hscan.kept.grantedMode req).trans hmode
      · exact .inr ⟨hscan, .inr ⟨rfl, rfl⟩⟩

/-- The result of a search of the granted locks that does not refuse the request. -/
inductive Verdict (s : Resource) (req : Nat) (firstEnq : Bool) : Int → Prop where
  | blocked : Verdict s req firstEnq 0
  | clear : (∀ m, Free s req m) → Verdict s req firstEnq 1
  | mate {m : Mode} : (s.locks req).reqMode = .group → lockmodeCompat .group m = true →
      groupMate s req m = true →
      (firstEnq = false → ∀ i, i.bit < m.bit → Free s req i) → Verdict s req firstEnq 2

/-- **The search of the granted locks.** -/
theorem extentCompatGranted_spec {p : Params} {now : Nat} {r : Scan × Int} (hinv : Inv sc.res)
    (hmode : (sc.res.locks req).grantedMode = none)
    (hok : extentCompatGranted p now req sc = .ok r) :
    (r.2 < 0 ∧ Inv r.1.res ∧
      (sc.flags.blockNowait = true ∨ sc.flags.denyOnContention = true)) ∨
    Scanned { sc with compat := 1 } r.1 ∧
      Verdict sc.res req (decide (sc.workList ≠ none)) r.2 := by
  obtain ⟨⟨sc₁, e⟩, hloop, hok⟩ := bind_eq_ok.mp hok
  cases hok
  obtain ⟨hscan, hspec⟩ := compatGranted_spec (by exact hinv) (by decide) hloop
  have hmode₁ : (sc₁.res.locks req).grantedMode = none := (hscan.kept.grantedMode req).trans hmode
  have hdestroy : ∀ rc, e = .destroylock rc → rc < 0 ∧ sc₁.flags.blockNowait = true := by
    rintro rc rfl
    exact ⟨hspec.1, hscan.blockNowait.trans hspec.2⟩
  rcases finishQueue_spec p now (hscan.inv hinv) hmode₁ hdestroy with
    ⟨hneg, hinv', hflags⟩ | ⟨hfinish, hresult⟩
  · refine .inl ⟨hneg, hinv', ?_⟩
    rwa [hscan.blockNowait, hscan.denyOnContention] at hflags
  · refine .inr ⟨hscan.trans hfinish, ?_⟩
    generalize (finishQueue p now req sc₁ e).2 = rc at hresult
    rcases hresult with rfl | ⟨rfl, hrc⟩
    · rcases hspec with hrc | ⟨hrc, hgroup, m, -, hcompat, hmate, hfree⟩
      · rw [hrc]
        exact .blocked
      · rw [hrc]
        refine .mate hgroup hcompat hmate fun hnone i hi => ?_
        exact hfree (by simpa using hnone) i (mem_modes i) hi
    · rw [hrc]
      rcases hscan.compat with hone | hzero
      · rw [hone]
        refine .clear fun m => hspec (.inl ?_) m (mem_modes m)
        exact hone.symm ▸ Int.one_ne_zero
      · rw [hzero]
        exact .blocked

/-! ### The waiting locks -/

/-- Nothing is put behind an element that is not there. -/
theorem listAdd_of_not_mem {a b : Nat} {xs : List Nat} (h : a ∉ xs) : listAdd a b xs = xs := by
  induction xs with
  | nil => rfl
  | cons x xs ih =>
      rw [List.mem_cons, not_or] at h
      rw [listAdd, if_neg (Ne.symm h.1), ih h.2]

/-- Putting `b` behind `a` adds `b`, or nothing where `a` is not there. -/
theorem listAdd_cases (a b : Nat) (xs : List Nat) :
    listAdd a b xs = xs ∨ (listAdd a b xs).Perm (b :: xs) := by
  induction xs with
  | nil => exact .inl rfl
  | cons x xs ih =>
      rw [listAdd]
      split
      · exact .inr (List.Perm.swap b x xs)
      · rcases ih with heq | hperm
        · exact .inl (by rw [heq])
        · exact .inr ((hperm.cons x).trans (List.Perm.swap b x xs))

/-- A lock is put behind another one. Neither has been granted. -/
theorem Inv.insertLockAfter {original newlock : Nat} (h : Inv s)
    (horig : (s.locks original).grantedMode = none) (hnew : (s.locks newlock).grantedMode = none)
    (hok : resourceInsertLockAfter s original newlock = .ok s') : Kept s s' ∧ Inv s' := by
  rw [resourceInsertLockAfter] at hok
  split at hok
  · cases hok
    exact ⟨.refl _, h⟩
  · rename_i hdestroyed
    obtain ⟨_, hcheck, hok⟩ := bind_eq_ok.mp hok
    cases hok
    rw [check_eq_ok, Linked, not_or] at hcheck
    have hgranted : listAdd original newlock s.granted = s.granted :=
      listAdd_of_not_mem (h.not_granted horig)
    have hkept : Kept s { s with
        granted := listAdd original newlock s.granted
        waiting := listAdd original newlock s.waiting } :=
      ⟨(Kept.refl s).lock, rfl, rfl, rfl, hgranted⟩
    refine ⟨hkept, h.of_kept hkept ?_ ?_⟩
    · intro i hi
      rcases listAdd_cases original newlock s.waiting with heq | hperm
      · exact h.waiting i (heq ▸ hi)
      · rcases List.mem_cons.mp (hperm.mem_iff.mp hi) with rfl | hi
        · exact ⟨hnew, Bool.eq_false_iff.mpr hdestroyed⟩
        · exact h.waiting i hi
    · rcases listAdd_cases original newlock s.waiting with heq | hperm
      · exact heq.symm ▸ h.links
      · rw [(hperm.append_left s.granted).nodup_iff, List.nodup_middle, List.nodup_cons,
          List.mem_append, not_or]
        exact ⟨hcheck, h.links⟩

/-- A lock that has not been granted leaves the waiting list. -/
theorem Inv.kept_listDel (h : Inv s) (hmode : (s.locks l).grantedMode = none) :
    Kept s (Ldlm.listDel s l) :=
  ⟨(Kept.refl s).lock, rfl, rfl, rfl, List.erase_of_not_mem (h.not_granted hmode)⟩

/-- A lock is put in front of another one. -/
theorem Inv.insertBefore {lock : Nat} (h : Inv s) (hlock : (s.locks lock).grantedMode = none)
    (hreq : (s.locks req).grantedMode = none) (hok : insertBefore s lock req = .ok s') :
    Kept s s' ∧ Inv s' := by
  obtain ⟨s₁, hfirst, hok⟩ := bind_eq_ok.mp hok
  obtain ⟨hkept₁, hinv₁⟩ := h.insertLockAfter hlock hreq hfirst
  have hlock₁ := (hkept₁.grantedMode lock).trans hlock
  have hreq₁ := (hkept₁.grantedMode req).trans hreq
  have hkept₂ := hinv₁.kept_listDel hlock₁
  have hinv₂ := hinv₁.listDel (hinv₁.not_in_tree hlock₁)
  obtain ⟨hkept₃, hinv₃⟩ := hinv₂.insertLockAfter hreq₁ hlock₁ hok
  exact ⟨(hkept₁.trans hkept₂).trans hkept₃, hinv₃⟩

/-- A waiting list that the search has changed. -/
theorem Scanned.of_inv (sc : Scan) (hkept : Kept sc.res s) (hinv : Inv s) :
    Scanned sc { sc with res := s } ∧ Scanned sc { sc with res := s, compat := 0 } :=
  ⟨⟨hkept, fun _ => hinv, Iff.rfl, rfl, rfl, .inl rfl⟩,
    ⟨hkept, fun _ => hinv, Iff.rfl, rfl, rfl, .inr rfl⟩⟩

/-- The place of a `GROUP` lock. -/
theorem placeGroup_scanned {lock : Nat} (hinv : Inv sc.res)
    (hlock : (sc.res.locks lock).grantedMode = none)
    (hreq : (sc.res.locks req).grantedMode = none)
    (hok : placeGroup req lock sc = .ok (some sc')) : Scanned sc sc' := by
  rw [placeGroup] at hok
  split at hok
  · obtain ⟨s, hs, hok⟩ := bind_eq_ok.mp hok
    cases hok
    obtain ⟨hkept, hinv'⟩ := hinv.insertBefore hlock hreq hs
    exact (Scanned.of_inv sc hkept hinv').2
  split at hok
  · obtain ⟨s, hs, hok⟩ := bind_eq_ok.mp hok
    cases hok
    obtain ⟨hkept, hinv'⟩ := hinv.insertLockAfter hlock hreq hs
    exact (Scanned.of_inv sc hkept hinv').2
  · cases hok

/-- What a turn, or the loop over the waiting locks, returns: 0, or `compat` as it is. -/
def WaitSpec (sc : Scan) : Exit → Prop
  | .done => True
  | .ret rc => rc = 0 ∨ rc = sc.compat
  | .destroylock rc => rc < 0 ∧ sc.flags.blockNowait = true

/-- A lock that blocks the request. -/
theorem blockedBy_spec {lock : Nat} {contention : Bool} {r : Scan × Exit}
    (hok : blockedBy req lock contention sc = .ok r) : Scanned sc r.1 ∧ WaitSpec sc r.2 := by
  rw [blockedBy] at hok
  split at hok
  · cases hok
    exact ⟨.refl _, .inl rfl⟩
  · obtain ⟨sc₁, hitems, hok⟩ := bind_eq_ok.mp hok
    cases hok
    exact ⟨(Scanned.of_compat sc _).trans (addWorkItems_scanned hitems).1, trivial⟩

/-- A turn of the loop over the waiting locks. -/
theorem compatLock_spec {lock : Nat} {r : Scan × Exit × Bool} (hinv : Inv sc.res)
    (hlock : (sc.res.locks lock).grantedMode = none)
    (hreq : (sc.res.locks req).grantedMode = none) (hok : compatLock req lock sc = .ok r) :
    Scanned sc r.1 ∧ WaitSpec sc r.2.1 := by
  unfold compatLock at hok
  extract_lets mine other flags rest at hok
  have hrestspec : rest = .ok r → Scanned sc r.1 ∧ WaitSpec sc r.2.1 := by
    intro hrest
    dsimp only [rest] at hrest
    split at hrest
    · cases hrest
      exact ⟨.of_compat sc sc.contendedLocks, trivial⟩
    split at hrest
    · split at hrest
      · rename_i hnowait
        cases hrest
        exact ⟨.refl _, by decide, hnowait⟩
      · obtain ⟨q, hq, hrest⟩ := bind_eq_ok.mp hrest
        cases hrest
        obtain ⟨hscan, hspec⟩ := blockedBy_spec hq
        exact ⟨(Scanned.noTimeout sc).trans hscan, hspec⟩
    split at hrest
    · cases hrest
      exact ⟨.refl _, trivial⟩
    · obtain ⟨q, hq, hrest⟩ := bind_eq_ok.mp hrest
      cases hrest
      exact blockedBy_spec hq
  split at hok
  · split at hok
    · cases hok
      exact ⟨.refl _, .inr rfl⟩
    split at hok
    · cases hok
      exact ⟨.refl _, trivial⟩
    split at hok
    · split at hok
      · rename_i hgranted
        cases hlock.symm.trans hgranted
      split at hok
      · rename_i hnowait
        cases hok
        exact ⟨.refl _, by decide, hnowait⟩
      · obtain ⟨s, hs, hok⟩ := bind_eq_ok.mp hok
        cases hok
        obtain ⟨hkept, hinv'⟩ := hinv.insertLockAfter hlock hreq hs
        exact ⟨(Scanned.of_inv sc hkept hinv').1, .inl rfl⟩
    · exact hrestspec hok
  · exact hrestspec hok

theorem WaitSpec.of_scanned {e : Exit} (h : Scanned sc sc') (hspec : WaitSpec sc' e) :
    WaitSpec sc e := by
  cases e with
  | done => trivial
  | ret rc =>
      rcases hspec with hrc | hrc
      · exact .inl hrc
      · exact h.compat.symm.imp hrc.trans hrc.trans
  | destroylock rc => exact ⟨hspec.1, h.blockNowait ▸ hspec.2⟩

/-- **The loop over the waiting locks.** -/
theorem compatWaiting_spec {ls : List Nat} {scan : Bool} {r : Scan × Exit} (hinv : Inv sc.res)
    (hls : ∀ i ∈ ls, (sc.res.locks i).grantedMode = none)
    (hreq : (sc.res.locks req).grantedMode = none) (hok : compatWaiting req ls scan sc = .ok r) :
    Scanned sc r.1 ∧ WaitSpec sc r.2 := by
  induction ls generalizing sc scan with
  | nil =>
      cases hok
      exact ⟨.refl _, trivial⟩
  | cons lock ls ih =>
      have hlock := hls lock List.mem_cons_self
      have htail := fun i hi => hls i (List.mem_cons_of_mem lock hi)
      rw [compatWaiting] at hok
      split at hok
      · cases hok
        exact ⟨.refl _, trivial⟩
      split at hok
      · -- the search for the place of a `GROUP` lock
        obtain ⟨q, hq, hok⟩ := bind_eq_ok.mp hok
        split at hok
        · cases hok
          exact ⟨placeGroup_scanned hinv hlock hreq hq, trivial⟩
        · exact ih hinv htail hreq hok
      · obtain ⟨⟨sc₁, e, starts⟩, hq, hok⟩ := bind_eq_ok.mp hok
        obtain ⟨hone, hspec⟩ := compatLock_spec hinv hlock hreq hq
        have hinv₁ := hone.inv hinv
        have hlock₁ := (hone.kept.grantedMode lock).trans hlock
        have hreq₁ := (hone.kept.grantedMode req).trans hreq
        have htail₁ : ∀ i ∈ ls, (sc₁.res.locks i).grantedMode = none :=
          fun i hi => (hone.kept.grantedMode i).trans (htail i hi)
        cases e with
        | done =>
            dsimp only at hok
            split at hok
            · obtain ⟨q', hq', hok⟩ := bind_eq_ok.mp hok
              split at hok
              · cases hok
                exact ⟨hone.trans (placeGroup_scanned hinv₁ hlock₁ hreq₁ hq'), trivial⟩
              · obtain ⟨hrest, hrestspec⟩ := ih hinv₁ htail₁ hreq₁ hok
                exact ⟨hone.trans hrest, .of_scanned hone hrestspec⟩
            · obtain ⟨hrest, hrestspec⟩ := ih hinv₁ htail₁ hreq₁ hok
              exact ⟨hone.trans hrest, .of_scanned hone hrestspec⟩
        | ret rc =>
            cases hok
            exact ⟨hone, hspec⟩
        | destroylock rc =>
            cases hok
            exact ⟨hone, hspec⟩

/-- **The search of the waiting locks.** A waiting lock has not been granted, so the search never
finds a mate. -/
theorem extentCompatWaiting_spec {p : Params} {now : Nat} {r : Scan × Int} (hinv : Inv sc.res)
    (hmode : (sc.res.locks req).grantedMode = none)
    (hok : extentCompatWaiting p now req sc = .ok r) :
    (r.2 < 0 ∧ Inv r.1.res ∧
      (sc.flags.blockNowait = true ∨ sc.flags.denyOnContention = true)) ∨
    Scanned { sc with compat := 1 } r.1 ∧ (r.2 = 0 ∨ r.2 = 1) := by
  obtain ⟨⟨sc₁, e⟩, hloop, hok⟩ := bind_eq_ok.mp hok
  cases hok
  obtain ⟨hscan, hspec⟩ := compatWaiting_spec (by exact hinv)
    (by exact fun i hi => (hinv.waiting i hi).1) (by exact hmode) hloop
  have hmode₁ : (sc₁.res.locks req).grantedMode = none := (hscan.kept.grantedMode req).trans hmode
  have hdestroy : ∀ rc, e = .destroylock rc → rc < 0 ∧ sc₁.flags.blockNowait = true := by
    rintro rc rfl
    exact ⟨hspec.1, hscan.blockNowait.trans hspec.2⟩
  rcases finishQueue_spec p now (hscan.inv hinv) hmode₁ hdestroy with
    ⟨hneg, hinv', hflags⟩ | ⟨hfinish, hresult⟩
  · refine .inl ⟨hneg, hinv', ?_⟩
    rwa [hscan.blockNowait, hscan.denyOnContention] at hflags
  · refine .inr ⟨hscan.trans hfinish, ?_⟩
    generalize (finishQueue p now req sc₁ e).2 = rc at hresult
    rcases hresult with rfl | ⟨rfl, hrc⟩
    · exact hspec
    · rw [hrc]
      exact hscan.compat.symm

end LustreSimulator.Ldlm
