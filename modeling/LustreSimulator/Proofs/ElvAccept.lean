import LustreSimulator.Proofs.ElvIndex

/-!
# `LustreSimulator.Proofs.ElvAccept`: which ioreqs the deadline elevator accepts

`deadline_add_rq_rb` aborts when the tree of the direction has a request with the same offset. That
happens to an ioreq that gets a request of its own, and to one that moves the front of a request to
the offset of another. `Accepted` is the condition that it does not. The lemmas `_ok` say that
nothing else in `Enqueue` aborts, and `accepted_iff` puts them together.

`Calm` is what is needed besides the indexes: no request has an empty batch, and the disk thread of
an idle disk is not in the run queue.
-/

set_option autoImplicit false

namespace LustreSimulator

open Lib

namespace Elevator

variable {e e' : Elevator} {p : Params} {rq next : Nat} {x y : Option Nat}

/-! ### The trees -/

/-- `elv_rb_del` of a request in the tree does not abort. -/
theorem rbDel_ok {t : RbTree Nat} (ht : IsRedBlack t) (hmem : rq ∈ t.toList) :
    ∃ t', rbDel t rq = .ok t' := by
  obtain ⟨pos, hpos⟩ :=
    exists_findPos (p := fun i => decide (i = rq)) hmem (decide_eq_true rfl)
  obtain ⟨htree, -⟩ := findPos_some hpos
  rw [zip_nil] at htree
  obtain ⟨t', herase, -⟩ := Rbtree.rbErase_spec pos (htree ▸ ht)
  refine ⟨t', ?_⟩
  unfold rbDel rbNode
  rw [hpos]
  dsimp only
  rw [herase]

/-- `elv_rb_add` finds a request with the same offset, or adds the request. -/
theorem rbAdd_ok {t : RbTree Nat} (ht : IsRedBlack t) :
    (∃ i ∈ t.toList, (e.reqs i).off = (e.reqs rq).off ∧ e.rbAdd t rq = .ok (some i, t)) ∨
      ∃ t', e.rbAdd t rq = .ok (none, t') := by
  have hzip := Rbtree.descend_zip_root (e.compareOff (e.reqs rq).off) t 1
  obtain ⟨hzero, hnil⟩ := Rbtree.descend_focus (e.compareOff (e.reqs rq).off) t [] 1 (by decide)
  unfold rbAdd
  dsimp only
  by_cases hrc : (Rbtree.descend (e.compareOff (e.reqs rq).off) t [] 1).rc = 0
  · obtain ⟨c, l, i, r, hfocus, hcompare⟩ := hzero hrc
    left
    refine ⟨i, ?_, ?_, ?_⟩
    · rw [← hzip, hfocus, toList_zip]
      simp
    · unfold compareOff at hcompare
      split at hcompare
      · exact absurd hcompare (by decide)
      · split at hcompare
        · exact absurd hcompare (by decide)
        · omega
    · rw [hfocus]
  · right
    rw [hnil hrc] at hzip ⊢
    obtain ⟨t', hlink, -⟩ := Rbtree.rbLink_spec rq ht hzip
    exact ⟨t', by dsimp only; rw [hlink]⟩

/-- `deadline_add_rq_rb` aborts exactly when the tree has the offset already. -/
theorem deadlineAddRqRb_ok_iff {d : Deadline} (ht : IsRedBlack (d.sortList (e.reqs rq).cmd))
    (hsorted : (d.sortList (e.reqs rq).cmd).toList.Pairwise fun i j =>
      (e.reqs i).off < (e.reqs j).off) :
    (∃ d', e.deadlineAddRqRb d rq = .ok d') ↔
      ∀ i ∈ (d.sortList (e.reqs rq).cmd).toList, (e.reqs i).off ≠ (e.reqs rq).off := by
  unfold deadlineAddRqRb
  rcases @rbAdd_ok e rq _ ht with ⟨i, hi, hoff, hadd⟩ | ⟨t', hadd⟩
  · dsimp only
    rw [hadd, ok_bind]
    exact iff_of_false (fun h => nomatch h.choose_spec) fun hall => hall i hi hoff
  · dsimp only
    rw [hadd, ok_bind]
    refine iff_of_true ⟨_, rfl⟩ fun i hi => ?_
    obtain ⟨-, l, m, hlist, -, hsplit⟩ := rbAdd_split hadd rfl ht
    obtain ⟨hl, hm⟩ := hsplit hsorted
    rw [hlist] at hi
    rcases List.mem_append.mp hi with hi | hi
    · exact Nat.ne_of_lt (hl i hi)
    · exact Nat.ne_of_gt (hm i hi)

/-! ### Merging -/

/-- A member of a deadline elevator is in the tree of its direction. -/
theorem mem_sortList {d : Deadline} (hindexed : (Sched.deadline d).Indexed e.reqs) {i : Nat}
    {c : Cmd} :
    i ∈ (d.sortList c).toList ↔ i ∈ (Sched.deadline d).members ∧ (e.reqs i).cmd = c := by
  rw [(hindexed c).2.1.mem_iff, Sched.mem_deadline]
  constructor
  · exact fun hin => ⟨⟨c, hin⟩, (hindexed c).2.2 i hin⟩
  · rintro ⟨⟨c', hin⟩, rfl⟩
    rwa [(hindexed c').2.2 i hin]

/-- `deadline_remove_request` of a member does not abort. -/
theorem deadlineRemoveRequest_ok {d : Deadline} (hindexed : (Sched.deadline d).Indexed e.reqs)
    (hmem : rq ∈ (Sched.deadline d).members) : ∃ d', e.deadlineRemoveRequest d rq = .ok d' := by
  obtain ⟨t, hdel⟩ :=
    rbDel_ok (hindexed (e.reqs rq).cmd).1 ((mem_sortList hindexed).mpr ⟨hmem, rfl⟩)
  unfold deadlineRemoveRequest deadlineDelRqRb
  dsimp only
  rw [hdel]
  exact ⟨_, rfl⟩

/-- `ElvMergeRequests` of the subclass does not abort for a member. -/
theorem removeRequest_ok (hwf : WF e) (hmem : rq ∈ e.sched.members) :
    ∃ s, e.removeRequest rq = .ok s := by
  unfold removeRequest
  have hindexed := hwf.indexed
  cases hsched : e.sched with
  | noop queue => exact ⟨_, rfl⟩
  | deadline d =>
      rw [hsched] at hindexed hmem
      obtain ⟨d', hd⟩ := deadlineRemoveRequest_ok hindexed hmem
      dsimp only
      rw [hd]
      exact ⟨_, rfl⟩

/-- `elv_rqhash_reposition` does not abort. -/
theorem rqhashReposition_ok (e : Elevator) (p : Params) (rq : Nat) :
    ∃ e', e.rqhashReposition p rq = .ok e' := by
  unfold rqhashReposition rqhashAdd
  rw [check_true]
  · exact ⟨_, rfl⟩
  · unfold rqhashDel
    split
    · exact congrArg Request.onHash (reqs_setReq_self e rq _)
    · rename_i hoff
      exact Bool.not_eq_true _ ▸ hoff

/-- `ElvMergeRequests(rq, next)` does not abort for a member. -/
theorem elvMergeRequests_ok (hwf : WF e) (hnext : next ∈ e.sched.members) :
    ∃ e', e.elvMergeRequests p rq next = .ok e' := by
  obtain ⟨s, hs⟩ := removeRequest_ok hwf hnext
  obtain ⟨e₁, hrepo⟩ := rqhashReposition_ok { e with sched := s } p rq
  unfold elvMergeRequests
  rw [hs, ok_bind, hrepo]
  exact ⟨_, rfl⟩

/-- The two requests are merged by `AttemptMerge`. -/
def Meets (e : Elevator) (p : Params) (rq next : Nat) : Prop :=
  add64 (e.reqs rq).off (e.reqs rq).count = (e.reqs next).off ∧
    (e.reqs rq).cmd = (e.reqs next).cmd ∧
    add64 (e.reqs rq).count (e.reqs next).count ≤ p.maxsize

/-- `AttemptMerge` of two members does not abort. -/
theorem attemptMerge_ok (hwf : WF e) (hnext : next ∈ e.sched.members) (hne : rq ≠ next)
    (hbatch : (e.reqs rq).batch ≠ []) (hbatch' : (e.reqs next).batch ≠ []) :
    ∃ r, e.attemptMerge p rq next = .ok r ∧ (r.1 = true ↔ Meets e p rq next) := by
  unfold attemptMerge
  dsimp only
  split
  · rename_i hadj
    exact ⟨_, rfl, iff_of_false (fun h => nomatch h) fun h => hadj h.1⟩
  · rename_i hadj
    split
    · rename_i hcmd
      exact ⟨_, rfl, iff_of_false (fun h => nomatch h) fun h => hcmd h.2.1⟩
    · rename_i hcmd
      split
      · rename_i hsize
        exact ⟨_, rfl, iff_of_false (fun h => nomatch h) fun h => Nat.not_lt.mpr h.2.2 hsize⟩
      · rename_i hsize
        have hwf₁ : WF (e.setReq next { e.reqs next with batch := [] }) := hwf.setReq rfl rfl
        have hwf₂ : WF ((e.setReq next { e.reqs next with batch := [] }).setReq rq
            { e.reqs rq with
              count := add64 (e.reqs rq).count (e.reqs next).count
              batch := (e.reqs rq).batch ++ (e.reqs next).batch }) := hwf₁.setReq
          (by rw [reqs_setReq_ne _ _ hne]) (by rw [reqs_setReq_ne _ _ hne])
        obtain ⟨e₁, hmerge⟩ := @elvMergeRequests_ok _ p rq next hwf₂ hnext
        rw [check_true ⟨hbatch, hbatch'⟩, ok_bind, hmerge]
        exact ⟨_, rfl, iff_of_true rfl ⟨not_not.mp hadj, not_not.mp hcmd, Nat.not_lt.mp hsize⟩⟩

/-- Every request has an ioreq. -/
def Loaded (e : Elevator) : Prop := ∀ rq ∈ e.sched.members, (e.reqs rq).batch ≠ []

/-- `AttemptBackMerge` of a member does not abort. -/
theorem attemptBackMerge_ok (hwf : WF e) (hloaded : Loaded e) (hrq : rq ∈ e.sched.members) :
    ∃ r, e.attemptBackMerge p rq = .ok r := by
  unfold attemptBackMerge
  split
  · rename_i next hnext
    obtain ⟨hmem, hne⟩ := neighbour_spec hwf.indexed hwf.nodup (.inl hnext)
    obtain ⟨r, hr, -⟩ :=
      attemptMerge_ok (p := p) hwf hmem hne.symm (hloaded rq hrq) (hloaded _ hmem)
    exact ⟨r, hr⟩
  · exact ⟨_, rfl⟩

/-- Neither does `AttemptFrontMerge`. -/
theorem attemptFrontMerge_ok (hwf : WF e) (hloaded : Loaded e) (hrq : rq ∈ e.sched.members) :
    ∃ r, e.attemptFrontMerge p rq = .ok r ∧
      (r.1 = true ↔ ∃ prev, e.elvFormerRequest rq = some prev ∧ Meets e p prev rq) := by
  unfold attemptFrontMerge
  cases hprev : e.elvFormerRequest rq with
  | some prev =>
      obtain ⟨hmem, hne⟩ := neighbour_spec hwf.indexed hwf.nodup (.inr hprev)
      obtain ⟨r, hr, hiff⟩ := attemptMerge_ok (p := p) hwf hrq hne (hloaded _ hmem) (hloaded rq hrq)
      refine ⟨r, hr, hiff.trans ⟨fun h => ⟨prev, rfl, h⟩, ?_⟩⟩
      rintro ⟨prev', hprev', h⟩
      rw [Option.some.inj hprev']
      exact h
  | none =>
      refine ⟨_, rfl, iff_of_false (fun h => nomatch h) ?_⟩
      rintro ⟨prev, hprev', -⟩
      exact nomatch hprev'

/-- No request of the direction starts at the offset, but for `x`. -/
def Vacant (e : Elevator) (cmd : Cmd) (off : Nat) (x : Option Nat) : Prop :=
  ∀ i ∈ e.sched.members, some i ≠ x → (e.reqs i).cmd = cmd → (e.reqs i).off ≠ off

/-- `ElvMergedRequest` aborts exactly when a request moved to the offset of another. -/
theorem elvMergedRequest_ok_iff {type : MergeType} (hwf : WF e) (hrq : rq ∈ e.sched.members)
    (hordered : e.sched.Ordered e.reqs (if type = .frontMerge then some rq else none)) :
    (∃ e', e.elvMergedRequest p rq type = .ok e') ↔
      (type = .frontMerge → Vacant e (e.reqs rq).cmd (e.reqs rq).off (some rq)) := by
  have hresort : (∃ e', e.elvMergedRequest p rq type = .ok e') ↔
      ∃ s, e.resortRequest rq type = .ok s := by
    refine exists_bind_ok fun s => ?_
    dsimp only
    split
    · obtain ⟨e₁, hrepo⟩ := rqhashReposition_ok { e with sched := s } p rq
      rw [hrepo]
      exact ⟨_, rfl⟩
    · exact ⟨_, rfl⟩
  rw [hresort]
  have hindexed := hwf.indexed
  have hnodup := hwf.nodup
  unfold resortRequest Vacant
  cases he : e.sched with
  | noop =>
      rw [he] at hordered
      exact absurd hordered id
  | deadline d =>
      rw [he] at hordered hindexed hnodup hrq
      by_cases htype : type = .frontMerge
      · rw [if_pos htype] at hordered
        obtain ⟨t, hdel⟩ :=
          rbDel_ok (hindexed (e.reqs rq).cmd).1 ((mem_sortList hindexed).mpr ⟨hrq, rfl⟩)
        have htree := sortList_del hdel hindexed hnodup hordered (e.reqs rq).cmd
        have hrb := (rbDel_split hdel (hindexed _).1).1
        have hadd := @deadlineAddRqRb_ok_iff e rq
          { d with sortList := fun c => if c = (e.reqs rq).cmd then t else d.sortList c }
          (by dsimp only; rwa [if_pos rfl]) htree.1
        dsimp only at htree hadd ⊢
        rw [if_pos htype, hdel, ok_bind]
        rw [htree.2] at hadd
        refine ((exists_bind_ok fun _ => ⟨_, rfl⟩).trans hadd).trans ?_
        have herase : ∀ i, i ∈ (d.sortList (e.reqs rq).cmd).toList.erase rq ↔
            i ≠ rq ∧ i ∈ (Sched.deadline d).members ∧ (e.reqs i).cmd = (e.reqs rq).cmd := by
          intro i
          rw [(sortList_nodup hindexed hnodup _).mem_erase_iff, mem_sortList hindexed]
        constructor
        · intro hvacant _ i hi hne hcmd
          exact hvacant i ((herase i).mpr ⟨fun heq => hne (congrArg some heq), hi, hcmd⟩)
        · intro hvacant i hi
          obtain ⟨hne, hmem, hcmd⟩ := (herase i).mp hi
          exact hvacant htype i hmem (fun heq => hne (Option.some.inj heq)) hcmd
      · dsimp only
        rw [if_neg htype]
        exact iff_of_true ⟨_, rfl⟩ fun h => absurd h htype

/-- `ElvMerge` finds the request for the ioreq, and the two are not too large together. -/
def Takes (e : Elevator) (p : Params) (req : Ioreq) (type : MergeType) (rq : Nat) : Prop :=
  e.elvMergeVirtual p req = (type, some rq) ∧ add64 (e.reqs rq).count req.count ≤ p.maxsize

/-- The ioreq joins no request. -/
def Alone (e : Elevator) (p : Params) (req : Ioreq) : Prop :=
  ∀ rq, ¬ e.Takes p req .backMerge rq ∧ ¬ e.Takes p req .frontMerge rq

/-- After the ioreq joined the request at its front, the request is merged with the one before. -/
def Bridges (e : Elevator) (p : Params) (req : Ioreq) (rq : Nat) : Prop :=
  ∃ prev, e.elvFormerRequest rq = some prev ∧
    add64 (e.reqs prev).off (e.reqs prev).count = req.off ∧ (e.reqs prev).cmd = (e.reqs rq).cmd ∧
    add64 (e.reqs prev).count (add64 (e.reqs rq).count req.count) ≤ p.maxsize

/-- An ioreq that joins a request at its front finds the offset free, or a request to merge with. -/
def FrontFree (e : Elevator) (p : Params) (req : Ioreq) : Prop :=
  ∀ rq, e.Takes p req .frontMerge rq →
    Bridges e p req rq ∨ Vacant e (e.reqs rq).cmd req.off (some rq)

/-- Behind `AttemptBackMerge` and `AttemptFrontMerge` there is `ElvMergedRequest` when they did not
merge. -/
theorem grown_ok_iff {x : Except Fault (Bool × Elevator)} {t : MergeType} {m : Bool × Elevator}
    (hx : x = .ok m) :
    (∃ r : Bool × Elevator, (x.bind fun m => if m.1 then .ok (true, m.2)
      else (m.2.elvMergedRequest p rq t).bind fun e => .ok (true, e)) = .ok r) ↔
    (m.1 = true ∨ ∃ e', m.2.elvMergedRequest p rq t = .ok e') := by
  rw [hx, ok_bind]
  cases hm : m.1 with
  | true => exact iff_of_true ⟨_, if_pos rfl⟩ (.inl rfl)
  | false =>
      rw [if_neg Bool.false_ne_true, exists_bind_ok fun _ => ⟨_, rfl⟩]
      exact ⟨.inr, fun h => h.resolve_left Bool.false_ne_true⟩

/-- A request with an ioreq may be replaced by another one. -/
theorem Loaded.setReq {r : Request} (h : Loaded e) (hr : r.batch ≠ []) :
    Loaded (e.setReq rq r) := by
  intro i hi
  by_cases hirq : i = rq
  · rw [hirq, reqs_setReq_self]
    exact hr
  · rw [reqs_setReq_ne _ _ hirq]
    exact h i hi

/-- The request itself does not occupy an offset. -/
theorem vacant_setReq {r : Request} {cmd : Cmd} {off : Nat} :
    Vacant (e.setReq rq r) cmd off (some rq) ↔ Vacant e cmd off (some rq) := by
  refine forall_congr' fun i => imp_congr_right fun _ => imp_congr_right fun hi => ?_
  rw [reqs_setReq_ne _ _ fun heq => hi (congrArg some heq)]

/-- `AttemptFrontMerge` merges the request, which the ioreq joined at its front, when it bridges the
gap to the one before. -/
theorem bridges_iff {req : Ioreq} {batch : List Submitted} (hwf : WF e) :
    (∃ prev, (e.setReq rq { e.reqs rq with
        batch := batch, count := add64 (e.reqs rq).count req.count,
        off := req.off }).elvFormerRequest rq = some prev ∧
      Meets (e.setReq rq { e.reqs rq with
        batch := batch, count := add64 (e.reqs rq).count req.count, off := req.off }) p prev rq) ↔
    Bridges e p req rq := by
  have hformer : (e.setReq rq { e.reqs rq with
      batch := batch, count := add64 (e.reqs rq).count req.count,
      off := req.off }).elvFormerRequest rq = e.elvFormerRequest rq := by
    unfold elvFormerRequest
    rw [reqs_setReq_self]
    rfl
  unfold Bridges Meets
  rw [hformer]
  refine exists_congr fun prev => and_congr_right fun hprev => ?_
  obtain ⟨-, hne⟩ := neighbour_spec hwf.indexed hwf.nodup (.inr hprev)
  rw [reqs_setReq_self, reqs_setReq_ne _ _ hne]

/-- The switch of `Enqueue` aborts exactly when a request moves to the offset of another. -/
theorem mergeIoreq_ok_iff {req : Submitted} (hwf : WF e) (hloaded : Loaded e)
    (hi : Indexing p none none e) :
    (∃ r, e.mergeIoreq p req = .ok r) ↔ FrontFree e p req.toIoreq := by
  unfold mergeIoreq FrontFree Takes
  split
  · -- behind a request
    rename_i rq hfind
    rw [hfind]
    refine iff_of_true ?_ fun rq' h => nomatch h.1
    obtain ⟨hmem, -, -⟩ := elvMergeVirtual_spec hfind hwf (by decide)
    dsimp only
    split
    · exact ⟨_, rfl⟩
    · obtain ⟨r₁, hr₁⟩ : ∃ r, r = { e.reqs rq with
          batch := (e.reqs rq).batch ++ [req]
          count := add64 (e.reqs rq).count req.count } := ⟨_, rfl⟩
      rw [← hr₁]
      have hwf₁ : WF (e.setReq rq r₁) := hwf.setReq (by rw [hr₁]) (by rw [hr₁])
      have hloaded₁ : Loaded (e.setReq rq r₁) := hloaded.setReq (by rw [hr₁]; simp)
      have hi₁ : Indexing p (some rq) none (e.setReq rq r₁) :=
        hi.setReq (.inl ⟨rfl, rfl⟩) (.inr ⟨rfl, by rw [hr₁]⟩)
      obtain ⟨m, hm⟩ := attemptBackMerge_ok (p := p) hwf₁ hloaded₁ hmem
      refine (grown_ok_iff hm).mpr ?_
      rcases attempt_spec hwf₁ hmem (.inl hm) with rfl | ⟨htrue, -⟩
      · exact .inr ((@elvMergedRequest_ok_iff _ p rq .backMerge hwf₁ hmem hi₁.ordered).mpr
          fun h => nomatch h)
      · exact .inl htrue
  · -- in front of a request
    rename_i rq hfind
    rw [hfind]
    obtain ⟨hmem, -, hfront⟩ := elvMergeVirtual_spec hfind hwf (by decide)
    have honly : (∀ rq', (MergeType.frontMerge, some rq) = (.frontMerge, some rq') ∧
        add64 (e.reqs rq').count req.count ≤ p.maxsize →
          Bridges e p req.toIoreq rq' ∨ Vacant e (e.reqs rq').cmd req.off (some rq')) ↔
        (add64 (e.reqs rq).count req.count ≤ p.maxsize →
          Bridges e p req.toIoreq rq ∨ Vacant e (e.reqs rq).cmd req.off (some rq)) := by
      constructor
      · exact fun h hsize => h rq ⟨rfl, hsize⟩
      · rintro h rq' ⟨hrq', hsize⟩
        cases hrq'
        exact h hsize
    rw [honly]
    unfold llMergeFn
    dsimp only
    by_cases hsize : add64 (e.reqs rq).count req.count > p.maxsize
    · rw [if_pos hsize]
      exact iff_of_true ⟨_, rfl⟩ fun h => absurd hsize (Nat.not_lt.mpr h)
    · rw [if_neg hsize]
      have hbridges := @bridges_iff e p rq req.toIoreq
        (req :: (e.reqs rq).batch) hwf
      obtain ⟨r₁, hr₁⟩ : ∃ r, r = { e.reqs rq with
          batch := req :: (e.reqs rq).batch, count := add64 (e.reqs rq).count req.count,
          off := req.off } := ⟨_, rfl⟩
      rw [← hr₁] at hbridges ⊢
      have hwf₁ : WF (e.setReq rq r₁) := hwf.setReq (by rw [hr₁]) (by rw [hr₁])
      have hloaded₁ : Loaded (e.setReq rq r₁) := hloaded.setReq (by rw [hr₁]; simp)
      have hi₁ : Indexing p none (some rq) (e.setReq rq r₁) :=
        hi.setReq (.inr ⟨rfl, by rw [hr₁]; exact front_key (hfront rfl).1⟩) (.inl ⟨rfl, rfl⟩)
      obtain ⟨m, hm, hmerged⟩ := attemptFrontMerge_ok (p := p) hwf₁ hloaded₁ hmem
      rw [if_neg (by simp), grown_ok_iff hm, hmerged.trans hbridges]
      rcases attempt_spec hwf₁ hmem (.inr hm) with rfl | ⟨htrue, -⟩
      · dsimp only
        rw [@elvMergedRequest_ok_iff _ p rq .frontMerge hwf₁ hmem hi₁.ordered, reqs_setReq_self,
          vacant_setReq, hr₁]
        exact ⟨fun h _ => h.imp_right fun h => h rfl,
          fun h => (h (Nat.not_lt.mp hsize)).imp_right fun h _ => h⟩
      · have hyes := (hmerged.trans hbridges).mp htrue
        exact iff_of_true (.inl hyes) fun _ => .inl hyes
  · rename_i hback hfront
    exact iff_of_true ⟨_, rfl⟩ fun rq h => absurd h.1 (hfront rq)

/-- `ll_front_merge_fn` and `ll_back_merge_fn` refuse a merge that is too large. -/
theorem llMergeFn_eq_false {req : Ioreq} :
    (e.llMergeFn p rq req).1 = false ↔ p.maxsize < add64 (e.reqs rq).count req.count := by
  unfold llMergeFn
  split
  · rename_i hsize
    exact iff_of_true rfl hsize
  · rename_i hsize
    exact iff_of_false (fun h => nomatch h) hsize

/-- An ioreq that is too large for the request that `ElvMerge` finds joins none. -/
theorem alone_of_large {req : Ioreq} {type : MergeType}
    (hfind : e.elvMergeVirtual p req = (type, some rq))
    (hsize : p.maxsize < add64 (e.reqs rq).count req.count) : Alone e p req := by
  intro rq'
  unfold Takes
  rw [hfind]
  constructor
  · rintro ⟨heq, hfits⟩
    cases heq
    exact Nat.not_lt.mpr hfits hsize
  · rintro ⟨heq, hfits⟩
    cases heq
    exact Nat.not_lt.mpr hfits hsize

/-- The flag of the switch says whether the ioreq joined a request. -/
theorem mergeIoreq_alone {req : Submitted} {r : Bool × Elevator} (h : e.mergeIoreq p req = .ok r) :
    r.1 = false ↔ Alone e p req.toIoreq := by
  have hjoined : ∀ {x : Except Fault (Bool × Elevator)} {t : MergeType} {rq : Nat},
      (x.bind fun m => if m.1 then .ok (true, m.2)
        else (m.2.elvMergedRequest p rq t).bind fun e => .ok (true, e)) = .ok r →
      ¬ r.1 = false := by
    intro x t rq h
    obtain ⟨m, -, h⟩ := bind_eq_ok.mp h
    split at h
    · cases h
      exact fun h => nomatch h
    · obtain ⟨e₁, -, h⟩ := bind_eq_ok.mp h
      cases h
      exact fun h => nomatch h
  unfold mergeIoreq at h
  split at h
  · rename_i rq hfind
    dsimp only at h
    split at h
    · rename_i hlarge
      cases h
      exact iff_of_true rfl (alone_of_large hfind (llMergeFn_eq_false.mp hlarge))
    · rename_i hfits
      rw [llMergeFn_eq_false] at hfits
      exact iff_of_false (hjoined h) fun halone => (halone rq).1 ⟨hfind, Nat.not_lt.mp hfits⟩
  · rename_i rq hfind
    dsimp only at h
    split at h
    · rename_i hlarge
      cases h
      exact iff_of_true rfl (alone_of_large hfind (llMergeFn_eq_false.mp hlarge))
    · rename_i hfits
      rw [llMergeFn_eq_false] at hfits
      exact iff_of_false (hjoined h) fun halone => (halone rq).2 ⟨hfind, Nat.not_lt.mp hfits⟩
  · rename_i hback hfront
    cases h
    exact iff_of_true rfl fun rq => ⟨fun h => hback rq h.1, fun h => hfront rq h.1⟩

/-- Where nothing changed but the order of the requests, the same offsets are free. -/
theorem Unmoved.vacant {cmd : Cmd} {off : Nat} (h : Unmoved e e') :
    Vacant e' cmd off x ↔ Vacant e cmd off x := by
  refine forall_congr' fun i => ?_
  rw [h.members.mem_iff, cmd_of_core (h.core i), off_of_core (h.core i)]

/-- A new request is accepted exactly when its offset is free. -/
theorem elvAddRequest_ok_iff {req : Submitted} (hwf : WF e) (hi : Indexing p none none e) :
    (∃ e', (e.newRequest req).elvAddRequest p e.nextReq = .ok e') ↔
      Vacant e req.cmd req.off none := by
  have hnot : ∀ i ∈ e.sched.members, i ≠ e.nextReq := fun i hi => Nat.ne_of_lt (hwf.lt i hi)
  have hnew : (e.newRequest req).reqs e.nextReq =
      ⟨req.cmd, req.off, req.count, 0, [req], false⟩ := if_pos rfl
  obtain ⟨r, hr⟩ : ∃ r : Request, r = { (e.newRequest req).reqs e.nextReq with
      flags := ((e.newRequest req).reqs e.nextReq).flags ||| reqSorted } := ⟨_, rfl⟩
  have hhash : ∃ e₁, ((e.newRequest req).setReq e.nextReq r).rqhashAdd p e.nextReq = .ok e₁ := by
    unfold rqhashAdd
    rw [check_true (by rw [reqs_setReq_self, hr, hnew])]
    exact ⟨_, rfl⟩
  obtain ⟨e₁, hhash⟩ := hhash
  obtain ⟨hre, -⟩ := rqhashAdd_spec hhash
  have hself : (e₁.reqs e.nextReq).cmd = req.cmd ∧ (e₁.reqs e.nextReq).off = req.off := by
    rw [cmd_of_core (hre.core _), off_of_core (hre.core _), reqs_setReq_self, hr, hnew]
    exact ⟨rfl, rfl⟩
  have hother : ∀ i, i ≠ e.nextReq → (e₁.reqs i).core = (e.reqs i).core := by
    intro i hine
    rw [hre.core i, reqs_setReq_ne _ _ hine]
    exact congrArg Request.core (if_neg hine)
  have hindexed := hwf.indexed
  have hordered := hi.ordered
  have hsched₁ : e₁.sched = e.sched := hre.sched
  unfold elvAddRequest
  dsimp only
  rw [← hr, hhash, ok_bind]
  unfold addRequest Vacant
  dsimp only
  rw [hsched₁]
  cases hsched : e.sched with
  | noop queue =>
      rw [hsched] at hordered
      exact absurd hordered id
  | deadline d =>
      rw [hsched] at hindexed hordered hnot
      have hindexed₁ : (Sched.deadline d).Indexed e₁.reqs :=
        hindexed.congr fun i hi => cmd_of_core (hother i (hnot i hi))
      have hsorted : (d.sortList (e₁.reqs e.nextReq).cmd).toList.Pairwise fun i j =>
          (e₁.reqs i).off < (e₁.reqs j).off := by
        refine (hordered _).1.imp_of_mem fun {i j} hi hj hij => ?_
        rw [off_of_core (hother i (hnot i ((mem_sortList hindexed).mp hi).1)),
          off_of_core (hother j (hnot j ((mem_sortList hindexed).mp hj).1))]
        exact hij (fun h => nomatch h) (fun h => nomatch h)
      refine ((exists_bind_ok fun _ => ⟨_, rfl⟩).trans
        (deadlineAddRqRb_ok_iff (e := { e₁ with
          sched := .deadline d, last := if e₁.last = none then some e.nextReq else e₁.last })
          (hindexed _).1 hsorted)).trans ?_
      dsimp only
      refine forall_congr' fun i => ?_
      rw [mem_sortList hindexed₁, hself.1, hself.2, and_imp]
      refine imp_congr_right fun hmem => ?_
      rw [cmd_of_core (hother i (hnot i hmem)), off_of_core (hother i (hnot i hmem))]
      exact ⟨fun h _ => h, fun h => h fun h => nomatch h⟩

/-! ### The way out -/

/-- `Dispatch` does not abort. -/
theorem dispatch_ok (hwf : WF e) : ∃ r, e.dispatch = .ok r := by
  unfold dispatch
  have hindexed := hwf.indexed
  cases hsched : e.sched with
  | noop queue =>
      cases queue with
      | nil => exact ⟨_, rfl⟩
      | cons rq rest => exact ⟨_, rfl⟩
  | deadline d =>
      rw [hsched] at hindexed
      dsimp only
      split
      · exact ⟨_, rfl⟩
      · rename_i hne
        obtain ⟨rw, hrw⟩ : ∃ rw, rw = if d.fifoList .write ≠ [] then Cmd.write else Cmd.read :=
          ⟨_, rfl⟩
        have hfifo : d.fifoList rw ≠ [] := by
          split at hrw
          · rename_i hwrite
            rw [hrw]
            exact hwrite
          · rename_i hwrite
            rw [hrw]
            exact fun hread => hne ⟨hread, not_not.mp hwrite⟩
        rw [← hrw]
        cases hfirst : Rbtree.rbFirst (d.sortList rw) with
        | none =>
            have hperm := (hindexed rw).2.1
            rw [Rbtree.rbFirst_none hfirst] at hperm
            exact absurd hperm.nil_eq.symm hfifo
        | some node =>
            obtain ⟨htree, -⟩ := Rbtree.rbFirst_some hfirst
            have hmem : node.entry ∈ (Sched.deadline d).members := by
              refine Sched.mem_deadline.mpr ⟨rw, (hindexed rw).2.1.mem_iff.mp ?_⟩
              rw [← htree, Pos.toList_tree]
              simp
            dsimp only
            rw [exists_bind_ok fun _ => ⟨_, rfl⟩]
            unfold deadlineMoveRequest
            dsimp only
            rw [exists_bind_ok fun _ => ⟨_, rfl⟩]
            exact deadlineRemoveRequest_ok (d := { d with nextRq := _ }) hindexed hmem

/-- Neither does `Dequeue`. -/
theorem dequeue_ok (hwf : WF e) : ∃ r, e.dequeue = .ok r := by
  unfold dequeue elvNextRequest
  rw [hwf.queue]
  dsimp only
  obtain ⟨o, hdispatch⟩ := dispatch_ok hwf
  rw [hdispatch, ok_bind]
  rcases dispatch_spec hdispatch hwf with ⟨rfl, -⟩ | ⟨rq, e₁, rfl, hqueue, -⟩
  · exact ⟨_, rfl⟩
  · dsimp only
    rw [hqueue]
    exact ⟨_, rfl⟩

end Elevator

namespace Disk

open Elevator

variable {d d' : Disk} {p : Params} {rq : Nat} {req : Submitted}

/-- The loop of `Request` does not abort when the thread of an idle disk is not in the run queue. -/
theorem requestLoop_ok {k : Nat} (hwf : WF d.elv) (hk : d.elv.sched.members.length < k)
    (hidle : d.diskState = .idle → d.run = false) : ∃ d', requestLoop k d = .ok d' := by
  induction k generalizing d with
  | zero => exact absurd hk (Nat.not_lt_zero _)
  | succ k ih =>
      unfold requestLoop
      obtain ⟨r, hdequeue⟩ := dequeue_ok hwf
      rw [hdequeue, ok_bind]
      rcases dequeue_spec hdequeue hwf with ⟨rfl, -⟩ | ⟨rq, hrq, hwf', htaken, -⟩
      · exact ⟨_, rfl⟩
      · rw [hrq]
        dsimp only
        have hsubmit : ∃ d₁, { d with elv := r.2 }.submitRq rq = .ok d₁ := by
          unfold submitRq
          dsimp only
          split
          · rename_i hstate
            rw [check_true (hidle hstate)]
            exact ⟨_, rfl⟩
          · exact ⟨_, rfl⟩
        obtain ⟨d₁, hsubmit⟩ := hsubmit
        rw [hsubmit, ok_bind]
        have hd₁ : d₁ = d.ready r.2 [rq] := submitRq_spec hsubmit
        subst hd₁
        refine ih hwf' ?_ ?_
        · show r.2.sched.members.length < k
          have hlen := List.length_erase_of_mem htaken.mem
          have hpos := List.length_pos_of_mem htaken.mem
          rw [htaken.members]
          omega
        · intro hstate
          have hstate : (if [rq] ≠ [] ∧ d.diskState = .idle then DiskState.work
              else d.diskState) = .idle := hstate
          split at hstate
          · cases hstate
          · rename_i hno
            exact absurd ⟨List.cons_ne_nil _ _, hstate⟩ hno

/-- `Unplug` does not abort then. -/
theorem unplug_ok (hwf : WF d.elv) (hidle : d.diskState = .idle → d.run = false) :
    ∃ d', d.unplug = .ok d' := by
  unfold unplug
  split
  · exact requestLoop_ok hwf (by rw [size_eq hwf]; exact Nat.lt_succ_self _) hidle
  · exact ⟨_, rfl⟩

/-- `Plug` aborts when the disk is to be plugged for no time. -/
theorem plug_ok_iff (htimer : d.pluged = false → d.timer = none) :
    (∃ d', d.plug p = .ok d') ↔ (d.pluged = true ∨ 0 < p.delay) := by
  unfold plug
  split
  · rename_i hplug
    exact iff_of_true ⟨_, rfl⟩ (.inl hplug)
  · rename_i hplug
    rw [htimer (by simpa using hplug)]
    unfold Timer.modTimer
    rw [if_neg (by simp)]
    by_cases hdelay : 0 < p.delay
    · rw [if_pos (by omega)]
      exact iff_of_true ⟨_, rfl⟩ (.inr hdelay)
    · rw [if_neg (by omega)]
      exact iff_of_false (fun h => nomatch h.choose_spec) fun h => h.elim hplug hdelay

/-- An ioreq gets a request of its own exactly when its offset is free and the disk can be plugged.
-/
theorem enqueueNew_ok_iff (hwf : WF d.elv) (hi : Indexing p none none d.elv)
    (hidle : d.diskState = .idle → d.run = false) (htimer : d.pluged = false → d.timer = none) :
    (∃ d', d.enqueueNew p req = .ok d') ↔
      Vacant d.elv req.cmd req.off none ∧
        (d.elv.sched.members = [] → d.pluged = true ∨ 0 < p.delay) := by
  have hempty : (d.elv.newRequest req).elvQueueEmpty = true ↔ d.elv.sched.members = [] := by
    rw [← elvQueueEmpty_iff hwf]
    exact Iff.rfl
  have hplug : (∃ d₁, (if (d.elv.newRequest req).elvQueueEmpty then
        { d with elv := d.elv.newRequest req }.plug p
      else .ok { d with elv := d.elv.newRequest req }) = .ok d₁) ↔
      (d.elv.sched.members = [] → d.pluged = true ∨ 0 < p.delay) := by
    split
    · rename_i hmembers
      refine (plug_ok_iff (d := { d with elv := d.elv.newRequest req }) htimer).trans ?_
      exact ⟨fun h _ => h, fun h => h (hempty.mp hmembers)⟩
    · rename_i hmembers
      exact iff_of_true ⟨_, rfl⟩ fun h => absurd (hempty.mpr h) hmembers
  have hadd := @elvAddRequest_ok_iff _ p req hwf hi
  unfold enqueueNew
  dsimp only
  constructor
  · rintro ⟨d', h⟩
    obtain ⟨d₁, hplugged, h⟩ := bind_eq_ok.mp h
    have hd₁ := plugs_spec (e := d.elv.newRequest req) hwf rfl rfl hplugged
    subst hd₁
    obtain ⟨e₁, hadded, -⟩ := bind_eq_ok.mp h
    exact ⟨hadd.mp ⟨e₁, hadded⟩, hplug.mp ⟨_, hplugged⟩⟩
  · rintro ⟨hvacant, hdelay⟩
    obtain ⟨d₁, hplugged⟩ := hplug.mpr hdelay
    rw [hplugged, ok_bind]
    have hd₁ := plugs_spec (e := d.elv.newRequest req) hwf rfl rfl hplugged
    subst hd₁
    obtain ⟨e₁, hadded⟩ := hadd.mpr hvacant
    rw [hadded, ok_bind]
    split
    · exact unplug_ok (d := { d with elv := e₁, pluged := _, timer := _ })
        (elvAddRequest_spec hwf hadded).1 hidle
    · exact ⟨_, rfl⟩

/-- Every request has an ioreq. The thread of a disk is not in the run queue while the disk is idle
or inside `EndRequest`, and the timer is not armed while the disk is not plugged. -/
structure Calm (d : Disk) : Prop where
  loaded : Loaded d.elv
  idle : d.diskState = .idle → d.run = false
  ending : d.ending = true → d.run = false
  timer : d.pluged = false → d.timer = none

/-- The disk can serve the ioreq: what gets a request of its own, and what moves the front of a
request, finds its offset free, and a disk that is to be plugged has a delay for that. -/
structure Accepts (d : Disk) (p : Params) (req : Ioreq) : Prop where
  vacant : Alone d.elv p req → Vacant d.elv req.cmd req.off none
  delay : Alone d.elv p req → d.elv.sched.members = [] → d.pluged = true ∨ 0 < p.delay
  front : FrontFree d.elv p req

/-- `Enqueue` does not abort exactly when the disk can serve the ioreq. -/
theorem submitIoreq_ok_iff {r : Ioreq} (hwf : WF d.elv) (hi : Indexing p none none d.elv)
    (hc : Calm d) : (∃ d', d.submitIoreq p r = .ok d') ↔ Accepts d p r := by
  have hmerges := @mergeIoreq_ok_iff _ p ⟨r, d.nextSerial⟩ hwf hc.loaded hi
  unfold submitIoreq
  dsimp only
  constructor
  · rintro ⟨d', h⟩
    obtain ⟨m, hmerge, h⟩ := bind_eq_ok.mp h
    have hfront := hmerges.mp ⟨m, hmerge⟩
    have halone := mergeIoreq_alone hmerge
    obtain ⟨hwf₀, hcase⟩ := mergeIoreq_spec hmerge hwf
    have hi₀ := mergeIoreq_indexing hmerge hwf hi
    split at h
    · rename_i hyes
      have hnot : ¬ Alone d.elv p r := fun ha => by rw [halone.mpr ha] at hyes; exact nomatch hyes
      exact ⟨fun ha => absurd ha hnot, fun ha => absurd ha hnot, hfront⟩
    · rename_i hno
      obtain ⟨-, hsame⟩ := hcase.resolve_right fun hyes => hno hyes.1
      obtain ⟨hvacant, hdelay⟩ := (enqueueNew_ok_iff (d := { d with nextSerial := _, elv := m.2 })
        hwf₀ hi₀ hc.idle hc.timer).mp ⟨d', h⟩
      refine ⟨fun _ => hsame.vacant.mp hvacant, fun _ hempty => hdelay ?_, hfront⟩
      have hperm := hsame.members
      rw [hempty] at hperm
      exact hperm.eq_nil
  · intro ha
    obtain ⟨m, hmerge⟩ := hmerges.mpr ha.front
    have halone := mergeIoreq_alone hmerge
    obtain ⟨hwf₀, hcase⟩ := mergeIoreq_spec hmerge hwf
    have hi₀ := mergeIoreq_indexing hmerge hwf hi
    rw [hmerge, ok_bind]
    split
    · exact ⟨_, rfl⟩
    · rename_i hno
      obtain ⟨-, hsame⟩ := hcase.resolve_right fun hyes => hno hyes.1
      have hyes := halone.mp (by simpa using hno)
      refine (enqueueNew_ok_iff (d := { d with nextSerial := _, elv := m.2 })
        hwf₀ hi₀ hc.idle hc.timer).mpr ⟨hsame.vacant.mpr (ha.vacant hyes), fun hempty => ?_⟩
      refine ha.delay hyes ?_
      have hperm := hsame.members
      rw [hempty] at hperm
      exact hperm.symm.eq_nil

/-! ### Runs -/

/-- The batch is part of the core. -/
theorem batch_of_core {r : Request} {c : Cmd × Nat × Nat × List Submitted} (h : r.core = c) :
    r.batch = c.2.2.2 :=
  congrArg (fun c => c.2.2.2) h

/-- What is left in the elevator has its ioreqs still. -/
theorem loaded_handed {e e' : Elevator} {l : List Nat} (h : Loaded e) (hhanded : Handed e e' l) :
    Loaded e' := by
  intro i hi
  rw [batch_of_core (hhanded.core i)]
  exact h i (hhanded.members.mem_iff.mp (List.mem_append_right l hi))

/-- A request that an ioreq joined has an ioreq. -/
theorem joins_batch_ne {e : Elevator} {c : Cmd × Nat × Nat × List Submitted}
    (h : Joins e p req rq c) : c.2.2.2 ≠ [] := by
  cases h with
  | back => simp
  | front => simp

/-- An ioreq that joins a request leaves every request with an ioreq. -/
theorem loaded_joins {e e' : Elevator} {r₁ : Request} (hwf : WF e) (h : Loaded e)
    (hjoin : Joins e p req rq r₁.core)
    (hresult : Unmoved (e.setReq rq r₁) e' ∨ ∃ a b, Absorbed (e.setReq rq r₁) e' a b) :
    Loaded e' := by
  have h₁ : Loaded (e.setReq rq r₁) := h.setReq (joins_batch_ne hjoin)
  rcases hresult with hsame | ⟨a, b, habs⟩
  · intro i hi
    rw [batch_of_core (hsame.core i)]
    exact h₁ i (hsame.members.mem_iff.mp hi)
  · intro i hi
    obtain ⟨hib, hmem⟩ := hwf.nodup.mem_erase_iff.mp (habs.members.mem_iff.mp hi)
    by_cases hia : i = a
    · rw [hia, batch_of_core habs.job]
      exact List.append_ne_nil_of_left_ne_nil (h₁ a habs.mem_left) _
    · rw [batch_of_core (habs.rest i hia hib)]
      exact h₁ i hmem

/-- Handing requests to the disk keeps it calm. -/
theorem calm_ready {e : Elevator} {l : List Nat} (hidle : d.diskState = .idle → d.run = false)
    (hrun : d.ending = true → d.run = false) (htimer : d.pluged = false → d.timer = none)
    (hending : d.ending = true → d.diskState = .reqFinished) (hloaded : Loaded e) :
    Calm (d.ready e l) := by
  refine ⟨hloaded, fun hstate => ?_, fun hend => ?_, htimer⟩
  · have hstate : (if l ≠ [] ∧ d.diskState = .idle then DiskState.work else d.diskState) = .idle :=
      hstate
    show (if l ≠ [] ∧ d.diskState = .idle then true else d.run) = false
    split at hstate
    · exact nomatch hstate
    · rename_i hno
      rw [if_neg hno]
      exact hidle hstate
  · show (if l ≠ [] ∧ d.diskState = .idle then true else d.run) = false
    rw [if_neg fun h => by rw [hending hend] at h; exact nomatch h.2]
    exact hrun hend

/-- The disk thread is off the run queue, or serves the next request. -/
theorem Calm.workState (h : d.workState = .ok d') (hloaded : Loaded d.elv) (hrun : d.run = false)
    (hending : d.ending = false) (htimer : d.pluged = false → d.timer = none) : Calm d' := by
  unfold Disk.workState at h
  split at h
  · cases h
    exact ⟨hloaded, fun _ => hrun, fun _ => hrun, htimer⟩
  · obtain ⟨u, -, h⟩ := bind_eq_ok.mp h
    cases h
    refine ⟨hloaded, fun h => (nomatch h), fun h => ?_, htimer⟩
    rw [show d.ending = true from h] at hending
    exact nomatch hending

/-- Submitting an ioreq keeps the disk calm. -/
theorem Calm.submit {r : Ioreq} (h : d.submitIoreq p r = .ok d') (hs : Sound d) (hc : Calm d) :
    Calm d' := by
  rcases submitIoreq_spec h hs.wf with
    ⟨rq, r₁, e, rfl, -, -, hjoin, hresult⟩ | ⟨e₀, hwf₀, hsame, hnew⟩
  · exact ⟨loaded_joins hs.wf hc.loaded hjoin hresult, hc.idle, hc.ending, hc.timer⟩
  · obtain ⟨b, t, e₁, e, l, rfl, -, hadded, hhanded, hcase⟩ := enqueueNew_spec hnew hwf₀
    have hloaded₁ : Loaded e₁ := by
      intro i hi
      by_cases hnew : i = e₀.nextReq
      · rw [hnew, batch_of_core hadded.job]
        exact List.cons_ne_nil _ _
      · have hmem := (List.mem_cons.mp (hadded.members.mem_iff.mp hi)).resolve_left hnew
        rw [batch_of_core ((hadded.rest i hnew).trans (hsame.core i))]
        exact hc.loaded i (hsame.members.mem_iff.mp hmem)
    have htimer : b = false → t = none := by
      rcases hcase with ⟨hplugs, -⟩ | ⟨hplugs, -⟩
      · unfold plugs at hplugs
        split at hplugs
        · cases hplugs
          exact fun h => nomatch h
        · cases hplugs
          exact hc.timer
      · cases hplugs
        exact fun _ => rfl
    exact calm_ready (d := { d with elv := e₀, nextSerial := _, pluged := b, timer := t })
      hc.idle hc.ending htimer hs.ending (loaded_handed hloaded₁ hhanded)

/-- Every step keeps the disk calm. -/
theorem Calm.step {ev : Event} (h : Step p d ev d') (hs : Sound d) (hc : Calm d) : Calm d' := by
  cases h with
  | clock => exact ⟨hc.loaded, hc.idle, hc.ending, hc.timer⟩
  | submit hsubmit => exact hc.submit hsubmit hs
  | timer _ _ hunplug =>
      rcases unplug_spec hunplug hs.wf with ⟨-, rfl⟩ | ⟨-, e, l, rfl, -, -, hhanded⟩
      · exact ⟨hc.loaded, hc.idle, hc.ending, fun _ => rfl⟩
      · exact calm_ready (d := { d with timer := none, pluged := false })
          hc.idle hc.ending (fun _ => rfl) hs.ending (loaded_handed hc.loaded hhanded)
  | thread hend _ hmachine =>
      unfold diskStateMachine at hmachine
      split at hmachine
      · exact Calm.workState hmachine hc.loaded rfl hend hc.timer
      · split at hmachine
        · cases hmachine
        · cases hmachine
          exact ⟨hc.loaded, fun _ => rfl, fun _ => rfl, hc.timer⟩
      · cases hmachine
        exact ⟨hc.loaded, fun _ => rfl, fun _ => rfl, hc.timer⟩
  | @complete rq _ _ hend hcur _ =>
      refine ⟨fun i hi => ?_, hc.idle, hc.ending, hc.timer⟩
      -- the current request is no member
      have hne : i ≠ rq := by
        rintro rfl
        have hnodup := hs.nodup
        unfold live current at hnodup
        rw [if_pos (hs.ending hend), hcur] at hnodup
        exact (List.nodup_append.mp hnodup).2.2 i (List.mem_append_left _ hi) i
          (List.mem_singleton.mpr rfl) rfl
      show ((d.elv.setReq rq _).reqs i).batch ≠ []
      rw [reqs_setReq_ne _ _ hne]
      exact hc.loaded i hi
  | endRequest hend _ _ hfinish =>
      unfold Disk.endRequest at hfinish
      obtain ⟨e, hput, hfinish⟩ := bind_eq_ok.mp hfinish
      obtain ⟨-, hsched, hreqs, -⟩ := putRequest_spec hput hs.wf
      have hloaded : Loaded e := by
        intro i hi
        rw [hreqs]
        exact hc.loaded i (by rw [← hsched]; exact hi)
      dsimp only at hfinish
      split at hfinish
      · cases hfinish
        exact ⟨hloaded, fun _ => hc.ending hend, fun h => (nomatch h), hc.timer⟩
      · exact Calm.workState hfinish hloaded (hc.ending hend) rfl hc.timer
  | dequeue hdequeue hsubmit =>
      have hd' := submitRq_spec hsubmit
      subst hd'
      rcases dequeue_spec hdequeue hs.wf with ⟨hnone, -⟩ | ⟨rq', -, -, htaken, -⟩
      · cases hnone
      · exact calm_ready (d := { d with elv := _ }) hc.idle hc.ending hc.timer hs.ending
          (loaded_handed hc.loaded (.cons htaken (.refl _)))

/-- A disk with a deadline elevator is calm in every state of every run. -/
theorem run_calm {evs : List Event} (hrun : Run (Step p) (start .startDeadline) evs d) :
    Sound d ∧ Indexing p none none d.elv ∧ Calm d := by
  refine hrun.invariant (P := fun d => Sound d ∧ Indexing p none none d.elv ∧ Calm d)
    (fun _ _ _ h hstep =>
      ⟨(step_effect hstep h.1).1, hstep.indexing h.1 h.2.1, h.2.2.step hstep h.1⟩)
    ⟨(sound_start (.inr rfl)).1, indexing_start, fun i hi => ?_, fun _ => rfl, fun h => (nomatch h),
      fun _ => rfl⟩
  have hi : i ∈ (Elevator.start .startDeadline).sched.members := hi
  rw [(wf_start (.inr rfl)).2] at hi
  exact absurd hi List.not_mem_nil

/-- **Which ioreqs are accepted.** In every state of every run of a disk with a deadline elevator,
`Enqueue` aborts for exactly the ioreqs that the disk cannot serve: no request of the direction may
start where the new request would, or where the front of a request would move to. -/
theorem accepted_iff {evs : List Event} (hrun : Run (Step p) (start .startDeadline) evs d)
    (r : Ioreq) : (∃ d', d.submitIoreq p r = .ok d') ↔ Accepts d p r := by
  obtain ⟨hs, hi, hc⟩ := run_calm hrun
  exact submitIoreq_ok_iff hs.wf hi hc

/-- The ioreq behind the first one is accepted. -/
theorem accepted_behind :
    ∃ d, Run (Step ⟨2 ^ 20, 4, fun off => off % 64, 3⟩) (start .startDeadline)
        [.submit ⟨.read, 0, 0, 0, 4096⟩] d ∧
      Accepts d ⟨2 ^ 20, 4, fun off => off % 64, 3⟩ ⟨.read, 0, 0, 4096, 4096⟩ := by
  obtain ⟨d, hrun, d', hsubmit⟩ : ∃ d, Run (Step ⟨2 ^ 20, 4, fun off => off % 64, 3⟩)
      (start .startDeadline) [.submit ⟨.read, 0, 0, 0, 4096⟩] d ∧
      ∃ d', d.submitIoreq ⟨2 ^ 20, 4, fun off => off % 64, 3⟩ ⟨.read, 0, 0, 4096, 4096⟩ = .ok d' :=
    ⟨_, .cons (.submit rfl) (.nil _), _, rfl⟩
  exact ⟨d, hrun, (accepted_iff hrun _).mp ⟨d', hsubmit⟩⟩

/-- The first ioreq again is not: the tree has its offset. -/
theorem accepted_again :
    ¬ ∀ (p : Params) (evs : List Event) (d : Disk) (r : Ioreq), 0 < p.delay → 0 < r.count →
      (∀ r', .submit r' ∈ evs → 0 < r'.count) → Run (Step p) (start .startDeadline) evs d →
      ∃ d', d.submitIoreq p r = .ok d' := by
  intro hall
  obtain ⟨d, hrun, herror⟩ : ∃ d, Run (Step ⟨2 ^ 20, 4, fun off => off % 64, 3⟩)
      (start .startDeadline) [.submit ⟨.read, 0, 0, 0, 4096⟩] d ∧
      d.submitIoreq ⟨2 ^ 20, 4, fun off => off % 64, 3⟩ ⟨.read, 0, 0, 0, 4096⟩ = .error .alias :=
    ⟨_, .cons (.submit rfl) (.nil _), rfl⟩
  obtain ⟨d', h⟩ := hall _ _ d ⟨.read, 0, 0, 0, 4096⟩ (by decide) (by decide)
    (fun r' h => by cases List.mem_singleton.mp h; decide) hrun
  rw [herror] at h
  cases h

end Disk

end LustreSimulator
