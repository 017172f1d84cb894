import LustreSimulator.Elevator
import LustreSimulator.Proofs.Rbtree

/-!
# `LustreSimulator.Proofs.Elevator`: what the elevators do to their requests

The requests of an elevator are its `Sched.members`. `WF` says that the structures which refer
to them agree: the hash and `last` hold only members, every member is on the hash, and in the
deadline elevator the sorted tree of a direction holds the requests of its FIFO list.

Every function of the elevator then has one lemma, for the runs of it that do not abort.
`mergeIoreq_spec` describes the ways an ioreq joins a request, `elvAddRequest_spec` a new
request and `dequeue_spec` the way out. None of them knows which elevator it is. That is hidden
in `removeRequest_spec`, `resortRequest_spec`, `addRequest_spec`, `dispatch_spec` and
`neighbour_spec`, one for each virtual function.
-/

set_option autoImplicit false

namespace LustreSimulator

open Lib

/-- The requests that are queued in the elevator. -/
def Sched.members : Sched → List Nat
  | .noop queue => queue
  | .deadline d => d.fifoList .read ++ d.fifoList .write

/-- The tree of each direction is a red-black tree of the requests in its FIFO list, and these
have that direction. -/
def Sched.Indexed (reqs : Nat → Request) : Sched → Prop
  | .noop _ => True
  | .deadline d => ∀ cmd, IsRedBlack (d.sortList cmd) ∧
      (d.sortList cmd).toList.Perm (d.fifoList cmd) ∧ ∀ rq ∈ d.fifoList cmd, (reqs rq).cmd = cmd

/-- What merging is about: a request without its flags and its place in the hash. -/
def Request.core (r : Request) : Cmd × Nat × Nat × List Submitted :=
  (r.cmd, r.off, r.count, r.batch)

/-- The members of a direction. -/
theorem Sched.mem_deadline {d : Deadline} {rq : Nat} :
    rq ∈ (Sched.deadline d).members ↔ ∃ cmd, rq ∈ d.fifoList cmd := by
  constructor
  · intro h
    rcases List.mem_append.mp h with h | h
    · exact ⟨.read, h⟩
    · exact ⟨.write, h⟩
  · rintro ⟨cmd, h⟩
    cases cmd with
    | read => exact List.mem_append_left _ h
    | write => exact List.mem_append_right _ h

/-- The trees depend on the directions of the members only. -/
theorem Sched.Indexed.congr {reqs reqs' : Nat → Request} {s : Sched} (h : s.Indexed reqs)
    (hcmd : ∀ rq ∈ s.members, (reqs' rq).cmd = (reqs rq).cmd) : s.Indexed reqs' := by
  cases s with
  | noop => trivial
  | deadline d =>
      intro cmd
      obtain ⟨hrb, hperm, hown⟩ := h cmd
      refine ⟨hrb, hperm, fun rq hrq => ?_⟩
      rw [hcmd rq (Sched.mem_deadline.mpr ⟨cmd, hrq⟩)]
      exact hown rq hrq

namespace Elevator

variable {e e' : Elevator} {p : Params} {rq next : Nat}

/-! ### The trees -/

/-- `elv_rb_del` takes the request out of its place in the tree. -/
theorem rbDel_split {t t' : RbTree Nat} (h : rbDel t rq = .ok t') (ht : IsRedBlack t) :
    IsRedBlack t' ∧ ∃ l m, t.toList = l ++ rq :: m ∧ t'.toList = l ++ m := by
  unfold rbDel rbNode at h
  split at h
  · cases h
  · rename_i pos hpos
    obtain ⟨htree, hentry⟩ := findPos_some hpos
    rw [zip_nil] at htree
    have hentry : pos.entry = rq := of_decide_eq_true hentry
    obtain ⟨t₁, herase, hrb, hlist⟩ := Rbtree.rbErase_spec pos (htree ▸ ht)
    rw [herase] at h
    cases h
    refine ⟨hrb, pos.prefixList, pos.suffixList, ?_, hlist⟩
    rw [← htree, Pos.toList_tree, hentry]

/-- `elv_rb_del` removes the request from the tree. -/
theorem rbDel_spec {t t' : RbTree Nat} (h : rbDel t rq = .ok t') (ht : IsRedBlack t) :
    IsRedBlack t' ∧ (rq :: t'.toList).Perm t.toList := by
  obtain ⟨hrb, l, m, hlist, hlist'⟩ := rbDel_split h ht
  rw [hlist, hlist']
  exact ⟨hrb, List.perm_middle.symm⟩

/-- The comparison with an offset splits the requests of a tree that is in order. -/
theorem compareOff_splits {off : Nat} {l : List Nat}
    (h : l.Pairwise fun i j => (e.reqs i).off < (e.reqs j).off) :
    Rbtree.Splits (e.compareOff off) l := by
  refine h.imp fun {i j} hij hi => ?_
  unfold compareOff at hi ⊢
  split at hi
  · rw [if_pos (by omega)]
    decide
  · split at hi
    · exact absurd hi (by decide)
    · rw [if_pos (by omega)]
      decide

/-- `elv_rb_add` puts the request at a place in the tree, unless the tree has its offset already.
When the tree is in order, it is in order at that place. -/
theorem rbAdd_split {t : RbTree Nat} {r : Option Nat × RbTree Nat} (h : e.rbAdd t rq = .ok r)
    (hnone : r.1 = none) (ht : IsRedBlack t) :
    IsRedBlack r.2 ∧ ∃ l m, t.toList = l ++ m ∧ r.2.toList = l ++ rq :: m ∧
      ((t.toList.Pairwise fun i j => (e.reqs i).off < (e.reqs j).off) →
        (∀ i ∈ l, (e.reqs i).off < (e.reqs rq).off) ∧
          ∀ i ∈ m, (e.reqs rq).off < (e.reqs i).off) := by
  unfold rbAdd at h
  dsimp only at h
  have hzip := Rbtree.descend_zip_root (e.compareOff (e.reqs rq).off) t 1
  split at h
  · cases h
    cases hnone
  · rename_i hfocus
    rw [hfocus] at hzip
    obtain ⟨t', hlink, hrb, hlist⟩ := Rbtree.rbLink_spec rq ht hzip
    rw [hlink] at h
    cases h
    refine ⟨hrb, _, _, ?_, hlist, fun hsorted => ?_⟩
    · generalize (Rbtree.descend (e.compareOff (e.reqs rq).off) t [] 1).path = path at hzip
      rw [← hzip, toList_zip, RbTree.toList_nil, List.append_nil]
    · obtain ⟨hl, hm⟩ := Rbtree.descend_split (e.compareOff (e.reqs rq).off) t [] 1
        (compareOff_splits hsorted) (fun _ hx => nomatch hx) (fun _ hx => nomatch hx)
      constructor
      · intro i hi
        have := hl i hi
        unfold compareOff at this
        split at this
        · exact absurd this (by decide)
        · split at this
          · assumption
          · exact absurd this (by decide)
      · intro i hi
        have := hm i hi
        unfold compareOff at this
        split at this
        · assumption
        · split at this
          · exact absurd this (by decide)
          · exact absurd this (by decide)

/-- `elv_rb_add` adds the request to the tree, unless the tree has its offset already. -/
theorem rbAdd_spec {t : RbTree Nat} {r : Option Nat × RbTree Nat} (h : e.rbAdd t rq = .ok r)
    (hnone : r.1 = none) (ht : IsRedBlack t) :
    IsRedBlack r.2 ∧ (r.2.toList).Perm (rq :: t.toList) := by
  obtain ⟨hrb, l, m, hlist, hlist', -⟩ := rbAdd_split h hnone ht
  rw [hlist, hlist']
  exact ⟨hrb, List.perm_middle⟩

/-- The next request of a tree is another request of the tree. -/
theorem rbNextRq_mem {t : RbTree Nat} (h : rbNextRq t rq = some next) (hnodup : t.toList.Nodup) :
    next ∈ t.toList ∧ next ≠ rq := by
  unfold rbNextRq rbNode at h
  obtain ⟨q, hq, rfl⟩ := Option.map_eq_some_iff.mp h
  obtain ⟨pos, hpos, hnext⟩ := Option.bind_eq_some_iff.mp hq
  obtain ⟨htree, hentry⟩ := findPos_some hpos
  rw [zip_nil] at htree
  have hentry : pos.entry = rq := of_decide_eq_true hentry
  obtain ⟨-, -, hsuffix⟩ := Rbtree.rbNext_some hnext
  rw [← htree, Pos.toList_tree, hentry, hsuffix] at hnodup ⊢
  refine ⟨by simp, ?_⟩
  rintro heq
  have := (List.nodup_append.mp hnodup).2.1
  rw [heq] at this
  simp at this

/-- The previous request of a tree is another request of the tree. -/
theorem rbPrevRq_mem {t : RbTree Nat} (h : rbPrevRq t rq = some next) (hnodup : t.toList.Nodup) :
    next ∈ t.toList ∧ next ≠ rq := by
  unfold rbPrevRq rbNode at h
  obtain ⟨q, hq, rfl⟩ := Option.map_eq_some_iff.mp h
  obtain ⟨pos, hpos, hprev⟩ := Option.bind_eq_some_iff.mp hq
  obtain ⟨htree, hentry⟩ := findPos_some hpos
  rw [zip_nil] at htree
  have hentry : pos.entry = rq := of_decide_eq_true hentry
  obtain ⟨-, hpre, -⟩ := Rbtree.rbPrev_some hprev
  rw [← htree, Pos.toList_tree, hentry, hpre] at hnodup ⊢
  refine ⟨by simp, ?_⟩
  exact (List.nodup_append.mp hnodup).2.2 _ (by simp) rq (by simp)

/-! ### The virtual functions -/

/-- `deadline_add_rq_rb` puts the request into the tree of its direction. -/
theorem deadlineAddRqRb_spec {d d' : Deadline} (h : e.deadlineAddRqRb d rq = .ok d')
    (ht : IsRedBlack (d.sortList (e.reqs rq).cmd)) :
    d'.fifoList = d.fifoList ∧ IsRedBlack (d'.sortList (e.reqs rq).cmd) ∧
    (d'.sortList (e.reqs rq).cmd).toList.Perm (rq :: (d.sortList (e.reqs rq).cmd).toList) ∧
    ∀ c, c ≠ (e.reqs rq).cmd → d'.sortList c = d.sortList c := by
  unfold deadlineAddRqRb at h
  obtain ⟨r, hadd, h⟩ := bind_eq_ok.mp h
  split at h
  · cases h
  · rename_i hnone
    cases h
    obtain ⟨hrb, hperm⟩ := rbAdd_spec hadd hnone ht
    refine ⟨rfl, ?_, ?_, fun c hc => if_neg hc⟩
    · dsimp only
      rwa [if_pos rfl]
    · dsimp only
      rwa [if_pos rfl]

/-- `deadline_remove_request` takes the request off its FIFO list and its tree. -/
theorem deadlineRemoveRequest_spec {d d' : Deadline} (h : e.deadlineRemoveRequest d rq = .ok d')
    (hindexed : (Sched.deadline d).Indexed e.reqs) (hnodup : (Sched.deadline d).members.Nodup)
    (hmem : rq ∈ (Sched.deadline d).members) :
    (Sched.deadline d').members = (Sched.deadline d).members.erase rq ∧
    (Sched.deadline d').Indexed e.reqs := by
  unfold deadlineRemoveRequest deadlineDelRqRb at h
  dsimp only at h
  obtain ⟨t, hdel, h⟩ := bind_eq_ok.mp h
  cases h
  have hfifo : ∀ c, c ≠ (e.reqs rq).cmd → rq ∉ d.fifoList c := by
    intro c hc hrq
    exact hc ((hindexed c).2.2 rq hrq).symm
  constructor
  · show (d.fifoList .read).erase rq ++ (d.fifoList .write).erase rq =
      (d.fifoList .read ++ d.fifoList .write).erase rq
    rw [List.erase_append]
    split
    · rename_i hread
      have hwrite : rq ∉ d.fifoList .write := by
        intro hwrite
        exact (List.nodup_append.mp hnodup).2.2 rq hread rq hwrite rfl
      rw [List.erase_of_not_mem hwrite]
    · rename_i hread
      rw [List.erase_of_not_mem hread]
  · intro c
    obtain ⟨hrb, hperm, hown⟩ := hindexed c
    have hsub : ∀ i ∈ (d.fifoList c).erase rq, (e.reqs i).cmd = c :=
      fun i hi => hown i (List.mem_of_mem_erase hi)
    by_cases hc : c = (e.reqs rq).cmd
    · subst hc
      obtain ⟨hrb', hperm'⟩ := rbDel_spec hdel hrb
      obtain ⟨c', hc'⟩ := Sched.mem_deadline.mp hmem
      have hrq : rq ∈ d.fifoList (e.reqs rq).cmd := by rwa [(hindexed c').2.2 rq hc']
      refine ⟨?_, ?_, hsub⟩
      · dsimp only
        rwa [if_pos rfl]
      · dsimp only
        rw [if_pos rfl]
        exact ((hperm'.trans hperm).trans (List.perm_cons_erase hrq)).cons_inv
    · refine ⟨?_, ?_, hsub⟩
      · dsimp only
        rwa [if_neg hc]
      · dsimp only
        rw [if_neg hc, List.erase_of_not_mem (hfifo c hc)]
        exact hperm

/-- `ElvMergeRequests` of the subclass removes one member. -/
theorem removeRequest_spec {s : Sched} (h : e.removeRequest rq = .ok s)
    (hindexed : e.sched.Indexed e.reqs) (hnodup : e.sched.members.Nodup)
    (hmem : rq ∈ e.sched.members) :
    s.members = e.sched.members.erase rq ∧ s.Indexed e.reqs := by
  unfold removeRequest at h
  split at h
  · rename_i queue hsched
    cases h
    rw [hsched]
    exact ⟨rfl, trivial⟩
  · rename_i d hsched
    obtain ⟨d', hd, h⟩ := bind_eq_ok.mp h
    cases h
    rw [hsched] at hindexed hnodup hmem ⊢
    exact deadlineRemoveRequest_spec hd hindexed hnodup hmem

/-- `ElvMergedRequest` of the subclass keeps the members. -/
theorem resortRequest_spec {s : Sched} {type : MergeType}
    (h : e.resortRequest rq type = .ok s) (hindexed : e.sched.Indexed e.reqs) :
    s.members = e.sched.members ∧ s.Indexed e.reqs := by
  unfold resortRequest at h
  split at h
  · rename_i queue hsched
    cases h
    rw [hsched]
    exact ⟨rfl, trivial⟩
  · rename_i d hsched
    rw [hsched] at hindexed ⊢
    split at h
    · dsimp only at h
      obtain ⟨t, hdel, h⟩ := bind_eq_ok.mp h
      obtain ⟨d', hadd, h⟩ := bind_eq_ok.mp h
      cases h
      obtain ⟨hrb, hperm, hown⟩ := hindexed (e.reqs rq).cmd
      obtain ⟨hrbT, hpermT⟩ := rbDel_spec hdel hrb
      obtain ⟨hfifo, hrb', hperm', hother⟩ := deadlineAddRqRb_spec hadd
        (by dsimp only; rwa [if_pos rfl])
      dsimp only at hfifo hperm' hother
      rw [if_pos rfl] at hperm'
      refine ⟨?_, ?_⟩
      · show d'.fifoList .read ++ d'.fifoList .write = _
        rw [hfifo]
        rfl
      · intro c
        by_cases hc : c = (e.reqs rq).cmd
        · subst hc
          rw [hfifo]
          exact ⟨hrb', (hperm'.trans hpermT).trans hperm, hown⟩
        · rw [hfifo, hother c hc, if_neg hc]
          exact hindexed c
    · cases h
      exact ⟨rfl, hindexed⟩

/-- `AddRequest` adds one member. -/
theorem addRequest_spec (h : e.addRequest rq = .ok e') (hindexed : e.sched.Indexed e.reqs) :
    ∃ s : Sched, e' = { e with sched := s } ∧ s.members.Perm (rq :: e.sched.members) ∧
      s.Indexed e.reqs := by
  unfold addRequest at h
  split at h
  · rename_i queue hsched
    cases h
    rw [hsched]
    exact ⟨_, rfl, List.perm_append_singleton rq queue, trivial⟩
  · rename_i d hsched
    dsimp only at h
    obtain ⟨d', hadd, h⟩ := bind_eq_ok.mp h
    cases h
    rw [hsched] at hindexed ⊢
    obtain ⟨hrb, hperm, hown⟩ := hindexed (e.reqs rq).cmd
    obtain ⟨hfifo, hrb', hperm', hother⟩ := deadlineAddRqRb_spec hadd hrb
    refine ⟨_, rfl, ?_, ?_⟩
    · -- the request is at the end of one of the two FIFO lists
      show List.Perm
        ((if Cmd.read = (e.reqs rq).cmd then d'.fifoList .read ++ [rq] else d'.fifoList .read) ++
          if Cmd.write = (e.reqs rq).cmd then d'.fifoList .write ++ [rq] else d'.fifoList .write)
        (rq :: (d.fifoList .read ++ d.fifoList .write))
      rw [hfifo]
      cases (e.reqs rq).cmd with
      | read =>
          simp only [if_pos, reduceCtorEq, if_false, List.append_assoc]
          exact List.perm_middle
      | write =>
          simp only [if_pos, reduceCtorEq, if_false, ← List.append_assoc]
          exact List.perm_append_singleton _ _
    · intro c
      dsimp only
      by_cases hc : c = (e.reqs rq).cmd
      · subst hc
        rw [if_pos rfl, hfifo]
        refine ⟨hrb', ?_, ?_⟩
        · exact (hperm'.trans (hperm.cons rq)).trans (List.perm_append_singleton _ _).symm
        · intro i hi
          rcases List.mem_append.mp hi with hi | hi
          · exact hown i hi
          · rw [List.mem_singleton.mp hi]
      · rw [if_neg hc, hfifo, hother c hc]
        exact hindexed c

/-- The request behind `rq` in a list without duplicates is another one of the list. -/
theorem listSuc_mem {l : List Nat} (h : listSuc rq l = some next) (hnodup : l.Nodup) :
    next ∈ l ∧ next ≠ rq := by
  induction l with
  | nil => cases h
  | cons a rest ih =>
      obtain ⟨hnew, hrest⟩ := List.nodup_cons.mp hnodup
      unfold listSuc at h
      split at h
      · rename_i ha
        have hmem := List.mem_of_head? h
        refine ⟨List.mem_cons_of_mem a hmem, ?_⟩
        rintro rfl
        rw [ha] at hnew
        exact hnew hmem
      · obtain ⟨hmem, hne⟩ := ih h hrest
        exact ⟨List.mem_cons_of_mem a hmem, hne⟩

/-- The request in front of `rq` in a list without duplicates is another one of the list. -/
theorem listPred_mem {l : List Nat} (h : listPred rq l = some next) (hnodup : l.Nodup) :
    next ∈ l ∧ next ≠ rq := by
  induction l with
  | nil => cases h
  | cons a rest ih =>
      obtain ⟨hnew, hrest⟩ := List.nodup_cons.mp hnodup
      cases rest with
      | nil => cases h
      | cons b rest =>
          unfold listPred at h
          split at h
          · rename_i hb
            cases h
            refine ⟨List.mem_cons_self, ?_⟩
            rintro rfl
            exact hnew (hb ▸ List.mem_cons_self)
          · obtain ⟨hmem, hne⟩ := ih h hrest
            exact ⟨List.mem_cons_of_mem a hmem, hne⟩

/-- The neighbours of a member are other members. -/
theorem neighbour_spec (hindexed : e.sched.Indexed e.reqs) (hnodup : e.sched.members.Nodup)
    (h : e.elvLatterRequest rq = some next ∨ e.elvFormerRequest rq = some next) :
    next ∈ e.sched.members ∧ next ≠ rq := by
  unfold elvLatterRequest elvFormerRequest at h
  cases hsched : e.sched with
  | noop queue =>
      rw [hsched] at h hnodup
      rcases h with h | h
      · exact listSuc_mem h hnodup
      · exact listPred_mem h hnodup
  | deadline d =>
      rw [hsched] at h hnodup hindexed
      obtain ⟨-, hperm, -⟩ := hindexed (e.reqs rq).cmd
      have hfifo : (d.fifoList (e.reqs rq).cmd).Nodup := by
        cases (e.reqs rq).cmd with
        | read => exact (List.nodup_append.mp hnodup).1
        | write => exact (List.nodup_append.mp hnodup).2.1
      have htree : (d.sortList (e.reqs rq).cmd).toList.Nodup := hperm.nodup_iff.mpr hfifo
      have hmem : next ∈ (d.sortList (e.reqs rq).cmd).toList ∧ next ≠ rq := by
        rcases h with h | h
        · exact rbNextRq_mem h htree
        · exact rbPrevRq_mem h htree
      exact ⟨Sched.mem_deadline.mpr ⟨_, hperm.mem_iff.mp hmem.1⟩, hmem.2⟩

/-! ### The hash -/

/-- Only the hash and the flags of the requests changed. -/
structure Rehashed (e e' : Elevator) : Prop where
  sched : e'.sched = e.sched
  nextReq : e'.nextReq = e.nextReq
  queue : e'.queue = e.queue
  count : e'.count = e.count
  sorted : e'.sorted = e.sorted
  inflight : e'.inflight = e.inflight
  last : e'.last = e.last
  core : ∀ i, (e'.reqs i).core = (e.reqs i).core

/-- Two such changes. -/
theorem Rehashed.trans {e₁ e₂ e₃ : Elevator} (h : Rehashed e₁ e₂) (h' : Rehashed e₂ e₃) :
    Rehashed e₁ e₃ :=
  ⟨h'.sched.trans h.sched, h'.nextReq.trans h.nextReq, h'.queue.trans h.queue,
    h'.count.trans h.count, h'.sorted.trans h.sorted, h'.inflight.trans h.inflight,
    h'.last.trans h.last, fun i => (h'.core i).trans (h.core i)⟩

/-- The request that was put in place. -/
@[simp]
theorem reqs_setReq_self (e : Elevator) (rq : Nat) (r : Request) : (e.setReq rq r).reqs rq = r :=
  if_pos rfl

/-- The other requests stay. -/
@[simp]
theorem reqs_setReq_ne {i : Nat} (e : Elevator) (r : Request) (h : i ≠ rq) :
    (e.setReq rq r).reqs i = e.reqs i :=
  if_neg h

/-- A request whose core stays. -/
theorem core_setReq {r : Request} (hr : r.core = (e.reqs rq).core) (i : Nat) :
    ((e.setReq rq r).reqs i).core = (e.reqs i).core := by
  by_cases hi : i = rq
  · rw [hi, reqs_setReq_self, hr]
  · rw [reqs_setReq_ne e r hi]

/-- `elv_rqhash_del` takes a request that is on the hash off it. -/
theorem rqhashDel_spec (e : Elevator) (rq : Nat) :
    Rehashed e (e.rqhashDel rq) ∧
    (∀ b i, i ∈ (e.rqhashDel rq).hash b → i ∈ e.hash b ∧
      ((e.reqs rq).onHash = true → i ≠ rq)) ∧
    ∀ i, i ≠ rq → ((e.rqhashDel rq).reqs i).onHash = (e.reqs i).onHash := by
  unfold rqhashDel
  split
  · refine ⟨⟨rfl, rfl, rfl, rfl, rfl, rfl, rfl, core_setReq rfl⟩, ?_, ?_⟩
    · intro b i hi
      obtain ⟨hi, hne⟩ := List.mem_filter.mp hi
      exact ⟨hi, fun _ => of_decide_eq_true hne⟩
    · intro i hi
      exact congrArg Request.onHash (reqs_setReq_ne e _ hi)
  · rename_i hoff
    exact ⟨⟨rfl, rfl, rfl, rfl, rfl, rfl, rfl, fun _ => rfl⟩,
      fun b i hi => ⟨hi, fun hon => absurd hon hoff⟩, fun _ _ => rfl⟩

/-- `elv_rqhash_add` puts a request on the hash. -/
theorem rqhashAdd_spec (h : e.rqhashAdd p rq = .ok e') :
    Rehashed e e' ∧ (∀ b i, i ∈ e'.hash b → i = rq ∨ i ∈ e.hash b) ∧
    (e'.reqs rq).onHash = true ∧ ∀ i, i ≠ rq → (e'.reqs i).onHash = (e.reqs i).onHash := by
  unfold rqhashAdd at h
  obtain ⟨u, -, h⟩ := bind_eq_ok.mp h
  cases h
  refine ⟨⟨rfl, rfl, rfl, rfl, rfl, rfl, rfl, core_setReq rfl⟩, ?_, ?_, ?_⟩
  · intro b i hi
    dsimp only at hi
    split at hi
    · rename_i hb
      rw [hb]
      exact List.mem_cons.mp hi
    · exact Or.inr hi
  · exact congrArg Request.onHash (reqs_setReq_self e rq _)
  · intro i hi
    exact congrArg Request.onHash (reqs_setReq_ne e _ hi)

/-- `elv_rqhash_find` finds requests on the hash that end at the offset. -/
theorem rqhashFind_spec {off : Nat} (h : e.rqhashFind p off = some rq) :
    (∃ b, rq ∈ e.hash b) ∧ add64 (e.reqs rq).off (e.reqs rq).count = off := by
  unfold rqhashFind at h
  have hfound := List.find?_some h
  exact ⟨⟨_, List.mem_of_find?_eq_some h⟩, of_decide_eq_true hfound⟩

/-! ### The invariant of the structures -/

/-- The structures of the elevator agree on its members. -/
structure WF (e : Elevator) : Prop where
  nodup : e.sched.members.Nodup
  indexed : e.sched.Indexed e.reqs
  lt : ∀ rq ∈ e.sched.members, rq < e.nextReq
  hash : ∀ b, ∀ rq ∈ e.hash b, rq ∈ e.sched.members
  onHash : ∀ rq ∈ e.sched.members, (e.reqs rq).onHash = true
  last : ∀ rq, e.last = some rq → rq ∈ e.sched.members
  queue : e.queue = []

/-- The direction is part of the core. -/
theorem cmd_of_core {r r' : Request} (h : r'.core = r.core) : r'.cmd = r.cmd :=
  congrArg Prod.fst h

/-- A request may change as long as it keeps its direction and its place in the hash. -/
theorem WF.setReq (h : WF e) {r : Request} (hcmd : r.cmd = (e.reqs rq).cmd)
    (honHash : r.onHash = (e.reqs rq).onHash) : WF (e.setReq rq r) := by
  refine ⟨h.nodup, h.indexed.congr ?_, h.lt, h.hash, ?_, h.last, h.queue⟩
  · intro i _
    by_cases hi : i = rq
    · rw [hi, reqs_setReq_self, hcmd]
    · rw [reqs_setReq_ne e r hi]
  · intro i hmem
    by_cases hi : i = rq
    · subst hi
      rw [reqs_setReq_self, honHash]
      exact h.onHash i hmem
    · rw [reqs_setReq_ne e r hi]
      exact h.onHash i hmem

/-- `elv_rqhash_reposition` leaves the request on the hash. -/
theorem rqhashReposition_spec (h : e.rqhashReposition p rq = .ok e') :
    Rehashed e e' ∧ (∀ b i, i ∈ e'.hash b → i = rq ∨ i ∈ e.hash b) ∧
    (e'.reqs rq).onHash = true ∧ ∀ i, i ≠ rq → (e'.reqs i).onHash = (e.reqs i).onHash := by
  obtain ⟨hdel, hdelMem, hdelOn⟩ := rqhashDel_spec e rq
  obtain ⟨hadd, haddMem, haddOn, haddOther⟩ := rqhashAdd_spec h
  refine ⟨hdel.trans hadd, ?_, haddOn, fun i hi => (haddOther i hi).trans (hdelOn i hi)⟩
  intro b i hi
  exact (haddMem b i hi).imp id fun hi => (hdelMem b i hi).1

/-! ### Merging -/

/-- The members, the requests and the counters stay. -/
structure Unmoved (e e' : Elevator) : Prop where
  members : e'.sched.members.Perm e.sched.members
  core : ∀ i, (e'.reqs i).core = (e.reqs i).core
  nextReq : e'.nextReq = e.nextReq
  count : e'.count = e.count
  inflight : e'.inflight = e.inflight

/-- The member `b` was hung behind the member `a`. -/
structure Absorbed (e e' : Elevator) (a b : Nat) : Prop where
  mem_left : a ∈ e.sched.members
  mem_right : b ∈ e.sched.members
  ne : a ≠ b
  adjacent : add64 (e.reqs a).off (e.reqs a).count = (e.reqs b).off
  cmd : (e.reqs a).cmd = (e.reqs b).cmd
  members : e'.sched.members.Perm (e.sched.members.erase b)
  job : (e'.reqs a).core = ((e.reqs a).cmd, (e.reqs a).off,
    add64 (e.reqs a).count (e.reqs b).count, (e.reqs a).batch ++ (e.reqs b).batch)
  rest : ∀ i, i ≠ a → i ≠ b → (e'.reqs i).core = (e.reqs i).core
  nextReq : e'.nextReq = e.nextReq
  count : ∀ c, e'.count c = if c = (e.reqs b).cmd then e.count c - 1 else e.count c
  inflight : e'.inflight = e.inflight

/-- `ElvMergeRequests(rq, next)` removes `next` from the members. -/
theorem elvMergeRequests_spec (h : e.elvMergeRequests p rq next = .ok e') (hwf : WF e)
    (hrq : rq ∈ e.sched.members) (hnext : next ∈ e.sched.members) (hne : rq ≠ next) :
    WF e' ∧ e'.sched.members = e.sched.members.erase next ∧ e'.nextReq = e.nextReq ∧
    e'.count = e.count ∧ e'.inflight = e.inflight ∧ ∀ i, (e'.reqs i).core = (e.reqs i).core := by
  unfold elvMergeRequests at h
  obtain ⟨s, hs, h⟩ := bind_eq_ok.mp h
  obtain ⟨e₁, hrepo, h⟩ := bind_eq_ok.mp h
  cases h
  obtain ⟨hmembers, hindexed⟩ := removeRequest_spec hs hwf.indexed hwf.nodup hnext
  obtain ⟨hre, hreMem, hreOn, hreOther⟩ := rqhashReposition_spec hrepo
  obtain ⟨hdel, hdelMem, hdelOn⟩ := rqhashDel_spec e₁ next
  have hboth := hre.trans hdel
  have hsched : (e₁.rqhashDel next).sched = s := hboth.sched
  have honNext : (e₁.reqs next).onHash = true := by
    rw [hreOther next hne.symm]
    exact hwf.onHash next hnext
  have hrqMem : rq ∈ s.members := by
    rw [hmembers]
    exact (List.mem_erase_of_ne hne).mpr hrq
  refine ⟨⟨?_, ?_, ?_, ?_, ?_, ?_, ?_⟩, ?_, hboth.nextReq, hboth.count, hboth.inflight,
    hboth.core⟩
  · show (e₁.rqhashDel next).sched.members.Nodup
    rw [hsched, hmembers]
    exact hwf.nodup.erase next
  · show (e₁.rqhashDel next).sched.Indexed (e₁.rqhashDel next).reqs
    rw [hsched]
    exact hindexed.congr fun i _ => cmd_of_core (hboth.core i)
  · intro i hi
    have hi : i ∈ (e₁.rqhashDel next).sched.members := hi
    rw [hsched, hmembers] at hi
    exact lt_of_lt_of_eq (hwf.lt i (List.mem_of_mem_erase hi)) hboth.nextReq.symm
  · intro b i hi
    obtain ⟨hi, hine⟩ := hdelMem b i hi
    show i ∈ (e₁.rqhashDel next).sched.members
    rw [hsched]
    rcases hreMem b i hi with rfl | hi
    · exact hrqMem
    · rw [hmembers]
      exact (List.mem_erase_of_ne (hine honNext)).mpr (hwf.hash b i hi)
  · intro i hi
    have hi : i ∈ (e₁.rqhashDel next).sched.members := hi
    rw [hsched, hmembers] at hi
    have hine : i ≠ next := by
      rintro rfl
      exact ((List.Nodup.mem_erase_iff hwf.nodup).mp hi).1 rfl
    show ((e₁.rqhashDel next).reqs i).onHash = true
    rw [hdelOn i hine]
    by_cases hirq : i = rq
    · rw [hirq]
      exact hreOn
    · rw [hreOther i hirq]
      exact hwf.onHash i (List.mem_of_mem_erase hi)
  · intro i hi
    cases hi
    show rq ∈ (e₁.rqhashDel next).sched.members
    rwa [hsched]
  · exact hboth.queue.trans hwf.queue
  · show (e₁.rqhashDel next).sched.members = _
    rw [hsched, hmembers]

/-- `ElvMergedRequest(rq, type)` keeps the members. -/
theorem elvMergedRequest_spec {type : MergeType} (h : e.elvMergedRequest p rq type = .ok e')
    (hwf : WF e) (hrq : rq ∈ e.sched.members) : WF e' ∧ Unmoved e e' := by
  unfold elvMergedRequest at h
  obtain ⟨s, hs, h⟩ := bind_eq_ok.mp h
  dsimp only at h
  obtain ⟨e₁, hrepo, h⟩ := bind_eq_ok.mp h
  cases h
  obtain ⟨hmembers, hindexed⟩ := resortRequest_spec hs hwf.indexed
  have hre : Rehashed { e with sched := s } e₁ ∧
      (∀ b i, i ∈ e₁.hash b → i = rq ∨ i ∈ e.hash b) ∧
      ∀ i, i ∈ e.sched.members → (e₁.reqs i).onHash = true := by
    split at hrepo
    · obtain ⟨hre, hreMem, hreOn, hreOther⟩ := rqhashReposition_spec hrepo
      refine ⟨hre, hreMem, fun i hi => ?_⟩
      by_cases hirq : i = rq
      · rw [hirq]
        exact hreOn
      · rw [hreOther i hirq]
        exact hwf.onHash i hi
    · cases hrepo
      exact ⟨⟨rfl, rfl, rfl, rfl, rfl, rfl, rfl, fun _ => rfl⟩, fun _ _ hi => Or.inr hi, hwf.onHash⟩
  obtain ⟨hre, hreMem, hreOn⟩ := hre
  have hsched : e₁.sched.members = e.sched.members := by rw [hre.sched, ← hmembers]
  refine ⟨⟨?_, ?_, ?_, ?_, ?_, ?_, ?_⟩, ?_, hre.core, hre.nextReq, hre.count, hre.inflight⟩
  · show e₁.sched.members.Nodup
    rw [hsched]
    exact hwf.nodup
  · show e₁.sched.Indexed e₁.reqs
    rw [hre.sched]
    exact hindexed.congr fun i _ => cmd_of_core (hre.core i)
  · intro i hi
    have hi : i ∈ e₁.sched.members := hi
    rw [hsched] at hi
    exact lt_of_lt_of_eq (hwf.lt i hi) hre.nextReq.symm
  · intro b i hi
    show i ∈ e₁.sched.members
    rw [hsched]
    rcases hreMem b i hi with rfl | hi
    · exact hrq
    · exact hwf.hash b i hi
  · intro i hi
    have hi : i ∈ e₁.sched.members := hi
    rw [hsched] at hi
    exact hreOn i hi
  · intro i hi
    cases hi
    show rq ∈ e₁.sched.members
    rwa [hsched]
  · exact hre.queue.trans hwf.queue
  · show e₁.sched.members.Perm e.sched.members
    rw [hsched]

/-- `AttemptMerge(rq, next)` does nothing, or hangs `next` behind `rq`. -/
theorem attemptMerge_spec {r : Bool × Elevator} (h : e.attemptMerge p rq next = .ok r)
    (hwf : WF e) (hrq : rq ∈ e.sched.members) (hnext : next ∈ e.sched.members)
    (hne : rq ≠ next) :
    (r = (false, e)) ∨ (r.1 = true ∧ WF r.2 ∧ Absorbed e r.2 rq next) := by
  unfold attemptMerge at h
  dsimp only at h
  split at h
  · cases h
    exact Or.inl rfl
  · rename_i hadj
    split at h
    · cases h
      exact Or.inl rfl
    · rename_i hcmd
      split at h
      · cases h
        exact Or.inl rfl
      · obtain ⟨u, -, h⟩ := bind_eq_ok.mp h
        obtain ⟨e₁, hmerge, h⟩ := bind_eq_ok.mp h
        cases h
        right
        have hwf₁ : WF (e.setReq next { e.reqs next with batch := [] }) := hwf.setReq rfl rfl
        have hwf₂ : WF ((e.setReq next { e.reqs next with batch := [] }).setReq rq
            { e.reqs rq with
              count := add64 (e.reqs rq).count (e.reqs next).count
              batch := (e.reqs rq).batch ++ (e.reqs next).batch }) := hwf₁.setReq
          (by rw [reqs_setReq_ne _ _ hne]) (by rw [reqs_setReq_ne _ _ hne])
        obtain ⟨hwf', hmembers, hnextReq, hcount, hinflight, hcore⟩ :=
          elvMergeRequests_spec hmerge hwf₂ hrq hnext hne
        refine ⟨rfl, ⟨hwf'.nodup, hwf'.indexed, hwf'.lt, hwf'.hash, hwf'.onHash, hwf'.last,
          hwf'.queue⟩, hrq, hnext, hne, not_not.mp hadj, not_not.mp hcmd, ?_, ?_, ?_, hnextReq,
          ?_, hinflight⟩
        · show e₁.sched.members.Perm _
          rw [hmembers]
          exact List.Perm.refl _
        · show (e₁.reqs rq).core = _
          rw [hcore rq, reqs_setReq_self]
          rfl
        · intro i hi hi'
          show (e₁.reqs i).core = _
          rw [hcore i, reqs_setReq_ne _ _ hi, reqs_setReq_ne _ _ hi']
        · intro c
          show (if c = (e.reqs next).cmd then e₁.count c + -1 else e₁.count c) = _
          rw [hcount]
          rfl

/-- How the ioreq `req` can join the request `rq`: behind it, when it is `last` or a request of
its direction, or in front of `last`. The third argument is the request afterwards. -/
inductive Joins (e : Elevator) (p : Params) (req : Submitted) (rq : Nat) :
    Cmd × Nat × Nat × List Submitted → Prop where
  | back : add64 (e.reqs rq).off (e.reqs rq).count = req.off →
      (e.last = some rq ∨ (e.reqs rq).cmd = req.cmd) →
      add64 (e.reqs rq).count req.count ≤ p.maxsize →
      Joins e p req rq ((e.reqs rq).cmd, (e.reqs rq).off, add64 (e.reqs rq).count req.count,
        (e.reqs rq).batch ++ [req])
  | front : sub64 (e.reqs rq).off req.count = req.off → e.last = some rq →
      add64 (e.reqs rq).count req.count ≤ p.maxsize →
      Joins e p req rq ((e.reqs rq).cmd, req.off, add64 (e.reqs rq).count req.count,
        req :: (e.reqs rq).batch)

/-- The direction of a request stays when an ioreq joins it. -/
theorem Joins.cmd {req : Submitted} {c : Cmd × Nat × Nat × List Submitted}
    (h : Joins e p req rq c) : c.1 = (e.reqs rq).cmd := by
  cases h with
  | back => rfl
  | front => rfl

/-- What `ElvMerge` finds. -/
theorem elvMergeVirtual_spec {req : Ioreq} {type : MergeType}
    (h : e.elvMergeVirtual p req = (type, some rq)) (hwf : WF e) (htype : type ≠ .noMerge) :
    rq ∈ e.sched.members ∧
    (type = .backMerge → add64 (e.reqs rq).off (e.reqs rq).count = req.off ∧
      (e.last = some rq ∨ (e.reqs rq).cmd = req.cmd)) ∧
    (type = .frontMerge → sub64 (e.reqs rq).off req.count = req.off ∧ e.last = some rq) := by
  have hbase : e.elvMerge p req = (type, some rq) := by
    unfold elvMergeVirtual at h
    split at h
    · exact h
    · dsimp only at h
      split at h
      · exact h
      · split at h
        · split at h
          · cases h
            exact absurd rfl htype
          · cases h
        · cases h
  have hbyHash : e.elvMergeHash p req = (type, some rq) →
      rq ∈ e.sched.members ∧ type = .backMerge ∧
        add64 (e.reqs rq).off (e.reqs rq).count = req.off ∧ (e.reqs rq).cmd = req.cmd := by
    intro hhash
    unfold elvMergeHash at hhash
    split at hhash
    · rename_i found hfind
      split at hhash
      · rename_i hcmd
        cases hhash
        obtain ⟨⟨b, hb⟩, hkey⟩ := rqhashFind_spec hfind
        exact ⟨hwf.hash b rq hb, rfl, hkey, hcmd⟩
      · cases hhash
    · cases hhash
  have hcases : e.elvMergeHash p req = (type, some rq) ∨
      (e.last = some rq ∧
        (type = .backMerge ∧ add64 (e.reqs rq).off (e.reqs rq).count = req.off ∨
          type = .frontMerge ∧ sub64 (e.reqs rq).off req.count = req.off)) := by
    unfold elvMerge at hbase
    split at hbase
    · exact Or.inl hbase
    · rename_i last hlast
      split at hbase
      · rename_i hadj
        cases hbase
        exact Or.inr ⟨hlast, Or.inl ⟨rfl, hadj⟩⟩
      · split at hbase
        · rename_i hadj
          cases hbase
          exact Or.inr ⟨hlast, Or.inr ⟨rfl, hadj⟩⟩
        · exact Or.inl hbase
  rcases hcases with hhash | ⟨hlast, ⟨rfl, hadj⟩ | ⟨rfl, hadj⟩⟩
  · obtain ⟨hmem, rfl, hkey, hcmd⟩ := hbyHash hhash
    exact ⟨hmem, fun _ => ⟨hkey, Or.inr hcmd⟩, fun h => nomatch h⟩
  · exact ⟨hwf.last rq hlast, fun _ => ⟨hadj, Or.inl hlast⟩, fun h => nomatch h⟩
  · exact ⟨hwf.last rq hlast, fun h => (nomatch h), fun _ => ⟨hadj, hlast⟩⟩

/-- A merge that is too large leaves everything but `last`. -/
theorem llMergeFn_spec {req : Ioreq} (hwf : WF e) :
    WF (e.llMergeFn p rq req).2 ∧ Unmoved e (e.llMergeFn p rq req).2 ∧
    ((e.llMergeFn p rq req).1 = true →
      (e.llMergeFn p rq req).2 = e ∧ add64 (e.reqs rq).count req.count ≤ p.maxsize) := by
  unfold llMergeFn
  split
  · refine ⟨⟨hwf.nodup, hwf.indexed, hwf.lt, hwf.hash, hwf.onHash, ?_, hwf.queue⟩,
      ⟨List.Perm.refl _, fun _ => rfl, rfl, rfl, rfl⟩, fun h => nomatch h⟩
    intro i hi
    dsimp only at hi
    split at hi
    · cases hi
    · exact hwf.last i hi
  · rename_i hsize
    exact ⟨hwf, ⟨List.Perm.refl _, fun _ => rfl, rfl, rfl, rfl⟩,
      fun _ => ⟨rfl, Nat.not_lt.mp hsize⟩⟩

/-- `AttemptBackMerge` and `AttemptFrontMerge` do nothing, or merge two members. -/
theorem attempt_spec {r : Bool × Elevator} (hwf : WF e) (hrq : rq ∈ e.sched.members)
    (h : e.attemptBackMerge p rq = .ok r ∨ e.attemptFrontMerge p rq = .ok r) :
    r = (false, e) ∨ (r.1 = true ∧ WF r.2 ∧ ∃ a b, Absorbed e r.2 a b) := by
  rcases h with h | h
  · unfold attemptBackMerge at h
    split at h
    · rename_i next hnext
      obtain ⟨hmem, hne⟩ := neighbour_spec hwf.indexed hwf.nodup (Or.inl hnext)
      exact (attemptMerge_spec h hwf hrq hmem hne.symm).imp id
        fun ⟨htrue, hwf', habs⟩ => ⟨htrue, hwf', rq, next, habs⟩
    · cases h
      exact Or.inl rfl
  · unfold attemptFrontMerge at h
    split at h
    · rename_i prev hprev
      obtain ⟨hmem, hne⟩ := neighbour_spec hwf.indexed hwf.nodup (Or.inr hprev)
      exact (attemptMerge_spec h hwf hmem hrq hne).imp id
        fun ⟨htrue, hwf', habs⟩ => ⟨htrue, hwf', prev, rq, habs⟩
    · cases h
      exact Or.inl rfl

/-- The end of both merging branches of `Enqueue`: merge the grown request with a neighbour, or
put it at its new place. -/
theorem grown_spec {x : Except Fault (Bool × Elevator)} {t : MergeType}
    {r : Bool × Elevator} (hwf : WF e) (hrq : rq ∈ e.sched.members)
    (hx : x = e.attemptBackMerge p rq ∨ x = e.attemptFrontMerge p rq)
    (h : (x.bind fun m => if m.1 then .ok (true, m.2)
      else (m.2.elvMergedRequest p rq t).bind fun e => .ok (true, e)) = .ok r) :
    WF r.2 ∧ r.1 = true ∧ (Unmoved e r.2 ∨ ∃ a b, Absorbed e r.2 a b) := by
  obtain ⟨m, hm, h⟩ := bind_eq_ok.mp h
  have hattempt := attempt_spec (r := m) hwf hrq (hx.imp (fun hx => hx ▸ hm) (fun hx => hx ▸ hm))
  rcases hattempt with rfl | ⟨htrue, hwf', habs⟩
  · obtain ⟨e', hmerged, h⟩ := bind_eq_ok.mp h
    cases h
    obtain ⟨hwf', hsame⟩ := elvMergedRequest_spec hmerged hwf hrq
    exact ⟨hwf', rfl, Or.inl hsame⟩
  · rw [if_pos htrue] at h
    cases h
    exact ⟨hwf', rfl, Or.inr habs⟩

/-- **Merging an ioreq.** Either the elevator keeps its requests, or the ioreq joins a member
and a neighbour may then be merged with it. -/
theorem mergeIoreq_spec {req : Submitted} {r : Bool × Elevator}
    (h : e.mergeIoreq p req = .ok r) (hwf : WF e) :
    WF r.2 ∧ (r.1 = false ∧ Unmoved e r.2 ∨
      r.1 = true ∧ ∃ rq r₁, rq ∈ e.sched.members ∧ Joins e p req rq r₁.core ∧
        (Unmoved (e.setReq rq r₁) r.2 ∨ ∃ a b, Absorbed (e.setReq rq r₁) r.2 a b)) := by
  unfold mergeIoreq at h
  split at h
  · -- behind the request
    rename_i rq hfind
    obtain ⟨hmem, hback, -⟩ := elvMergeVirtual_spec hfind hwf (by decide)
    obtain ⟨hadj, hdir⟩ := hback rfl
    obtain ⟨hwfll, hsame, hll⟩ := @llMergeFn_spec _ p rq req.toIoreq hwf
    dsimp only at h
    split at h
    · cases h
      exact ⟨hwfll, Or.inl ⟨rfl, hsame⟩⟩
    · rename_i hfits
      obtain ⟨-, hsize⟩ := hll (by simpa using hfits)
      have hwf₁ : WF (e.setReq rq { e.reqs rq with
          batch := (e.reqs rq).batch ++ [req]
          count := add64 (e.reqs rq).count req.count }) := hwf.setReq rfl rfl
      obtain ⟨hwf', htrue, hresult⟩ := grown_spec hwf₁ hmem (Or.inl rfl) h
      exact ⟨hwf', Or.inr ⟨htrue, rq, { e.reqs rq with
          batch := (e.reqs rq).batch ++ [req]
          count := add64 (e.reqs rq).count req.count },
        hmem, .back hadj hdir hsize, hresult⟩⟩
  · -- in front of the request
    rename_i rq hfind
    obtain ⟨hmem, -, hfront⟩ := elvMergeVirtual_spec hfind hwf (by decide)
    obtain ⟨hadj, hlast⟩ := hfront rfl
    obtain ⟨hwfll, hsame, hll⟩ := @llMergeFn_spec _ p rq req.toIoreq hwf
    dsimp only at h
    split at h
    · cases h
      exact ⟨hwfll, Or.inl ⟨rfl, hsame⟩⟩
    · rename_i hfits
      obtain ⟨-, hsize⟩ := hll (by simpa using hfits)
      have hwf₁ : WF (e.setReq rq { e.reqs rq with
          batch := req :: (e.reqs rq).batch
          count := add64 (e.reqs rq).count req.count
          off := req.off }) := hwf.setReq rfl rfl
      obtain ⟨hwf', htrue, hresult⟩ := grown_spec hwf₁ hmem (Or.inr rfl) h
      exact ⟨hwf', Or.inr ⟨htrue, rq, { e.reqs rq with
          batch := req :: (e.reqs rq).batch
          count := add64 (e.reqs rq).count req.count
          off := req.off },
        hmem, .front hadj hlast hsize, hresult⟩⟩
  · cases h
    exact ⟨hwf, Or.inl ⟨rfl, List.Perm.refl _, fun _ => rfl, rfl, rfl, rfl⟩⟩

/-! ### New requests, and the way out -/

/-- The elevator `e'` has a new member for the ioreq. -/
structure Added (e e' : Elevator) (req : Submitted) : Prop where
  members : e'.sched.members.Perm (e.nextReq :: e.sched.members)
  job : (e'.reqs e.nextReq).core = (req.cmd, req.off, req.count, [req])
  rest : ∀ i, i ≠ e.nextReq → (e'.reqs i).core = (e.reqs i).core
  nextReq : e'.nextReq = e.nextReq + 1
  count : ∀ c, e'.count c = if c = req.cmd then e.count c + 1 else e.count c
  inflight : e'.inflight = e.inflight

/-- A new request becomes a member. The elevator `e` has just made room for it. -/
theorem elvAddRequest_spec {req : Submitted} (hwf : WF e)
    (h : (e.newRequest req).elvAddRequest p e.nextReq = .ok e') : WF e' ∧ Added e e' req := by
  have hnot : e.nextReq ∉ e.sched.members := fun hmem => Nat.lt_irrefl _ (hwf.lt _ hmem)
  unfold elvAddRequest at h
  dsimp only at h
  obtain ⟨e₁, hhash, hadd⟩ := bind_eq_ok.mp h
  obtain ⟨hre, hreMem, hreOn, hreOther⟩ := rqhashAdd_spec hhash
  have hsched₁ : e₁.sched = e.sched := hre.sched
  have hcore₁ : ∀ i, i ≠ e.nextReq → (e₁.reqs i).core = (e.reqs i).core := by
    intro i hi
    rw [hre.core i]
    show Request.core (if i = e.nextReq then _ else if i = e.nextReq then _ else e.reqs i) = _
    rw [if_neg hi, if_neg hi]
  have honHash₁ : ∀ i, i ≠ e.nextReq → (e₁.reqs i).onHash = (e.reqs i).onHash := by
    intro i hi
    rw [hreOther i hi]
    show Request.onHash (if i = e.nextReq then _ else if i = e.nextReq then _ else e.reqs i) = _
    rw [if_neg hi, if_neg hi]
  have hindexed₁ : e₁.sched.Indexed e₁.reqs := by
    rw [hsched₁]
    refine hwf.indexed.congr fun i hi => cmd_of_core (hcore₁ i ?_)
    rintro rfl
    exact hnot hi
  obtain ⟨sched, rfl, hmembers, hindexed⟩ := addRequest_spec hadd hindexed₁
  have hmembers : sched.members.Perm (e.nextReq :: e.sched.members) := hsched₁ ▸ hmembers
  have hnext : e₁.nextReq = e.nextReq + 1 := hre.nextReq
  have hlast₁ : e₁.last = e.last := hre.last
  refine ⟨⟨?_, hindexed, ?_, ?_, ?_, ?_, ?_⟩, hmembers, ?_, hcore₁, hnext, ?_, hre.inflight⟩
  · exact hmembers.nodup_iff.mpr (List.nodup_cons.mpr ⟨hnot, hwf.nodup⟩)
  · intro i hi
    show i < e₁.nextReq
    rw [hnext]
    rcases List.mem_cons.mp (hmembers.mem_iff.mp hi) with rfl | hi
    · exact Nat.lt_succ_self _
    · exact Nat.lt_succ_of_lt (hwf.lt i hi)
  · intro b i hi
    apply hmembers.mem_iff.mpr
    rcases hreMem b i hi with rfl | hi
    · exact List.mem_cons_self
    · exact List.mem_cons_of_mem _ (hwf.hash b i hi)
  · intro i hi
    show (e₁.reqs i).onHash = true
    by_cases hne : i = e.nextReq
    · rw [hne]
      exact hreOn
    · rw [honHash₁ i hne]
      rcases List.mem_cons.mp (hmembers.mem_iff.mp hi) with hi | hi
      · exact absurd hi hne
      · exact hwf.onHash i hi
  · intro i hi
    have hi : (if e₁.last = none then some e.nextReq else e₁.last) = some i := hi
    apply hmembers.mem_iff.mpr
    rw [hlast₁] at hi
    split at hi
    · cases hi
      exact List.mem_cons_self
    · exact List.mem_cons_of_mem _ (hwf.last i hi)
  · exact hre.queue.trans hwf.queue
  · show (e₁.reqs e.nextReq).core = _
    have hnew : (e.newRequest req).reqs e.nextReq =
        ⟨req.cmd, req.off, req.count, 0, [req], false⟩ := if_pos rfl
    rw [hre.core, reqs_setReq_self, hnew]
    rfl
  · intro c
    show e₁.count c = _
    rw [hre.count]
    rfl

/-- The member `rq` left the elevator. -/
structure Taken (e e' : Elevator) (rq : Nat) : Prop where
  mem : rq ∈ e.sched.members
  members : e'.sched.members = e.sched.members.erase rq
  core : ∀ i, (e'.reqs i).core = (e.reqs i).core
  nextReq : e'.nextReq = e.nextReq
  count : e'.count = e.count

/-- A request that is taken off its queues, `last` and the hash is a member no more. -/
theorem rqhashDel_taken {s : Sched} {last boundary : Option Nat} {sorted endpos inflight : Nat}
    (hwf : WF e) (hmem : rq ∈ e.sched.members) (hmembers : s.members = e.sched.members.erase rq)
    (hindexed : s.Indexed e.reqs) (hlast : ∀ i, last = some i → e.last = some i ∧ i ≠ rq)
    (he' : e' = { { e with sched := s, last := last }.rqhashDel rq with
      queue := [], sorted := sorted, endpos := endpos, boundary := boundary,
      inflight := inflight }) :
    WF e' ∧ Taken e e' rq := by
  obtain ⟨hre, hdelMem, hdelOn⟩ := rqhashDel_spec { e with sched := s, last := last } rq
  generalize { e with sched := s, last := last }.rqhashDel rq = e₁ at hre hdelMem hdelOn he'
  have hsched : e'.sched = s := by rw [he']; exact hre.sched
  have hreqs : e'.reqs = e₁.reqs := by rw [he']
  have hnext : e'.nextReq = e.nextReq := by rw [he']; exact hre.nextReq
  have hcore : ∀ i, (e'.reqs i).core = (e.reqs i).core := by rw [hreqs]; exact hre.core
  have hsub : ∀ i, i ∈ e'.sched.members → i ∈ e.sched.members ∧ i ≠ rq := by
    intro i hi
    rw [hsched, hmembers] at hi
    exact ((List.Nodup.mem_erase_iff hwf.nodup).mp hi).symm
  have hkeep : ∀ i, i ∈ e.sched.members → i ≠ rq → i ∈ e'.sched.members := by
    intro i hi hne
    rw [hsched, hmembers]
    exact (List.mem_erase_of_ne hne).mpr hi
  refine ⟨⟨?_, ?_, ?_, ?_, ?_, ?_, ?_⟩, hmem, ?_, hcore, hnext, ?_⟩
  · rw [hsched, hmembers]
    exact hwf.nodup.erase rq
  · rw [hsched]
    exact hindexed.congr fun i _ => cmd_of_core (hcore i)
  · intro i hi
    rw [hnext]
    exact hwf.lt i (hsub i hi).1
  · intro b i hi
    have hi : i ∈ e₁.hash b := by rwa [he'] at hi
    obtain ⟨hi, hne⟩ := hdelMem b i hi
    exact hkeep i (hwf.hash b i hi) (hne (hwf.onHash rq hmem))
  · intro i hi
    obtain ⟨hi, hne⟩ := hsub i hi
    rw [hreqs, hdelOn i hne]
    exact hwf.onHash i hi
  · intro i hi
    have hi : last = some i := by
      rw [he'] at hi
      exact hre.last.symm.trans hi
    obtain ⟨hi, hne⟩ := hlast i hi
    exact hkeep i (hwf.last i hi) hne
  · rw [he']
  · rw [hsched, hmembers]
  · rw [he']
    exact hre.count

/-- `deadline_move_request` moves a member to `Queue`. -/
theorem deadlineMoveRequest_spec {d : Deadline} (h : e.deadlineMoveRequest d rq = .ok e')
    (hwf : WF e) (hsched : e.sched = .deadline d) (hmem : rq ∈ e.sched.members) :
    e'.queue = [rq] ∧ WF { e' with queue := [] } ∧ Taken e { e' with queue := [] } rq ∧
      e'.inflight = e.inflight := by
  unfold deadlineMoveRequest at h
  dsimp only at h
  obtain ⟨d', hremove, h⟩ := bind_eq_ok.mp h
  cases h
  have hindexed := hwf.indexed
  have hnodup := hwf.nodup
  have hmem' := hmem
  rw [hsched] at hindexed hnodup hmem'
  obtain ⟨hmembers, hindexed'⟩ := deadlineRemoveRequest_spec hremove hindexed hnodup hmem'
  have hmembers : (Sched.deadline d').members = e.sched.members.erase rq := by
    rw [hsched]
    exact hmembers
  have hlast : ∀ i, (if e.last = some rq then none else e.last) = some i →
      e.last = some i ∧ i ≠ rq := by
    intro i hi
    split at hi
    · cases hi
    · rename_i hne
      refine ⟨hi, ?_⟩
      rintro rfl
      exact hne hi
  obtain ⟨hre, -, -⟩ := rqhashDel_spec { e with
    sched := .deadline d', last := if e.last = some rq then none else e.last } rq
  obtain ⟨hwf', htaken⟩ := rqhashDel_taken hwf hmem hmembers hindexed' hlast rfl
  refine ⟨?_, hwf', htaken, hre.inflight⟩
  show ({ e with sched := .deadline d', last := _ }.rqhashDel rq).queue ++ [rq] = [rq]
  rw [hre.queue]
  show e.queue ++ [rq] = [rq]
  rw [hwf.queue]
  rfl

/-- `Dispatch` finds the elevator empty, or moves a member to `Queue`. -/
theorem dispatch_spec {r : Option Elevator} (h : e.dispatch = .ok r) (hwf : WF e) :
    (r = none ∧ e.sched.members = []) ∨
    ∃ rq e₁, r = some e₁ ∧ e₁.queue = [rq] ∧ WF { e₁ with queue := [] } ∧
      Taken e { e₁ with queue := [] } rq ∧ e₁.inflight = e.inflight := by
  unfold dispatch at h
  split at h
  · rename_i hsched
    cases h
    rw [hsched]
    exact Or.inl ⟨rfl, rfl⟩
  · rename_i rq rest hsched
    cases h
    right
    have hmembers : (Sched.noop rest).members = e.sched.members.erase rq := by
      rw [hsched]
      exact (List.erase_cons_head rq rest).symm
    have hmem : rq ∈ e.sched.members := by
      rw [hsched]
      exact List.mem_cons_self
    obtain ⟨hre, -, -⟩ := rqhashDel_spec { e with sched := .noop rest, last := none } rq
    have hqueue := hre.queue.trans hwf.queue
    refine ⟨rq, _, rfl, ?_, ?_⟩
    · show insertSort _ rq = [rq]
      unfold insertSort
      rw [hqueue]
      rfl
    · obtain ⟨hwf', htaken⟩ := rqhashDel_taken hwf hmem hmembers trivial
        (fun i (hi : none = some i) => nomatch hi) rfl
      exact ⟨hwf', htaken, hre.inflight⟩
  · rename_i d hsched
    split at h
    · rename_i hempty
      cases h
      left
      refine ⟨rfl, ?_⟩
      rw [hsched]
      show d.fifoList .read ++ d.fifoList .write = []
      rw [hempty.1, hempty.2]
      rfl
    · dsimp only at h
      split at h
      · cases h
      · rename_i node hfirst
        obtain ⟨e₁, hmove, h⟩ := bind_eq_ok.mp h
        cases h
        right
        -- the first request of the tree is in the FIFO list of the direction
        have hmem : node.entry ∈ (Sched.deadline d).members := by
          have hindexed := hwf.indexed
          rw [hsched] at hindexed
          obtain ⟨htree, -⟩ := Rbtree.rbFirst_some hfirst
          generalize (if d.fifoList .write ≠ [] then Cmd.write else Cmd.read) = rw at htree
          apply Sched.mem_deadline.mpr
          refine ⟨rw, (hindexed rw).2.1.mem_iff.mp ?_⟩
          rw [← htree, Pos.toList_tree]
          simp
        rw [← hsched] at hmem
        obtain ⟨hqueue, hwf', htaken, hin⟩ := deadlineMoveRequest_spec hmove hwf hsched hmem
        exact ⟨node.entry, e₁, rfl, hqueue, hwf', htaken, hin⟩

/-- `ElvNextRequest` finds the elevator empty, or takes a member out of it. -/
theorem elvNextRequest_spec {r : Option Nat × Elevator} (h : e.elvNextRequest = .ok r)
    (hwf : WF e) :
    (r = (none, e) ∧ e.sched.members = []) ∨
    ∃ rq, r.1 = some rq ∧ WF r.2 ∧ Taken e r.2 rq ∧ r.2.inflight = e.inflight := by
  unfold elvNextRequest at h
  rw [hwf.queue] at h
  dsimp only at h
  obtain ⟨o, hdispatch, h⟩ := bind_eq_ok.mp h
  rcases dispatch_spec hdispatch hwf with ⟨rfl, hempty⟩ | ⟨rq, e₁, rfl, hqueue, hwf', htaken, hin⟩
  · cases h
    exact Or.inl ⟨rfl, hempty⟩
  · dsimp only at h
    rw [hqueue] at h
    cases h
    exact Or.inr ⟨rq, rfl, hwf', htaken, hin⟩

/-- `Dequeue` finds the elevator empty, or takes a member out of it. -/
theorem dequeue_spec {r : Option Nat × Elevator} (h : e.dequeue = .ok r) (hwf : WF e) :
    (r = (none, e) ∧ e.sched.members = []) ∨
    ∃ rq, r.1 = some rq ∧ WF r.2 ∧ Taken e r.2 rq ∧ r.2.inflight = add64 e.inflight 1 := by
  unfold dequeue at h
  obtain ⟨n, hnext, h⟩ := bind_eq_ok.mp h
  rcases elvNextRequest_spec hnext hwf with ⟨rfl, hempty⟩ | ⟨rq, hrq, hwf', htaken, hin⟩
  · cases h
    exact Or.inl ⟨rfl, hempty⟩
  · right
    rw [hrq] at h
    generalize n.2 = e₁ at h hwf' htaken hin
    -- marking the request as started changes neither its core nor its place in the hash
    have hwf₂ : WF (e₁.setReq rq
        { e₁.reqs rq with flags := (e₁.reqs rq).flags ||| reqStarted }) := hwf'.setReq rfl rfl
    have hcore : ∀ i, ((e₁.setReq rq
        { e₁.reqs rq with flags := (e₁.reqs rq).flags ||| reqStarted }).reqs i).core =
        (e.reqs i).core := by
      intro i
      rw [core_setReq (r := { e₁.reqs rq with flags := (e₁.reqs rq).flags ||| reqStarted }) rfl]
      exact htaken.core i
    dsimp only at h
    cases h
    refine ⟨rq, rfl, ?_⟩
    split
    · exact ⟨⟨hwf₂.nodup, hwf₂.indexed, hwf₂.lt, hwf₂.hash, hwf₂.onHash, hwf₂.last, hwf₂.queue⟩,
        ⟨htaken.mem, htaken.members, hcore, htaken.nextReq, htaken.count⟩,
        congrArg (add64 · 1) hin⟩
    · exact ⟨⟨hwf₂.nodup, hwf₂.indexed, hwf₂.lt, hwf₂.hash, hwf₂.onHash, hwf₂.last, hwf₂.queue⟩,
        ⟨htaken.mem, htaken.members, hcore, htaken.nextReq, htaken.count⟩,
        congrArg (add64 · 1) hin⟩

/-- `PutRequest` changes the counters only. -/
theorem putRequest_spec (h : e.putRequest rq = .ok e') (hwf : WF e) :
    WF e' ∧ e'.sched = e.sched ∧ e'.reqs = e.reqs ∧ e'.nextReq = e.nextReq := by
  unfold putRequest at h
  obtain ⟨u, -, h⟩ := bind_eq_ok.mp h
  cases h
  exact ⟨⟨hwf.nodup, hwf.indexed, hwf.lt, hwf.hash, hwf.onHash, hwf.last, hwf.queue⟩, rfl, rfl, rfl⟩

/-- `Dispatch` has no loop. -/
theorem dispatch_ne_loop (e : Elevator) : e.dispatch ≠ .error .loop := by
  have hdel : ∀ t rq, rbDel t rq ≠ .error .loop := by
    intro t rq
    unfold rbDel
    split
    · exact fun h => nomatch h
    · split
      · exact fun h => nomatch h
      · exact fun h => nomatch h
  unfold dispatch
  split
  · exact fun h => nomatch h
  · exact fun h => nomatch h
  · split
    · exact fun h => nomatch h
    · dsimp only
      split
      · exact fun h => nomatch h
      · apply bind_ne_error
        · apply bind_ne_error
          · apply bind_ne_error (hdel _ _)
            exact fun _ _ h => nomatch h
          · exact fun _ _ h => nomatch h
        · exact fun _ _ h => nomatch h

/-- The loop of `ElvNextRequest` ends: what `Dispatch` moves is in `Queue`. -/
theorem dequeue_ne_loop (hwf : WF e) : e.dequeue ≠ .error .loop := by
  apply bind_ne_error
  · unfold elvNextRequest
    rw [hwf.queue]
    apply bind_ne_error (dispatch_ne_loop e)
    intro r hdispatch
    rcases dispatch_spec hdispatch hwf with ⟨rfl, -⟩ | ⟨rq, e₁, rfl, hqueue, -⟩
    · exact fun h => nomatch h
    · dsimp only
      rw [hqueue]
      exact fun h => nomatch h
  · intro r _
    split
    · exact fun h => nomatch h
    · exact fun h => nomatch h

/-- An elevator between two calls holds its members and nothing else. -/
theorem size_eq (hwf : WF e) : e.size = e.sched.members.length := by
  unfold size
  rw [hwf.queue]
  cases e.sched with
  | noop queue => exact Nat.zero_add _
  | deadline d => exact (Nat.zero_add _).trans List.length_append.symm

/-- An elevator is empty when it has no members. -/
theorem elvQueueEmpty_iff (hwf : WF e) : e.elvQueueEmpty = true ↔ e.sched.members = [] := by
  unfold elvQueueEmpty queueEmpty
  rw [hwf.queue]
  cases e.sched with
  | noop queue => simp [Sched.members]
  | deadline d => simp [Sched.members]

/-- The two elevators are empty at the start. -/
theorem wf_start {sched : Sched} (hsched : sched = .startNoop ∨ sched = .startDeadline) :
    WF (start sched) ∧ (start sched).sched.members = [] := by
  have hmembers : sched.members = [] := by
    rcases hsched with rfl | rfl
    · rfl
    · rfl
  refine ⟨⟨?_, ?_, ?_, ?_, ?_, ?_, rfl⟩, hmembers⟩
  · show sched.members.Nodup
    rw [hmembers]
    exact List.nodup_nil
  · rcases hsched with rfl | rfl
    · trivial
    · exact fun cmd => ⟨isRedBlack_nil, List.Perm.refl _, fun _ h => nomatch h⟩
  · intro rq h
    have h : rq ∈ sched.members := h
    rw [hmembers] at h
    cases h
  · exact fun _ _ h => nomatch h
  · intro rq h
    have h : rq ∈ sched.members := h
    rw [hmembers] at h
    cases h
  · exact fun _ h => nomatch h

end Elevator

end LustreSimulator
