import LustreSimulator.Proofs.Disk

/-!
# `LustreSimulator.Proofs.ElvIndex`: the three indexes of the deadline elevator

A request is in the hash under its end, in the tree of its direction under its offset, and in the
FIFO list of its direction. `Hashed` says that the hash holds the members in the buckets of their
ends, and `Sched.Ordered` that the trees are in order and `next_rq` points to members.

An ioreq that joins a request changes the end or the offset of it, and for a moment the request is
at the wrong place of one index. So both predicates have a parameter for the request that may be at
the wrong place. `AttemptMerge(rq, next)` puts `rq` at its new place in the hash and drops `next`,
so there `rq` may be wrong in the hash and `next` in the tree.

`indexed_run` is the result over runs, and says in which order the requests are handed over.
-/

set_option autoImplicit false

namespace LustreSimulator

open Lib

/-- The trees of a deadline elevator order the requests by their offsets, but `x` may be at a wrong
place, and `next_rq` points to a request of the direction. -/
def Sched.Ordered (reqs : Nat → Request) (x : Option Nat) : Sched → Prop
  | .noop _ => False
  | .deadline d => ∀ cmd,
      ((d.sortList cmd).toList.Pairwise fun i j =>
        some i ≠ x → some j ≠ x → (reqs i).off < (reqs j).off) ∧
      ∀ rq, d.nextRq cmd = some rq → rq ∈ d.fifoList cmd

/-- The requests in the order in which they are dispatched. -/
def Sched.order : Sched → List Nat
  | .noop queue => queue
  | .deadline d => (d.sortList .write).toList ++ (d.sortList .read).toList

/-- The order depends on the offsets only, and the offset of `x` does not matter. -/
theorem Sched.Ordered.congr {reqs reqs' : Nat → Request} {x : Option Nat} {s : Sched}
    (h : s.Ordered reqs x) (hoff : ∀ rq, some rq ≠ x → (reqs' rq).off = (reqs rq).off) :
    s.Ordered reqs' x := by
  cases s with
  | noop => exact h
  | deadline d =>
      intro cmd
      refine ⟨(h cmd).1.imp fun {i j} hij hi hj => ?_, (h cmd).2⟩
      rw [hoff i hi, hoff j hj]
      exact hij hi hj

/-- A request may be at a wrong place when all are at the right one. -/
theorem Sched.Ordered.weaken {reqs : Nat → Request} {s : Sched} (h : s.Ordered reqs none)
    (x : Option Nat) : s.Ordered reqs x := by
  cases s with
  | noop => exact h
  | deadline d =>
      exact fun cmd => ⟨(h cmd).1.imp fun {i j} hij _ _ => hij (fun h => nomatch h)
        (fun h => nomatch h), (h cmd).2⟩

/-- Nor does it matter when `x` is no request of the elevator. -/
theorem Sched.Ordered.strengthen {reqs : Nat → Request} {s : Sched} {rq : Nat}
    (h : s.Ordered reqs (some rq)) (hindexed : s.Indexed reqs) (hnot : rq ∉ s.members) :
    s.Ordered reqs none := by
  cases s with
  | noop => exact h
  | deadline d =>
      intro cmd
      have hne : ∀ i ∈ (d.sortList cmd).toList, some i ≠ some rq := by
        intro i hi heq
        apply hnot
        rw [← Option.some.inj heq]
        exact Sched.mem_deadline.mpr ⟨cmd, (hindexed cmd).2.1.mem_iff.mp hi⟩
      exact ⟨(h cmd).1.imp_of_mem fun {i j} hi hj hij _ _ => hij (hne i hi) (hne j hj), (h cmd).2⟩

/-- The order is one of the members. -/
theorem Sched.order_perm {reqs : Nat → Request} {s : Sched} (h : s.Indexed reqs) :
    s.order.Perm s.members := by
  cases s with
  | noop => exact .refl _
  | deadline d => exact ((h .write).2.1.append (h .read).2.1).trans List.perm_append_comm

namespace Elevator

variable {e e' : Elevator} {p : Params} {rq next : Nat} {x : Option Nat}

/-- The hash holds the members in the buckets of their ends, but `x` may be at a wrong place. -/
structure Hashed (p : Params) (x : Option Nat) (e : Elevator) : Prop where
  mem : ∀ rq, some rq ≠ x → ∀ b,
    rq ∈ e.hash b ↔ rq ∈ e.sched.members ∧ b = p.hashFn (rqHashKey (e.reqs rq))
  nodup : ∀ b, (e.hash b).Nodup

/-- The hash depends on the members and their ends only. -/
theorem Hashed.congr (h : Hashed p x e) (hhash : e'.hash = e.hash)
    (hmem : ∀ rq, rq ∈ e'.sched.members ↔ rq ∈ e.sched.members)
    (hkey : ∀ rq, some rq ≠ x → rqHashKey (e'.reqs rq) = rqHashKey (e.reqs rq)) :
    Hashed p x e' := by
  refine ⟨fun rq hrq b => ?_, fun b => ?_⟩
  · rw [hhash, hmem rq, hkey rq hrq]
    exact h.mem rq hrq b
  · rw [hhash]
    exact h.nodup b

/-- A request may be at a wrong place when all are at the right one. -/
theorem Hashed.weaken (h : Hashed p none e) (x : Option Nat) : Hashed p x e :=
  ⟨fun rq _ => h.mem rq (fun h => nomatch h), h.nodup⟩

/-- The offset is part of the core. -/
theorem off_of_core {r r' : Request} (h : r'.core = r.core) : r'.off = r.off :=
  congrArg (fun c => c.2.1) h

/-- So is the end. -/
theorem key_of_core {r r' : Request} (h : r'.core = r.core) : rqHashKey r' = rqHashKey r :=
  congrArg₂ add64 (off_of_core h) (congrArg (fun c => c.2.2.1) h)

/-! ### The hash -/

/-- `elv_rqhash_del` takes the request off the hash. -/
theorem rqhashDel_hash (hon : (e.reqs rq).onHash = true) (b : Nat) :
    (e.rqhashDel rq).hash b = (e.hash b).filter fun i => decide (i ≠ rq) := by
  unfold rqhashDel
  rw [if_pos hon]

/-- `elv_rqhash_add` puts the request in front of the bucket of its end. -/
theorem rqhashAdd_hash (h : e.rqhashAdd p rq = .ok e') (b : Nat) :
    e'.hash b = if b = p.hashFn (rqHashKey (e.reqs rq)) then rq :: e.hash b else e.hash b := by
  unfold rqhashAdd at h
  obtain ⟨u, -, h⟩ := bind_eq_ok.mp h
  cases h
  dsimp only
  split
  · next hb => rw [← hb]
  · rfl

/-- Adding a request that is on no chain puts it under its end. -/
theorem rqhashAdd_mem (h : e.rqhashAdd p rq = .ok e') (hnot : ∀ b, rq ∉ e.hash b)
    (hnodup : ∀ b, (e.hash b).Nodup) :
    (∀ b i, i ∈ e'.hash b ↔
      (i = rq ∧ b = p.hashFn (rqHashKey (e.reqs rq))) ∨ i ∈ e.hash b) ∧
    ∀ b, (e'.hash b).Nodup := by
  refine ⟨fun b i => ?_, fun b => ?_⟩
  · rw [rqhashAdd_hash h b]
    split
    · next hb => exact List.mem_cons.trans (or_congr (iff_self_and.mpr fun _ => hb) Iff.rfl)
    · next hb => exact ⟨.inr, fun h => h.resolve_left fun h => hb h.2⟩
  · rw [rqhashAdd_hash h b]
    split
    · exact List.nodup_cons.mpr ⟨hnot b, hnodup b⟩
    · exact hnodup b

/-- `elv_rqhash_reposition` puts the request under its end. -/
theorem rqhashReposition_mem (h : e.rqhashReposition p rq = .ok e')
    (hon : (e.reqs rq).onHash = true) (hnodup : ∀ b, (e.hash b).Nodup) :
    (∀ b i, i ∈ e'.hash b ↔ (i = rq ∧ b = p.hashFn (rqHashKey (e.reqs rq))) ∨
      (i ≠ rq ∧ i ∈ e.hash b)) ∧
    ∀ b, (e'.hash b).Nodup := by
  have hmem : ∀ b i, i ∈ (e.rqhashDel rq).hash b ↔ i ≠ rq ∧ i ∈ e.hash b := by
    intro b i
    rw [rqhashDel_hash hon b, List.mem_filter, decide_eq_true_iff]
    exact and_comm
  have hkey : rqHashKey ((e.rqhashDel rq).reqs rq) = rqHashKey (e.reqs rq) :=
    key_of_core ((rqhashDel_spec e rq).1.core rq)
  obtain ⟨hmem', hnodup'⟩ := rqhashAdd_mem h (fun b hin => ((hmem b rq).mp hin).1 rfl) fun b => by
    rw [rqhashDel_hash hon b]
    exact (hnodup b).filter _
  rw [hkey] at hmem'
  exact ⟨fun b i => (hmem' b i).trans (or_congr Iff.rfl (hmem b i)), hnodup'⟩

/-! ### The trees -/

/-- A tree in which only `rq` is at a wrong place is in order without it. -/
theorem pairwise_split {reqs : Nat → Request} {l m : List Nat} (hnodup : (l ++ rq :: m).Nodup)
    (h : (l ++ rq :: m).Pairwise fun i j =>
      some i ≠ some rq → some j ≠ some rq → (reqs i).off < (reqs j).off) :
    (l ++ m).Pairwise fun i j => (reqs i).off < (reqs j).off := by
  rw [List.perm_middle.nodup_iff, List.nodup_cons] at hnodup
  have hsub := h.sublist ((List.sublist_cons_self rq m).append_left l)
  refine hsub.imp_of_mem fun {i j} hi hj hij => hij ?_ ?_
  · exact fun heq => hnodup.1 (by rw [← Option.some.inj heq]; exact hi)
  · exact fun heq => hnodup.1 (by rw [← Option.some.inj heq]; exact hj)

/-- No request is in a tree twice. -/
theorem sortList_nodup {d : Deadline} (hindexed : (Sched.deadline d).Indexed e.reqs)
    (hnodup : (Sched.deadline d).members.Nodup) (c : Cmd) : (d.sortList c).toList.Nodup := by
  refine (hindexed c).2.1.nodup_iff.mpr ?_
  cases c with
  | read => exact hnodup.sublist (List.sublist_append_left _ _)
  | write => exact hnodup.sublist (List.sublist_append_right _ _)

/-- Without the request that may be at a wrong place the trees are in order. -/
theorem sortList_del {d : Deadline} {t : RbTree Nat}
    (h : rbDel (d.sortList (e.reqs rq).cmd) rq = .ok t)
    (hindexed : (Sched.deadline d).Indexed e.reqs) (hnodup : (Sched.deadline d).members.Nodup)
    (hordered : (Sched.deadline d).Ordered e.reqs (some rq)) (c : Cmd) :
    ((if c = (e.reqs rq).cmd then t else d.sortList c).toList.Pairwise fun i j =>
      (e.reqs i).off < (e.reqs j).off) ∧
    (if c = (e.reqs rq).cmd then t else d.sortList c).toList = (d.sortList c).toList.erase rq := by
  have hpair := (hordered c).1
  by_cases hc : c = (e.reqs rq).cmd
  · subst hc
    obtain ⟨-, l, m, hlist, hlist'⟩ := rbDel_split h (hindexed _).1
    have hl := sortList_nodup hindexed hnodup (e.reqs rq).cmd
    rw [hlist] at hl hpair
    have hnot : rq ∉ l := fun hin =>
      (List.nodup_append.mp hl).2.2 rq hin rq List.mem_cons_self rfl
    rw [if_pos rfl, hlist', hlist, List.erase_append_right _ hnot, List.erase_cons_head]
    exact ⟨pairwise_split hl hpair, rfl⟩
  · have hout : rq ∉ (d.sortList c).toList := fun hin =>
      hc ((hindexed c).2.2 rq ((hindexed c).2.1.mem_iff.mp hin)).symm
    rw [if_neg hc, List.erase_of_not_mem hout]
    refine ⟨hpair.imp_of_mem fun {i j} hi hj hij => hij ?_ ?_, rfl⟩
    · exact fun heq => hout (by rw [← Option.some.inj heq]; exact hi)
    · exact fun heq => hout (by rw [← Option.some.inj heq]; exact hj)

/-- `deadline_remove_request` of the request that may be at a wrong place. -/
theorem deadlineRemoveRequest_ordered {d d' : Deadline}
    (h : e.deadlineRemoveRequest d rq = .ok d') (hindexed : (Sched.deadline d).Indexed e.reqs)
    (hnodup : (Sched.deadline d).members.Nodup)
    (hordered : (Sched.deadline d).Ordered e.reqs (some rq)) :
    (Sched.deadline d').Ordered e.reqs none ∧
      ∀ c, (d'.sortList c).toList = (d.sortList c).toList.erase rq := by
  unfold deadlineRemoveRequest deadlineDelRqRb at h
  dsimp only at h
  obtain ⟨t, hdel, h⟩ := bind_eq_ok.mp h
  cases h
  have htree := sortList_del hdel hindexed hnodup hordered
  refine ⟨fun c => ⟨(htree c).1.imp fun hij _ _ => hij, fun i hi => ?_⟩, fun c => (htree c).2⟩
  have hperm := (hindexed c).2.1
  have hnodupTree := sortList_nodup hindexed hnodup c
  refine (hperm.nodup_iff.mp hnodupTree).mem_erase_iff.mpr ?_
  dsimp only at hi
  by_cases hc : c = (e.reqs rq).cmd
  · subst hc
    rw [if_pos rfl] at hi
    split at hi
    · -- `next_rq` moves on to the request behind
      obtain ⟨hin, hne⟩ := rbNextRq_mem hi hnodupTree
      exact ⟨hne, hperm.mem_iff.mp hin⟩
    · next hne => exact ⟨fun heq => hne (by rw [hi, heq]), (hordered _).2 i hi⟩
  · rw [if_neg hc] at hi
    have hin := (hordered c).2 i hi
    refine ⟨?_, hin⟩
    rintro rfl
    exact hc ((hindexed c).2.2 i hin).symm

/-- `deadline_add_rq_rb` of the request that is in no tree. -/
theorem deadlineAddRqRb_ordered {d d' : Deadline} (h : e.deadlineAddRqRb d rq = .ok d')
    (ht : IsRedBlack (d.sortList (e.reqs rq).cmd))
    (hordered : (Sched.deadline d).Ordered e.reqs none) :
    (Sched.deadline d').Ordered e.reqs none := by
  unfold deadlineAddRqRb at h
  obtain ⟨r, hadd, h⟩ := bind_eq_ok.mp h
  split at h
  · cases h
  · rename_i hnone
    cases h
    obtain ⟨-, l, m, hlist, hlist', hsplit⟩ := rbAdd_split hadd hnone ht
    have hsorted : ∀ c, (d.sortList c).toList.Pairwise fun i j =>
        (e.reqs i).off < (e.reqs j).off :=
      fun c => (hordered c).1.imp fun hij => hij (fun h => nomatch h) (fun h => nomatch h)
    intro c
    refine ⟨List.Pairwise.imp (fun hij _ _ => hij) (R := fun i j =>
      (e.reqs i).off < (e.reqs j).off) ?_, (hordered c).2⟩
    dsimp only
    split
    · obtain ⟨hl, hm⟩ := hsplit (hsorted _)
      have hpair := hsorted (e.reqs rq).cmd
      rw [hlist, List.pairwise_append] at hpair
      rw [hlist', List.pairwise_append, List.pairwise_cons]
      refine ⟨hpair.1, ⟨hm, hpair.2.1⟩, fun i hi j hj => ?_⟩
      rcases List.mem_cons.mp hj with rfl | hj
      · exact hl i hi
      · exact hpair.2.2 i hi j hj
    · exact hsorted c

/-! ### The virtual functions -/

/-- `ElvMergeRequests` of the subclass drops the request that may be at a wrong place. -/
theorem removeRequest_ordered {s : Sched} (h : e.removeRequest rq = .ok s)
    (hindexed : e.sched.Indexed e.reqs) (hnodup : e.sched.members.Nodup)
    (hordered : e.sched.Ordered e.reqs (some rq)) : s.Ordered e.reqs none := by
  unfold removeRequest at h
  split at h
  · rename_i hsched
    rw [hsched] at hordered
    exact absurd hordered id
  · rename_i d hsched
    obtain ⟨d', hd, h⟩ := bind_eq_ok.mp h
    cases h
    rw [hsched] at hindexed hnodup hordered
    exact (deadlineRemoveRequest_ordered hd hindexed hnodup hordered).1

/-- `ElvMergedRequest` of the subclass puts the request at its place after a front merge. -/
theorem resortRequest_ordered {s : Sched} {type : MergeType} (h : e.resortRequest rq type = .ok s)
    (hindexed : e.sched.Indexed e.reqs) (hnodup : e.sched.members.Nodup)
    (hordered : e.sched.Ordered e.reqs (if type = .frontMerge then some rq else none)) :
    s.Ordered e.reqs none := by
  unfold resortRequest at h
  split at h
  · rename_i hsched
    rw [hsched] at hordered
    exact absurd hordered id
  · rename_i d hsched
    rw [hsched] at hindexed hnodup hordered
    split at h
    · rename_i htype
      rw [if_pos htype] at hordered
      dsimp only at h
      obtain ⟨t, hdel, h⟩ := bind_eq_ok.mp h
      obtain ⟨d', hadd, h⟩ := bind_eq_ok.mp h
      cases h
      have hrb := (rbDel_split hdel (hindexed _).1).1
      refine deadlineAddRqRb_ordered hadd (by dsimp only; rwa [if_pos rfl]) fun c => ?_
      exact ⟨(sortList_del hdel hindexed hnodup hordered c).1.imp fun hij _ _ => hij,
        (hordered c).2⟩
    · rename_i htype
      rw [if_neg htype] at hordered
      cases h
      exact hordered

/-- `AddRequest` of a new request. -/
theorem addRequest_ordered (h : e.addRequest rq = .ok e') (hindexed : e.sched.Indexed e.reqs)
    (hordered : e.sched.Ordered e.reqs none) : e'.sched.Ordered e.reqs none := by
  unfold addRequest at h
  split at h
  · rename_i hsched
    rw [hsched] at hordered
    exact absurd hordered id
  · rename_i d hsched
    dsimp only at h
    obtain ⟨d', hadd, h⟩ := bind_eq_ok.mp h
    cases h
    rw [hsched] at hindexed hordered
    have hfifo := (deadlineAddRqRb_spec hadd (hindexed _).1).1
    have hordered' := deadlineAddRqRb_ordered hadd (hindexed _).1 hordered
    intro c
    refine ⟨(hordered' c).1, fun i hi => ?_⟩
    have hin := (hordered' c).2 i hi
    dsimp only
    split
    · exact List.mem_append_left _ hin
    · exact hin

/-! ### Merging -/

/-- Every index is right: the hash but for `x`, and the trees but for `y`. -/
structure Indexing (p : Params) (x y : Option Nat) (e : Elevator) : Prop where
  hashed : Hashed p x e
  ordered : e.sched.Ordered e.reqs y

/-- `ElvMergeRequests(rq, next)` puts `rq` at its place in the hash and drops `next`. -/
theorem elvMergeRequests_indexing (h : e.elvMergeRequests p rq next = .ok e') (hwf : WF e)
    (hrq : rq ∈ e.sched.members) (hnext : next ∈ e.sched.members) (hne : rq ≠ next)
    (hi : Indexing p (some rq) (some next) e) : Indexing p none none e' := by
  unfold elvMergeRequests at h
  obtain ⟨s, hs, h⟩ := bind_eq_ok.mp h
  obtain ⟨e₁, hrepo, h⟩ := bind_eq_ok.mp h
  cases h
  obtain ⟨hmembers, -⟩ := removeRequest_spec hs hwf.indexed hwf.nodup hnext
  have hordered := removeRequest_ordered hs hwf.indexed hwf.nodup hi.ordered
  obtain ⟨hre, -, -, hreOther⟩ := rqhashReposition_spec hrepo
  obtain ⟨hmem₁, hnodup₁⟩ := rqhashReposition_mem hrepo (hwf.onHash rq hrq) hi.hashed.nodup
  obtain ⟨hdel, -, -⟩ := rqhashDel_spec e₁ next
  have honNext : (e₁.reqs next).onHash = true := by
    rw [hreOther next hne.symm]
    exact hwf.onHash next hnext
  have hboth := hre.trans hdel
  have hsched : (e₁.rqhashDel next).sched = s := hboth.sched
  refine ⟨⟨fun i _ b => ?_, fun b => ?_⟩, ?_⟩
  · show i ∈ (e₁.rqhashDel next).hash b ↔ i ∈ (e₁.rqhashDel next).sched.members ∧
      b = p.hashFn (rqHashKey ((e₁.rqhashDel next).reqs i))
    rw [rqhashDel_hash honNext b, List.mem_filter, decide_eq_true_iff, hmem₁ b i, hsched, hmembers,
      hwf.nodup.mem_erase_iff, key_of_core (hboth.core i)]
    show ((i = rq ∧ b = p.hashFn (rqHashKey (e.reqs rq))) ∨ (i ≠ rq ∧ i ∈ e.hash b)) ∧ i ≠ next ↔
      (i ≠ next ∧ i ∈ e.sched.members) ∧ b = p.hashFn (rqHashKey (e.reqs i))
    by_cases hirq : i = rq
    · subst hirq
      simp [hne, hrq]
    · rw [hi.hashed.mem i (fun heq => hirq (Option.some.inj heq)) b]
      simp [hirq]
      tauto
  · show ((e₁.rqhashDel next).hash b).Nodup
    rw [rqhashDel_hash honNext b]
    exact (hnodup₁ b).filter _
  · show (e₁.rqhashDel next).sched.Ordered (e₁.rqhashDel next).reqs none
    rw [hsched]
    exact hordered.congr fun i _ => off_of_core (hboth.core i)

/-- `ElvMergedRequest(rq, type)` puts the request at its place in the hash when it grew at its end,
and in the tree when it grew at its front. -/
theorem elvMergedRequest_indexing {type : MergeType} (h : e.elvMergedRequest p rq type = .ok e')
    (hwf : WF e) (hrq : rq ∈ e.sched.members)
    (hi : Indexing p (if type = .backMerge then some rq else none)
      (if type = .frontMerge then some rq else none) e) : Indexing p none none e' := by
  unfold elvMergedRequest at h
  obtain ⟨s, hs, h⟩ := bind_eq_ok.mp h
  dsimp only at h
  obtain ⟨e₁, hrepo, h⟩ := bind_eq_ok.mp h
  cases h
  obtain ⟨hmembers, -⟩ := resortRequest_spec hs hwf.indexed
  have hordered := resortRequest_ordered hs hwf.indexed hwf.nodup hi.ordered
  have hhashed := hi.hashed
  split at hrepo
  · rename_i htype
    rw [if_pos htype] at hhashed
    obtain ⟨hre, -⟩ := rqhashReposition_spec hrepo
    obtain ⟨hmem₁, hnodup₁⟩ := rqhashReposition_mem hrepo (hwf.onHash rq hrq) hhashed.nodup
    refine ⟨⟨fun i _ b => ?_, hnodup₁⟩, ?_⟩
    · show i ∈ e₁.hash b ↔ i ∈ e₁.sched.members ∧ b = p.hashFn (rqHashKey (e₁.reqs i))
      rw [hmem₁ b i, hre.sched, key_of_core (hre.core i)]
      show ((i = rq ∧ b = p.hashFn (rqHashKey (e.reqs rq))) ∨ (i ≠ rq ∧ i ∈ e.hash b)) ↔
        i ∈ s.members ∧ b = p.hashFn (rqHashKey (e.reqs i))
      rw [hmembers]
      by_cases hirq : i = rq
      · subst hirq
        simp [hrq]
      · rw [hhashed.mem i (fun heq => hirq (Option.some.inj heq)) b]
        simp [hirq]
    · show e₁.sched.Ordered e₁.reqs none
      rw [hre.sched]
      exact hordered.congr fun i _ => off_of_core (hre.core i)
  · rename_i htype
    rw [if_neg htype] at hhashed
    cases hrepo
    exact ⟨hhashed.congr rfl (fun i => by rw [← hmembers]) (fun _ _ => rfl), hordered⟩

/-- Replacing a request keeps the indexes right for the others. -/
theorem Indexing.setReq {x' y y' : Option Nat} {r : Request} (h : Indexing p x y e)
    (hx : x' = some rq ∧ x = none ∨ x' = x ∧ rqHashKey r = rqHashKey (e.reqs rq))
    (hy : y' = some rq ∧ y = none ∨ y' = y ∧ r.off = (e.reqs rq).off) :
    Indexing p x' y' (e.setReq rq r) := by
  constructor
  · rcases hx with ⟨rfl, rfl⟩ | ⟨rfl, hkey⟩
    · refine (h.hashed.weaken (some rq)).congr rfl (fun _ => Iff.rfl) fun i hi => ?_
      rw [reqs_setReq_ne _ _ fun heq => hi (by rw [heq])]
    · refine h.hashed.congr rfl (fun _ => Iff.rfl) fun i _ => ?_
      by_cases hirq : i = rq
      · rw [hirq, reqs_setReq_self, hkey]
      · rw [reqs_setReq_ne _ _ hirq]
  · rcases hy with ⟨rfl, rfl⟩ | ⟨rfl, hoff⟩
    · refine (h.ordered.weaken (some rq)).congr fun i hi => ?_
      rw [reqs_setReq_ne _ _ fun heq => hi (by rw [heq])]
    · refine h.ordered.congr fun i _ => ?_
      by_cases hirq : i = rq
      · rw [hirq, reqs_setReq_self, hoff]
      · rw [reqs_setReq_ne _ _ hirq]

/-- `AttemptMerge(rq, next)` leaves all indexes right when it merges. -/
theorem attemptMerge_indexing {r : Bool × Elevator} (h : e.attemptMerge p rq next = .ok r)
    (htrue : r.1 = true) (hwf : WF e) (hrq : rq ∈ e.sched.members) (hnext : next ∈ e.sched.members)
    (hne : rq ≠ next) (hi : Indexing p (some rq) (some next) e) : Indexing p none none r.2 := by
  unfold attemptMerge at h
  dsimp only at h
  split at h
  · cases h
    cases htrue
  · split at h
    · cases h
      cases htrue
    · split at h
      · cases h
        cases htrue
      · obtain ⟨u, -, h⟩ := bind_eq_ok.mp h
        obtain ⟨e₁, hmerge, h⟩ := bind_eq_ok.mp h
        cases h
        have hwf₁ : WF (e.setReq next { e.reqs next with batch := [] }) := hwf.setReq rfl rfl
        have hwf₂ : WF ((e.setReq next { e.reqs next with batch := [] }).setReq rq
            { e.reqs rq with
              count := add64 (e.reqs rq).count (e.reqs next).count
              batch := (e.reqs rq).batch ++ (e.reqs next).batch }) := hwf₁.setReq
          (by rw [reqs_setReq_ne _ _ hne]) (by rw [reqs_setReq_ne _ _ hne])
        have hi₁ : Indexing p (some rq) (some next)
            (e.setReq next { e.reqs next with batch := [] }) :=
          hi.setReq (.inr ⟨rfl, rfl⟩) (.inr ⟨rfl, rfl⟩)
        have hmerged : Indexing p none none e₁ := by
          refine elvMergeRequests_indexing hmerge hwf₂ hrq hnext hne ⟨?_, ?_⟩
          · refine hi₁.hashed.congr rfl (fun _ => Iff.rfl) fun i hi => ?_
            rw [reqs_setReq_ne _ _ fun heq => hi (by rw [heq])]
          · refine hi₁.ordered.congr fun i _ => ?_
            by_cases hirq : i = rq
            · rw [hirq, reqs_setReq_self, reqs_setReq_ne _ _ hne]
            · rw [reqs_setReq_ne _ _ hirq]
        exact ⟨⟨hmerged.hashed.mem, hmerged.hashed.nodup⟩, hmerged.ordered⟩

/-- The end of both merging branches of `Enqueue` leaves all indexes right. -/
theorem grown_indexing {x : Except Fault (Bool × Elevator)} {t : MergeType}
    {r : Bool × Elevator} (hwf : WF e) (hrq : rq ∈ e.sched.members)
    (hx : t = .backMerge ∧ x = e.attemptBackMerge p rq ∨
      t = .frontMerge ∧ x = e.attemptFrontMerge p rq)
    (h : (x.bind fun m => if m.1 then .ok (true, m.2)
      else (m.2.elvMergedRequest p rq t).bind fun e => .ok (true, e)) = .ok r)
    (hi : Indexing p (if t = .backMerge then some rq else none)
      (if t = .frontMerge then some rq else none) e) : Indexing p none none r.2 := by
  obtain ⟨m, hm, h⟩ := bind_eq_ok.mp h
  have hattempt : m = (false, e) ∨ (m.1 = true ∧ Indexing p none none m.2) := by
    rcases hx with ⟨rfl, rfl⟩ | ⟨rfl, rfl⟩
    · have hback := attempt_spec hwf hrq (.inl hm)
      refine hback.imp_right fun hmerged => ⟨hmerged.1, ?_⟩
      have htrue := hmerged.1
      unfold attemptBackMerge at hm
      split at hm
      · rename_i next hnext
        obtain ⟨hmem, hne⟩ := neighbour_spec hwf.indexed hwf.nodup (.inl hnext)
        exact attemptMerge_indexing hm htrue hwf hrq hmem hne.symm
          ⟨hi.hashed, hi.ordered.weaken (some next)⟩
      · cases hm
        cases htrue
    · have hfront := attempt_spec hwf hrq (.inr hm)
      refine hfront.imp_right fun hmerged => ⟨hmerged.1, ?_⟩
      have htrue := hmerged.1
      unfold attemptFrontMerge at hm
      split at hm
      · rename_i prev hprev
        obtain ⟨hmem, hne⟩ := neighbour_spec hwf.indexed hwf.nodup (.inr hprev)
        exact attemptMerge_indexing hm htrue hwf hmem hrq hne
          ⟨hi.hashed.weaken (some prev), hi.ordered⟩
      · cases hm
        cases htrue
  rcases hattempt with rfl | ⟨htrue, hi'⟩
  · obtain ⟨e', hmerged, h⟩ := bind_eq_ok.mp h
    cases h
    exact elvMergedRequest_indexing hmerged hwf hrq hi
  · rw [if_pos htrue] at h
    cases h
    exact hi'

/-- A merge that is too large changes no index. -/
theorem llMergeFn_indexing {req : Ioreq} (hi : Indexing p none none e) :
    Indexing p none none (e.llMergeFn p rq req).2 := by
  unfold llMergeFn
  split
  · exact ⟨⟨hi.hashed.mem, hi.hashed.nodup⟩, hi.ordered⟩
  · exact hi

/-- A request that grows at its front keeps its end. -/
theorem front_key {a b n c : Nat} (h : sub64 a c = b) : add64 b (add64 n c) = add64 a n := by
  subst h
  unfold sub64 add64
  omega

/-- Merging an ioreq leaves all indexes right. -/
theorem mergeIoreq_indexing {req : Submitted} {r : Bool × Elevator}
    (h : e.mergeIoreq p req = .ok r) (hwf : WF e) (hi : Indexing p none none e) :
    Indexing p none none r.2 := by
  unfold mergeIoreq at h
  split at h
  · -- behind the request: its end moves
    rename_i rq hfind
    obtain ⟨hmem, -, -⟩ := elvMergeVirtual_spec hfind hwf (by decide)
    have hll := @llMergeFn_indexing e p rq req.toIoreq hi
    dsimp only at h
    split at h
    · cases h
      exact hll
    · have hwf₁ : WF (e.setReq rq { e.reqs rq with
          batch := (e.reqs rq).batch ++ [req]
          count := add64 (e.reqs rq).count req.count }) := hwf.setReq rfl rfl
      have hi₁ : Indexing p (some rq) none (e.setReq rq { e.reqs rq with
          batch := (e.reqs rq).batch ++ [req]
          count := add64 (e.reqs rq).count req.count }) :=
        hi.setReq (.inl ⟨rfl, rfl⟩) (.inr ⟨rfl, rfl⟩)
      exact grown_indexing hwf₁ hmem (.inl ⟨rfl, rfl⟩) h hi₁
  · -- in front of the request: its offset moves, and its end stays
    rename_i rq hfind
    obtain ⟨hmem, -, hfront⟩ := elvMergeVirtual_spec hfind hwf (by decide)
    have hll := @llMergeFn_indexing e p rq req.toIoreq hi
    dsimp only at h
    split at h
    · cases h
      exact hll
    · have hwf₁ : WF (e.setReq rq { e.reqs rq with
          batch := req :: (e.reqs rq).batch
          count := add64 (e.reqs rq).count req.count
          off := req.off }) := hwf.setReq rfl rfl
      have hi₁ : Indexing p none (some rq) (e.setReq rq { e.reqs rq with
          batch := req :: (e.reqs rq).batch
          count := add64 (e.reqs rq).count req.count
          off := req.off }) :=
        hi.setReq (.inr ⟨rfl, front_key (hfront rfl).1⟩) (.inl ⟨rfl, rfl⟩)
      exact grown_indexing hwf₁ hmem (.inr ⟨rfl, rfl⟩) h hi₁
  · cases h
    exact hi

/-! ### New requests, and the way out -/

/-- A new request joins all indexes. -/
theorem elvAddRequest_indexing {req : Submitted} (hwf : WF e) (hi : Indexing p none none e)
    (h : (e.newRequest req).elvAddRequest p e.nextReq = .ok e') : Indexing p none none e' := by
  have hnot : e.nextReq ∉ e.sched.members := fun hmem => Nat.lt_irrefl _ (hwf.lt _ hmem)
  obtain ⟨-, hadded⟩ := elvAddRequest_spec hwf h
  unfold elvAddRequest at h
  dsimp only at h
  obtain ⟨e₁, hhash, hadd⟩ := bind_eq_ok.mp h
  obtain ⟨hre, -⟩ := rqhashAdd_spec hhash
  obtain ⟨hmem₁, hnodup₁⟩ :=
    rqhashAdd_mem hhash (fun b hin => hnot (hwf.hash b _ hin)) hi.hashed.nodup
  rw [← key_of_core (hre.core e.nextReq)] at hmem₁
  have hsched₁ : e₁.sched = e.sched := hre.sched
  have hcore₁ : ∀ i, i ≠ e.nextReq → (e₁.reqs i).core = (e.reqs i).core := by
    intro i hine
    rw [hre.core i]
    show Request.core (if i = e.nextReq then _ else if i = e.nextReq then _ else e.reqs i) = _
    rw [if_neg hine, if_neg hine]
  have hindexed₁ : e₁.sched.Indexed e₁.reqs := by
    rw [hsched₁]
    refine hwf.indexed.congr fun i hin => cmd_of_core (hcore₁ i ?_)
    rintro rfl
    exact hnot hin
  have hordered₁ : e₁.sched.Ordered e₁.reqs none := by
    rw [hsched₁] at hindexed₁ ⊢
    refine Sched.Ordered.strengthen ?_ hindexed₁ hnot
    exact (hi.ordered.weaken _).congr fun i hine =>
      off_of_core (hcore₁ i fun heq => hine (by rw [heq]))
  have hordered := addRequest_ordered hadd hindexed₁ hordered₁
  obtain ⟨s, rfl, -⟩ := addRequest_spec hadd hindexed₁
  refine ⟨⟨fun i _ b => ?_, hnodup₁⟩, hordered⟩
  rw [hadded.members.mem_iff, List.mem_cons]
  show i ∈ e₁.hash b ↔ _ ∧ b = p.hashFn (rqHashKey (e₁.reqs i))
  rw [hmem₁ b i]
  show _ ∨ i ∈ e.hash b ↔ _
  by_cases hine : i = e.nextReq
  · subst hine
    simp
    exact fun hin => absurd (hwf.hash b _ hin) hnot
  · rw [hi.hashed.mem i (fun h => nomatch h) b, key_of_core (hcore₁ i hine)]
    simp [hine]

/-- A request that is taken off its queues and the hash leaves all indexes right. -/
theorem rqhashDel_indexing {s : Sched} {last : Option Nat} (hwf : WF e)
    (hi : Indexing p none none e) (hmem : rq ∈ e.sched.members)
    (hmembers : s.members = e.sched.members.erase rq) (hs : s.Ordered e.reqs none) :
    Indexing p none none ({ e with sched := s, last := last }.rqhashDel rq) := by
  obtain ⟨hre, -⟩ := rqhashDel_spec { e with sched := s, last := last } rq
  have hhash := rqhashDel_hash (e := { e with sched := s, last := last }) (hwf.onHash rq hmem)
  refine ⟨⟨fun i _ b => ?_, fun b => ?_⟩, ?_⟩
  · rw [hhash b, List.mem_filter, decide_eq_true_iff, hre.sched, key_of_core (hre.core i)]
    show i ∈ e.hash b ∧ i ≠ rq ↔ i ∈ s.members ∧ b = p.hashFn (rqHashKey (e.reqs i))
    rw [hmembers, hwf.nodup.mem_erase_iff, hi.hashed.mem i (fun h => nomatch h) b]
    tauto
  · rw [hhash b]
    exact (hi.hashed.nodup b).filter _
  · rw [hre.sched]
    exact hs.congr fun i _ => off_of_core (hre.core i)

/-- Without the first request of the direction that is dispatched, the order goes on. -/
theorem order_erase {d d' : Deadline} {rw : Cmd} {rest : List Nat}
    (hindexed : (Sched.deadline d).Indexed e.reqs)
    (hrw : rw = if d.fifoList .write ≠ [] then Cmd.write else Cmd.read)
    (hfirst : (d.sortList rw).toList = rq :: rest)
    (hd' : ∀ c, (d'.sortList c).toList = (d.sortList c).toList.erase rq) :
    (Sched.deadline d).order = rq :: (Sched.deadline d').order := by
  show (d.sortList .write).toList ++ (d.sortList .read).toList =
    rq :: ((d'.sortList .write).toList ++ (d'.sortList .read).toList)
  rw [hd', hd']
  split at hrw
  · subst hrw
    have hout : rq ∉ (d.sortList .read).toList := by
      intro hin
      have hread := (hindexed .read).2.2 rq ((hindexed .read).2.1.mem_iff.mp hin)
      have hwrite := (hindexed .write).2.2 rq ((hindexed .write).2.1.mem_iff.mp
        (by rw [hfirst]; exact List.mem_cons_self))
      exact absurd (hread.symm.trans hwrite) (by decide)
    rw [hfirst, List.erase_cons_head, List.erase_of_not_mem hout]
    rfl
  · rename_i hempty
    subst hrw
    have hwrite : (d.sortList .write).toList = [] := by
      have hperm := (hindexed .write).2.1
      rw [not_not.mp hempty] at hperm
      exact hperm.eq_nil
    rw [hwrite, hfirst, List.erase_cons_head]
    rfl

/-- `deadline_move_request` takes a request out of the indexes. -/
theorem deadlineMoveRequest_indexing {d : Deadline} (h : e.deadlineMoveRequest d rq = .ok e')
    (hwf : WF e) (hi : Indexing p none none e) (hsched : e.sched = .deadline d)
    (hmem : rq ∈ e.sched.members) :
    e'.queue = [rq] ∧ Indexing p none none e' ∧ ∃ d', e'.sched = .deadline d' ∧
      ∀ c, (d'.sortList c).toList = (d.sortList c).toList.erase rq := by
  have hqueue := (deadlineMoveRequest_spec h hwf hsched hmem).1
  unfold deadlineMoveRequest at h
  dsimp only at h
  obtain ⟨d', hremove, h⟩ := bind_eq_ok.mp h
  cases h
  have hindexed := hwf.indexed
  have hnodup := hwf.nodup
  have hordered := hi.ordered
  rw [hsched] at hindexed hnodup hordered
  have hmem' := hmem
  rw [hsched] at hmem'
  have hordered₁ : (Sched.deadline { d with
      nextRq := fun c =>
        if c = (e.reqs rq).cmd then rbNextRq (d.sortList (e.reqs rq).cmd) rq else none }).Ordered
      e.reqs none := by
    refine fun c => ⟨(hordered c).1, fun i hnext => ?_⟩
    dsimp only at hnext
    split at hnext
    · next hc =>
        rw [hc]
        exact (hindexed _).2.1.mem_iff.mp (rbNextRq_mem hnext (sortList_nodup hindexed hnodup _)).1
    · cases hnext
  obtain ⟨hordered', herase⟩ :=
    deadlineRemoveRequest_ordered hremove hindexed hnodup (hordered₁.weaken (some rq))
  have hmembers : (Sched.deadline d').members = e.sched.members.erase rq := by
    rw [hsched]
    exact (deadlineRemoveRequest_spec hremove hindexed hnodup hmem').1
  obtain ⟨hre, -⟩ := rqhashDel_spec { e with
    sched := .deadline d', last := if e.last = some rq then none else e.last } rq
  have hdel := @rqhashDel_indexing e p rq (.deadline d') (if e.last = some rq then none else e.last)
    hwf hi hmem hmembers hordered'
  exact ⟨hqueue, ⟨⟨hdel.hashed.mem, hdel.hashed.nodup⟩, hdel.ordered⟩, d', hre.sched, herase⟩

/-- `Dispatch` moves the first request of the order to `Queue`. -/
theorem dispatch_indexing (h : e.dispatch = .ok (some e')) (hwf : WF e)
    (hi : Indexing p none none e) :
    ∃ rq, e'.queue = [rq] ∧ Indexing p none none e' ∧ e.sched.order = rq :: e'.sched.order := by
  unfold dispatch at h
  split at h
  · cases h
  · rename_i rq rest hsched
    have hordered := hi.ordered
    rw [hsched] at hordered
    exact absurd hordered id
  · rename_i d hsched
    split at h
    · cases h
    · dsimp only at h
      split at h
      · cases h
      · rename_i node hfirst
        obtain ⟨e₂, hmove, h⟩ := bind_eq_ok.mp h
        cases h
        obtain ⟨rw, hrw⟩ : ∃ rw, rw = if d.fifoList .write ≠ [] then Cmd.write else Cmd.read :=
          ⟨_, rfl⟩
        rw [← hrw] at hfirst
        have hindexed := hwf.indexed
        rw [hsched] at hindexed
        obtain ⟨htree, hprefix⟩ := Rbtree.rbFirst_some hfirst
        have hlist := Pos.toList_tree node
        rw [htree, hprefix, List.nil_append] at hlist
        have hmem : node.entry ∈ e.sched.members := by
          rw [hsched]
          refine Sched.mem_deadline.mpr ⟨rw, (hindexed rw).2.1.mem_iff.mp ?_⟩
          rw [hlist]
          exact List.mem_cons_self
        obtain ⟨hqueue, hi', d', hsched', herase⟩ :=
          deadlineMoveRequest_indexing hmove hwf hi hsched hmem
        refine ⟨node.entry, hqueue, hi', ?_⟩
        rw [hsched, hsched']
        exact order_erase hindexed hrw hlist herase

/-- `Dequeue` takes the first request of the order. -/
theorem dequeue_indexing {r : Option Nat × Elevator} (h : e.dequeue = .ok r) (hwf : WF e)
    (hi : Indexing p none none e) :
    Indexing p none none r.2 ∧ ∀ rq, r.1 = some rq → e.sched.order = rq :: r.2.sched.order := by
  unfold dequeue elvNextRequest at h
  obtain ⟨n, hnext, h⟩ := bind_eq_ok.mp h
  rw [hwf.queue] at hnext
  dsimp only at hnext
  obtain ⟨o, hdispatch, hnext⟩ := bind_eq_ok.mp hnext
  cases o with
  | none =>
      cases hnext
      cases h
      exact ⟨hi, fun rq hrq => nomatch hrq⟩
  | some e₁ =>
      obtain ⟨rq, hqueue, hi₁, horder⟩ := dispatch_indexing hdispatch hwf hi
      dsimp only at hnext
      rw [hqueue] at hnext
      cases hnext
      dsimp only at h
      have hi₂ : Indexing p none none (e₁.setReq rq
          { e₁.reqs rq with flags := (e₁.reqs rq).flags ||| reqStarted }) :=
        hi₁.setReq (.inr ⟨rfl, rfl⟩) (.inr ⟨rfl, rfl⟩)
      cases h
      split
      · refine ⟨⟨⟨hi₂.hashed.mem, hi₂.hashed.nodup⟩, hi₂.ordered⟩, ?_⟩
        rintro i ⟨⟩
        exact horder
      · refine ⟨⟨⟨hi₂.hashed.mem, hi₂.hashed.nodup⟩, hi₂.ordered⟩, ?_⟩
        rintro i ⟨⟩
        exact horder

/-- An empty elevator. -/
theorem indexing_start : Indexing p none none (start .startDeadline) := by
  refine ⟨⟨fun rq _ b => ?_, fun b => List.nodup_nil⟩, fun cmd => ⟨.nil, fun rq h => nomatch h⟩⟩
  rw [(wf_start (.inr rfl)).2]
  exact iff_of_false List.not_mem_nil fun h => absurd h.1 List.not_mem_nil

/-- The three indexes of the deadline elevator hold one set of requests for each direction. -/
structure OneSet (p : Params) (e : Elevator) (d : Deadline) : Prop where
  sched : e.sched = .deadline d
  fifo : ∀ cmd, (d.fifoList cmd).Nodup
  cmd : ∀ cmd, ∀ rq ∈ d.fifoList cmd, (e.reqs rq).cmd = cmd
  tree : ∀ cmd, (d.sortList cmd).toList.Perm (d.fifoList cmd)
  sorted : ∀ cmd, (d.sortList cmd).toList.Pairwise fun i j => (e.reqs i).off < (e.reqs j).off
  hash : ∀ b rq, rq ∈ e.hash b ↔
    rq ∈ d.fifoList (e.reqs rq).cmd ∧ b = p.hashFn (rqHashKey (e.reqs rq))
  chain : ∀ b, (e.hash b).Nodup
  last : ∀ rq, e.last = some rq → rq ∈ d.fifoList (e.reqs rq).cmd
  next : ∀ cmd rq, d.nextRq cmd = some rq → rq ∈ d.fifoList cmd

/-- The list `q` grows to `q'` by the requests: the writes and then the reads, both in the order of
their offsets. -/
def Drains (reqs : Nat → Request) (members q q' : List Nat) : Prop :=
  ∃ w r, q' = q ++ (w ++ r) ∧ (w ++ r).Perm members ∧
    (∀ rq ∈ w, (reqs rq).cmd = .write) ∧ (∀ rq ∈ r, (reqs rq).cmd = .read) ∧
    (w.Pairwise fun i j => (reqs i).off < (reqs j).off) ∧
    r.Pairwise fun i j => (reqs i).off < (reqs j).off

/-- What the indexes of a deadline elevator are. -/
theorem Indexing.oneSet (hi : Indexing p none none e) (hwf : WF e) : ∃ d, OneSet p e d := by
  obtain ⟨d, hsched⟩ : ∃ d, e.sched = .deadline d := by
    have hordered := hi.ordered
    cases hsched : e.sched with
    | noop =>
        rw [hsched] at hordered
        exact absurd hordered id
    | deadline d => exact ⟨d, rfl⟩
  have hindexed := hwf.indexed
  have hordered := hi.ordered
  have hnodup := hwf.nodup
  rw [hsched] at hindexed hordered hnodup
  have hmem : ∀ rq, rq ∈ e.sched.members ↔ rq ∈ d.fifoList (e.reqs rq).cmd := by
    intro rq
    rw [hsched, Sched.mem_deadline]
    constructor
    · rintro ⟨cmd, hin⟩
      rwa [(hindexed cmd).2.2 rq hin]
    · exact fun hin => ⟨_, hin⟩
  refine ⟨d, hsched, fun cmd => ?_, fun cmd => (hindexed cmd).2.2, fun cmd => (hindexed cmd).2.1,
    fun cmd => ?_, fun b rq => ?_, hi.hashed.nodup, fun rq hrq => (hmem rq).mp (hwf.last rq hrq),
    fun cmd => (hordered cmd).2⟩
  · exact (hindexed cmd).2.1.nodup_iff.mp (sortList_nodup hindexed hnodup cmd)
  · exact (hordered cmd).1.imp fun hij => hij (fun h => nomatch h) (fun h => nomatch h)
  · rw [hi.hashed.mem rq (fun h => nomatch h) b, hmem rq]

/-- The order of a deadline elevator is the one of a drain. -/
theorem Indexing.drains {reqs : Nat → Request} (hi : Indexing p none none e) (hwf : WF e)
    (hcore : ∀ i, (reqs i).core = (e.reqs i).core) (q : List Nat) :
    Drains reqs e.sched.members q (q ++ e.sched.order) := by
  obtain ⟨d, h⟩ := hi.oneSet hwf
  have hsorted : ∀ c, (d.sortList c).toList.Pairwise fun i j => (reqs i).off < (reqs j).off := by
    refine fun c => (h.sorted c).imp fun {i j} hij => ?_
    rw [off_of_core (hcore i), off_of_core (hcore j)]
    exact hij
  have hcmd : ∀ c, ∀ rq ∈ (d.sortList c).toList, (reqs rq).cmd = c := by
    intro c rq hrq
    rw [cmd_of_core (hcore rq)]
    exact h.cmd c rq ((h.tree c).mem_iff.mp hrq)
  have hperm := Sched.order_perm hwf.indexed
  rw [h.sched] at hperm ⊢
  exact ⟨_, _, rfl, hperm, hcmd .write, hcmd .read, hsorted .write, hsorted .read⟩

end Elevator

namespace Disk

open Elevator

variable {d d' : Disk} {p : Params} {rq : Nat} {req : Submitted}

/-- The loop of `Request` hands over all requests in their order. -/
theorem requestLoop_indexing {k : Nat} (h : requestLoop k d = .ok d') (hwf : WF d.elv)
    (hi : Indexing p none none d.elv) :
    ∃ e, d' = d.ready e d.elv.sched.order ∧ e.sched.members = [] ∧
      (∀ i, (e.reqs i).core = (d.elv.reqs i).core) ∧ Indexing p none none e := by
  induction k generalizing d with
  | zero => cases h
  | succ k ih =>
      unfold requestLoop at h
      obtain ⟨r, hdequeue, h⟩ := bind_eq_ok.mp h
      obtain ⟨hi', horder⟩ := dequeue_indexing hdequeue hwf hi
      rcases dequeue_spec hdequeue hwf with ⟨rfl, hempty⟩ | ⟨rq, hrq, hwf', htaken, -⟩
      · cases h
        have hnil : d.elv.sched.order = [] := by
          have hperm := Sched.order_perm hwf.indexed
          rw [hempty] at hperm
          exact hperm.eq_nil
        exact ⟨d.elv, by rw [hnil]; exact (ready_nil d d.elv).symm, hempty, fun _ => rfl, hi⟩
      · rw [hrq] at h
        dsimp only at h
        obtain ⟨d₁, hsubmit, hloop⟩ := bind_eq_ok.mp h
        have hd₁ : d₁ = d.ready r.2 [rq] := submitRq_spec hsubmit
        subst hd₁
        obtain ⟨e, rfl, hempty, hcore, hie⟩ := ih hloop hwf' hi'
        refine ⟨e, ?_, hempty, fun i => (hcore i).trans (htaken.core i), hie⟩
        rw [horder rq hrq]
        exact ready_cons d r.2 e rq _

/-- The elevator is empty, and everything in it was handed over. -/
structure Drained (d : Disk) (members : List Nat) (d' : Disk) : Prop where
  empty : d'.elv.sched.members = []
  queue : Drains d'.elv.reqs members d.queue d'.queue

/-- `Request` hands over everything. -/
theorem request_drained (h : d.request = .ok d') (hwf : WF d.elv)
    (hi : Indexing p none none d.elv) :
    Indexing p none none d'.elv ∧ Drained d d.elv.sched.members d' := by
  obtain ⟨e, rfl, hempty, hcore, hie⟩ := requestLoop_indexing h hwf hi
  exact ⟨hie, hempty, hi.drains hwf hcore d.queue⟩

/-- `Unplug` does nothing, or hands over everything. -/
theorem unplug_drained (h : d.unplug = .ok d') (hwf : WF d.elv)
    (hi : Indexing p none none d.elv) :
    Indexing p none none d'.elv ∧
      (d'.queue = d.queue ∨ Drained d d.elv.sched.members d') := by
  unfold unplug at h
  split at h
  · obtain ⟨hi', hdrained⟩ := request_drained h hwf hi
    exact ⟨hi', .inr ⟨hdrained.empty, hdrained.queue⟩⟩
  · cases h
    exact ⟨hi, .inl rfl⟩

/-- Submitting an ioreq leaves all indexes right. When the disk is unplugged, everything with the
new request is handed over. -/
theorem submitIoreq_drained {r : Ioreq} (h : d.submitIoreq p r = .ok d') (hwf : WF d.elv)
    (hi : Indexing p none none d.elv) :
    Indexing p none none d'.elv ∧
      (d'.queue = d.queue ∨ Drained d (d.elv.nextReq :: d.elv.sched.members) d') := by
  unfold submitIoreq at h
  dsimp only at h
  obtain ⟨m, hmerge, h⟩ := bind_eq_ok.mp h
  obtain ⟨hwf₀, hcase⟩ := mergeIoreq_spec hmerge hwf
  have hi₀ := mergeIoreq_indexing hmerge hwf hi
  split at h
  · cases h
    exact ⟨hi₀, .inl rfl⟩
  · rename_i hno
    obtain ⟨-, hsame⟩ := hcase.resolve_right fun hyes => hno hyes.1
    unfold enqueueNew at h
    dsimp only at h
    obtain ⟨d₁, hplug, h⟩ := bind_eq_ok.mp h
    have hd₁ := plugs_spec (d := { d with nextSerial := d.nextSerial + 1, elv := m.2 })
      (e := m.2.newRequest ⟨r, d.nextSerial⟩) hwf₀ rfl rfl hplug
    subst hd₁
    obtain ⟨e₁, hadd, h⟩ := bind_eq_ok.mp h
    obtain ⟨hwf₁, hadded⟩ := elvAddRequest_spec hwf₀ hadd
    have hi₁ := elvAddRequest_indexing hwf₀ hi₀ hadd
    split at h
    · obtain ⟨hi', hqueue⟩ := unplug_drained h hwf₁ hi₁
      refine ⟨hi', hqueue.imp_right fun hdrained => ⟨hdrained.empty, ?_⟩⟩
      obtain ⟨w, l, hq, hperm, hrest⟩ := hdrained.queue
      refine ⟨w, l, hq, hperm.trans ?_, hrest⟩
      rw [← hsame.nextReq]
      exact hadded.members.trans (hsame.members.cons _)
    · cases h
      exact ⟨hi₁, .inl rfl⟩

/-- `WorkState` leaves the elevator alone. -/
theorem workState_elv (h : d.workState = .ok d') : d'.elv = d.elv := by
  unfold workState at h
  split at h
  · cases h
    rfl
  · obtain ⟨u, -, h⟩ := bind_eq_ok.mp h
    cases h
    rfl

/-- Every step leaves all indexes right. -/
theorem Step.indexing {ev : Event} (h : Step p d ev d') (hs : Sound d)
    (hi : Indexing p none none d.elv) : Indexing p none none d'.elv := by
  cases h with
  | clock => exact hi
  | submit hsubmit => exact (submitIoreq_drained hsubmit hs.wf hi).1
  | timer _ _ hunplug =>
      exact (unplug_drained (d := { d with timer := none }) hunplug hs.wf hi).1
  | thread _ _ hmachine =>
      unfold diskStateMachine at hmachine
      split at hmachine
      · rw [workState_elv hmachine]
        exact hi
      · split at hmachine
        · cases hmachine
        · cases hmachine
          exact hi
      · cases hmachine
        exact hi
  | complete => exact hi.setReq (.inr ⟨rfl, rfl⟩) (.inr ⟨rfl, rfl⟩)
  | endRequest _ _ _ hend =>
      unfold Disk.endRequest at hend
      obtain ⟨e, hput, hend⟩ := bind_eq_ok.mp hend
      unfold putRequest at hput
      obtain ⟨u, -, hput⟩ := bind_eq_ok.mp hput
      cases hput
      dsimp only at hend
      split at hend
      · cases hend
        exact ⟨⟨hi.hashed.mem, hi.hashed.nodup⟩, hi.ordered⟩
      · rw [workState_elv hend]
        exact ⟨⟨hi.hashed.mem, hi.hashed.nodup⟩, hi.ordered⟩
  | dequeue hdequeue hsubmit =>
      have hd' := submitRq_spec hsubmit
      subst hd'
      exact (dequeue_indexing hdequeue hs.wf hi).1

/-- **One set in three indexes.** In every state of every run of a disk with a deadline elevator,
the hash, the trees and the FIFO lists hold the same requests, every one of them once and at the
place of its current end and offset, and `last` and `next_rq` point to these requests if they are
not `NULL`. Whenever the disk takes all requests out of the elevator, in `Request` from such a state
or when an ioreq is submitted, it gets the writes and then the reads, both in the order of their
offsets. -/
theorem indexed_run {evs : List Event} (hrun : Run (Step p) (start .startDeadline) evs d) :
    (∃ s, OneSet p d.elv s) ∧
    (∀ d', d.request = .ok d' → Drained d d.elv.sched.members d') ∧
    (∀ d', d.unplug = .ok d' → d'.queue = d.queue ∨ Drained d d.elv.sched.members d') ∧
    ∀ r d', d.submitIoreq p r = .ok d' →
      d'.queue = d.queue ∨ Drained d (d.elv.nextReq :: d.elv.sched.members) d' := by
  obtain ⟨hs, hi⟩ : Sound d ∧ Indexing p none none d.elv :=
    hrun.invariant (P := fun d => Sound d ∧ Indexing p none none d.elv)
      (fun _ _ _ h hstep => ⟨(step_effect hstep h.1).1, hstep.indexing h.1 h.2⟩)
      ⟨(sound_start (.inr rfl)).1, indexing_start⟩
  exact ⟨hi.oneSet hs.wf, fun d' h => (request_drained h hs.wf hi).2,
    fun d' h => (unplug_drained h hs.wf hi).2, fun r d' h => (submitIoreq_drained h hs.wf hi).2⟩

/-- A read, a write, and an ioreq that joins the write. -/
theorem indexed_three :
    ∃ d, Run (Step ⟨2 ^ 20, 4, fun off => off % 64, 3⟩) (start .startDeadline)
        [.submit ⟨.read, 0, 0, 0, 4096⟩, .submit ⟨.write, 0, 0, 16384, 4096⟩,
          .submit ⟨.write, 0, 0, 20480, 4096⟩] d ∧
      d.elv.sched.order = [1, 0] ∧
      (∃ s, OneSet ⟨2 ^ 20, 4, fun off => off % 64, 3⟩ d.elv s) := by
  have hexists : ∃ d, Run (Step ⟨2 ^ 20, 4, fun off => off % 64, 3⟩) (start .startDeadline)
      [.submit ⟨.read, 0, 0, 0, 4096⟩, .submit ⟨.write, 0, 0, 16384, 4096⟩,
        .submit ⟨.write, 0, 0, 20480, 4096⟩] d ∧ d.elv.sched.order = [1, 0] :=
    ⟨_, .cons (.submit rfl) <| .cons (.submit rfl) <| .cons (.submit rfl) (.nil _), rfl⟩
  obtain ⟨d, hrun, horder⟩ := hexists
  exact ⟨d, hrun, horder, (indexed_run hrun).1⟩

end Disk

end LustreSimulator
