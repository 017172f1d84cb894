import LustreSimulator.NrsTbfBinheap
import LustreSimulator.Proofs.CfsBinheapRuns
import LustreSimulator.Proofs.NrsTbfHeap

/-!
# `LustreSimulator.Proofs.NrsTbfBinheap`: the token bucket filter over its `cfs_binheap`

The heap of `heap.cpp` is right by the keys that the clients have now: wherever the scheduler changes
a key of a client that is in the heap, it relocates or removes the client (`enqueueCfs_spec`,
`dequeueCfs_spec`). So the scheduler over `cfs_binheap` refines the one over a `KeyedHeap`
(`run_refines`), and no call of `cfs_binheap` has a fault (`run_cfs_calls`).
-/

set_option autoImplicit false

namespace LustreSimulator.NrsTbf

open Lib

variable {p : Params} {s s' : NrsTbf} {h h' : CfsBinheap Jobid} {kh : KeyedHeap Jobid Key}
  {j : Jobid} {c c' : Client} {msg : Msg}

/-- The order of the clients is total. -/
theorem ordered_tbfCliCompare : NrsBinheap.Ordered tbfCliCompare := by
  have hiff : ∀ a b : Key, tbfCliCompare a b = true ↔
      a.deadline < b.deadline ∨ a.deadline = b.deadline ∧ a.checkTime ≤ b.checkTime := by
    intro a b
    unfold tbfCliCompare
    split
    · simp only [true_iff]
      omega
    · split
      · simp only [Bool.false_eq_true, false_iff]
        omega
      · split
        · simp only [true_iff]
          omega
        · split
          · simp only [Bool.false_eq_true, false_iff]
            omega
          · simp only [true_iff]
            omega
  refine ⟨fun a b => ?_, fun a b c hab hbc => ?_⟩
  · rw [hiff, hiff]
    omega
  · rw [hiff] at *
    omega

/-- The `cfs_binheap` holds the queued clients, in the order of their keys of now. -/
def InOrder (s : NrsTbf) (h : CfsBinheap Jobid) : Prop :=
  CfsBinheap.Good tbfCliCompare ⟨h, s.keyOf, fun j => (s.queued j).isSome⟩

/-- The key of a client. -/
theorem keyOf_eq (hc : s.clients j = some c) : s.keyOf j = c.key := by
  unfold keyOf
  rw [hc]

/-- The keys when the client of one job was replaced. -/
theorem keyOf_of_others (hother : ∀ i, i ≠ j → s'.clients i = s.clients i)
    (hc : s'.clients j = some c) : s'.keyOf = Function.update s.keyOf j c.key := by
  funext i
  by_cases hi : i = j
  · rw [hi, Function.update_self, keyOf_eq hc]
  · rw [Function.update_of_ne hi]
    unfold keyOf
    rw [hother i hi]

/-- The heap is in order when the queued clients have the same keys. -/
theorem InOrder.congr (hord : InOrder s h) (hqueued : ∀ i, s'.queued i = s.queued i) :
    InOrder s' h := by
  have hkey : ∀ i, (s.queued i).isSome = true → s'.keyOf i = s.keyOf i := by
    intro i hi
    obtain ⟨k, hk⟩ := Option.isSome_iff_exists.mp hi
    obtain ⟨c, hc, -, rfl⟩ := queued_eq_some.mp hk
    obtain ⟨c', hc', -, hkey⟩ := queued_eq_some.mp ((hqueued i).trans hk)
    rw [keyOf_eq hc, keyOf_eq hc', hkey]
  have hgood := CfsBinheap.Good.congr hord hkey
  have hflags : (fun i => (s'.queued i).isSome) = fun i => (s.queued i).isSome :=
    funext fun i => by rw [hqueued]
  unfold InOrder
  rw [hflags]
  exact hgood

/-- A client is in the heap when it is queued. -/
theorem HeapInv.queued_isSome {st : Heaped} (hinv : HeapInv st) (hc : st.tbf.clients j = some c) :
    (st.tbf.queued j).isSome = true ↔ c.inHeap = true := by
  rw [queued_eq hc, hinv.inHeap j c hc]
  by_cases hnil : c.queue = []
  · simp [hnil]
  · simp [hnil]

/-- After the update of the client the heap is in order by its new key. A client that is not queued
has no place in it. -/
theorem updateCfs_spec (hinv : HeapInv ⟨s, kh⟩) (hord : InOrder s h)
    (hupdate : (s.cliFindAdd p j).2.updateRuleRate p j (s.cliFindAdd p j).1 = .ok (c, s')) :
    ∃ h', updateCfs (s.cliFindAdd p j).2 s' j (s.cliFindAdd p j).1 h = .ok h' ∧
      CfsBinheap.Good tbfCliCompare ⟨h', s'.keyOf, fun i => (s.queued i).isSome⟩ ∧
      (s.queued j = none → h' = h) := by
  obtain ⟨hfound, hother, -⟩ := cliFindAdd_spec s p j
  obtain ⟨-, -, hc', hother'⟩ := updateRuleRate_spec hupdate hfound
  obtain ⟨-, hin, hsame⟩ := updateRuleRate_client hupdate
  have hkeys : s'.keyOf = Function.update s.keyOf j c.key :=
    keyOf_of_others (fun i hi => (hother' i hi).trans (hother i hi)) hc'
  have hqueued : (s.cliFindAdd p j).1.inHeap = true ↔ (s.queued j).isSome = true := by
    rcases (cliFindAdd_client s p j).2 with ⟨c₀, hc₀, heq⟩ | ⟨hnone, -, hout⟩
    · rw [heq, hinv.queued_isSome hc₀]
    · rw [hout]
      unfold queued
      rw [hnone]
      exact iff_of_false Bool.false_ne_true Bool.false_ne_true
  unfold updateCfs
  split
  · rename_i hchanged
    obtain ⟨h', heq, hgood⟩ :=
      CfsBinheap.Good.relocate ordered_tbfCliCompare hord (hqueued.mp hchanged.2) c.key
    refine ⟨h', ?_, by rw [hkeys]; exact hgood, fun hnone => ?_⟩
    case refine_2 =>
      have hsome := hqueued.mp hchanged.2
      rw [hnone] at hsome
      cases hsome
    unfold compareClients
    rw [hkeys]
    exact heq
  · rename_i hstay
    refine ⟨h, rfl, CfsBinheap.Good.congr hord fun i hi => ?_, fun _ => rfl⟩
    show s'.keyOf i = s.keyOf i
    rw [hkeys]
    by_cases hij : i = j
    · subst hij
      rw [Function.update_self]
      have hrate := hsame (by
        by_contra hne
        exact hstay ⟨hne, hqueued.mpr hi⟩)
      rcases (cliFindAdd_client s p i).2 with ⟨c₀, hc₀, heq⟩ | ⟨hnone, -⟩
      · rw [hrate, heq, keyOf_eq hc₀]
        rfl
      · exfalso
        change (s.queued i).isSome = true at hi
        unfold queued at hi
        rw [hnone] at hi
        cases hi
    · rw [Function.update_of_ne hij]

/-- The calls in `Enqueue` have no fault. Only the insertion of a client that was not queued can
fail, when there is no room, and then the heap is as it was. Otherwise the heap is in order
again. -/
theorem enqueueCfs_spec (hinv : HeapInv ⟨s, kh⟩) (hord : InOrder s h)
    (henq : s.enqueue p msg = .ok s') (alloc : Nat → Bool) :
    ∃ rc h', enqueueCfs s p msg alloc h = .ok (rc, h') ∧ (rc = 0 → InOrder s' h') ∧
      (rc ≠ 0 → rc = CfsBinheap.enomem ∧ h' = h ∧ s.queued msg.jobid = none ∧
        ¬ CfsBinheap.HasRoom h alloc) := by
  obtain ⟨c', hother, hc', hne', -⟩ := enqueue_heap henq hinv.inHeap []
  obtain ⟨c, s₁, hupdate, hcases⟩ := enqueue_cases henq
  obtain ⟨h₁, hcfs, hgood, hstay⟩ := updateCfs_spec hinv hord hupdate
  obtain ⟨hfound, hother₀, -⟩ := cliFindAdd_spec s p msg.jobid
  obtain ⟨-, hqueue, hc₁, hother₁⟩ := updateRuleRate_spec hupdate hfound
  have hnone : c.queue = [] ↔ s.queued msg.jobid = none := by
    rw [hqueue]
    rcases (cliFindAdd_client s p msg.jobid).2 with ⟨c₀, hc₀, heq⟩ | ⟨hno, hnil, -⟩
    · rw [heq, queued_eq hc₀]
      simp
    · unfold queued
      rw [hno]
      exact iff_of_true hnil rfl
  have hkey : c'.key = c.key := by
    rcases hcases with ⟨-, c₂, s₂, rfl, htimer, rfl⟩ | ⟨-, c₂, rfl, -, rfl⟩
    · have hclients := enqueueTimer_clients htimer
      have hc₂ : s₂.clients msg.jobid = some c' := hc'
      rw [hclients] at hc₂
      have hc₂ : (if msg.jobid = msg.jobid then some _ else _) = some c' := hc₂
      rw [if_pos rfl] at hc₂
      cases hc₂
      rfl
    · have hc₂ : (if msg.jobid = msg.jobid then some _ else _) = some c' := hc'
      rw [if_pos rfl] at hc₂
      cases hc₂
      rfl
  have hkeys : s'.keyOf = s₁.keyOf := by
    have hothers : ∀ i, i ≠ msg.jobid → s'.clients i = s₁.clients i := fun i hi =>
      (hother i hi).trans ((hother₁ i hi).trans (hother₀ i hi)).symm
    rw [keyOf_of_others hothers hc', hkey, ← keyOf_eq hc₁, Function.update_eq_self]
  have hflags : (fun i => (s'.queued i).isSome) =
      Function.update (fun i => (s.queued i).isSome) msg.jobid true := by
    funext i
    rw [queued_of_others hother hc']
    by_cases hi : i = msg.jobid
    · rw [hi, Function.update_self, if_pos rfl, if_neg hne']
      rfl
    · rw [Function.update_of_ne hi, if_neg hi]
  unfold enqueueCfs InOrder
  dsimp only
  rw [hupdate]
  dsimp only
  rw [hcfs, ok_bind, hkeys, hflags]
  split
  · rename_i hnil
    have hout : (s.queued msg.jobid).isSome = false := by
      rw [hnone.mp hnil]
      rfl
    rcases hgood.insert (e := msg.jobid) ordered_tbfCliCompare hout (s₁.keyOf msg.jobid) alloc with
      ⟨-, h₂, heq, hgood'⟩ | ⟨hroom, heq, -⟩
    · rw [Function.update_eq_self] at heq hgood'
      exact ⟨0, h₂, heq, fun _ => hgood', fun hne => absurd rfl hne⟩
    · rw [Function.update_eq_self] at heq
      exact ⟨CfsBinheap.enomem, h₁, heq, fun hne => absurd hne (by decide),
        fun _ => ⟨rfl, hstay (hnone.mp hnil), hnone.mp hnil, hstay (hnone.mp hnil) ▸ hroom⟩⟩
  · rename_i hne
    have hin : (s.queued msg.jobid).isSome = true := by
      rw [Option.isSome_iff_ne_none]
      exact fun hno => hne (hnone.mpr hno)
    refine ⟨0, h₁, rfl, fun _ => ?_, fun hne => absurd rfl hne⟩
    rw [← hin, Function.update_eq_self]
    exact hgood

/-- The calls in `Dequeue` have no fault, and the heap is in order again. -/
theorem dequeueCfs_spec (hord : InOrder s h)
    (hdeq : s.dequeue (some j) = .ok (some msg, s')) :
    ∃ h', dequeueCfs s' j h = .ok h' ∧ InOrder s' h' := by
  obtain ⟨c, c', rest, hc, hqueue, hc', hrest, -, hother, -⟩ := dequeue_heap hdeq
  have hkeys := keyOf_of_others hother hc'
  have hin : (s.queued j).isSome = true := by
    rw [queued_eq hc, hqueue, if_neg (List.cons_ne_nil _ _)]
    rfl
  have hflags : (fun i => (s'.queued i).isSome) =
      Function.update (fun i => (s.queued i).isSome) j (decide (rest ≠ [])) := by
    funext i
    rw [queued_of_others hother hc']
    by_cases hi : i = j
    · rw [hi, Function.update_self, if_pos rfl, hrest]
      by_cases hnil : rest = []
      · simp [hnil]
      · simp [hnil]
    · rw [Function.update_of_ne hi, if_neg hi]
  unfold dequeueCfs InOrder compareClients
  rw [hc', hkeys, hflags]
  dsimp only
  rw [hrest]
  split
  · rename_i hnil
    obtain ⟨h', heq, hgood⟩ := CfsBinheap.Good.remove ordered_tbfCliCompare hord hin c'.key
    exact ⟨h', heq, by rw [decide_eq_false (not_not.mpr hnil)]; exact hgood⟩
  · rename_i hne
    obtain ⟨h', heq, hgood⟩ := CfsBinheap.Good.relocate ordered_tbfCliCompare hord hin c'.key
    refine ⟨h', heq, ?_⟩
    rw [decide_eq_true hne, ← hin, Function.update_eq_self]
    exact hgood

/-- The root of `cfs_binheap` is a root of the heap that tracks the queued clients. -/
theorem InOrder.root (hinv : HeapInv ⟨s, kh⟩) (hord : InOrder s h) :
    ∃ root, h.cfsBinheapRoot = .ok root ∧ CfsBinheapRoot kh root := by
  rcases CfsBinheap.Good.root ordered_tbfCliCompare hord with ⟨heq, hnone⟩ | ⟨j, heq, hin, hleast⟩
  · refine ⟨none, heq, ?_⟩
    show kh = []
    rw [List.eq_nil_iff_forall_not_mem]
    rintro ⟨i, k⟩ hmem
    have hqueued : s.queued i = some k := (hinv.tracks.mem i k).mp hmem
    have hno : (s.queued i).isSome = false := hnone i
    rw [hqueued] at hno
    cases hno
  · obtain ⟨k, hk⟩ := Option.isSome_iff_exists.mp hin
    have hkey : ∀ i k, s.queued i = some k → s.keyOf i = k := by
      intro i k hk
      obtain ⟨c, hc, -, rfl⟩ := queued_eq_some.mp hk
      exact keyOf_eq hc
    refine ⟨some j, heq, k, (hinv.tracks.mem j k).mpr hk, ?_⟩
    rintro ⟨i, k'⟩ hmem
    have hqueued : s.queued i = some k' := (hinv.tracks.mem i k').mp hmem
    have hle := hleast i (Option.isSome_iff_exists.mpr ⟨k', hqueued⟩)
    change tbfCliCompare (s.keyOf j) (s.keyOf i) = true at hle
    rwa [hkey j k hk, hkey i k' hqueued] at hle

/-- A step over `cfs_binheap` is a step over the heap that tracks the queued clients. -/
theorem CfsStep.refines {st st' : OverCfs} {ev : Event} (hstep : CfsStep p st ev st')
    (hinv : HeapInv ⟨st.tbf, kh⟩) (hord : InOrder st.tbf st.binheap) :
    ∃ kh', HeapStep p ⟨st.tbf, kh⟩ ev ⟨st'.tbf, kh'⟩ ∧ InOrder st'.tbf st'.binheap := by
  obtain ⟨root, hroot, hisRoot⟩ := hord.root hinv
  cases hstep with
  | clock hle htimer => exact ⟨kh, .clock hle htimer, hord.congr fun _ => rfl⟩
  | @enqueue s s' h h' msg alloc henq hcalls =>
      obtain ⟨rc, h₁, heq, hokay, -⟩ := enqueueCfs_spec hinv hord henq alloc
      rw [hcalls] at heq
      cases heq
      exact ⟨_, .enqueue henq, hokay rfl⟩
  | @served s s' h h' j msg hfound hdeq hcalls =>
      obtain ⟨h₁, heq, hord'⟩ := dequeueCfs_spec hord hdeq
      rw [hcalls] at heq
      cases heq
      rw [hfound] at hroot
      cases hroot
      exact ⟨_, .served hisRoot hdeq, hord'⟩
  | @idle s s' h root' hfound hdeq =>
      rw [hfound] at hroot
      cases hroot
      have hclients := dequeue_none hdeq
      refine ⟨kh, .idle hisRoot hdeq, hord.congr fun i => ?_⟩
      unfold queued
      rw [hclients]
  | finish hfin =>
      obtain ⟨-, hback, hforth⟩ := finish_heap hfin
      exact ⟨kh, .finish hfin, hord.congr fun i => (queued_of_finish hback hforth i).1⟩
  | timer htimer => exact ⟨kh, .timer htimer, hord.congr fun _ => rfl⟩

/-- A run over `cfs_binheap` is a run over the heap that tracks the queued clients. -/
theorem runs_refine {st st' : OverCfs} {es : List Event} (hrun : Run (CfsStep p) st es st')
    (hinv : HeapInv ⟨st.tbf, kh⟩) (hord : InOrder st.tbf st.binheap) :
    ∃ kh', Run (HeapStep p) ⟨st.tbf, kh⟩ es ⟨st'.tbf, kh'⟩ ∧ HeapInv ⟨st'.tbf, kh'⟩ ∧
      InOrder st'.tbf st'.binheap := by
  induction hrun generalizing kh with
  | nil => exact ⟨kh, .nil _, hinv, hord⟩
  | cons hstep _ ih =>
      obtain ⟨kh₁, hstep', hord₁⟩ := hstep.refines hinv hord
      obtain ⟨kh', hrun', hinv', hord'⟩ := ih (hstep'.inv hinv) hord₁
      exact ⟨kh', .cons hstep' hrun', hinv', hord'⟩

/-- A new scheduler with a new `cfs_binheap`. -/
theorem inOrder_start {chnIndex : Jobid → Nat} {count : Nat} {allocs : Nat → Nat → Bool}
    (hcreate : CfsBinheap.cfsBinheapCreate chnIndex count allocs = .ok (.inr h))
    (rules : Nat → Rule) (ruleList : List Nat) : InOrder (start rules ruleList) h :=
  CfsBinheap.good_create hcreate _

/-- Two jobs, of which the first has two requests. All of them are served. -/
def smallRun : List Event :=
  [.enqueue 0 ⟨1, "a"⟩, .enqueue 0 ⟨2, "b"⟩, .enqueue 0 ⟨3, "a"⟩, .dequeue 0 (some "a") (some ⟨1, "a"⟩),
    .dequeue 0 (some "a") (some ⟨3, "a"⟩), .dequeue 0 (some "b") (some ⟨2, "b"⟩), .dequeue 0 none none]

/-- The `cfs_binheap` of the run has no page at first. -/
theorem exists_smallRun : ∃ (h : CfsBinheap Jobid) (st : OverCfs),
    CfsBinheap.cfsBinheapCreate (fun _ => 0) 0 (fun _ _ => true) = .ok (.inr h) ∧
    Run (CfsStep smallParams) ⟨start smallRules [0], h⟩ smallRun st := by
  have henqueue : ∀ {s s' : NrsTbf} {h h' : CfsBinheap Jobid} {msg : Msg},
      s.enqueue smallParams msg = .ok s' →
      enqueueCfs s smallParams msg (fun _ => true) h = .ok (0, h') →
      CfsStep smallParams ⟨s, h⟩ (.enqueue s.now msg) ⟨s', h'⟩ :=
    fun henq hcalls => .enqueue henq hcalls
  refine ⟨CfsBinheap.new fun _ => 0, _, rfl, .cons (henqueue rfl rfl) <| .cons (henqueue rfl rfl) <|
    .cons (henqueue rfl rfl) <| .cons (.served rfl rfl rfl) <| .cons (.served rfl rfl rfl) <|
    .cons (.served rfl rfl rfl) <| .cons (.idle rfl rfl) (.nil _)⟩

/-- **Refinement.** Every run of the scheduler over its `cfs_binheap` is a run over the heap that
tracks the queued clients. At its end `cfs_binheap_root` finds a root of that heap, and
`cfs_binheap_find` finds its clients and no others. -/
theorem run_refines (p : Params) (rules : Nat → Rule) (ruleList : List Nat) (chnIndex : Jobid → Nat)
    (count : Nat) (allocs : Nat → Nat → Bool) (h : CfsBinheap Jobid) (es : List Event)
    (st : OverCfs) (hcreate : CfsBinheap.cfsBinheapCreate chnIndex count allocs = .ok (.inr h))
    (hrun : Run (CfsStep p) ⟨start rules ruleList, h⟩ es st) :
    ∃ kh, Run (HeapStep p) ⟨start rules ruleList, []⟩ es ⟨st.tbf, kh⟩ ∧
      (∃ root, st.binheap.cfsBinheapRoot = .ok root ∧ CfsBinheapRoot kh root) ∧
      ∀ j, j ∈ kh.map Prod.fst ↔ ∃ i, st.binheap.cfsBinheapFind i = .ok (some j) := by
  obtain ⟨kh, hrun', hinv, hord⟩ :=
    runs_refine hrun (heapInv_start rules ruleList) (inOrder_start hcreate rules ruleList)
  refine ⟨kh, hrun', hord.root hinv, fun j => ?_⟩
  obtain ⟨g, hwf, hin⟩ := hord
  rw [hinv.tracks.mem_fst, ← Option.isSome_iff_ne_none, ← hin j, mem_content]
  constructor
  · rintro ⟨i, hi, rfl⟩
    exact ⟨i, hwf.find_eq hi⟩
  · rintro ⟨i, hfind⟩
    by_cases hi : i < st.binheap.nelements
    · have heq := hwf.find_eq hi
      rw [hfind] at heq
      exact ⟨i, hi, (Option.some.inj (Except.ok.inj heq)).symm⟩
    · unfold CfsBinheap.cfsBinheapFind at hfind
      rw [if_pos (Nat.not_lt.mp hi)] at hfind
      cases hfind

/-- The refinement of a small run. -/
theorem run_refines_small : ∃ (h : CfsBinheap Jobid) (st : OverCfs) (kh : KeyedHeap Jobid Key),
    Run (CfsStep smallParams) ⟨start smallRules [0], h⟩ smallRun st ∧
    Run (HeapStep smallParams) ⟨start smallRules [0], []⟩ smallRun ⟨st.tbf, kh⟩ ∧
    (∃ root, st.binheap.cfsBinheapRoot = .ok root ∧ CfsBinheapRoot kh root) ∧
    ∀ j, j ∈ kh.map Prod.fst ↔ ∃ i, st.binheap.cfsBinheapFind i = .ok (some j) := by
  obtain ⟨h, st, hcreate, hrun⟩ := exists_smallRun
  obtain ⟨kh, hrun', hroot, hfind⟩ := run_refines _ _ _ _ _ _ h _ st hcreate hrun
  exact ⟨h, st, kh, hrun, hrun', hroot, hfind⟩

/-- **No faults.** In every run, no call of `cfs_binheap` in `Enqueue` or `Dequeue` has a fault, and
only the insertion of a client that has no message can fail, when `cfs_binheap_grow` gets no
memory. The heap is as before then. -/
theorem run_cfs_calls (p : Params) (rules : Nat → Rule) (ruleList : List Nat)
    (chnIndex : Jobid → Nat) (count : Nat) (allocs : Nat → Nat → Bool) (h : CfsBinheap Jobid)
    (es : List Event) (st : OverCfs)
    (hcreate : CfsBinheap.cfsBinheapCreate chnIndex count allocs = .ok (.inr h))
    (hrun : Run (CfsStep p) ⟨start rules ruleList, h⟩ es st) :
    (∀ msg s' alloc, st.tbf.enqueue p msg = .ok s' →
      ∃ rc h', enqueueCfs st.tbf p msg alloc st.binheap = .ok (rc, h') ∧
        (rc ≠ 0 → rc = CfsBinheap.enomem ∧ h' = st.binheap ∧ st.tbf.queued msg.jobid = none ∧
          ¬ CfsBinheap.HasRoom st.binheap alloc)) ∧
    ∃ root, st.binheap.cfsBinheapRoot = .ok root ∧
      ∀ j msg s', root = some j → st.tbf.dequeue (some j) = .ok (some msg, s') →
        ∃ h', dequeueCfs s' j st.binheap = .ok h' := by
  obtain ⟨kh, -, hinv, hord⟩ :=
    runs_refine hrun (heapInv_start rules ruleList) (inOrder_start hcreate rules ruleList)
  constructor
  · intro msg s' alloc henq
    obtain ⟨rc, h', heq, -, hfail⟩ := enqueueCfs_spec hinv hord henq alloc
    exact ⟨rc, h', heq, hfail⟩
  · obtain ⟨root, hroot, -⟩ := hord.root hinv
    refine ⟨root, hroot, fun j msg s' _ hdeq => ?_⟩
    obtain ⟨h', heq, -⟩ := dequeueCfs_spec hord hdeq
    exact ⟨h', heq⟩

/-- The calls after a small run. -/
theorem run_cfs_calls_small : ∃ (h : CfsBinheap Jobid) (st : OverCfs),
    Run (CfsStep smallParams) ⟨start smallRules [0], h⟩ smallRun st ∧
    (∀ msg s' alloc, st.tbf.enqueue smallParams msg = .ok s' →
      ∃ rc h', enqueueCfs st.tbf smallParams msg alloc st.binheap = .ok (rc, h') ∧
        (rc ≠ 0 → rc = CfsBinheap.enomem ∧ h' = st.binheap ∧ st.tbf.queued msg.jobid = none ∧
          ¬ CfsBinheap.HasRoom st.binheap alloc)) ∧
    ∃ root, st.binheap.cfsBinheapRoot = .ok root ∧
      ∀ j msg s', root = some j → st.tbf.dequeue (some j) = .ok (some msg, s') →
        ∃ h', dequeueCfs s' j st.binheap = .ok h' := by
  obtain ⟨h, st, hcreate, hrun⟩ := exists_smallRun
  exact ⟨h, st, hrun, run_cfs_calls _ _ _ _ _ _ h _ st hcreate hrun⟩

end LustreSimulator.NrsTbf
