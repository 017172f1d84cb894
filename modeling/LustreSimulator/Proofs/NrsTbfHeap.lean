import LustreSimulator.NrsTbfHeap
import LustreSimulator.Proofs.NrsTbf

/-!
# `LustreSimulator.Proofs.NrsTbfHeap`: the clients that wait and their order

`queued s j` is the key of the client of the job `j`, when it has a message. The heap tracks it:
every change of a key comes with a call of `cfs_binheap` (`enqueue_tracks`, `dequeue_tracks`). So
the root is a least client by the fields of now. `queue_structure` is the result over runs,
with the order of the messages of a job.

`dequeue_serves` says when `Dequeue` finds a message. The scheduler serves the client whose deadline
comes first. A client that saved tokens waits for its own deadline when another comes before it
(`dequeue_saved_tokens`).
-/

set_option autoImplicit false

namespace LustreSimulator.NrsTbf

open Lib

variable {p : Params} {s s' : NrsTbf} {j : Jobid} {c c' : Client} {msg : Msg}

/-- The key of the client of the job, when its queue is not empty. -/
def queued (s : NrsTbf) (j : Jobid) : Option Key :=
  (s.clients j).bind fun c => if c.queue = [] then none else some c.key

/-- A client with a message. -/
theorem queued_eq (hc : s.clients j = some c) :
    s.queued j = if c.queue = [] then none else some c.key := by
  unfold queued
  rw [hc]
  rfl

/-- A job is queued when its client has a message. -/
theorem queued_eq_some {k : Key} :
    s.queued j = some k ↔ ∃ c, s.clients j = some c ∧ c.queue ≠ [] ∧ c.key = k := by
  unfold queued
  rw [Option.bind_eq_some_iff]
  constructor
  · rintro ⟨c, hc, hk⟩
    split at hk
    · cases hk
    · rename_i hne
      exact ⟨c, hc, hne, Option.some.inj hk⟩
  · rintro ⟨c, hc, hne, rfl⟩
    exact ⟨c, hc, if_neg hne⟩

/-- What holds between two steps. -/
structure HeapInv (st : Heaped) : Prop where
  own : OwnQueues st.tbf
  heap : st.tbf.heap = st.binheap.map Prod.fst
  tracks : st.binheap.Tracks st.tbf.queued
  inHeap : ∀ j c, st.tbf.clients j = some c → (c.inHeap = true ↔ c.queue ≠ [])

/-- Replacing the client of one job by one with messages. -/
theorem queued_of_others (hother : ∀ i, i ≠ j → s'.clients i = s.clients i)
    (hc : s'.clients j = some c) (i : Jobid) :
    s'.queued i = if i = j then (if c.queue = [] then none else some c.key) else s.queued i := by
  by_cases hi : i = j
  · rw [if_pos hi, hi, queued_eq hc]
  · rw [if_neg hi]
    unfold queued
    rw [hother i hi]

/-- `cliFindAdd` returns the cached client with another reference, or a new client. -/
theorem cliFindAdd_client (s : NrsTbf) (p : Params) (j : Jobid) :
    (s.cliFindAdd p j).2.heap = s.heap ∧
    ((∃ c, s.clients j = some c ∧ (s.cliFindAdd p j).1 = { c with ref := c.ref + 1 }) ∨
      s.clients j = none ∧ (s.cliFindAdd p j).1.queue = [] ∧
        (s.cliFindAdd p j).1.inHeap = false) := by
  unfold cliFindAdd cliFind
  cases hj : s.clients j with
  | some c => exact ⟨rfl, Or.inl ⟨c, rfl, rfl⟩⟩
  | none => exact ⟨rfl, Or.inr ⟨rfl, rfl, rfl⟩⟩

/-- `updateRuleRate` changes the client only when the rate of its rule changed. -/
theorem updateRuleRate_client (h : s.updateRuleRate p j c = .ok (c', s')) :
    s'.heap = s.heap ∧ c'.inHeap = c.inHeap ∧
      ((s.rules c.rule).rpcRate = (s'.rules c.rule).rpcRate → c' = c) := by
  rcases updateRuleRate_cases h with ⟨rfl, rfl⟩ |
    ⟨-, rule, -, -, ⟨-, -, rfl, rfl⟩ | ⟨hchanged, -, rfl, rfl⟩⟩
  · exact ⟨rfl, rfl, fun _ => rfl⟩
  · exact ⟨rfl, rfl, fun _ => rfl⟩
  · refine ⟨rfl, rfl, fun hsame => absurd hsame ?_⟩
    show (s.rules c.rule).rpcRate ≠ (if c.rule = c.rule then rule else _ : Rule).rpcRate
    rw [if_pos rfl]
    exact hchanged

/-- The client that `Enqueue` finds or creates is in the heap when it has messages. -/
theorem cliFindAdd_flag (p : Params)
    (hflag : ∀ j c, s.clients j = some c → (c.inHeap = true ↔ c.queue ≠ [])) (j : Jobid) :
    (s.cliFindAdd p j).1.inHeap = true ↔ (s.cliFindAdd p j).1.queue ≠ [] := by
  rcases (cliFindAdd_client s p j).2 with ⟨c, hc, heq⟩ | ⟨-, hnil, hout⟩
  · rw [heq]
    exact hflag _ c hc
  · rw [hnil, hout]
    decide

/-- The calls of `cfs_binheap` in `Enqueue`, after the update of the client. -/
theorem enqueueHeap_eq (h : (s.cliFindAdd p msg.jobid).2.updateRuleRate p msg.jobid
    (s.cliFindAdd p msg.jobid).1 = .ok (c, s')) (binheap : KeyedHeap Jobid Key) :
    enqueueHeap s p msg binheap =
      if c.queue = [] then
        (updateHeap (s.cliFindAdd p msg.jobid).2 s' msg.jobid (s.cliFindAdd p msg.jobid).1 c
          binheap).insert msg.jobid c.key
      else updateHeap (s.cliFindAdd p msg.jobid).2 s' msg.jobid (s.cliFindAdd p msg.jobid).1 c
        binheap := by
  unfold enqueueHeap
  dsimp only
  rw [h]

/-- What `Enqueue` does to the client of the message and to the heap. A client that had messages
stays where it is, or it has a new key and is relocated. Any other client is inserted. -/
theorem enqueue_heap (h : s.enqueue p msg = .ok s')
    (hflag : ∀ j c, s.clients j = some c → (c.inHeap = true ↔ c.queue ≠ []))
    (binheap : KeyedHeap Jobid Key) :
    ∃ c', (∀ i, i ≠ msg.jobid → s'.clients i = s.clients i) ∧ s'.clients msg.jobid = some c' ∧
      c'.queue ≠ [] ∧ c'.inHeap = true ∧
      ((∃ c, s.clients msg.jobid = some c ∧ c.queue ≠ [] ∧ s'.heap = s.heap ∧
          (c'.key = c.key ∧ enqueueHeap s p msg binheap = binheap ∨
            enqueueHeap s p msg binheap = binheap.relocate msg.jobid c'.key)) ∨
        s.queued msg.jobid = none ∧ s'.heap = s.heap ++ [msg.jobid] ∧
          enqueueHeap s p msg binheap = binheap.insert msg.jobid c'.key) := by
  obtain ⟨hother, -⟩ := enqueue_spec h
  obtain ⟨c, s₁, hupdate, hcases⟩ := enqueue_cases h
  obtain ⟨hheap, hclient⟩ := cliFindAdd_client s p msg.jobid
  obtain ⟨-, hqueue, -⟩ := updateRuleRate_spec hupdate (cliFindAdd_spec s p msg.jobid).1
  obtain ⟨hheap', hin, hsame⟩ := updateRuleRate_client hupdate
  have hcalls := enqueueHeap_eq hupdate binheap
  rcases hcases with ⟨hnil, c', s₂, hc', htimer, rfl⟩ | ⟨hne, c', hc', hinHeap, rfl⟩
  · have hout : (s.cliFindAdd p msg.jobid).1.inHeap ≠ true := by
      rw [Ne, cliFindAdd_flag p hflag, ← hqueue]
      exact fun hne => hne hnil
    refine ⟨c', hother, ?_, ?_, ?_, Or.inr ⟨?_, ?_, ?_⟩⟩
    · rw [enqueueTimer_frame htimer]
      exact if_pos rfl
    · rw [hc']
      exact List.cons_ne_nil _ _
    · rw [hc']
    · rcases hclient with ⟨c₀, hc₀, heq⟩ | ⟨hnone, -⟩
      · rw [queued_eq hc₀, if_pos]
        rw [heq] at hqueue
        exact hqueue.symm.trans hnil
      · unfold queued
        rw [hnone]
        rfl
    · rw [enqueueTimer_frame htimer]
      show s₁.heap ++ [msg.jobid] = _
      rw [hheap', hheap]
    · rw [hcalls, if_pos hnil, hc']
      unfold updateHeap
      rw [if_neg (fun hr => hout hr.2)]
      rfl
  · refine ⟨c', hother, if_pos rfl, ?_, ?_, Or.inl ?_⟩
    · rw [hc']
      exact List.append_ne_nil_of_right_ne_nil _ (List.cons_ne_nil _ _)
    · rw [hc']
      exact hinHeap
    · rcases hclient with ⟨c₀, hc₀, heq⟩ | ⟨-, hnil, -⟩
      · rw [heq] at hqueue
        refine ⟨c₀, hc₀, fun hnil => hne (hqueue.trans hnil), hheap'.trans hheap, ?_⟩
        rw [hcalls, if_neg hne, hc']
        unfold updateHeap
        split
        · right
          rfl
        · rename_i hstay
          left
          refine ⟨?_, rfl⟩
          have hc := hsame (by
            by_contra hchanged
            exact hstay ⟨hchanged, hin.symm.trans hinHeap⟩)
          rw [hc, heq]
          rfl
      · exact absurd (hqueue.trans hnil) hne

/-- What a `Dequeue` that serves the client of the job `j` does to the client and to the heap. -/
theorem dequeue_heap (h : s.dequeue (some j) = .ok (some msg, s')) :
    ∃ c c' rest, s.clients j = some c ∧ c.queue = msg :: rest ∧ s'.clients j = some c' ∧
      c'.queue = rest ∧ (c'.inHeap = true ↔ rest ≠ []) ∧
      (∀ i, i ≠ j → s'.clients i = s.clients i) ∧
      s'.heap = if rest = [] then s.heap.erase j else s.heap := by
  rcases dequeue_cases h with ⟨-, hout, -⟩ |
    ⟨-, i, c, hi, hc, hin, -, -, ⟨-, m, hm, hserve⟩ | ⟨-, hout, -⟩⟩
  · cases hout
  · cases hm
    cases hi
    obtain ⟨rest, c', hqueue, hc', rfl⟩ := serve_cases hserve
    refine ⟨c, c', rest, hc, hqueue, if_pos rfl, by rw [hc'], ?_, fun i hi => if_neg hi, rfl⟩
    rw [hc']
    dsimp only
    split
    · rename_i hnil
      exact iff_of_false Bool.false_ne_true (fun hne => hne hnil)
    · rename_i hne
      exact iff_of_true hin hne
  · cases hout

/-- A `Dequeue` that returns nothing does not touch the heap. -/
theorem dequeue_idle_heap {root : Option Jobid} (h : s.dequeue root = .ok (none, s')) :
    s'.heap = s.heap := by
  rw [dequeue_none_frame h]

/-- Purging removes clients without messages only. -/
theorem purge_keeps {b : Nat} {js : List Jobid} (h : purge p b js s = .ok s')
    (hc : s.clients j = some c) (hne : c.queue ≠ []) : s'.clients j = some c := by
  induction js generalizing s with
  | nil =>
      cases h
      exact hc
  | cons i rest ih =>
      rw [purge] at h
      split at h
      · split at h
        · cases h
        · rename_i c₀ hc₀
          obtain ⟨u, hfini, h⟩ := bind_eq_ok.mp h
          have hji : j ≠ i := by
            rintro rfl
            rw [hc₀] at hc
            cases hc
            exact hne (check_eq_ok.mp hfini).2.1
          exact ih h ((if_neg hji).trans hc)
      · cases h
        exact hc

/-- `Finish` drops references and clients without messages, and does not touch the heap. -/
theorem finish_heap (h : s.finish p msg = .ok s') :
    s'.heap = s.heap ∧
    (∀ j c', s'.clients j = some c' → ∃ c, s.clients j = some c ∧ c' = { c with ref := c'.ref }) ∧
    ∀ j c, s.clients j = some c → c.queue ≠ [] → ∃ c', s'.clients j = some c' := by
  obtain ⟨c₀, s₁, hc₀, hs₁, hcases⟩ := finish_cases h
  have hback : ∀ j c', s₁.clients j = some c' →
      ∃ c, s.clients j = some c ∧ c' = { c with ref := c'.ref } := by
    intro j c' hj
    rw [hs₁] at hj
    dsimp only at hj
    rw [clients_setClient] at hj
    split at hj
    · rename_i hjm
      cases hj
      exact ⟨c₀, hjm ▸ hc₀, rfl⟩
    · exact ⟨c', hj, rfl⟩
  have hforth : ∀ j c, s.clients j = some c → c.queue ≠ [] →
      ∃ c', s₁.clients j = some c' ∧ c'.queue ≠ [] := by
    intro j c hj hne
    rw [hs₁]
    dsimp only
    rw [clients_setClient]
    by_cases hjm : j = msg.jobid
    · rw [hjm, hc₀] at hj
      cases hj
      exact ⟨_, if_pos hjm, hne⟩
    · exact ⟨c, (if_neg hjm).trans hj, hne⟩
  rcases hcases with ⟨-, hpurge⟩ | ⟨-, rfl⟩
  · refine ⟨?_, fun j c' hj => hback j c' (purge_clients hpurge hj), fun j c hj hne => ?_⟩
    · rw [purge_frame hpurge, hs₁]
      rfl
    · obtain ⟨c', hc', hne'⟩ := hforth j c hj hne
      exact ⟨c', purge_keeps hpurge hc' hne'⟩
  · refine ⟨by rw [hs₁]; rfl, hback, fun j c hj hne => ?_⟩
    obtain ⟨c', hc', -⟩ := hforth j c hj hne
    exact ⟨c', hc'⟩

/-- The messages that wait in the queue of the job. -/
def waiting (s : NrsTbf) (j : Jobid) : List Msg :=
  match s.clients j with
  | none => []
  | some c => c.queue

/-- The same clients are queued when the clients differ in their references only. -/
theorem queued_of_finish
    (hback : ∀ j c', s'.clients j = some c' →
      ∃ c, s.clients j = some c ∧ c' = { c with ref := c'.ref })
    (hforth : ∀ j c, s.clients j = some c → c.queue ≠ [] → ∃ c', s'.clients j = some c')
    (j : Jobid) : s'.queued j = s.queued j ∧ s'.waiting j = s.waiting j := by
  unfold queued waiting
  cases hj' : s'.clients j with
  | some c' =>
      obtain ⟨c, hj, hc'⟩ := hback j c' hj'
      rw [hj, hc']
      exact ⟨rfl, rfl⟩
  | none =>
      cases hj : s.clients j with
      | none => exact ⟨rfl, rfl⟩
      | some c =>
          have hnil : c.queue = [] := by
            by_contra hne
            obtain ⟨c', hc'⟩ := hforth j c hj hne
            rw [hj'] at hc'
            cases hc'
          refine ⟨?_, hnil.symm⟩
          show none = if c.queue = [] then none else some c.key
          rw [if_pos hnil]

/-- The root of the heap is in the heap of the scheduler. -/
theorem HeapInv.isRoot {st : Heaped} (h : HeapInv st) {root : Option Jobid}
    (hroot : CfsBinheapRoot st.binheap root) : st.tbf.IsRoot root := by
  cases root with
  | none =>
      have hempty : st.binheap = [] := hroot
      show st.tbf.heap = []
      rw [h.heap, hempty]
      rfl
  | some j =>
      obtain ⟨k, hmem, -⟩ := hroot
      show j ∈ st.tbf.heap
      rw [h.heap]
      exact List.mem_map_of_mem hmem

/-- With the heap in order, the steps are steps of the scheduler. -/
theorem HeapStep.step {st st' : Heaped} {e : Event} (hstep : HeapStep p st e st')
    (h : HeapInv st) : Step p st.tbf e st'.tbf := by
  cases hstep with
  | clock hle htimer => exact .clock hle htimer
  | enqueue henq => exact .enqueue henq
  | served hroot hdeq => exact .dequeue (h.isRoot hroot) hdeq
  | idle hroot hdeq => exact .dequeue (h.isRoot hroot) hdeq
  | finish hfin => exact .finish hfin
  | timer htimer => exact .timer htimer

/-- `Enqueue` keeps the heap in order. -/
theorem HeapInv.enqueue {st : Heaped} (h : HeapInv st) (henq : st.tbf.enqueue p msg = .ok s')
    (hown : OwnQueues s') : HeapInv ⟨s', enqueueHeap st.tbf p msg st.binheap⟩ := by
  obtain ⟨c', hother, hc', hne, hin, hcase⟩ := enqueue_heap henq h.inHeap st.binheap
  have hqueued : ∀ i, s'.queued i = if i = msg.jobid then some c'.key else st.tbf.queued i := by
    intro i
    rw [queued_of_others hother hc', if_neg hne]
  have hflag : ∀ j c, s'.clients j = some c → (c.inHeap = true ↔ c.queue ≠ []) := by
    intro j c hj
    by_cases hjm : j = msg.jobid
    · rw [hjm, hc'] at hj
      cases hj
      exact iff_of_true hin hne
    · rw [hother j hjm] at hj
      exact h.inHeap j c hj
  rcases hcase with ⟨c, hc, hcne, hheap, ⟨hkey, hcalls⟩ | hcalls⟩ | ⟨hnone, hheap, hcalls⟩
  · -- the key is the old one
    refine ⟨hown, ?_, ?_, hflag⟩
    · rw [hcalls]
      exact hheap.trans h.heap
    · rw [hcalls]
      refine h.tracks.congr fun i => ?_
      rw [hqueued]
      split
      · rename_i hi
        rw [hi, queued_eq hc, if_neg hcne, hkey]
      · rfl
  · -- the client has a new key
    refine ⟨hown, ?_, ?_, hflag⟩
    · rw [hcalls]
      refine (hheap.trans h.heap).trans ?_
      exact (KeyedHeap.relocate_fst _ _ _).symm
    · rw [hcalls]
      refine h.tracks.relocate ?_ hqueued
      rw [queued_eq hc, if_neg hcne]
      exact Option.some_ne_none _
  · -- the client becomes queued
    refine ⟨hown, ?_, ?_, hflag⟩
    · rw [hcalls]
      refine hheap.trans ?_
      rw [h.heap]
      exact (KeyedHeap.insert_fst _ _ _).symm
    · rw [hcalls]
      exact h.tracks.insert hnone hqueued

/-- A `Dequeue` that returns a message keeps the heap in order. -/
theorem HeapInv.served {st : Heaped} (h : HeapInv st)
    (hdeq : st.tbf.dequeue (some j) = .ok (some msg, s')) (hown : OwnQueues s') :
    HeapInv ⟨s', dequeueHeap s' j st.binheap⟩ := by
  obtain ⟨c, c', rest, hc, hqueue, hc', hrest, hin, hother, hheap⟩ := dequeue_heap hdeq
  have hqueued := queued_of_others hother hc'
  have hflag : ∀ i d, s'.clients i = some d → (d.inHeap = true ↔ d.queue ≠ []) := by
    intro i d hi
    by_cases hij : i = j
    · rw [hij, hc'] at hi
      cases hi
      rw [hrest]
      exact hin
    · rw [hother i hij] at hi
      exact h.inHeap i d hi
  have hcalls : dequeueHeap s' j st.binheap =
      if rest = [] then st.binheap.remove j else st.binheap.relocate j c'.key := by
    unfold dequeueHeap
    rw [hc']
    dsimp only
    rw [hrest]
  by_cases hnil : rest = []
  · rw [if_pos hnil] at hheap hcalls
    refine ⟨hown, ?_, ?_, hflag⟩
    · rw [hcalls]
      refine hheap.trans ?_
      rw [h.heap]
      exact (KeyedHeap.remove_fst h.tracks.nodup j).symm
    · rw [hcalls]
      refine h.tracks.remove fun i => ?_
      rw [hqueued, if_pos (hrest.trans hnil)]
  · rw [if_neg hnil] at hheap hcalls
    refine ⟨hown, ?_, ?_, hflag⟩
    · rw [hcalls]
      refine (hheap.trans h.heap).trans ?_
      exact (KeyedHeap.relocate_fst _ _ _).symm
    · rw [hcalls]
      refine h.tracks.relocate ?_ fun i => ?_
      · rw [queued_eq hc, hqueue, if_neg (List.cons_ne_nil _ _)]
        exact Option.some_ne_none _
      · rw [hqueued, if_neg (fun hq => hnil (hrest.symm.trans hq))]

/-- Every step keeps the heap in order. -/
theorem HeapStep.inv {st st' : Heaped} {e : Event} (hstep : HeapStep p st e st')
    (h : HeapInv st) : HeapInv st' := by
  have hown := (hstep.step h).ownQueues h.own
  cases hstep with
  | clock => exact ⟨hown, h.heap, h.tracks, h.inHeap⟩
  | enqueue henq => exact h.enqueue henq hown
  | served _ hdeq => exact h.served hdeq hown
  | idle _ hdeq =>
      have hclients := dequeue_none hdeq
      refine ⟨hown, (dequeue_idle_heap hdeq).trans h.heap, h.tracks.congr fun j => ?_, ?_⟩
      · unfold queued
        rw [hclients]
      · rw [hclients]
        exact h.inHeap
  | finish hfin =>
      obtain ⟨hheap, hback, hforth⟩ := finish_heap hfin
      refine ⟨hown, hheap.trans h.heap, ?_, ?_⟩
      · exact h.tracks.congr fun j => (queued_of_finish hback hforth j).1
      · intro j c' hj
        obtain ⟨c, hc, heq⟩ := hback j c' hj
        rw [heq]
        exact h.inHeap j c hc
  | timer => exact ⟨hown, h.heap, h.tracks, h.inHeap⟩

/-- A step, seen from the queue of one job: messages join at its end and leave at its front. -/
theorem HeapStep.waiting {st st' : Heaped} {e : Event} (hstep : HeapStep p st e st')
    (h : HeapInv st) (j : Jobid) :
    st.tbf.waiting j ++ enqueued j [e] = dequeued j [e] ++ st'.tbf.waiting j := by
  cases hstep with
  | clock => exact List.append_nil _
  | @enqueue s s' _ msg henq =>
      obtain ⟨hother, c', hc', hcached, hnew⟩ := enqueue_spec henq
      show s.waiting j ++ (if msg.jobid = j then [msg] else []) = s'.waiting j
      unfold NrsTbf.waiting
      by_cases hjm : msg.jobid = j
      · subst hjm
        rw [if_pos rfl, hc']
        cases hc : s.clients msg.jobid with
        | none => exact (hnew hc).symm
        | some c => exact (hcached c hc).2.symm
      · rw [if_neg hjm, List.append_nil, hother j (Ne.symm hjm)]
  | @served s s' _ i msg hroot hdeq =>
      obtain ⟨c, c', rest, hc, hqueue, hc', hrest, -, hother, -⟩ := dequeue_heap hdeq
      have hjob : msg.jobid = i :=
        h.own i c hc msg (by rw [hqueue]; exact List.mem_cons_self)
      show s.waiting j ++ [] = (if msg.jobid = j then [msg] else []) ++ s'.waiting j
      rw [List.append_nil, hjob]
      unfold NrsTbf.waiting
      by_cases hij : i = j
      · subst hij
        rw [if_pos rfl, hc, hc']
        exact hqueue.trans (congrArg (msg :: ·) hrest.symm)
      · rw [if_neg hij, hother j (Ne.symm hij)]
        rfl
  | @idle s s' _ root hroot hdeq =>
      show s.waiting j ++ [] = [] ++ s'.waiting j
      unfold NrsTbf.waiting
      rw [dequeue_none hdeq, List.append_nil]
      rfl
  | finish hfin =>
      obtain ⟨-, hback, hforth⟩ := finish_heap hfin
      refine (List.append_nil _).trans ?_
      exact (queued_of_finish hback hforth j).2.symm
  | timer => exact List.append_nil _

/-! ### Runs -/

/-- A scheduler without clients is in order. -/
theorem heapInv_start (rules : Nat → Rule) (ruleList : List Nat) :
    HeapInv ⟨start rules ruleList, []⟩ :=
  ⟨fun _ _ hc => (nomatch hc), rfl, KeyedHeap.tracks_nil, fun _ _ hc => (nomatch hc)⟩

/-- The messages of a run are those of its first event and of the rest. -/
theorem enqueued_cons (j : Jobid) (e : Event) (es : List Event) :
    enqueued j (e :: es) = enqueued j [e] ++ enqueued j es := by
  cases e with
  | enqueue now msg =>
      show (if msg.jobid = j then _ else _) = (if msg.jobid = j then _ else _) ++ _
      split
      · rfl
      · rfl
  | clock => rfl
  | dequeue => rfl
  | finish => rfl
  | timer => rfl

/-- The same of the messages that were returned. -/
theorem dequeued_cons (j : Jobid) (e : Event) (es : List Event) :
    dequeued j (e :: es) = dequeued j [e] ++ dequeued j es := by
  cases e with
  | dequeue now root msg =>
      cases msg with
      | none => rfl
      | some msg =>
          show (if msg.jobid = j then _ else _) = (if msg.jobid = j then _ else _) ++ _
          split
          · rfl
          · rfl
  | clock => rfl
  | enqueue => rfl
  | finish => rfl
  | timer => rfl

/-- What waited and what came is what left and what waits. -/
theorem run_waiting {st st' : Heaped} {es : List Event} (hrun : Run (HeapStep p) st es st')
    (h : HeapInv st) (j : Jobid) :
    st.tbf.waiting j ++ enqueued j es = dequeued j es ++ st'.tbf.waiting j := by
  induction hrun with
  | nil => exact List.append_nil _
  | @cons st st₁ st' e es hstep _ ih =>
      calc st.tbf.waiting j ++ enqueued j (e :: es)
          = (st.tbf.waiting j ++ enqueued j [e]) ++ enqueued j es := by
            rw [enqueued_cons, List.append_assoc]
        _ = dequeued j [e] ++ (st₁.tbf.waiting j ++ enqueued j es) := by
            rw [hstep.waiting h, List.append_assoc]
        _ = dequeued j (e :: es) ++ st'.tbf.waiting j := by
            rw [ih (hstep.inv h), dequeued_cons j e es, List.append_assoc]

/-- The queue structure of the scheduler after the events `es`. -/
structure QueueStructure (es : List Event) (st : Heaped) : Prop where
  /-- A client is in the heap once when it has a message, and otherwise not. -/
  inHeap : ∀ j, j ∈ st.binheap.map Prod.fst ↔ ∃ c, st.tbf.clients j = some c ∧ c.queue ≠ []
  nodup : (st.binheap.map Prod.fst).Nodup
  /-- The heap is in order by the fields of now: no client comes before its root. -/
  key : ∀ j k c, (j, k) ∈ st.binheap → st.tbf.clients j = some c → k = c.key
  root : ∀ i, CfsBinheapRoot st.binheap (some i) → ∃ c, st.tbf.clients i = some c ∧
    ∀ j c', st.tbf.clients j = some c' → c'.queue ≠ [] → tbfCliCompare c.key c'.key = true
  /-- The messages of a job that were enqueued are those that were returned, in this order, and
  those that wait. -/
  fifo : ∀ j, enqueued j es = dequeued j es ++ st.tbf.waiting j

/-- **The queue structure.** It holds in every run. -/
theorem queue_structure (p : Params) (rules : Nat → Rule) (ruleList : List Nat) (es : List Event)
    (st : Heaped) (hrun : Run (HeapStep p) ⟨start rules ruleList, []⟩ es st) :
    QueueStructure es st := by
  have h : HeapInv st :=
    hrun.invariant (fun _ _ _ hs hstep => hstep.inv hs) (heapInv_start rules ruleList)
  refine ⟨fun j => ?_, h.tracks.nodup, ?_, ?_, run_waiting hrun (heapInv_start rules ruleList)⟩
  · rw [h.tracks.mem_fst, Option.ne_none_iff_exists']
    constructor
    · rintro ⟨k, hk⟩
      obtain ⟨c, hc, hne, -⟩ := queued_eq_some.mp hk
      exact ⟨c, hc, hne⟩
    · rintro ⟨c, hc, hne⟩
      exact ⟨c.key, queued_eq_some.mpr ⟨c, hc, hne, rfl⟩⟩
  · intro j k c hmem hc
    obtain ⟨c', hc', -, rfl⟩ := queued_eq_some.mp ((h.tracks.mem j k).mp hmem)
    rw [hc] at hc'
    rw [Option.some.inj hc']
  · intro i hroot
    obtain ⟨k, hk, hle⟩ := h.tracks.root_le hroot
    obtain ⟨c, hc, -, rfl⟩ := queued_eq_some.mp hk
    exact ⟨c, hc, fun j c' hj hne => hle j c'.key (queued_eq_some.mpr ⟨c', hj, hne, rfl⟩)⟩

/-- The parameters, and one rule of 10 requests per second with a bucket of depth 2. -/
def smallParams : Params := ⟨150, 50, fun _ => 0, 1024⟩

/-- The same. -/
def smallRules : Nat → Rule := fun _ => ⟨[], 10, 100000000, 2, false, 0, 0, 0, 0, 0, 0, 0, 0⟩

/-- Two jobs. The request of the first is served, and the second waits. -/
theorem queue_structure_two : ∃ st,
    Run (HeapStep smallParams) ⟨start smallRules [0], []⟩
      [.enqueue 0 ⟨1, "a"⟩, .enqueue 0 ⟨2, "b"⟩, .dequeue 0 (some "a") (some ⟨1, "a"⟩)] st ∧
    QueueStructure
      [.enqueue 0 ⟨1, "a"⟩, .enqueue 0 ⟨2, "b"⟩, .dequeue 0 (some "a") (some ⟨1, "a"⟩)] st := by
  have hexists : ∃ st, Run (HeapStep smallParams) ⟨start smallRules [0], []⟩
      [.enqueue 0 ⟨1, "a"⟩, .enqueue 0 ⟨2, "b"⟩, .dequeue 0 (some "a") (some ⟨1, "a"⟩)] st :=
    ⟨_, .cons (.enqueue rfl) <| .cons (.enqueue rfl) <|
      .cons (.served ⟨⟨100000000, 0⟩, by decide, by decide⟩ rfl) (.nil _)⟩
  obtain ⟨st, hrun⟩ := hexists
  exact ⟨st, hrun, queue_structure _ _ _ _ _ hrun⟩

/-! ### When `Dequeue` finds a message -/

/-- While the scheduler throttles, its timer is armed, and otherwise not. -/
def ThrottleInv (s : NrsTbf) : Prop :=
  if s.throttling = true then s.timer = some s.deadline ∧ s.now ≤ s.deadline else s.timer = none

/-- The parts of the state that the throttling depends on. -/
def gate (s : NrsTbf) : Bool × Option Nat × Nat × Nat :=
  (s.throttling, s.timer, s.deadline, s.now)

/-- The parts of two states are the same. -/
theorem gate_eq_iff : s'.gate = s.gate ↔ s'.throttling = s.throttling ∧ s'.timer = s.timer ∧
    s'.deadline = s.deadline ∧ s'.now = s.now := by
  simp [gate]

/-- Nothing else matters. -/
theorem ThrottleInv.congr (h : ThrottleInv s) (hgate : s'.gate = s.gate) : ThrottleInv s' := by
  obtain ⟨hthrottling, htimer, hdeadline, hnow⟩ := gate_eq_iff.mp hgate
  unfold ThrottleInv
  rw [hthrottling, htimer, hdeadline, hnow]
  exact h

/-- `cliFindAdd` does not throttle. -/
theorem cliFindAdd_gate (s : NrsTbf) (p : Params) (j : Jobid) :
    (s.cliFindAdd p j).2.gate = s.gate := by
  unfold cliFindAdd cliFind
  cases s.clients j with
  | some c => rfl
  | none => rfl

/-- `updateRuleRate` does not throttle. -/
theorem updateRuleRate_gate (h : s.updateRuleRate p j c = .ok (c', s')) : s'.gate = s.gate := by
  rcases updateRuleRate_cases h with ⟨rfl, -⟩ | ⟨-, rule, -, -, ⟨-, -, -, rfl⟩ | ⟨-, -, -, rfl⟩⟩
  · rfl
  · rfl
  · rfl

/-- `Enqueue` moves the timer of a scheduler that throttles, and arms no other. -/
theorem enqueueTimer_throttle (h : s.enqueueTimer c = .ok s') (hs : ThrottleInv s) :
    ThrottleInv s' := by
  unfold enqueueTimer at h
  dsimp only at h
  split at h
  · rename_i hthrottling
    split at h
    · cases h
      exact hs
    · split at h
      · obtain ⟨u, hlate, h⟩ := bind_eq_ok.mp h
        have hlt := check_eq_ok.mp hlate
        split at h
        · cases h
        · rename_i timer hmod
          cases h
          unfold ThrottleInv
          rw [if_pos hthrottling]
          exact ⟨(Timer.modTimer_eq_some hmod).1, Nat.le_of_lt hlt⟩
      · cases h
        exact hs
  · cases h
    exact hs

/-- `Enqueue` keeps the timer with the throttling. -/
theorem enqueue_throttle (h : s.enqueue p msg = .ok s') (hs : ThrottleInv s) :
    ThrottleInv s' := by
  obtain ⟨c, s₁, hupdate, hcases⟩ := enqueue_cases h
  have hgate : s₁.gate = s.gate := (updateRuleRate_gate hupdate).trans (cliFindAdd_gate s p _)
  rcases hcases with ⟨-, c', s₂, -, htimer, rfl⟩ | ⟨-, c', -, -, rfl⟩
  · have hs₁ : ThrottleInv { s₁.setClient msg.jobid (some c') with
        heap := s₁.heap ++ [msg.jobid] } := hs.congr hgate
    exact (enqueueTimer_throttle htimer hs₁).congr rfl
  · exact hs.congr hgate

/-- `Dequeue` throttles when it arms the timer, and only then. -/
theorem dequeue_throttle {root : Option Jobid} {out : Option Msg}
    (h : s.dequeue root = .ok (out, s')) (hs : ThrottleInv s) : ThrottleInv s' := by
  rcases dequeue_cases h with ⟨-, -, rfl⟩ |
    ⟨hthrottling, j, c, -, -, -, -, -, ⟨-, m, -, hserve⟩ | ⟨-, -, timer, hmod, rfl⟩⟩
  · exact hs
  · obtain ⟨rest, c', -, -, rfl⟩ := serve_cases hserve
    exact hs.congr rfl
  · have hnone : s.timer = none := by
      unfold ThrottleInv at hs
      rwa [hthrottling, if_neg Bool.false_ne_true] at hs
    -- no timer was armed, so `ModTimer` calls `RunAt`
    obtain ⟨htimer, hlt⟩ := Timer.modTimer_eq_some hmod
    refine ⟨htimer, Nat.le_of_lt (hlt ?_)⟩
    rw [hnone]
    exact (Option.some_ne_none _).symm

/-- `Finish` does not throttle. -/
theorem finish_gate (h : s.finish p msg = .ok s') : s'.gate = s.gate := by
  obtain ⟨c, s₁, -, rfl, ⟨-, hpurge⟩ | ⟨-, rfl⟩⟩ := finish_cases h
  · rw [purge_frame hpurge]
    rfl
  · rfl

/-- Every step keeps the timer with the throttling. -/
theorem HeapStep.throttle {st st' : Heaped} {e : Event} (hstep : HeapStep p st e st')
    (hs : ThrottleInv st.tbf) : ThrottleInv st'.tbf := by
  cases hstep with
  | @clock s _ t _ htimer =>
      unfold ThrottleInv at hs ⊢
      split at hs
      · rename_i hthrottling
        rw [if_pos hthrottling]
        exact ⟨hs.1, htimer s.deadline hs.1⟩
      · rename_i hthrottling
        rw [if_neg hthrottling]
        exact hs
  | enqueue henq => exact enqueue_throttle henq hs
  | served _ hdeq => exact dequeue_throttle hdeq hs
  | idle _ hdeq => exact dequeue_throttle hdeq hs
  | finish hfin => exact hs.congr (finish_gate hfin)
  | timer => exact rfl

/-- A client whose deadline is reached has a token. -/
theorem tokens_pos (hdepth : 1 ≤ c.depth) (hnsecs : 0 < c.nsecs) {now : Nat}
    (hreached : c.checkTime + c.nsecs ≤ now) : 0 < tokens c now := by
  have hpassed : 1 ≤ (now - c.checkTime) / c.nsecs :=
    (Nat.one_le_div_iff hnsecs).mpr (by omega)
  unfold tokens
  omega

/-- A scheduler that does not throttle serves the client at the root when that has a token. -/
theorem dequeue_ne_none (hthrottling : s.throttling = false) (hc : s.clients j = some c)
    (htok : c.nsecs ≠ 0 → 0 < tokens c s.now) : s.dequeue (some j) ≠ .ok (none, s') := by
  intro h
  unfold dequeue at h
  rw [if_neg (by rw [hthrottling]; decide)] at h
  dsimp only at h
  rw [hc] at h
  obtain ⟨u, -, h⟩ := bind_eq_ok.mp h
  obtain ⟨u, -, h⟩ := bind_eq_ok.mp h
  obtain ⟨u, hnsecs, h⟩ := bind_eq_ok.mp h
  split at h
  · obtain ⟨r, -, h⟩ := bind_eq_ok.mp h
    cases h
  · rename_i hno
    exact hno (htok (check_eq_ok.mp hnsecs))

/-- **Service.** While the scheduler throttles, its timer is armed. Otherwise `Dequeue` finds a
message when the client at the root of the heap has a token, and it has one when the deadline
`tc_check_time + tc_nsecs` of any client with a message is reached. -/
theorem dequeue_serves (p : Params) (rules : Nat → Rule) (ruleList : List Nat) (es : List Event)
    (st : Heaped) (hrun : Run (HeapStep p) ⟨start rules ruleList, []⟩ es st) :
    (st.tbf.throttling = true →
      st.tbf.timer = some st.tbf.deadline ∧ st.tbf.now ≤ st.tbf.deadline) ∧
    (st.tbf.throttling = false →
      (∀ j c s', CfsBinheapRoot st.binheap (some j) → st.tbf.clients j = some c →
        0 < tokens c st.tbf.now → st.tbf.dequeue (some j) ≠ .ok (none, s')) ∧
      ((∀ j c, st.tbf.clients j = some c → c.queue ≠ [] → 1 ≤ c.depth) →
        ∀ j c, st.tbf.clients j = some c → c.queue ≠ [] → c.checkTime + c.nsecs ≤ st.tbf.now →
          ∀ root s', CfsBinheapRoot st.binheap root →
            st.tbf.dequeue root ≠ .ok (none, s'))) := by
  have h : HeapInv st ∧ ThrottleInv st.tbf :=
    hrun.invariant (P := fun st => HeapInv st ∧ ThrottleInv st.tbf)
      (fun _ _ _ hs hstep => ⟨hstep.inv hs.1, hstep.throttle hs.2⟩)
      ⟨heapInv_start rules ruleList, rfl⟩
  obtain ⟨hinv, hgate⟩ := h
  constructor
  · intro hthrottling
    unfold ThrottleInv at hgate
    rwa [if_pos hthrottling] at hgate
  · intro hthrottling
    refine ⟨fun j c s' _ hc htok => dequeue_ne_none hthrottling hc fun _ => htok, ?_⟩
    intro hdepth j c hc hne hreached root s' hroot
    have hqueued : st.tbf.queued j = some c.key := queued_eq_some.mpr ⟨c, hc, hne, rfl⟩
    cases root with
    | none =>
        rw [hinv.tracks.root_none hroot j] at hqueued
        cases hqueued
    | some i =>
        -- the root is not later than the client whose deadline is reached
        obtain ⟨k, hk, hle⟩ := hinv.tracks.root_le hroot
        obtain ⟨c₀, hc₀, hne₀, rfl⟩ := queued_eq_some.mp hk
        have hfirst : c₀.checkTime + c₀.nsecs ≤ c.checkTime + c.nsecs := by
          have hcompare : tbfCliCompare c₀.key c.key = true := hle j c.key hqueued
          by_contra hlt
          unfold tbfCliCompare at hcompare
          rw [if_neg (by show ¬ c₀.checkTime + c₀.nsecs < c.checkTime + c.nsecs; omega),
            if_pos (by show c₀.checkTime + c₀.nsecs > c.checkTime + c.nsecs; omega)] at hcompare
          cases hcompare
        exact dequeue_ne_none hthrottling hc₀ fun hnsecs =>
          tokens_pos (hdepth i c₀ hc₀ hne₀) (Nat.pos_of_ne_zero hnsecs) (by omega)

/-- A new client is served when its request arrives. -/
theorem dequeue_serves_one : ∃ st : Heaped,
    Run (HeapStep smallParams) ⟨start smallRules [0], []⟩ [.enqueue 0 ⟨1, "a"⟩] st ∧
    (st.tbf.throttling = true →
      st.tbf.timer = some st.tbf.deadline ∧ st.tbf.now ≤ st.tbf.deadline) ∧
    (st.tbf.throttling = false →
      (∀ j c s', CfsBinheapRoot st.binheap (some j) → st.tbf.clients j = some c →
        0 < tokens c st.tbf.now → st.tbf.dequeue (some j) ≠ .ok (none, s')) ∧
      ((∀ j c, st.tbf.clients j = some c → c.queue ≠ [] → 1 ≤ c.depth) →
        ∀ j c, st.tbf.clients j = some c → c.queue ≠ [] → c.checkTime + c.nsecs ≤ st.tbf.now →
          ∀ root s', CfsBinheapRoot st.binheap root →
            st.tbf.dequeue root ≠ .ok (none, s'))) := by
  have hexists : ∃ st, Run (HeapStep smallParams) ⟨start smallRules [0], []⟩
      [.enqueue 0 ⟨1, "a"⟩] st := ⟨_, .cons (.enqueue rfl) (.nil _)⟩
  obtain ⟨st, hrun⟩ := hexists
  exact ⟨st, hrun, dequeue_serves _ _ _ _ _ hrun⟩

/-- The job `b` spent its two tokens at the time 0, and its next deadline is at 100000000. The job
`a` has two tokens from the time 50, but its deadline is later. So `Dequeue` finds the job `b` at
the root, and returns nothing. -/
theorem dequeue_saved_tokens : ¬ ∀ p rules ruleList es st,
    Run (HeapStep p) ⟨start rules ruleList, []⟩ es st →
    ∀ j c, st.tbf.clients j = some c → c.queue ≠ [] → 1 ≤ c.depth → 0 < c.nsecs →
      1 ≤ tokens c st.tbf.now →
      ∀ root s', CfsBinheapRoot st.binheap root → st.tbf.dequeue root ≠ .ok (none, s') := by
  intro h
  have hexists : ∃ st : Heaped, Run (HeapStep smallParams) ⟨start smallRules [0], []⟩
      [.enqueue 0 ⟨1, "b"⟩, .enqueue 0 ⟨2, "b"⟩, .enqueue 0 ⟨3, "b"⟩,
        .dequeue 0 (some "b") (some ⟨1, "b"⟩), .dequeue 0 (some "b") (some ⟨2, "b"⟩),
        .clock 50, .enqueue 50 ⟨4, "a"⟩] st ∧
      (∃ c, st.tbf.clients "a" = some c ∧ c.queue ≠ [] ∧ 1 ≤ c.depth ∧ 0 < c.nsecs ∧
        1 ≤ tokens c st.tbf.now) ∧
      CfsBinheapRoot st.binheap (some "b") ∧
      ∃ s', st.tbf.dequeue (some "b") = .ok (none, s') :=
    ⟨_, .cons (.enqueue rfl) <| .cons (.enqueue rfl) <| .cons (.enqueue rfl) <|
      .cons (.served ⟨⟨100000000, 0⟩, by decide, by decide⟩ rfl) <|
      .cons (.served ⟨⟨100000000, 0⟩, by decide, by decide⟩ rfl) <|
      .cons (.clock (by decide) (fun _ h => nomatch h)) <| .cons (.enqueue rfl) (.nil _),
      ⟨_, rfl, by decide, by decide, by decide, by decide⟩,
      ⟨⟨100000000, 0⟩, by decide, by decide⟩, _, rfl⟩
  obtain ⟨st, hrun, ⟨c, hc, hne, hdepth, hnsecs, htok⟩, hroot, s', hdeq⟩ := hexists
  exact h _ _ _ _ st hrun "a" c hc hne hdepth hnsecs htok _ s' hroot hdeq

end LustreSimulator.NrsTbf
