import LustreSimulator.Proofs.NrsTbfHeap

/-!
# `LustreSimulator.Proofs.NrsTbfRefs`: the references on clients

`Enqueue` takes a reference on the client of the message, by the lookup or by creating it, and
`Finish` drops it. `Usage` counts along: it keeps the messages that were enqueued and are not
finished, and those of them that `Dequeue` returned. A message is finished once, after its
`Dequeue`, and not enqueued again before.

`RefInv` ties the two together. A client has as many references as it has live messages, and the
LRU list of a bucket holds the clients without references. So a purge meets clients without
messages only (`purge_spec`), and a message finds its client when it is finished
(`references_balance`).
-/

set_option autoImplicit false

namespace LustreSimulator.NrsTbf

open Lib

variable {p : Params} {s s' : NrsTbf} {j : Jobid} {c c' : Client} {msg : Msg}

/-- The messages in use. -/
structure Usage where
  /-- enqueued and not finished -/
  live : List Msg
  /-- returned by `Dequeue` and not finished -/
  running : List Msg

/-- The messages in use after an event. -/
def Usage.after (u : Usage) : Event → Usage
  | .enqueue _ msg => { u with live := msg :: u.live }
  | .dequeue _ _ (some msg) => { u with running := msg :: u.running }
  | .finish _ msg => ⟨u.live.erase msg, u.running.erase msg⟩
  | _ => u

/-- A message that is in use is not enqueued, and a message is finished once, after its
`Dequeue`. -/
def Usage.Allows (u : Usage) : Event → Prop
  | .enqueue _ msg => ∀ m ∈ u.live, m.id ≠ msg.id
  | .finish _ msg => msg ∈ u.running
  | _ => True

/-- The steps of the scheduler with the messages in use. -/
def UseStep (p : Params) (a : Heaped × Usage) (e : Event) (b : Heaped × Usage) : Prop :=
  a.2.Allows e ∧ HeapStep p a.1 e b.1 ∧ b.2 = a.2.after e

/-- A step of the scheduler that the messages in use allow. -/
theorem UseStep.of {st st' : Heaped} {u : Usage} {e : Event} (hallows : u.Allows e)
    (hstep : HeapStep p st e st') : UseStep p (st, u) e (st', u.after e) :=
  ⟨hallows, hstep, rfl⟩

/-- The number of live messages of the job. -/
def Usage.count (u : Usage) (j : Jobid) : Nat := u.live.countP fun m => decide (m.jobid = j)

/-- What holds between two steps, beside the order of the heap. -/
structure RefInv (p : Params) (s : NrsTbf) (u : Usage) : Prop where
  ids : (u.live.map Msg.id).Nodup
  running : u.running.Nodup ∧ ∀ m ∈ u.running, m ∈ u.live
  queue : ∀ j c, s.clients j = some c → c.queue.Nodup ∧
    ∀ m ∈ c.queue, m ∈ u.live ∧ m ∉ u.running ∧ m.jobid = j
  ref : ∀ j c, s.clients j = some c → c.ref = u.count j
  ptr : ∀ m ∈ u.live, ∃ c, s.clients m.jobid = some c ∧ s.ptr m.id = some c.addr
  lru : ∀ j b, j ∈ s.lru b ↔ b = p.bucketOf j ∧ ∃ c, s.clients j = some c ∧ c.ref = 0
  lruNodup : ∀ b, (s.lru b).Nodup

/-! ### What the functions do to the references -/

/-- The part of a client that belongs to its messages. -/
def Client.hold (c : Client) : Nat × Int × List Msg := (c.addr, c.ref, c.queue)

/-- The parts of the state that belong to the messages and their clients. -/
def ties (s : NrsTbf) : (Nat → Option Nat) × (Nat → List Jobid) := (s.ptr, s.lru)

/-- What the parts of a client are. -/
theorem hold_eq_iff {addr : Nat} {ref : Int} {queue : List Msg} :
    c.hold = (addr, ref, queue) ↔ c.addr = addr ∧ c.ref = ref ∧ c.queue = queue := by
  simp [Client.hold]

/-- What the parts of the state are. -/
theorem ties_eq_iff {ptr : Nat → Option Nat} {lru : Nat → List Jobid} :
    s.ties = (ptr, lru) ↔ s.ptr = ptr ∧ s.lru = lru := by
  simp [ties]

/-- `cliFindAdd` takes a reference on the cached client and takes it off the LRU list, or creates
a client with one reference. -/
theorem cliFindAdd_hold (s : NrsTbf) (p : Params) (j : Jobid) :
    (∃ c, s.clients j = some c ∧ (s.cliFindAdd p j).1.hold = (c.addr, c.ref + 1, c.queue) ∧
      (s.cliFindAdd p j).2.ties = (s.ptr, fun i =>
        if i = p.bucketOf j then (s.lru (p.bucketOf j)).erase j else s.lru i)) ∨
    (s.clients j = none ∧ (s.cliFindAdd p j).1.hold = (s.nextAddr, 1, []) ∧
      (s.cliFindAdd p j).2.ties = s.ties) := by
  unfold cliFindAdd cliFind
  cases hj : s.clients j with
  | some c => exact Or.inl ⟨c, rfl, rfl, rfl⟩
  | none => exact Or.inr ⟨rfl, rfl, rfl⟩

/-- `updateRuleRate` does not touch references. -/
theorem updateRuleRate_hold (h : s.updateRuleRate p j c = .ok (c', s')) :
    c'.hold = c.hold ∧ s'.ties = s.ties := by
  rcases updateRuleRate_cases h with ⟨rfl, rfl⟩ |
    ⟨-, rule, -, -, ⟨-, -, rfl, rfl⟩ | ⟨-, -, rfl, rfl⟩⟩
  · exact ⟨rfl, rfl⟩
  · exact ⟨rfl, rfl⟩
  · exact ⟨rfl, rfl⟩

/-- `Enqueue` appends the message to the queue of the client that it finds or creates, and the
message refers to this client. -/
theorem enqueue_hold (h : s.enqueue p msg = .ok s') :
    ∃ c', (∀ i, i ≠ msg.jobid → s'.clients i = s.clients i) ∧ s'.clients msg.jobid = some c' ∧
      s'.ptr = (fun i => if i = msg.id then some c'.addr else s.ptr i) ∧
      ((∃ c, s.clients msg.jobid = some c ∧ c'.hold = (c.addr, c.ref + 1, c.queue ++ [msg]) ∧
          s'.lru = fun i => if i = p.bucketOf msg.jobid
            then (s.lru (p.bucketOf msg.jobid)).erase msg.jobid else s.lru i) ∨
        (s.clients msg.jobid = none ∧ c'.hold = (s.nextAddr, 1, [msg]) ∧ s'.lru = s.lru)) := by
  obtain ⟨hother, -⟩ := enqueue_spec h
  obtain ⟨c, s₁, hupdate, hcases⟩ := enqueue_cases h
  obtain ⟨hhold, hties⟩ := updateRuleRate_hold hupdate
  -- `Enqueue` itself adds the message only
  have hend : ∃ c', s'.clients msg.jobid = some c' ∧ c'.hold = (c.addr, c.ref, c.queue ++ [msg]) ∧
      s'.ptr = (fun i => if i = msg.id then some c'.addr else s₁.ptr i) ∧ s'.lru = s₁.lru := by
    rcases hcases with ⟨hnil, c', s₂, hc', htimer, rfl⟩ | ⟨-, c', hc', -, rfl⟩
    · rw [enqueueTimer_frame htimer]
      refine ⟨c', if_pos rfl, ?_, rfl, rfl⟩
      rw [hc', hnil]
      rfl
    · refine ⟨c', if_pos rfl, ?_, rfl, rfl⟩
      rw [hc']
      rfl
  obtain ⟨c', hc', hhold', hptr, hlru⟩ := hend
  obtain ⟨hptr₁, hlru₁⟩ := ties_eq_iff.mp hties
  rw [hptr₁] at hptr
  rw [hlru₁] at hlru
  refine ⟨c', hother, hc', ?_⟩
  -- the client before: cached or new
  rcases cliFindAdd_hold s p msg.jobid with ⟨c₀, hc₀, hclient, hfound⟩ | ⟨hnone, hclient, hfound⟩
  · obtain ⟨haddr, href, hqueue⟩ := hold_eq_iff.mp (hhold.trans hclient)
    obtain ⟨hptr₀, hlru₀⟩ := ties_eq_iff.mp hfound
    rw [haddr, href, hqueue] at hhold'
    rw [hptr₀] at hptr
    rw [hlru₀] at hlru
    exact ⟨hptr, Or.inl ⟨c₀, hc₀, hhold', hlru⟩⟩
  · obtain ⟨haddr, href, hqueue⟩ := hold_eq_iff.mp (hhold.trans hclient)
    obtain ⟨hptr₀, hlru₀⟩ := ties_eq_iff.mp hfound
    rw [haddr, href, hqueue] at hhold'
    rw [hptr₀] at hptr
    rw [hlru₀] at hlru
    exact ⟨hptr, Or.inr ⟨hnone, hhold', hlru⟩⟩

/-- A `Dequeue` that returns a message takes it off the queue of its client. -/
theorem dequeue_hold {root : Option Jobid} (h : s.dequeue root = .ok (some msg, s')) :
    ∃ j c c' rest, s.clients j = some c ∧ c.queue = msg :: rest ∧ s'.clients j = some c' ∧
      c'.hold = (c.addr, c.ref, rest) ∧ (∀ i, i ≠ j → s'.clients i = s.clients i) ∧
      s'.ties = s.ties := by
  rcases dequeue_cases h with ⟨-, hout, -⟩ |
    ⟨-, j, c, -, hc, -, -, -, ⟨-, m, hm, hserve⟩ | ⟨-, hout, -⟩⟩
  · cases hout
  · cases hm
    obtain ⟨rest, c', hqueue, hc', rfl⟩ := serve_cases hserve
    exact ⟨j, c, c', rest, hc, hqueue, if_pos rfl, by rw [hc']; rfl, fun i hi => if_neg hi, rfl⟩
  · cases hout

/-- A `Dequeue` that returns nothing does not touch references. -/
theorem dequeue_idle_ties {root : Option Jobid} (h : s.dequeue root = .ok (none, s')) :
    s'.ties = s.ties := by
  rw [dequeue_none_frame h]
  rfl

/-- A purge over clients that nobody uses succeeds. It drops the first `n` of them. -/
theorem purge_spec {b : Nat} {js : List Jobid} (hnodup : js.Nodup)
    (hunused : ∀ j ∈ js, ∃ c, s.clients j = some c ∧ c.ref = 0 ∧ c.queue = [] ∧ c.inHeap = false) :
    ∃ s' n, purge p b js s = .ok s' ∧
      (∀ j, s'.clients j = if j ∈ js.take n then none else s.clients j) ∧
      s'.ties = (s.ptr, fun i => if i = b then js.drop n else s.lru i) := by
  induction js generalizing s with
  | nil => exact ⟨_, 0, rfl, fun j => rfl, rfl⟩
  | cons i rest ih =>
      obtain ⟨hi, hrest⟩ := List.nodup_cons.mp hnodup
      rw [purge]
      split
      · obtain ⟨c, hc, hfini⟩ := hunused i (List.mem_cons_self ..)
        rw [hc]
        dsimp only
        rw [check_true hfini, ok_bind]
        -- the rest of the list is not touched
        have hkept : ∀ j, j ≠ i → (s.setClient i none).clients j = s.clients j :=
          fun j hj => if_neg hj
        obtain ⟨s', n, hpurge, hclients, hties⟩ := ih (s := { s.setClient i none with
          bdCount := fun k => if k = b then s.bdCount b - 1 else s.bdCount k }) hrest
            fun j hj => by
              obtain ⟨c, hc, hunused⟩ := hunused j (List.mem_cons_of_mem _ hj)
              exact ⟨c, (hkept j fun heq => hi (heq ▸ hj)).trans hc, hunused⟩
        refine ⟨s', n + 1, hpurge, fun j => ?_, hties⟩
        rw [hclients j, List.take_succ_cons]
        by_cases hj : j = i
        · rw [if_pos (List.mem_cons.mpr (Or.inl hj))]
          split
          · rfl
          · exact if_pos hj
        · by_cases hmem : j ∈ rest.take n
          · rw [if_pos hmem, if_pos (List.mem_cons_of_mem _ hmem)]
          · rw [if_neg hmem, if_neg fun h => (List.mem_cons.mp h).elim hj hmem]
            exact hkept j hj
      · exact ⟨_, 0, rfl, fun j => rfl, rfl⟩

/-! ### One step -/

/-- A live message counts for its job. -/
theorem Usage.count_pos {u : Usage} (h : msg ∈ u.live) : 0 < u.count msg.jobid :=
  List.countP_pos_iff.mpr ⟨msg, h, decide_eq_true rfl⟩

/-- A new message counts for its job. -/
theorem Usage.count_cons (u : Usage) (j : Jobid) :
    Usage.count ⟨msg :: u.live, u.running⟩ j = u.count j + if j = msg.jobid then 1 else 0 := by
  unfold Usage.count
  rw [List.countP_cons]
  by_cases hj : j = msg.jobid
  · rw [if_pos hj, if_pos (decide_eq_true hj.symm)]
  · rw [if_neg hj, if_neg (by simpa using fun h => hj h.symm)]

/-- Finishing a live message takes it off the count of its job. -/
theorem Usage.count_erase {u : Usage} (h : msg ∈ u.live) (running : List Msg) (j : Jobid) :
    u.count j = Usage.count ⟨u.live.erase msg, running⟩ j + if j = msg.jobid then 1 else 0 := by
  rw [← Usage.count_cons]
  exact (List.perm_cons_erase h).countP_eq _

/-- The scheduler after `Finish` dropped the reference of `msg` on the client `c`. With its last
reference the client goes to the LRU list. -/
def released (s : NrsTbf) (p : Params) (msg : Msg) (c : Client) : NrsTbf :=
  { s.setClient msg.jobid (some { c with ref := c.ref - 1 }) with
    ptr := fun i => if i = msg.id then none else s.ptr i
    lru := fun i => if i = p.bucketOf msg.jobid ∧ c.ref - 1 = 0
      then s.lru i ++ [msg.jobid] else s.lru i }

/-- A purge of a bucket looks at the list that it is given, not at the one of the bucket. -/
theorem purge_lru (p : Params) (b : Nat) (js list : List Jobid) (s : NrsTbf) :
    purge p b js { s with lru := fun i => if i = b then list else s.lru i } = purge p b js s := by
  have hlru : ∀ js' : List Jobid, (fun i => if i = b then js' else
      if i = b then list else s.lru i) = fun i => if i = b then js' else s.lru i := by
    intro js'
    funext i
    split
    · rfl
    · rfl
  induction js generalizing s with
  | nil =>
      unfold purge
      rw [hlru]
  | cons j rest ih =>
      unfold purge
      split
      · cases s.clients j with
        | none => rfl
        | some c =>
            exact congrArg (Except.bind _) (funext fun _ => ih { s.setClient j none with
              bdCount := fun i => if i = b then s.bdCount b - 1 else s.bdCount i } hlru)
      · rw [hlru]

/-- `Finish` drops the reference, and purges the bucket when it was the last one. -/
theorem finish_eq (hc : s.clients msg.jobid = some c) (hptr : s.ptr msg.id = some c.addr) :
    s.finish p msg = if c.ref - 1 = 0 then purge p (p.bucketOf msg.jobid)
      ((s.released p msg c).lru (p.bucketOf msg.jobid)) (s.released p msg c)
      else .ok (s.released p msg c) := by
  unfold finish
  rw [hc]
  dsimp only
  rw [check_true hptr, ok_bind]
  split
  · rename_i hzero
    have hlist : (s.released p msg c).lru (p.bucketOf msg.jobid) =
        s.lru (p.bucketOf msg.jobid) ++ [msg.jobid] := if_pos ⟨rfl, hzero⟩
    have hreleased : s.released p msg c =
        { s.setClient msg.jobid (some { c with ref := c.ref - 1 }) with
          ptr := fun i => if i = msg.id then none else s.ptr i
          lru := fun i => if i = p.bucketOf msg.jobid
            then s.lru (p.bucketOf msg.jobid) ++ [msg.jobid] else s.lru i } := by
      unfold released
      refine congrArg (fun lru => ({ s.setClient msg.jobid (some { c with ref := c.ref - 1 }) with
        ptr := fun i => if i = msg.id then none else s.ptr i, lru := lru } : NrsTbf))
        (funext fun i => ?_)
      by_cases hi : i = p.bucketOf msg.jobid
      · rw [if_pos ⟨hi, hzero⟩, if_pos hi, hi]
      · rw [if_neg fun h => hi h.1, if_neg hi]
    rw [hlist, hreleased]
    exact (purge_lru p _ _ _ { s.setClient msg.jobid (some { c with ref := c.ref - 1 }) with
      ptr := fun i => if i = msg.id then none else s.ptr i }).symm
  · rename_i hzero
    refine congrArg Except.ok ?_
    unfold released
    refine congrArg (fun lru => ({ s.setClient msg.jobid (some { c with ref := c.ref - 1 }) with
      ptr := fun i => if i = msg.id then none else s.ptr i, lru := lru } : NrsTbf))
      (funext fun i => (if_neg fun h => hzero h.2).symm)

/-- The LRU lists get the client with its last reference. -/
theorem mem_released_lru {i : Jobid} {b : Nat} : i ∈ (s.released p msg c).lru b ↔
    i ∈ s.lru b ∨ i = msg.jobid ∧ b = p.bucketOf msg.jobid ∧ c.ref - 1 = 0 := by
  show (i ∈ if b = p.bucketOf msg.jobid ∧ c.ref - 1 = 0 then s.lru b ++ [msg.jobid]
    else s.lru b) ↔ _
  split
  · rename_i hb
    rw [List.mem_append, List.mem_singleton]
    exact or_congr_right ⟨fun hi => ⟨hi, hb⟩, And.left⟩
  · rename_i hb
    exact ⟨Or.inl, fun hi => hi.elim id fun hi => absurd hi.2 hb⟩

namespace RefInv

variable {u : Usage}

/-- Live messages with one id are the same. -/
theorem eq_of_id (h : RefInv p s u) {m : Msg} (hm : m ∈ u.live) (hmsg : msg ∈ u.live)
    (hid : m.id = msg.id) : m = msg :=
  List.inj_on_of_nodup_map h.ids hm hmsg hid

/-- Only the clients, the pointers and the LRU lists matter. -/
theorem congr (h : RefInv p s u) (hclients : s'.clients = s.clients) (hties : s'.ties = s.ties) :
    RefInv p s' u := by
  obtain ⟨hptr, hlru⟩ := ties_eq_iff.mp hties
  refine ⟨h.ids, h.running, ?_, ?_, ?_, ?_, ?_⟩
  · rw [hclients]
    exact h.queue
  · rw [hclients]
    exact h.ref
  · rw [hclients, hptr]
    exact h.ptr
  · rw [hclients, hlru]
    exact h.lru
  · rw [hlru]
    exact h.lruNodup

/-- A job without a client has no live message. -/
theorem count_eq_zero (h : RefInv p s u) (hnone : s.clients j = none) : u.count j = 0 := by
  refine List.countP_eq_zero.mpr fun m hm hj => ?_
  obtain ⟨c, hc, -⟩ := h.ptr m hm
  rw [of_decide_eq_true hj, hnone] at hc
  cases hc

/-- The client of a new message and the LRU lists after its `Enqueue`, whether the client was
cached or not. -/
theorem entered (h : RefInv p s u) (hnew : msg ∉ u.live)
    (hcase : (∃ c, s.clients msg.jobid = some c ∧
        c'.hold = (c.addr, c.ref + 1, c.queue ++ [msg]) ∧
        s'.lru = fun i => if i = p.bucketOf msg.jobid
          then (s.lru (p.bucketOf msg.jobid)).erase msg.jobid else s.lru i) ∨
      (s.clients msg.jobid = none ∧ c'.hold = (s.nextAddr, 1, [msg]) ∧ s'.lru = s.lru)) :
    c'.ref = ((u.count msg.jobid + 1 : Nat) : Int) ∧ c'.queue.Nodup ∧
      (∀ m ∈ c'.queue, m = msg ∨ m ∈ u.live ∧ m ∉ u.running ∧ m.jobid = msg.jobid) ∧
      (∀ c, s.clients msg.jobid = some c → c'.addr = c.addr) ∧
      (∀ i b, i ∈ s'.lru b ↔ i ∈ s.lru b ∧ i ≠ msg.jobid) ∧ ∀ b, (s'.lru b).Nodup := by
  rcases hcase with ⟨c, hc, hhold, hlru⟩ | ⟨hnone, hhold, hlru⟩
  · obtain ⟨haddr, href, hqueue⟩ := hold_eq_iff.mp hhold
    obtain ⟨hnodup, hmem⟩ := h.queue _ c hc
    refine ⟨?_, ?_, ?_, ?_, ?_, ?_⟩
    · rw [href, h.ref _ c hc]
      rfl
    · rw [hqueue]
      refine List.nodup_append.mpr ⟨hnodup, List.nodup_singleton _, fun m hm m' hm' => ?_⟩
      rw [List.mem_singleton.mp hm']
      rintro rfl
      exact hnew (hmem m hm).1
    · intro m hm
      rw [hqueue, List.mem_append, List.mem_singleton] at hm
      exact hm.elim (fun hm => Or.inr (hmem m hm)) Or.inl
    · intro c₀ hc₀
      rw [hc] at hc₀
      cases hc₀
      exact haddr
    · intro i b
      rw [hlru]
      dsimp only
      split
      · rename_i hb
        rw [hb, (h.lruNodup _).mem_erase_iff, and_comm]
      · rename_i hb
        refine ⟨fun hi => ⟨hi, ?_⟩, And.left⟩
        rintro rfl
        exact hb ((h.lru _ _).mp hi).1
    · intro b
      rw [hlru]
      dsimp only
      split
      · exact (h.lruNodup _).erase _
      · exact h.lruNodup b
  · obtain ⟨-, href, hqueue⟩ := hold_eq_iff.mp hhold
    refine ⟨?_, ?_, ?_, ?_, ?_, ?_⟩
    · rw [href, h.count_eq_zero hnone]
      rfl
    · rw [hqueue]
      exact List.nodup_singleton _
    · intro m hm
      rw [hqueue] at hm
      exact Or.inl (List.mem_singleton.mp hm)
    · intro c hc
      rw [hnone] at hc
      cases hc
    · intro i b
      rw [hlru]
      refine ⟨fun hi => ⟨hi, ?_⟩, And.left⟩
      rintro rfl
      obtain ⟨-, c, hc, -⟩ := (h.lru _ _).mp hi
      rw [hnone] at hc
      cases hc
    · intro b
      rw [hlru]
      exact h.lruNodup b

/-- `Enqueue` gives the client of the message one reference for it. -/
theorem enqueue (h : RefInv p s u) (hfresh : ∀ m ∈ u.live, m.id ≠ msg.id)
    (henq : s.enqueue p msg = .ok s') : RefInv p s' { u with live := msg :: u.live } := by
  obtain ⟨c', hother, hc', hptr, hcase⟩ := enqueue_hold henq
  have hnew : msg ∉ u.live := fun hmem => hfresh msg hmem rfl
  obtain ⟨href, hnodup, hmem, haddr, hlru, hlruNodup⟩ := h.entered hnew hcase
  refine ⟨?_, ?_, ?_, ?_, ?_, ?_, hlruNodup⟩
  · refine List.nodup_cons.mpr ⟨fun hid => ?_, h.ids⟩
    obtain ⟨m, hm, heq⟩ := List.mem_map.mp hid
    exact hfresh m hm heq
  · exact ⟨h.running.1, fun m hm => List.mem_cons_of_mem _ (h.running.2 m hm)⟩
  · intro i c hc
    by_cases hi : i = msg.jobid
    · subst hi
      rw [hc'] at hc
      cases hc
      refine ⟨hnodup, fun m hm => ?_⟩
      rcases hmem m hm with rfl | ⟨hlive, hrunning, hjob⟩
      · exact ⟨List.mem_cons_self .., fun hr => hnew (h.running.2 m hr), rfl⟩
      · exact ⟨List.mem_cons_of_mem _ hlive, hrunning, hjob⟩
    · rw [hother i hi] at hc
      obtain ⟨hnodup, hmem⟩ := h.queue i c hc
      exact ⟨hnodup, fun m hm => ⟨List.mem_cons_of_mem _ (hmem m hm).1, (hmem m hm).2⟩⟩
  · intro i c hc
    rw [Usage.count_cons]
    by_cases hi : i = msg.jobid
    · subst hi
      rw [hc'] at hc
      cases hc
      rw [if_pos rfl]
      exact href
    · rw [if_neg hi, h.ref i c (hother i hi ▸ hc), Nat.add_zero]
  · intro m hm
    rw [hptr]
    rcases List.mem_cons.mp hm with rfl | hm
    · exact ⟨c', hc', if_pos rfl⟩
    · obtain ⟨c, hc, hp⟩ := h.ptr m hm
      dsimp only
      rw [if_neg (hfresh m hm)]
      by_cases hj : m.jobid = msg.jobid
      · rw [hj] at hc ⊢
        exact ⟨c', hc', by rw [hp, haddr c hc]⟩
      · exact ⟨c, (hother _ hj).trans hc, hp⟩
  · intro i b
    rw [hlru, h.lru]
    by_cases hi : i = msg.jobid
    · subst hi
      refine ⟨fun hi => absurd rfl hi.2, ?_⟩
      rintro ⟨-, c, hc, hzero⟩
      rw [hc'] at hc
      cases hc
      omega
    · rw [hother i hi]
      exact and_iff_left hi

/-- A `Dequeue` that returns a message leaves the references alone. -/
theorem dequeue (h : RefInv p s u) {root : Option Jobid}
    (hdeq : s.dequeue root = .ok (some msg, s')) :
    RefInv p s' { u with running := msg :: u.running } := by
  obtain ⟨j, c, c', rest, hc, hqueue, hc', hhold, hother, hties⟩ := dequeue_hold hdeq
  obtain ⟨haddr, href, hrest⟩ := hold_eq_iff.mp hhold
  obtain ⟨hptr, hlru⟩ := ties_eq_iff.mp hties
  obtain ⟨hnodup, hmem⟩ := h.queue j c hc
  rw [hqueue] at hnodup hmem
  obtain ⟨hfront, hnodup⟩ := List.nodup_cons.mp hnodup
  obtain ⟨hlive, hnot, hjob⟩ := hmem msg (List.mem_cons_self ..)
  -- the clients with their references and addresses are the same
  have hsame : ∀ i d', s'.clients i = some d' →
      ∃ d, s.clients i = some d ∧ d'.ref = d.ref ∧ d'.addr = d.addr := by
    intro i d' hd'
    by_cases hi : i = j
    · subst hi
      rw [hc'] at hd'
      cases hd'
      exact ⟨c, hc, href, haddr⟩
    · exact ⟨d', hother i hi ▸ hd', rfl, rfl⟩
  have hkept : ∀ i d, s.clients i = some d →
      ∃ d', s'.clients i = some d' ∧ d'.ref = d.ref ∧ d'.addr = d.addr := by
    intro i d hd
    by_cases hi : i = j
    · subst hi
      rw [hc] at hd
      cases hd
      exact ⟨c', hc', href, haddr⟩
    · exact ⟨d, (hother i hi).trans hd, rfl, rfl⟩
  refine ⟨h.ids, ?_, ?_, ?_, ?_, ?_, ?_⟩
  · refine ⟨List.nodup_cons.mpr ⟨hnot, h.running.1⟩, fun m hm => ?_⟩
    rcases List.mem_cons.mp hm with rfl | hm
    · exact hlive
    · exact h.running.2 m hm
  · intro i d hd
    by_cases hi : i = j
    · subst hi
      rw [hc'] at hd
      cases hd
      rw [hrest]
      refine ⟨hnodup, fun m hm => ?_⟩
      obtain ⟨hlive', hnot', hjob'⟩ := hmem m (List.mem_cons_of_mem _ hm)
      refine ⟨hlive', fun hr => ?_, hjob'⟩
      rcases List.mem_cons.mp hr with rfl | hr
      · exact hfront hm
      · exact hnot' hr
    · rw [hother i hi] at hd
      obtain ⟨hnodup', hmem'⟩ := h.queue i d hd
      refine ⟨hnodup', fun m hm => ?_⟩
      obtain ⟨hlive', hnot', hjob'⟩ := hmem' m hm
      refine ⟨hlive', fun hr => ?_, hjob'⟩
      rcases List.mem_cons.mp hr with rfl | hr
      · exact hi (hjob'.symm.trans hjob)
      · exact hnot' hr
  · intro i d' hd'
    obtain ⟨d, hd, hr, -⟩ := hsame i d' hd'
    rw [hr]
    exact h.ref i d hd
  · intro m hm
    obtain ⟨d, hd, hp⟩ := h.ptr m hm
    obtain ⟨d', hd', -, ha⟩ := hkept _ d hd
    exact ⟨d', hd', by rw [hptr, ha, hp]⟩
  · intro i b
    rw [hlru, h.lru]
    refine and_congr_right fun _ => ⟨?_, ?_⟩
    · rintro ⟨d, hd, hzero⟩
      obtain ⟨d', hd', hr, -⟩ := hkept i d hd
      exact ⟨d', hd', hr.trans hzero⟩
    · rintro ⟨d', hd', hzero⟩
      obtain ⟨d, hd, hr, -⟩ := hsame i d' hd'
      exact ⟨d, hd, hr.symm.trans hzero⟩
  · rw [hlru]
    exact h.lruNodup

/-- A client without references has no message. -/
theorem queue_nil (h : RefInv p s u) (hc : s.clients j = some c) (hzero : c.ref = 0) :
    c.queue = [] := by
  refine List.eq_nil_iff_forall_not_mem.mpr fun m hm => ?_
  obtain ⟨hlive, -, rfl⟩ := (h.queue j c hc).2 m hm
  have hpos := Usage.count_pos hlive
  have href := h.ref _ c hc
  omega

/-- A client with references is on no LRU list. -/
theorem not_mem_lru (h : RefInv p s u) (hc : s.clients j = some c) (hne : c.ref ≠ 0) (b : Nat) :
    j ∉ s.lru b := by
  intro hb
  obtain ⟨-, d, hd, hzero⟩ := (h.lru _ _).mp hb
  cases hc.symm.trans hd
  exact hne hzero

/-- The messages of a client are in use after another message is finished. -/
theorem queue_erase (h : RefInv p s u) (hmsg : msg ∈ u.running) (hc : s.clients j = some c) :
    c.queue.Nodup ∧ ∀ m ∈ c.queue,
      m ∈ u.live.erase msg ∧ m ∉ u.running.erase msg ∧ m.jobid = j := by
  obtain ⟨hnodup, hmem⟩ := h.queue j c hc
  refine ⟨hnodup, fun m hm => ?_⟩
  obtain ⟨hlive, hnot, hjob⟩ := hmem m hm
  have hne : m ≠ msg := by
    rintro rfl
    exact hnot hmsg
  exact ⟨(List.mem_erase_of_ne hne).mpr hlive, fun hr => hnot (List.mem_of_mem_erase hr), hjob⟩

/-- Dropping the reference of a message that is finished keeps the references with the live
messages. -/
theorem release (h : RefInv p s u) (hmsg : msg ∈ u.running)
    (hc : s.clients msg.jobid = some c) :
    RefInv p (s.released p msg c) ⟨u.live.erase msg, u.running.erase msg⟩ := by
  have hlive := h.running.2 msg hmsg
  have hnodup : u.live.Nodup := h.ids.of_map _
  have hpos := Usage.count_pos hlive
  have href := h.ref _ c hc
  have hclients : ∀ i, (s.released p msg c).clients i =
      if i = msg.jobid then some { c with ref := c.ref - 1 } else s.clients i := fun _ => rfl
  refine ⟨h.ids.sublist (List.erase_sublist.map _), ?_, ?_, ?_, ?_, ?_, ?_⟩
  · refine ⟨h.running.1.erase _, fun m hm => ?_⟩
    obtain ⟨hne, hm⟩ := h.running.1.mem_erase_iff.mp hm
    exact hnodup.mem_erase_iff.mpr ⟨hne, h.running.2 m hm⟩
  · intro i d hd
    rw [hclients] at hd
    split at hd
    · rename_i hi
      cases hd
      have hqueue := h.queue_erase hmsg hc
      rw [← hi] at hqueue
      exact hqueue
    · exact h.queue_erase hmsg hd
  · intro i d hd
    have hcount := Usage.count_erase hlive (u.running.erase msg) i
    rw [hclients] at hd
    split at hd
    · rename_i hi
      cases hd
      rw [if_pos hi] at hcount
      subst hi
      show c.ref - 1 = _
      omega
    · rename_i hi
      rw [if_neg hi] at hcount
      rw [h.ref i d hd, hcount]
      rfl
  · intro m hm
    obtain ⟨hne, hm⟩ := hnodup.mem_erase_iff.mp hm
    obtain ⟨d, hd, hp⟩ := h.ptr m hm
    show ∃ d : Client, (s.released p msg c).clients m.jobid = some d ∧
      (if m.id = msg.id then none else s.ptr m.id) = some d.addr
    rw [hclients, if_neg fun hid => hne (h.eq_of_id hm hlive hid)]
    by_cases hj : m.jobid = msg.jobid
    · rw [if_pos hj]
      rw [hj, hc] at hd
      cases hd
      exact ⟨_, rfl, hp⟩
    · rw [if_neg hj]
      exact ⟨d, hd, hp⟩
  · intro i b
    rw [mem_released_lru, h.lru, hclients]
    by_cases hi : i = msg.jobid
    · -- the client was in use, so it is listed with its last reference only
      subst hi
      rw [if_pos rfl, hc]
      constructor
      · rintro (⟨-, d, hd, hzero⟩ | ⟨-, hb, hzero⟩)
        · cases hd
          omega
        · exact ⟨hb, _, rfl, hzero⟩
      · rintro ⟨hb, d, hd, hzero⟩
        cases hd
        exact Or.inr ⟨rfl, hb, hzero⟩
    · rw [if_neg hi]
      exact or_iff_left fun hi' => hi hi'.1
  · intro b
    show (if b = p.bucketOf msg.jobid ∧ c.ref - 1 = 0 then s.lru b ++ [msg.jobid]
      else s.lru b).Nodup
    split
    · exact (List.perm_append_singleton _ _).nodup_iff.mpr
        (List.nodup_cons.mpr ⟨h.not_mem_lru hc (by omega) b, h.lruNodup b⟩)
    · exact h.lruNodup b

/-- Dropping the oldest clients of an LRU list. -/
theorem drop (h : RefInv p s u) {b n : Nat}
    (hclients : ∀ j, s'.clients j = if j ∈ (s.lru b).take n then none else s.clients j)
    (hties : s'.ties = (s.ptr, fun i => if i = b then (s.lru b).drop n else s.lru i)) :
    RefInv p s' u := by
  obtain ⟨hptr, hlru⟩ := ties_eq_iff.mp hties
  -- a client that is left was there before
  have hleft : ∀ {i d}, s'.clients i = some d → i ∉ (s.lru b).take n ∧ s.clients i = some d := by
    intro i d hd
    rw [hclients] at hd
    split at hd
    · cases hd
    · rename_i hi
      exact ⟨hi, hd⟩
  have hsplit : ∀ i, i ∈ (s.lru b).drop n ↔ i ∈ s.lru b ∧ i ∉ (s.lru b).take n := by
    intro i
    have hnodup := h.lruNodup b
    rw [← List.take_append_drop n (s.lru b)] at hnodup
    have hdisjoint := (List.nodup_append.mp hnodup).2.2
    constructor
    · intro hi
      exact ⟨List.mem_of_mem_drop hi, fun hi' => hdisjoint i hi' i hi rfl⟩
    · rintro ⟨hi, hnot⟩
      rw [← List.take_append_drop n (s.lru b), List.mem_append] at hi
      exact hi.resolve_left hnot
  refine ⟨h.ids, h.running, ?_, ?_, ?_, ?_, ?_⟩
  · exact fun i d hd => h.queue i d (hleft hd).2
  · exact fun i d hd => h.ref i d (hleft hd).2
  · intro m hm
    obtain ⟨d, hd, hp⟩ := h.ptr m hm
    refine ⟨d, ?_, by rw [hptr, hp]⟩
    rw [hclients, if_neg fun hmem => ?_]
    · exact hd
    · -- the client of a live message has a reference
      obtain ⟨-, d', hd', hzero⟩ := (h.lru _ _).mp (List.mem_of_mem_take hmem)
      rw [hd] at hd'
      cases hd'
      have hpos := Usage.count_pos hm
      have href := h.ref _ d hd
      omega
  · intro i b'
    rw [hlru]
    dsimp only
    split
    · rename_i hb
      subst hb
      rw [hsplit, h.lru]
      constructor
      · rintro ⟨⟨hb, d, hd, hzero⟩, hnot⟩
        exact ⟨hb, d, by rw [hclients, if_neg hnot, hd], hzero⟩
      · rintro ⟨hb, d, hd, hzero⟩
        obtain ⟨hnot, hd⟩ := hleft hd
        exact ⟨⟨hb, d, hd, hzero⟩, hnot⟩
    · rename_i hb
      rw [h.lru]
      refine and_congr_right fun hb' => ⟨?_, ?_⟩
      · rintro ⟨d, hd, hzero⟩
        refine ⟨d, ?_, hzero⟩
        rw [hclients, if_neg fun hmem => ?_]
        · exact hd
        · exact hb (hb'.trans ((h.lru _ _).mp (List.mem_of_mem_take hmem)).1.symm)
      · rintro ⟨d, hd, hzero⟩
        exact ⟨d, (hleft hd).2, hzero⟩
  · intro b'
    rw [hlru]
    dsimp only
    split
    · exact (h.lruNodup b).sublist (List.drop_sublist _ _)
    · exact h.lruNodup b'

/-- After the reference of a finished message was dropped, a client without references has no
message and is not in the heap. -/
theorem released_unused (h : RefInv p s u)
    (hflag : ∀ j c, s.clients j = some c → (c.inHeap = true ↔ c.queue ≠ []))
    (hmsg : msg ∈ u.running) (hc : s.clients msg.jobid = some c) {d : Client}
    (hd : (s.released p msg c).clients j = some d) (hzero : d.ref = 0) :
    d.queue = [] ∧ d.inHeap = false := by
  have hnil := (h.release hmsg hc).queue_nil hd hzero
  refine ⟨hnil, ?_⟩
  replace hd : (if j = msg.jobid then some { c with ref := c.ref - 1 } else s.clients j) =
    some d := hd
  split at hd
  · cases hd
    exact Bool.eq_false_iff.mpr fun hin => (hflag _ c hc).mp hin hnil
  · exact Bool.eq_false_iff.mpr fun hin => (hflag j d hd).mp hin hnil

/-- `Finish` succeeds, and frees clients only that nobody uses. -/
theorem finish (h : RefInv p s u)
    (hflag : ∀ j c, s.clients j = some c → (c.inHeap = true ↔ c.queue ≠ []))
    (hmsg : msg ∈ u.running) :
    ∃ s', s.finish p msg = .ok s' ∧ RefInv p s' ⟨u.live.erase msg, u.running.erase msg⟩ ∧
      ∀ j c, s.clients j = some c → s'.clients j = none →
        c.ref = (if j = msg.jobid then 1 else 0) ∧ c.queue = [] ∧ c.inHeap = false := by
  obtain ⟨c, hc, hptr⟩ := h.ptr msg (h.running.2 msg hmsg)
  have hinv := h.release hmsg hc
  have hclients : ∀ j, (s.released p msg c).clients j =
      if j = msg.jobid then some { c with ref := c.ref - 1 } else s.clients j := fun _ => rfl
  rw [finish_eq hc hptr]
  split
  · -- a client on the LRU list has no references
    have hlisted : ∀ j ∈ (s.released p msg c).lru (p.bucketOf msg.jobid),
        ∃ d, (s.released p msg c).clients j = some d ∧ d.ref = 0 ∧ d.queue = [] ∧
          d.inHeap = false := by
      intro j hj
      obtain ⟨-, d, hd, hzero⟩ := (hinv.lru _ _).mp hj
      exact ⟨d, hd, hzero, h.released_unused hflag hmsg hc hd hzero⟩
    obtain ⟨s', n, hpurge, hpurged, hties⟩ := @purge_spec p (s.released p msg c) _ _
      (hinv.lruNodup (p.bucketOf msg.jobid)) hlisted
    refine ⟨s', hpurge, hinv.drop hpurged hties, fun j d hd hnone => ?_⟩
    rw [hpurged] at hnone
    split at hnone
    · rename_i hj
      obtain ⟨d', hd', hzero, hnil, hout⟩ := hlisted j (List.mem_of_mem_take hj)
      rw [hclients] at hd'
      split at hd'
      · rename_i hjm
        rw [hjm, hc] at hd
        cases hd
        cases hd'
        rw [if_pos hjm]
        replace hzero : c.ref - 1 = 0 := hzero
        exact ⟨by omega, hnil, hout⟩
      · rename_i hjm
        rw [hd] at hd'
        cases hd'
        rw [if_neg hjm]
        exact ⟨hzero, hnil, hout⟩
    · rw [hclients] at hnone
      split at hnone
      · cases hnone
      · rw [hd] at hnone
        cases hnone
  · refine ⟨_, rfl, hinv, fun j d hd hnone => ?_⟩
    rw [hclients] at hnone
    split at hnone
    · cases hnone
    · rw [hd] at hnone
      cases hnone

/-- A scheduler without clients is in order. -/
theorem start (p : Params) (rules : Nat → Rule) (ruleList : List Nat) :
    RefInv p (NrsTbf.start rules ruleList) ⟨[], []⟩ := by
  refine ⟨List.nodup_nil, ⟨List.nodup_nil, fun m hm => hm⟩, ?_, ?_, ?_, ?_, ?_⟩
  · intro j c hc
    cases hc
  · intro j c hc
    cases hc
  · intro m hm
    cases hm
  · intro j b
    refine ⟨fun hj => (by cases hj), ?_⟩
    rintro ⟨-, c, hc, -⟩
    cases hc
  · exact fun b => List.nodup_nil

end RefInv

/-- Every step keeps the references with the live messages. -/
theorem UseStep.inv {a b : Heaped × Usage} {e : Event} (hstep : UseStep p a e b)
    (hheap : HeapInv a.1) (h : RefInv p a.1.tbf a.2) :
    HeapInv b.1 ∧ RefInv p b.1.tbf b.2 := by
  obtain ⟨hallows, hstep, hafter⟩ := hstep
  refine ⟨hstep.inv hheap, ?_⟩
  obtain ⟨a, u⟩ := a
  obtain ⟨b, u'⟩ := b
  dsimp only at *
  subst hafter
  cases hstep with
  | clock => exact h.congr rfl rfl
  | enqueue henq => exact h.enqueue hallows henq
  | served _ hdeq => exact h.dequeue hdeq
  | idle _ hdeq => exact h.congr (dequeue_none hdeq) (dequeue_idle_ties hdeq)
  | finish hfin =>
      obtain ⟨s', hfin', hinv, -⟩ := h.finish hheap.inHeap hallows
      rw [hfin] at hfin'
      cases hfin'
      exact hinv
  | timer => exact h.congr rfl rfl

/-- Only `Finish` frees clients. -/
theorem HeapStep.kept {st st' : Heaped} {e : Event} (hstep : HeapStep p st e st')
    (he : ∀ now msg, e ≠ .finish now msg) (hc : st.tbf.clients j = some c) :
    ∃ c', st'.tbf.clients j = some c' := by
  cases hstep with
  | clock => exact ⟨c, hc⟩
  | @enqueue _ _ _ msg henq =>
      obtain ⟨c', hother, hc', -⟩ := enqueue_hold henq
      by_cases hj : j = msg.jobid
      · exact ⟨c', hj ▸ hc'⟩
      · exact ⟨c, (hother j hj).trans hc⟩
  | @served _ _ _ i _ _ hdeq =>
      obtain ⟨i, c₀, c', rest, -, -, hc', -, hother, -⟩ := dequeue_hold hdeq
      by_cases hj : j = i
      · exact ⟨c', hj ▸ hc'⟩
      · exact ⟨c, (hother j hj).trans hc⟩
  | idle _ hdeq => exact ⟨c, by rw [dequeue_none hdeq, hc]⟩
  | @finish s _ _ msg _ => exact absurd rfl (he s.now msg)
  | timer => exact ⟨c, hc⟩

/-! ### Runs -/

/-- The references on the clients between two events. -/
structure Balanced (p : Params) (st : Heaped) (u : Usage) : Prop where
  /-- A client has one reference for each of its live messages. -/
  ref : ∀ j c, st.tbf.clients j = some c → c.ref = u.count j
  /-- The LRU list of a bucket holds its clients without references. -/
  lru : ∀ j b, j ∈ st.tbf.lru b ↔
    b = p.bucketOf j ∧ ∃ c, st.tbf.clients j = some c ∧ c.ref = 0
  /-- A live message refers to the cached client of its job. -/
  ptr : ∀ m ∈ u.live, ∃ c, st.tbf.clients m.jobid = some c ∧ st.tbf.ptr m.id = some c.addr
  /-- `Finish` of a message that `Dequeue` returned succeeds. A client that it frees has no
  reference left and no message. -/
  fini : ∀ msg ∈ u.running, ∃ s', st.tbf.finish p msg = .ok s' ∧
    ∀ j c, st.tbf.clients j = some c → s'.clients j = none →
      c.ref = (if j = msg.jobid then 1 else 0) ∧ c.queue = [] ∧ c.inHeap = false
  /-- No other event frees a client. -/
  kept : ∀ e st', HeapStep p st e st' → (∀ now msg, e ≠ .finish now msg) →
    ∀ j c, st.tbf.clients j = some c → ∃ c', st'.tbf.clients j = some c'

/-- **The references balance.** They do in every run in which a message is finished once, after
its `Dequeue`. -/
theorem references_balance (p : Params) (rules : Nat → Rule) (ruleList : List Nat)
    (es : List Event) (st : Heaped) (u : Usage)
    (hrun : Run (UseStep p) (⟨start rules ruleList, []⟩, ⟨[], []⟩) es (st, u)) :
    Balanced p st u := by
  have hinv : HeapInv st ∧ RefInv p st.tbf u :=
    hrun.invariant (P := fun a => HeapInv a.1 ∧ RefInv p a.1.tbf a.2)
      (fun _ _ _ h hstep => hstep.inv h.1 h.2)
      ⟨heapInv_start rules ruleList, RefInv.start p rules ruleList⟩
  obtain ⟨hheap, h⟩ := hinv
  refine ⟨h.ref, h.lru, h.ptr, fun msg hmsg => ?_, fun e st' hstep he j c hc => hstep.kept he hc⟩
  obtain ⟨s', hfin, -, hfreed⟩ := h.finish hheap.inHeap hmsg
  exact ⟨s', hfin, hfreed⟩

/-- Two jobs. The request of the first is finished, and the second waits. -/
theorem references_balance_two : ∃ st,
    Run (UseStep smallParams) (⟨start smallRules [0], []⟩, ⟨[], []⟩)
      [.enqueue 0 ⟨1, "a"⟩, .enqueue 0 ⟨2, "b"⟩, .dequeue 0 (some "a") (some ⟨1, "a"⟩),
        .finish 0 ⟨1, "a"⟩] (st, ⟨[⟨2, "b"⟩], []⟩) ∧
    Balanced smallParams st ⟨[⟨2, "b"⟩], []⟩ := by
  have hexists : ∃ st, Run (UseStep smallParams) (⟨start smallRules [0], []⟩, ⟨[], []⟩)
      [.enqueue 0 ⟨1, "a"⟩, .enqueue 0 ⟨2, "b"⟩, .dequeue 0 (some "a") (some ⟨1, "a"⟩),
        .finish 0 ⟨1, "a"⟩] (st, ⟨[⟨2, "b"⟩], []⟩) :=
    ⟨_, .cons (.of (fun m hm => nomatch hm) (.enqueue rfl)) <|
      .cons (.of (fun m hm => by rw [List.mem_singleton.mp hm]; decide) (.enqueue rfl)) <|
      .cons (.of trivial (.served ⟨⟨100000000, 0⟩, by decide, by decide⟩ rfl)) <|
      .cons (.of (List.mem_cons_self ..) (.finish rfl)) (.nil _)⟩
  obtain ⟨st, hrun⟩ := hexists
  exact ⟨st, hrun, references_balance _ _ _ _ st _ hrun⟩

end LustreSimulator.NrsTbf
