import LustreSimulator.Disk
import LustreSimulator.Lib.Run
import LustreSimulator.Proofs.Elevator

/-!
# `LustreSimulator.Proofs.Disk`: what a step does to the live requests of a disk

A request is live from the call of `Enqueue` that creates it until its `EndRequest` is over, or
until it is hung behind another request. It is then in the elevator, in the `Queue` of the disk,
or it is the one that the disk serves (`live`).

`submitIoreq_spec` and the lemmas in front of it describe the calls. Unplugging moves requests
from the elevator to the disk (`Disk.ready`, `Handed`). `step_effect` then says for every step
what happens to the live requests (`Effect`), and that the queues stay sound (`Sound`).
-/

set_option autoImplicit false

namespace LustreSimulator

open Lib Elevator

namespace Elevator

variable {e e' e'' : Elevator} {p : Params} {rq : Nat} {l l' : List Nat}

/-- The requests `l` were taken out of the elevator. -/
structure Handed (e e' : Elevator) (l : List Nat) : Prop where
  members : (l ++ e'.sched.members).Perm e.sched.members
  core : ∀ i, (e'.reqs i).core = (e.reqs i).core
  nextReq : e'.nextReq = e.nextReq
  count : e'.count = e.count

/-- No request is taken. -/
theorem Handed.refl (e : Elevator) : Handed e e [] :=
  ⟨List.Perm.refl _, fun _ => rfl, rfl, rfl⟩

/-- One request is taken, and then others. -/
theorem Handed.cons (h : Taken e e' rq) (h' : Handed e' e'' l) : Handed e e'' (rq :: l) := by
  refine ⟨?_, fun i => (h'.core i).trans (h.core i), h'.nextReq.trans h.nextReq,
    h'.count.trans h.count⟩
  have hrest : (rq :: (l ++ e''.sched.members)).Perm (rq :: e'.sched.members) := h'.members.cons rq
  rw [h.members] at hrest
  exact hrest.trans (List.perm_cons_erase h.mem).symm

end Elevator

namespace Disk

variable {d d' : Disk} {p : Params} {rq : Nat} {req : Submitted}

/-! ### Unplugging -/

/-- The disk after it got the requests `l` out of the elevator, which is `e` then. An idle disk
wakes up. -/
def ready (d : Disk) (e : Elevator) (l : List Nat) : Disk :=
  { d with
    elv := e
    queue := d.queue ++ l
    diskState := if l ≠ [] ∧ d.diskState = .idle then .work else d.diskState
    run := if l ≠ [] ∧ d.diskState = .idle then true else d.run }

/-- The disk gets no request. -/
theorem ready_nil (d : Disk) (e : Elevator) : d.ready e [] = { d with elv := e } := by
  unfold ready
  rw [List.append_nil, if_neg (fun h => h.1 rfl), if_neg (fun h => h.1 rfl)]

/-- The requests may come one by one. -/
theorem ready_cons (d : Disk) (e e' : Elevator) (rq : Nat) (l : List Nat) :
    (d.ready e [rq]).ready e' l = d.ready e' (rq :: l) := by
  by_cases hidle : d.diskState = .idle
  · simp [ready, hidle]
  · simp [ready, hidle]

/-- `SubmitRq` puts the request on `Queue`. -/
theorem submitRq_spec (h : d.submitRq rq = .ok d') : d' = d.ready d.elv [rq] := by
  unfold submitRq at h
  dsimp only at h
  split at h
  · rename_i hidle
    obtain ⟨u, -, h⟩ := bind_eq_ok.mp h
    cases h
    simp [ready, hidle]
  · rename_i hidle
    cases h
    simp [ready, hidle]

/-- `SubmitRq` has no loop. -/
theorem submitRq_ne_loop (d : Disk) (rq : Nat) : d.submitRq rq ≠ .error .loop := by
  unfold submitRq
  dsimp only
  split
  · apply bind_ne_error (check_ne_error (by decide))
    exact fun _ _ h => nomatch h
  · exact fun h => nomatch h

/-- The loop of `Request` takes all members out of the elevator. -/
theorem requestLoop_spec {k : Nat} (h : requestLoop k d = .ok d') (hwf : WF d.elv) :
    ∃ e l, d' = d.ready e l ∧ WF e ∧ e.sched.members = [] ∧ Handed d.elv e l := by
  induction k generalizing d with
  | zero => cases h
  | succ k ih =>
      unfold requestLoop at h
      obtain ⟨r, hdequeue, h⟩ := bind_eq_ok.mp h
      rcases dequeue_spec hdequeue hwf with ⟨rfl, hempty⟩ | ⟨rq, hrq, hwf', htaken, -⟩
      · cases h
        exact ⟨d.elv, [], (ready_nil d d.elv).symm, hwf, hempty, .refl _⟩
      · rw [hrq] at h
        dsimp only at h
        obtain ⟨d₁, hsubmit, hloop⟩ := bind_eq_ok.mp h
        have hd₁ : d₁ = d.ready r.2 [rq] := submitRq_spec hsubmit
        subst hd₁
        obtain ⟨e, l, rfl, hwfe, hempty, hhanded⟩ := ih hloop hwf'
        exact ⟨e, rq :: l, ready_cons d r.2 e rq l, hwfe, hempty, .cons htaken hhanded⟩

/-- The bound on the loop of `Request` is large enough: every turn takes a member. -/
theorem requestLoop_ne_loop {k : Nat} (hwf : WF d.elv) (hk : d.elv.sched.members.length < k) :
    requestLoop k d ≠ .error .loop := by
  induction k generalizing d with
  | zero => exact absurd hk (Nat.not_lt_zero _)
  | succ k ih =>
      apply bind_ne_error (dequeue_ne_loop hwf)
      intro r hdequeue
      rcases dequeue_spec hdequeue hwf with ⟨rfl, -⟩ | ⟨rq, hrq, hwf', htaken, -⟩
      · exact fun h => nomatch h
      · rw [hrq]
        apply bind_ne_error (submitRq_ne_loop _ rq)
        intro d₁ hsubmit
        have hd₁ : d₁ = d.ready r.2 [rq] := submitRq_spec hsubmit
        subst hd₁
        apply ih hwf'
        show r.2.sched.members.length < k
        have hlen := List.length_erase_of_mem htaken.mem
        have hpos := List.length_pos_of_mem htaken.mem
        rw [htaken.members]
        omega

/-- The loop of `Request` does not run out of turns. -/
theorem request_ne_loop (hwf : WF d.elv) : d.request ≠ .error .loop :=
  requestLoop_ne_loop hwf (by rw [size_eq hwf]; exact Nat.lt_succ_self _)

/-- `Unplug` does nothing, or takes all members out of the elevator. -/
theorem unplug_spec (h : d.unplug = .ok d') (hwf : WF d.elv) :
    (d.pluged = false ∧ d' = d) ∨
    d.pluged = true ∧ ∃ e l, d' = { d with timer := none, pluged := false }.ready e l ∧
      WF e ∧ e.sched.members = [] ∧ Handed d.elv e l := by
  unfold unplug at h
  split at h
  · rename_i hplug
    exact Or.inr ⟨hplug, requestLoop_spec h hwf⟩
  · rename_i hplug
    cases h
    exact Or.inl ⟨by simpa using hplug, rfl⟩

/-- `Plug` does nothing, or arms the timer. -/
theorem plug_spec (h : d.plug p = .ok d') :
    (d.pluged = true ∧ d' = d) ∨
    d.pluged = false ∧ d' = { d with pluged := true, timer := some (d.now + p.delay) } := by
  unfold plug at h
  split at h
  · rename_i hplug
    cases h
    exact Or.inl ⟨hplug, rfl⟩
  · rename_i hplug
    split at h
    · cases h
    · rename_i timer hmod
      cases h
      refine Or.inr ⟨by simpa using hplug, ?_⟩
      unfold Timer.modTimer at hmod
      split at hmod
      · rename_i harmed
        cases hmod
        rw [harmed]
      · split at hmod
        · cases hmod
          rfl
        · cases hmod

/-! ### Submitting -/

/-- `pluged` and the timer after the plugging of `Enqueue`, which happens when the elevator is
empty. -/
def plugs (d : Disk) (p : Params) : Bool × Option Nat :=
  if d.elv.sched.members = [] ∧ d.pluged = false then (true, some (d.now + p.delay))
  else (d.pluged, d.timer)

/-- The plugging of `Enqueue`. -/
theorem plugs_spec {e : Elevator} (hwf : WF d.elv) (hsched : e.sched = d.elv.sched)
    (hqueue : e.queue = d.elv.queue)
    (h : (if e.elvQueueEmpty then { d with elv := e }.plug p else .ok { d with elv := e }) =
      .ok d') : d' = { d with elv := e, pluged := (d.plugs p).1, timer := (d.plugs p).2 } := by
  have hempty : e.elvQueueEmpty = true ↔ d.elv.sched.members = [] := by
    rw [← elvQueueEmpty_iff hwf]
    unfold elvQueueEmpty queueEmpty
    rw [hsched, hqueue]
  unfold plugs
  split at h
  · rename_i hmembers
    rcases plug_spec h with ⟨hplug, rfl⟩ | ⟨hplug, rfl⟩
    · have hplug : d.pluged = true := hplug
      rw [if_neg (by simp [hplug])]
    · have hplug : d.pluged = false := hplug
      rw [if_pos ⟨hempty.mp hmembers, hplug⟩]
  · rename_i hmembers
    cases h
    rw [if_neg fun h => hmembers (hempty.mpr h.1)]

/-- `Enqueue` with a new request: plug the disk when the elevator was empty, add the request,
and unplug the disk when enough requests wait. -/
theorem enqueueNew_spec (h : d.enqueueNew p req = .ok d') (hwf : WF d.elv) :
    ∃ b t e₁ e l, d' = { d with pluged := b, timer := t }.ready e l ∧ WF e ∧
      Added d.elv e₁ req ∧ Handed e₁ e l ∧
      ((b, t) = d.plugs p ∧ l = [] ∨ (b, t) = (false, none) ∧ e.sched.members = []) := by
  unfold enqueueNew at h
  dsimp only at h
  obtain ⟨d₁, hplug, h⟩ := bind_eq_ok.mp h
  have hd₁ := plugs_spec (e := d.elv.newRequest req) hwf rfl rfl hplug
  subst hd₁
  obtain ⟨e₁, hadd, h⟩ := bind_eq_ok.mp h
  obtain ⟨hwf₁, hadded⟩ := elvAddRequest_spec hwf hadd
  split at h
  · rcases unplug_spec h hwf₁ with ⟨-, rfl⟩ | ⟨-, e, l, rfl, hwfe, hempty, hhanded⟩
    · exact ⟨_, _, e₁, e₁, [], (ready_nil _ _).symm, hwf₁, hadded, .refl e₁, Or.inl ⟨rfl, rfl⟩⟩
    · exact ⟨false, none, e₁, e, l, rfl, hwfe, hadded, hhanded, Or.inr ⟨rfl, hempty⟩⟩
  · cases h
    exact ⟨_, _, e₁, e₁, [], (ready_nil _ _).symm, hwf₁, hadded, .refl e₁, Or.inl ⟨rfl, rfl⟩⟩

/-- **Submitting an ioreq.** It joins a request of the elevator, which may then be merged with a
neighbour, or it gets a request of its own. -/
theorem submitIoreq_spec {r : Ioreq} (h : d.submitIoreq p r = .ok d') (hwf : WF d.elv) :
    (∃ rq r₁ e, d' = { d with elv := e, nextSerial := d.nextSerial + 1 } ∧ WF e ∧
      rq ∈ d.elv.sched.members ∧ Joins d.elv p ⟨r, d.nextSerial⟩ rq r₁.core ∧
      (Unmoved (d.elv.setReq rq r₁) e ∨ ∃ a b, Absorbed (d.elv.setReq rq r₁) e a b)) ∨
    ∃ e₀, WF e₀ ∧ Unmoved d.elv e₀ ∧
      { d with elv := e₀, nextSerial := d.nextSerial + 1 }.enqueueNew p ⟨r, d.nextSerial⟩ =
        .ok d' := by
  unfold submitIoreq at h
  dsimp only at h
  obtain ⟨m, hmerge, h⟩ := bind_eq_ok.mp h
  obtain ⟨hwf', ⟨hno, hsame⟩ | ⟨hyes, rq, r₁, hmem, hjoin, hresult⟩⟩ := mergeIoreq_spec hmerge hwf
  · rw [hno] at h
    exact Or.inr ⟨m.2, hwf', hsame, h⟩
  · rw [if_pos hyes] at h
    cases h
    exact Or.inl ⟨rq, r₁, m.2, rfl, hwf', hmem, hjoin, hresult⟩

/-! ### The live requests -/

/-- The request that the disk serves, if there is one. -/
def current (d : Disk) : List Nat := if d.diskState = .reqFinished then d.curq.toList else []

/-- The requests in the elevator, in the `Queue` of the disk, and the one that the disk serves. -/
def live (d : Disk) : List Nat := d.elv.sched.members ++ d.queue ++ d.current

/-- The ioreqs that `EndRequest` has taken from a request so far. -/
def servedOf (d : Disk) (i : Nat) : List Submitted :=
  if d.ending = true ∧ d.curq = some i then d.served else []

/-- The queues hold different requests, and `EndRequest` runs for the request that the disk
serves. -/
structure Sound (d : Disk) : Prop where
  wf : WF d.elv
  nodup : d.live.Nodup
  lt : ∀ i ∈ d.live, i < d.elv.nextReq
  ending : d.ending = true → d.diskState = .reqFinished

/-- The live requests and the ioreqs in them stay. -/
structure Same (d d' : Disk) : Prop where
  live : d'.live.Perm d.live
  core : ∀ i, (d'.elv.reqs i).core = (d.elv.reqs i).core
  served : ∀ i, d'.servedOf i = d.servedOf i
  completed : d'.completed = d.completed
  nextReq : d'.elv.nextReq = d.elv.nextReq

/-- There is a new live request for the ioreq. -/
structure Grown (d d' : Disk) (req : Submitted) : Prop where
  live : d'.live.Perm (d.elv.nextReq :: d.live)
  job : (d'.elv.reqs d.elv.nextReq).core = (req.cmd, req.off, req.count, [req])
  rest : ∀ i, i ≠ d.elv.nextReq → (d'.elv.reqs i).core = (d.elv.reqs i).core
  served : ∀ i, d'.servedOf i = d.servedOf i
  completed : d'.completed = d.completed
  nextReq : d'.elv.nextReq = d.elv.nextReq + 1

/-- The request `rq` is live no more. -/
structure Ended (d d' : Disk) (rq : Nat) : Prop where
  live : d.live.Perm (rq :: d'.live)
  core : ∀ i, (d'.elv.reqs i).core = (d.elv.reqs i).core
  served : ∀ i, d'.servedOf i = []
  completed : d'.completed = d.completed
  nextReq : d'.elv.nextReq = d.elv.nextReq

/-- The live requests stay sound when they stay. -/
theorem Sound.of_same (hs : Sound d) (h : Same d d') (hwf : WF d'.elv)
    (hending : d'.ending = true → d'.diskState = .reqFinished) : Sound d' := by
  refine ⟨hwf, h.live.nodup_iff.mpr hs.nodup, ?_, hending⟩
  intro i hi
  rw [h.nextReq]
  exact hs.lt i (h.live.mem_iff.mp hi)

/-- Handing requests to the disk does not change the request that it serves. -/
theorem current_ready (d : Disk) (e : Elevator) (l : List Nat) :
    (d.ready e l).current = d.current := by
  unfold current ready
  by_cases hidle : l ≠ [] ∧ d.diskState = .idle
  · simp [hidle]
  · simp [if_neg hidle]

/-- Handing requests to the disk keeps them live. -/
theorem live_ready {e : Elevator} {l : List Nat} (h : Handed d.elv e l) :
    (d.ready e l).live.Perm d.live := by
  unfold live
  rw [current_ready]
  apply List.Perm.append_right
  show (e.sched.members ++ (d.queue ++ l)).Perm (d.elv.sched.members ++ d.queue)
  calc e.sched.members ++ (d.queue ++ l)
      _ = e.sched.members ++ d.queue ++ l := (List.append_assoc _ _ _).symm
      List.Perm _ (l ++ (e.sched.members ++ d.queue)) := List.perm_append_comm
      _ = l ++ e.sched.members ++ d.queue := (List.append_assoc _ _ _).symm
      List.Perm _ (d.elv.sched.members ++ d.queue) := h.members.append_right _

/-- Handing requests to the disk changes no request. -/
theorem same_ready {e : Elevator} {l : List Nat} (h : Handed d.elv e l) :
    Same d (d.ready e l) :=
  ⟨live_ready h, h.core, fun _ => rfl, rfl, h.nextReq⟩

/-- An idle disk is not in `EndRequest`. -/
theorem Sound.ending_ready (hs : Sound d) (e : Elevator) (l : List Nat)
    (h : (d.ready e l).ending = true) : (d.ready e l).diskState = .reqFinished := by
  have hstate := hs.ending h
  show (if l ≠ [] ∧ d.diskState = .idle then DiskState.work else d.diskState) = .reqFinished
  rw [if_neg (fun hidle => by rw [hstate] at hidle; cases hidle.2), hstate]

/-- `WorkState` makes the next request of `Queue` the current one. The disk may not be in
`EndRequest` then. -/
theorem workState_spec (h : d.workState = .ok d') (hs : Sound d) (hstate : d.diskState = .work)
    (hending : d.ending = false) : Sound d' ∧ Same d d' ∧ d'.nextSerial = d.nextSerial := by
  have hcurrent : d.current = [] := if_neg (by rw [hstate]; decide)
  have hsame : ∀ q st c r, (d.queue.Perm (q ++ { d with
      queue := q, diskState := st, curq := c, run := r }.current)) →
      Same d { d with queue := q, diskState := st, curq := c, run := r } := by
    intro q st c r hq
    refine ⟨?_, fun _ => rfl, ?_, rfl, rfl⟩
    · show (d.elv.sched.members ++ q ++ _).Perm (d.elv.sched.members ++ d.queue ++ d.current)
      rw [hcurrent, List.append_nil, List.append_assoc]
      exact hq.symm.append_left _
    · intro i
      show (if d.ending = true ∧ _ then _ else _) = if d.ending = true ∧ _ then _ else _
      rw [hending]
      rfl
  have hsound : ∀ {d₁ : Disk}, Same d d₁ → WF d₁.elv → d₁.ending = false → Sound d₁ :=
    fun hsame hwf he => hs.of_same hsame hwf fun h => absurd h (by rw [he]; decide)
  unfold workState at h
  split at h
  · rename_i hqueue
    cases h
    have hsame' := hsame d.queue .idle none d.run
      (by rw [hqueue]; exact List.Perm.refl _)
    exact ⟨hsound hsame' hs.wf hending, hsame', rfl⟩
  · rename_i rq rest hqueue
    obtain ⟨u, -, h⟩ := bind_eq_ok.mp h
    cases h
    have hsame' := hsame rest .reqFinished (some rq) true
      (by rw [hqueue]; exact (List.perm_append_singleton rq rest).symm)
    exact ⟨hsound hsame' hs.wf hending, hsame', rfl⟩

/-! ### The effect of a step -/

/-- What a step can do to the live requests. -/
inductive Effect (p : Params) (d : Disk) : Event → Disk → Prop where
  | same {ev : Event} {d' : Disk} : (∀ r, ev ≠ .submit r) → Same d d' →
      d'.nextSerial = d.nextSerial → Effect p d ev d'
  | join {r : Ioreq} {rq : Nat} {r₁ : Request} {d' : Disk} : rq ∈ d.elv.sched.members →
      Joins d.elv p ⟨r, d.nextSerial⟩ rq r₁.core →
      Same { d with elv := d.elv.setReq rq r₁ } d' → d'.nextSerial = d.nextSerial + 1 →
      Effect p d (.submit r) d'
  | joinMerge {r : Ioreq} {rq a b : Nat} {r₁ : Request} {e : Elevator} :
      rq ∈ d.elv.sched.members → Joins d.elv p ⟨r, d.nextSerial⟩ rq r₁.core →
      Absorbed (d.elv.setReq rq r₁) e a b →
      Effect p d (.submit r) { d with elv := e, nextSerial := d.nextSerial + 1 }
  | add {r : Ioreq} {d' : Disk} : Grown d d' ⟨r, d.nextSerial⟩ →
      d'.nextSerial = d.nextSerial + 1 → Effect p d (.submit r) d'
  | complete {rq : Nat} {req : Submitted} {rest : List Submitted} : d.ending = true →
      rq ∈ d.live → d.curq = some rq → (d.elv.reqs rq).batch = req :: rest →
      Effect p d .complete (d.endIoreq rq req rest)
  | ended {rq : Nat} {d' : Disk} : rq ∈ d.live → d.curq = some rq →
      (d.elv.reqs rq).batch = [] → Ended d d' rq → d'.nextSerial = d.nextSerial →
      Effect p d .endRequest d'

/-- The request that the disk serves is live. -/
theorem mem_live_current (hstate : d.diskState = .reqFinished) (hcur : d.curq = some rq) :
    rq ∈ d.live := by
  apply List.mem_append_right
  rw [current, if_pos hstate, hcur]
  exact List.mem_singleton_self rq

/-- When a member was hung behind another, it is the only request that is not live any more. -/
theorem live_absorbed {a b n : Nat} {e₁ e : Elevator} (h : Absorbed e₁ e a b)
    (hsched : e₁.sched = d.elv.sched) :
    ({ d with elv := e, nextSerial := n } : Disk).live.Perm (d.live.erase b) := by
  have hb := h.mem_right
  have hmembers := h.members
  rw [hsched] at hb hmembers
  show (e.sched.members ++ d.queue ++ d.current).Perm _
  rw [live, List.append_assoc, List.append_assoc, List.erase_append_left _ hb]
  exact hmembers.append_right _

/-- The effect of `SubmitIoreq`. -/
theorem submitIoreq_effect {r : Ioreq} (h : d.submitIoreq p r = .ok d') (hs : Sound d) :
    Sound d' ∧ Effect p d (.submit r) d' := by
  have hmembers : ∀ i ∈ d.elv.sched.members, i ∈ d.live :=
    fun i hi => List.mem_append_left _ (List.mem_append_left _ hi)
  rcases submitIoreq_spec h hs.wf with
    ⟨rq, r₁, e, rfl, hwf, hmem, hjoin, hsame | ⟨a, b, habs⟩⟩ | ⟨e₀, hwf₀, hsame₀, hnew⟩
  · -- the ioreq joins a request
    have hlive : Same { d with elv := d.elv.setReq rq r₁ }
        { d with elv := e, nextSerial := d.nextSerial + 1 } :=
      ⟨(hsame.members.append_right _).append_right _, hsame.core, fun _ => rfl, rfl,
        hsame.nextReq⟩
    refine ⟨⟨hwf, hlive.live.nodup_iff.mpr hs.nodup, ?_, hs.ending⟩, .join hmem hjoin hlive rfl⟩
    intro i hi
    exact lt_of_lt_of_eq (hs.lt i (hlive.live.mem_iff.mp hi)) hsame.nextReq.symm
  · -- and then two requests are merged
    have hlive := live_absorbed (n := d.nextSerial + 1) habs rfl
    refine ⟨⟨hwf, hlive.nodup_iff.mpr (hs.nodup.erase b), ?_, hs.ending⟩,
      .joinMerge hmem hjoin habs⟩
    intro i hi
    exact lt_of_lt_of_eq (hs.lt i (List.mem_of_mem_erase (hlive.mem_iff.mp hi))) habs.nextReq.symm
  · -- the ioreq gets a new request
    obtain ⟨b, t, e₁, e, l, rfl, hwf, hadded, hhanded, -⟩ := enqueueNew_spec hnew hwf₀
    have hready := same_ready (d := { d with
      elv := e₁, nextSerial := d.nextSerial + 1, pluged := b, timer := t }) hhanded
    have hnext : e₀.nextReq = d.elv.nextReq := hsame₀.nextReq
    have hgrown : Grown d ({ d with
        elv := e₀, nextSerial := d.nextSerial + 1, pluged := b, timer := t }.ready e l)
        ⟨r, d.nextSerial⟩ := by
      refine ⟨?_, ?_, ?_, fun _ => rfl, rfl, ?_⟩
      · refine hready.live.trans ?_
        have hm := hadded.members.trans ((hsame₀.members).cons _)
        rw [hnext] at hm
        exact (hm.append_right _).append_right _
      · rw [← hnext]
        exact (hready.core _).trans hadded.job
      · intro i hi
        rw [← hnext] at hi
        exact ((hready.core i).trans (hadded.rest i hi)).trans (hsame₀.core i)
      · rw [← hnext]
        exact hready.nextReq.trans hadded.nextReq
    refine ⟨⟨hwf, ?_, ?_, ?_⟩, .add hgrown rfl⟩
    · refine hgrown.live.nodup_iff.mpr (List.nodup_cons.mpr ⟨?_, hs.nodup⟩)
      intro hi
      exact Nat.lt_irrefl _ (hs.lt _ hi)
    · intro i hi
      rw [hgrown.nextReq]
      rcases List.mem_cons.mp (hgrown.live.mem_iff.mp hi) with rfl | hi
      · exact Nat.lt_succ_self _
      · exact Nat.lt_succ_of_lt (hs.lt i hi)
    · have hs₀ : Sound { d with
          elv := e₀, nextSerial := d.nextSerial + 1, pluged := b, timer := t } :=
        ⟨hwf₀, ((hsame₀.members.append_right _).append_right _).nodup_iff.mpr hs.nodup,
          fun i hi => lt_of_lt_of_eq (hs.lt i
            (((hsame₀.members.append_right _).append_right _).mem_iff.mp hi)) hnext.symm,
          hs.ending⟩
      exact hs₀.ending_ready e l

/-- After `EndRequest` the current request is gone. -/
theorem ended_spec {e : Elevator} {st : DiskState} (hput : d.elv.putRequest rq = .ok e)
    (hs : Sound d) (hending : d.ending = true) (hcur : d.curq = some rq)
    (hst : st ≠ .reqFinished) :
    Sound { d with elv := e, ending := false, diskState := st } ∧
      Ended d { d with elv := e, ending := false, diskState := st } rq := by
  obtain ⟨hwf, hsched, hreqs, hnext⟩ := putRequest_spec hput hs.wf
  have hbefore : d.live = d.elv.sched.members ++ d.queue ++ [rq] := by
    rw [live, current, if_pos (hs.ending hending), hcur]
    rfl
  have hafter : ({ d with elv := e, ending := false, diskState := st } : Disk).live =
      d.elv.sched.members ++ d.queue := by
    rw [live, current, if_neg hst, List.append_nil, hsched]
  have hlive : d.live.Perm
      (rq :: ({ d with elv := e, ending := false, diskState := st } : Disk).live) := by
    rw [hbefore, hafter]
    exact List.perm_append_singleton rq _
  refine ⟨⟨hwf, ?_, ?_, fun h => nomatch h⟩, hlive, ?_, ?_, rfl, hnext⟩
  · exact (List.nodup_cons.mp (hlive.nodup_iff.mp hs.nodup)).2
  · intro i hi
    exact lt_of_lt_of_eq (hs.lt i (hlive.mem_iff.mpr (List.mem_cons_of_mem rq hi))) hnext.symm
  · intro i
    exact congrArg (fun reqs => Request.core (reqs i)) hreqs
  · intro i
    exact if_neg fun h => nomatch h.1

/-- The effect of `EndRequest` and the rest of `DiskStateMachine`. -/
theorem endRequest_effect (h : d.endRequest rq = .ok d') (hs : Sound d) (hending : d.ending = true)
    (hcur : d.curq = some rq) : Sound d' ∧ Ended d d' rq ∧ d'.nextSerial = d.nextSerial := by
  unfold endRequest at h
  obtain ⟨e, hput, h⟩ := bind_eq_ok.mp h
  dsimp only at h
  split at h
  · cases h
    have hidle : DiskState.idle ≠ .reqFinished := by decide
    obtain ⟨hs', hended⟩ := ended_spec hput hs hending hcur hidle
    exact ⟨hs', hended, rfl⟩
  · have hwork : DiskState.work ≠ .reqFinished := by decide
    obtain ⟨hs₁, hended⟩ := ended_spec hput hs hending hcur hwork
    obtain ⟨hs', hsame, hserial⟩ := workState_spec h hs₁ rfl rfl
    refine ⟨hs', ⟨?_, ?_, ?_, hsame.completed.trans hended.completed,
      hsame.nextReq.trans hended.nextReq⟩, hserial⟩
    · exact hended.live.trans (hsame.live.symm.cons rq)
    · exact fun i => (hsame.core i).trans (hended.core i)
    · exact fun i => (hsame.served i).trans (hended.served i)

/-- **The effect of a step.** The queues stay sound, and the live requests change in one of the
ways of `Effect`. -/
theorem step_effect {ev : Event} (h : Step p d ev d') (hs : Sound d) :
    Sound d' ∧ Effect p d ev d' := by
  cases h with
  | @clock t hending _ _ =>
      have hsame : Same d { d with now := t } :=
        ⟨List.Perm.refl _, fun _ => rfl, fun _ => rfl, rfl, rfl⟩
      exact ⟨hs.of_same hsame hs.wf hs.ending, .same (fun _ h => nomatch h) hsame rfl⟩
  | submit hsubmit => exact submitIoreq_effect hsubmit hs
  | timer hending htimer hunplug =>
      rcases unplug_spec hunplug hs.wf with ⟨-, rfl⟩ | ⟨-, e, l, rfl, hwf, -, hhanded⟩
      · have hsame : Same d { d with timer := none } :=
          ⟨List.Perm.refl _, fun _ => rfl, fun _ => rfl, rfl, rfl⟩
        exact ⟨hs.of_same hsame hs.wf hs.ending, .same (fun _ h => nomatch h) hsame rfl⟩
      · have hsame : Same d ({ d with timer := none, pluged := false }.ready e l) :=
          ⟨live_ready (d := { d with timer := none, pluged := false }) hhanded, hhanded.core,
            fun _ => rfl, rfl, hhanded.nextReq⟩
        exact ⟨hs.of_same hsame hwf (hs.ending_ready e l), .same (fun _ h => nomatch h) hsame rfl⟩
  | thread hending hrun hmachine =>
      unfold diskStateMachine at hmachine
      split at hmachine
      · rename_i hstate
        have hs₁ : Sound { d with run := false } := ⟨hs.wf, hs.nodup, hs.lt, hs.ending⟩
        obtain ⟨hs', hsame, hserial⟩ := workState_spec hmachine hs₁ hstate hending
        exact ⟨hs', .same (fun _ h => nomatch h)
          ⟨hsame.live, hsame.core, hsame.served, hsame.completed, hsame.nextReq⟩ hserial⟩
      · rename_i hstate
        split at hmachine
        · cases hmachine
        · cases hmachine
          have hsame : ∀ n r, Same d { d with
              run := r, headpos := n, ending := true, served := [] } := by
            intro n r
            refine ⟨List.Perm.refl _, fun _ => rfl, fun i => ?_, rfl, rfl⟩
            have hbefore : d.servedOf i = [] := if_neg fun h => by rw [hending] at h; cases h.1
            rw [hbefore]
            exact ite_self _
          exact ⟨hs.of_same (hsame _ _) hs.wf fun _ => hstate,
            .same (fun _ h => nomatch h) (hsame _ _) rfl⟩
      · cases hmachine
        have hsame : Same d { d with run := false } :=
          ⟨List.Perm.refl _, fun _ => rfl, fun _ => rfl, rfl, rfl⟩
        exact ⟨hs.of_same hsame hs.wf hs.ending, .same (fun _ h => nomatch h) hsame rfl⟩
  | @complete rq req rest hending hcur hbatch =>
      have hwf : WF (d.elv.setReq rq { d.elv.reqs rq with batch := rest }) := hs.wf.setReq rfl rfl
      exact ⟨⟨hwf, hs.nodup, hs.lt, hs.ending⟩,
        .complete hending (mem_live_current (hs.ending hending) hcur) hcur hbatch⟩
  | endRequest hending hcur hbatch hend =>
      obtain ⟨hs', hended, hserial⟩ := endRequest_effect hend hs hending hcur
      exact ⟨hs', .ended (mem_live_current (hs.ending hending) hcur) hcur hbatch hended hserial⟩
  | @dequeue _ rq e hdequeue hsubmit =>
      rcases dequeue_spec hdequeue hs.wf with ⟨hnone, -⟩ | ⟨i, hi, hwf, htaken, -⟩
      · cases hnone
      · cases hi
        have hd' := submitRq_spec hsubmit
        subst hd'
        have hhanded : Handed d.elv e [rq] := .cons htaken (.refl e)
        have hsame : Same d (d.ready e [rq]) := same_ready hhanded
        exact ⟨hs.of_same hsame hwf (hs.ending_ready e [rq]),
          .same (fun _ h => nomatch h) hsame rfl⟩

/-- A disk is sound at the start, and no request is live. -/
theorem sound_start {sched : Sched} (hsched : sched = .startNoop ∨ sched = .startDeadline) :
    Sound (start sched) ∧ (start sched).live = [] := by
  obtain ⟨hwf, hmembers⟩ := wf_start hsched
  have hlive : (start sched).live = [] := by
    show (Elevator.start sched).sched.members ++ [] ++ [] = []
    rw [hmembers]
    rfl
  refine ⟨⟨hwf, ?_, ?_, fun h => nomatch h⟩, hlive⟩
  · rw [hlive]
    exact List.nodup_nil
  · intro i hi
    rw [hlive] at hi
    cases hi

/-- Every state of a run is sound. -/
theorem sound_run {sched : Sched} {evs : List Event}
    (hsched : sched = .startNoop ∨ sched = .startDeadline)
    (hrun : Run (Step p) (start sched) evs d) : Sound d :=
  hrun.invariant (fun _ _ _ hs hstep => (step_effect hstep hs).1) (sound_start hsched).1

end Disk

end LustreSimulator
