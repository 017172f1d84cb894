import LustreSimulator.Event
import LustreSimulator.Proofs.NrsRbtree

/-!
# `LustreSimulator.Proofs.Event`: the event loop is a discrete-event scheduler

With the red-black tree for a run queue, the program is an agenda (`EventLoop.agenda`): the
events in the tree are the pending armings. `Inv` says that the tree holds the events whose `run` is
set, in the order of their `runTime`. `insertRunQ_spec`, `removeFromRunQ_spec` and `turn_spec` are
the three steps of an agenda, and every call of a handler is made of them (`Moved`). So what holds
of agendas holds of the program (`schedule_run`). `Armed`, `Disarmed` and `Fired` say which event
a call arms, for which time, and which one it cancels or fires.

`runTime` is a 64-bit number. `NoWrap` says that a call does not make it wrap around.
-/

set_option autoImplicit false

namespace LustreSimulator.EventLoop

open Lib

variable {s s' : EventLoop} {e : Nat}

/-- The events in the run queue. -/
def RunQ.entries : RunQ → List Nat
  | .rbtree q => q.entries
  | .binheap _ => []

/-- The run queue is a red-black tree of the events whose `run` is set, in the order of their
`runTime`. -/
structure Inv (s : EventLoop) : Prop where
  tree : ∃ q, s.runQ = .rbtree q ∧ q.WF
  sorted : s.runQ.entries.Pairwise fun a b => s.runTime a ≤ s.runTime b
  nodup : s.runQ.entries.Nodup
  run : ∀ e, e ∈ s.runQ.entries ↔ s.run e = true

/-- The program as an agenda. Before `Schedule` its time is 0, as the clock will be. -/
def agenda (s : EventLoop) : Agenda Nat where
  now := if s.phase = .setup then 0 else s.now
  pending := s.runQ.entries.map s.arming
  armed := s.armed
  fired := s.fired
  cancelled := s.cancelled
  dropped := s.dropped

/-- The `runTime` of an event that is not in the run queue may change. -/
theorem Inv.setRunTime (h : Inv s) (hrun : s.run e = false) (time : Nat) :
    Inv (s.setRunTime e time) := by
  have hother : ∀ a ∈ s.runQ.entries, a ≠ e := by
    rintro a ha rfl
    rw [(h.run a).mp ha] at hrun
    cases hrun
  refine ⟨h.tree, ?_, h.nodup, h.run⟩
  refine h.sorted.imp_of_mem ?_
  intro a b ha hb hab
  show (if a = e then time else s.runTime a) ≤ if b = e then time else s.runTime b
  rw [if_neg (hother a ha), if_neg (hother b hb)]
  exact hab

/-- The agenda does not see it. -/
theorem agenda_setRunTime (h : Inv s) (hrun : s.run e = false) (time : Nat) :
    (s.setRunTime e time).agenda = s.agenda := by
  have hpending : (s.setRunTime e time).runQ.entries.map (s.setRunTime e time).arming =
      s.runQ.entries.map s.arming := by
    apply List.map_congr_left
    intro a ha
    have hae : a ≠ e := by
      rintro rfl
      rw [(h.run a).mp ha] at hrun
      cases hrun
    show (⟨s.armNo a, a, if a = e then time else s.runTime a⟩ : Arming Nat) = s.arming a
    rw [if_neg hae]
    rfl
  unfold agenda
  rw [hpending]
  rfl

/-- The tree takes an event that is not in it, and puts it in order. -/
theorem enqueue_spec (h : Inv s) (e : Nat) :
    ∃ q', s.runQ.enqueue s.runTime e = some (.rbtree q') ∧ q'.WF ∧
      q'.entries.Pairwise (fun a b => s.runTime a ≤ s.runTime b) ∧
      q'.entries.Perm (e :: s.runQ.entries) := by
  obtain ⟨q, hq, hwf⟩ := h.tree
  have hentries : s.runQ.entries = q.entries := by rw [hq]; rfl
  have hcompare : ∀ a, runTimeCompare s.runTime e a < 0 ↔ s.runTime e ≤ s.runTime a := by
    intro a
    unfold runTimeCompare
    split
    · rename_i hgt
      exact iff_of_false (by decide) (by omega)
    · rename_i hle
      exact iff_of_true (by decide) (by omega)
  obtain ⟨q', henq, hwf', hsorted, hperm⟩ :=
    @NrsRbtree.enqueue_sorted _ (runTimeCompare s.runTime) _ e
      (fun a b => s.runTime a ≤ s.runTime b) hwf (hentries ▸ h.sorted)
      (fun a _ ha => (hcompare a).mp ha)
      (fun a _ ha => by have := mt (hcompare a).mpr ha; omega)
      (fun a _ b _ hab ha => (hcompare b).mpr (Nat.le_trans ((hcompare a).mp ha) hab))
  refine ⟨q', ?_, hwf', hsorted, hentries ▸ hperm⟩
  rw [hq]
  show (q.enqueue (runTimeCompare s.runTime) e).map _ = _
  rw [henq]
  rfl

/-- With the event inserted, the tree holds the events whose `run` is set. -/
theorem Inv.insert (h : Inv s) (hrun : s.run e = false) {q' : NrsRbtree Nat} (hwf : q'.WF)
    (hsorted : q'.entries.Pairwise fun a b => s.runTime a ≤ s.runTime b)
    (hperm : q'.entries.Perm (e :: s.runQ.entries)) (hq : s'.runQ = .rbtree q')
    (hrun' : ∀ i, s'.run i = if i = e then true else s.run i) (htime : s'.runTime = s.runTime) :
    Inv s' := by
  have hentries : s'.runQ.entries = q'.entries := by rw [hq]; rfl
  have hnew : e ∉ s.runQ.entries := by
    rw [h.run, hrun]
    decide
  refine ⟨⟨q', hq, hwf⟩, ?_, ?_, ?_⟩
  · rw [hentries, htime]
    exact hsorted
  · rw [hentries]
    exact hperm.nodup_iff.mpr (List.nodup_cons.mpr ⟨hnew, h.nodup⟩)
  · intro a
    rw [hentries, hrun', hperm.mem_iff, List.mem_cons]
    by_cases hae : a = e
    · rw [if_pos hae]
      exact iff_of_true (Or.inl hae) rfl
    · rw [if_neg hae, ← h.run]
      exact or_iff_right hae

/-- `InsertRunQ` arms the event. The run queue does not fail. -/
theorem insertRunQ_spec (h : Inv s) (hrun : s.run e = false)
    (htime : s.agenda.now ≤ s.runTime e) :
    ∃ s', s.insertRunQ e = .ok s' ∧ Inv s' ∧ s'.phase = s.phase ∧ s'.now = s.now ∧
      Agenda.Step s.agenda (.arm e (s.runTime e)) s'.agenda := by
  have hnew : e ∉ s.runQ.entries := by
    rw [h.run, hrun]
    decide
  obtain ⟨q', hdo, hwf', hsorted, hperm⟩ := enqueue_spec h e
  have hins : s.insertRunQ e = .ok { s with
      runQ := .rbtree q'
      run := fun i => if i = e then true else s.run i
      armNo := fun i => if i = e then s.armed.length else s.armNo i
      armed := s.armed ++ [⟨s.armed.length, e, s.runTime e⟩] } := by
    unfold insertRunQ
    rw [check_true hrun, ok_bind, hdo]
  refine ⟨_, hins, h.insert hrun hwf' hsorted hperm rfl (fun _ => rfl) rfl, rfl, rfl, ?_⟩
  refine .arm htime ?_ rfl rfl rfl rfl rfl
  have hself : (⟨if e = e then s.armed.length else s.armNo e, e, s.runTime e⟩ : Arming Nat) =
      ⟨s.armed.length, e, s.runTime e⟩ := by rw [if_pos rfl]
  have hold : s.runQ.entries.map (fun a => (⟨if a = e then s.armed.length else s.armNo a, a,
      s.runTime a⟩ : Arming Nat)) = s.runQ.entries.map s.arming := by
    apply List.map_congr_left
    intro a ha
    rw [if_neg (fun (hae : a = e) => hnew (hae ▸ ha))]
    rfl
  have hmap := hperm.map fun a => (⟨if a = e then s.armed.length else s.armNo a, a,
      s.runTime a⟩ : Arming Nat)
  rw [List.map_cons, hself, hold] at hmap
  exact hmap

/-- `RemoveFromRunQ` cancels the arming of the event. The run queue does not fail. -/
theorem removeFromRunQ_spec (h : Inv s) (hrun : s.run e = true) :
    ∃ s', s.removeFromRunQ e = .ok s' ∧ Inv s' ∧ s'.phase = s.phase ∧ s'.now = s.now ∧
      s'.run e = false ∧ Agenda.Step s.agenda (.cancel e) s'.agenda := by
  obtain ⟨q, hq, hwf⟩ := h.tree
  have hentries : s.runQ.entries = q.entries := by rw [hq]; rfl
  have hmem : e ∈ q.entries := by rw [← hentries, h.run]; exact hrun
  obtain ⟨q', l, m, herase, hwf', hlist, hlist'⟩ := NrsRbtree.erase_spec hwf hmem
  have hperm : q.entries.Perm (e :: q'.entries) := by
    rw [hlist, hlist']
    exact List.perm_middle
  have hnodup := hentries ▸ h.nodup
  obtain ⟨hgone, hnodup'⟩ := List.nodup_cons.mp (hperm.nodup_iff.mp hnodup)
  have hdo : s.runQ.erase e = some (.rbtree q') := by
    rw [hq]
    show (q.erase e).map _ = _
    rw [herase]
    rfl
  have hrem : s.removeFromRunQ e = .ok { s with
      runQ := .rbtree q'
      run := fun i => if i = e then false else s.run i
      cancelled := s.cancelled ++ [s.arming e] } := by
    unfold removeFromRunQ
    rw [check_true hrun, ok_bind, hdo]
  refine ⟨_, hrem, ⟨⟨q', rfl, hwf'⟩, ?_, hnodup', ?_⟩, rfl, rfl, if_pos rfl, ?_⟩
  · have hsub : List.Sublist q'.entries q.entries := by
      rw [hlist, hlist']
      exact (List.sublist_cons_self e m).append_left l
    exact (hentries ▸ h.sorted).sublist hsub
  · intro a
    show a ∈ q'.entries ↔ (if a = e then false else s.run a) = true
    by_cases hae : a = e
    · rw [if_pos hae, hae]
      exact iff_of_false hgone (by decide)
    · rw [if_neg hae, ← h.run, hentries, hperm.mem_iff, List.mem_cons]
      exact (or_iff_right hae).symm
  · refine .cancel (a := s.arming e) ?_ rfl rfl rfl rfl rfl
    have hmap := hperm.map s.arming
    rw [← hentries] at hmap
    exact hmap

/-- `NextRunEvent` finds the run queue empty, or takes an event with the least `runTime`. -/
theorem nextRunEvent_spec (h : Inv s) :
    (s.runQ.entries = [] ∧ ∃ s', s.nextRunEvent = .ok (none, s') ∧ s' = s) ∨
    ∃ e q', s.nextRunEvent = .ok (some e, { s with
        runQ := .rbtree q', run := fun i => if i = e then false else s.run i }) ∧
      Inv { s with runQ := .rbtree q', run := fun i => if i = e then false else s.run i } ∧
      s.runQ.entries = e :: q'.entries ∧ ∀ a ∈ q'.entries, s.runTime e ≤ s.runTime a := by
  obtain ⟨q, hq, hwf⟩ := h.tree
  have hentries : s.runQ.entries = q.entries := by rw [hq]; rfl
  rcases NrsRbtree.dequeue_spec hwf with ⟨hempty, hdeq⟩ | ⟨e, rest, q', hlist, hdeq, hwf', hrest⟩
  · left
    have hdo : s.runQ.dequeue s.runTime = some (none, s.runQ) := by
      rw [hq]
      show q.dequeue.map _ = _
      rw [hdeq]
      rfl
    refine ⟨hentries.trans hempty, s, ?_, rfl⟩
    unfold nextRunEvent
    rw [hdo]
  · right
    have hsorted := h.sorted
    have hnodup := h.nodup
    rw [hentries, hlist, List.pairwise_cons] at hsorted
    rw [hentries, hlist, List.nodup_cons] at hnodup
    have hdo : s.runQ.dequeue s.runTime = some (some e, .rbtree q') := by
      rw [hq]
      show q.dequeue.map _ = _
      rw [hdeq]
      rfl
    refine ⟨e, q', ?_, ⟨⟨q', rfl, hwf'⟩, ?_, ?_, ?_⟩, ?_, ?_⟩
    · unfold nextRunEvent
      rw [hdo]
    · show q'.entries.Pairwise _
      rw [hrest]
      exact hsorted.2
    · show q'.entries.Nodup
      rw [hrest]
      exact hnodup.2
    · intro a
      show a ∈ q'.entries ↔ (if a = e then false else s.run a) = true
      rw [hrest]
      by_cases hae : a = e
      · rw [if_pos hae, hae]
        exact iff_of_false hnodup.1 (by decide)
      · rw [if_neg hae, ← h.run, hentries, hlist, List.mem_cons]
        exact (or_iff_right hae).symm
    · rw [hentries, hlist, hrest]
    · rw [hrest]
      exact hsorted.1

/-- A turn of the loop fires an event, when one is pending. The assertion on the clock holds and
the run queue does not fail. -/
theorem turn_spec (h : Inv s) (hloop : s.phase = .loop) (hsound : s.agenda.Sound) :
    (s.runQ.entries = [] ∧ ∃ s', s.turn = .ok (none, s')) ∨
    ∃ e s', s.turn = .ok (some e, s') ∧ Inv s' ∧ s'.phase = .loop ∧ s'.now = s.runTime e ∧
      Agenda.Step s.agenda (.fire e) s'.agenda := by
  have hphase : s.phase ≠ .setup := by rw [hloop]; decide
  unfold turn
  rcases nextRunEvent_spec h with ⟨hempty, s', hnext, -⟩ | ⟨e, q', hnext, hinv, hlist, hmin⟩
  · left
    rw [hnext]
    exact ⟨hempty, s', rfl⟩
  · right
    have hclock : s.now ≤ s.runTime e := by
      have hahead := hsound.ahead (s.arming e) (by
        show _ ∈ s.runQ.entries.map s.arming
        rw [hlist]
        exact List.mem_cons_self)
      have hnow : s.agenda.now = s.now := if_neg hphase
      rwa [hnow] at hahead
    rw [hnext]
    dsimp only [ok_bind]
    rw [check_true hclock]
    refine ⟨e, _, rfl, ⟨hinv.tree, hinv.sorted, hinv.nodup, hinv.run⟩, hloop, rfl, ?_⟩
    refine .fire (a := s.arming e) ?_ ?_ ?_ ?_ rfl rfl rfl
    · show (s.runQ.entries.map s.arming).Perm (s.arming e :: q'.entries.map s.arming)
      rw [hlist]
      exact List.Perm.refl _
    · intro b hb
      obtain ⟨a, ha, rfl⟩ := List.mem_map.mp hb
      exact hmin a ha
    · exact if_neg hphase
    · show s.fired ++ [(s.arming e, s.runTime e)] =
        s.fired ++ [(s.arming e, if s.phase = .setup then 0 else s.runTime e)]
      rw [if_neg hphase]

/-! ### The calls of a handler -/

/-- A call of a handler, as steps of the agenda. The clock stays where it is. -/
structure Moved (s s' : EventLoop) : Prop where
  inv : Inv s'
  phase : s'.phase = s.phase
  now : s'.now = s.now
  dropped : s'.dropped = s.dropped
  agenda : ∃ acts, Run Agenda.Step s.agenda acts s'.agenda

/-- A call that does nothing. -/
theorem Moved.refl (h : Inv s) : Moved s s := ⟨h, rfl, rfl, rfl, [], .nil _⟩

/-- Two calls, one after the other. -/
theorem Moved.trans {s₁ : EventLoop} (h : Moved s s₁) (h' : Moved s₁ s') : Moved s s' := by
  obtain ⟨acts, hacts⟩ := h.agenda
  obtain ⟨acts', hacts'⟩ := h'.agenda
  exact ⟨h'.inv, h'.phase.trans h.phase, h'.now.trans h.now, h'.dropped.trans h.dropped,
    acts ++ acts', hacts.append hacts'⟩

/-- The agenda is not ahead of the clock. -/
theorem agenda_now_le (s : EventLoop) : s.agenda.now ≤ s.now := by
  show (if s.phase = .setup then 0 else s.now) ≤ s.now
  split
  · exact Nat.zero_le _
  · exact Nat.le_refl _

/-- What `RunAfter`, `RunAt` and `Signal` have in common. -/
theorem insert_spec (h : Inv s) (hrun : s.run e = false) {time : Nat} (htime : s.now ≤ time) :
    ∃ s', (s.setRunTime e time).insertRunQ e = .ok s' ∧ Moved s s' ∧
      s'.cancelled = s.cancelled := by
  have hself : (s.setRunTime e time).runTime e = time := if_pos rfl
  have hle : (s.setRunTime e time).agenda.now ≤ (s.setRunTime e time).runTime e := by
    rw [hself]
    exact Nat.le_trans (agenda_now_le _) htime
  obtain ⟨s', hins, hinv, hphase, hnow, hstep⟩ := insertRunQ_spec (h.setRunTime hrun time) hrun hle
  rw [agenda_setRunTime h hrun] at hstep
  have hdropped : s'.dropped = s.dropped := hstep.dropped_eq (fun h => nomatch h)
  exact ⟨s', hins, ⟨hinv, hphase, hnow, hdropped, _, .cons hstep (.nil _)⟩, hstep.cancelled_eq⟩

/-- The same, of a call that returned. -/
theorem insert_moved (h : Inv s) (hrun : s.run e = false) {time : Nat} (htime : s.now ≤ time)
    (hins : (s.setRunTime e time).insertRunQ e = .ok s') :
    Moved s s' ∧ s'.cancelled = s.cancelled := by
  obtain ⟨s₁, hins₁, hmoved⟩ := insert_spec h hrun htime
  obtain rfl := Except.ok.inj (hins₁.symm.trans hins)
  exact hmoved

/-- `RemoveFromRunQ` of an event in the run queue. -/
theorem remove_moved (h : Inv s) (hrun : s.run e = true) (hrem : s.removeFromRunQ e = .ok s') :
    Moved s s' ∧ s'.run e = false ∧ s'.cancelled = s.cancelled ++ [s.arming e] := by
  obtain ⟨s₁, hrem₁, hinv, hphase, hnow, hclear, hstep⟩ := removeFromRunQ_spec h hrun
  obtain rfl := Except.ok.inj (hrem₁.symm.trans hrem)
  have hdropped : s₁.dropped = s.dropped := hstep.dropped_eq (fun h => nomatch h)
  refine ⟨⟨hinv, hphase, hnow, hdropped, _, .cons hstep (.nil _)⟩, hclear, ?_⟩
  unfold removeFromRunQ at hrem
  rw [check_true hrun, ok_bind] at hrem
  cases herase : s.runQ.erase e with
  | none => rw [herase] at hrem; cases hrem
  | some q => rw [herase] at hrem; cases hrem; rfl

/-- `RunAt(time)`. -/
theorem runAt_moved (h : Inv s) {time : Nat} (hcall : s.runAt e time = .ok s') :
    Moved s s' ∧ s'.cancelled = s.cancelled := by
  unfold runAt at hcall
  obtain ⟨_, hrun, hcall⟩ := bind_eq_ok.mp hcall
  obtain ⟨_, htime, hins⟩ := bind_eq_ok.mp hcall
  exact insert_moved h (check_eq_ok.mp hrun) (Nat.le_of_lt (check_eq_ok.mp htime)) hins

/-- `now + ticks` does not wrap around. -/
theorem le_add64 {now ticks : Nat} (h : now + ticks < 2 ^ 64) : now ≤ add64 now ticks := by
  rw [add64_eq h]
  exact Nat.le_add_right now ticks

/-- The call does not make `runTime` wrap around. -/
def NoWrap (s : EventLoop) : Action → Prop
  | .runAfter _ ticks => s.now + ticks < 2 ^ 64
  | .signal _ rand => s.now + rand < 2 ^ 64
  | _ => True

/-- `DelTimer()`. -/
theorem delTimer_moved (h : Inv s) (hcall : s.delTimer e = .ok s') : Moved s s' := by
  unfold delTimer at hcall
  split at hcall
  · rename_i hrun
    exact (remove_moved h hrun hcall).1
  · cases hcall
    exact Moved.refl h

/-- `ModTimer(expire)`. -/
theorem modTimer_moved (h : Inv s) {expire : Nat} (hcall : s.modTimer e expire = .ok s') :
    Moved s s' := by
  unfold modTimer at hcall
  split at hcall
  · rename_i hrun
    split at hcall
    · cases hcall
      exact Moved.refl h
    · obtain ⟨s₁, hrem, hat⟩ := bind_eq_ok.mp hcall
      obtain ⟨hmoved, -⟩ := remove_moved h hrun hrem
      obtain ⟨hmoved', -⟩ := runAt_moved hmoved.inv hat
      exact hmoved.trans hmoved'
  · exact (runAt_moved h hcall).1

/-! ### What a call does to the events -/

/-- From `s` to `s'` the event `e` was armed for `time`, and no other event changed. -/
structure Armed (s s' : EventLoop) (e time : Nat) : Prop where
  run : s'.run e = true
  arming : s'.arming e = ⟨s.armed.length, e, time⟩
  armed : s'.armed = s.armed ++ [s'.arming e]
  fired : s'.fired = s.fired
  now : s'.now = s.now
  others : ∀ i, i ≠ e → s'.run i = s.run i ∧ s'.arming i = s.arming i

/-- From `s` to `s'` the arming of the event `e` was cancelled, and no other event changed. -/
structure Disarmed (s s' : EventLoop) (e : Nat) : Prop where
  run : s'.run e = false
  armed : s'.armed = s.armed
  cancelled : s'.cancelled = s.cancelled ++ [s.arming e]
  fired : s'.fired = s.fired
  now : s'.now = s.now
  others : ∀ i, i ≠ e → s'.run i = s.run i ∧ s'.arming i = s.arming i

/-- `InsertRunQ`, after `runTime` was set. -/
theorem armed_of_insert {time : Nat} (hins : (s.setRunTime e time).insertRunQ e = .ok s') :
    Armed s s' e time := by
  unfold insertRunQ at hins
  obtain ⟨_, -, hins⟩ := bind_eq_ok.mp hins
  split at hins
  · cases hins
  cases hins
  have harming : (⟨if e = e then s.armed.length else s.armNo e, e,
      if e = e then time else s.runTime e⟩ : Arming Nat) = ⟨s.armed.length, e, time⟩ := by
    rw [if_pos rfl, if_pos rfl]
  refine ⟨if_pos rfl, harming, ?_, rfl, rfl, fun i hi => ⟨if_neg hi, ?_⟩⟩
  · show s.armed ++ [⟨s.armed.length, e, if e = e then time else s.runTime e⟩] = s.armed ++ [_]
    rw [if_pos rfl]
    exact congrArg (fun a => s.armed ++ [a]) harming.symm
  · show (⟨if i = e then s.armed.length else s.armNo i, i,
      if i = e then time else s.runTime i⟩ : Arming Nat) = s.arming i
    rw [if_neg hi, if_neg hi]
    rfl

/-- `RemoveFromRunQ`. -/
theorem disarmed_of_remove (hrem : s.removeFromRunQ e = .ok s') : Disarmed s s' e := by
  unfold removeFromRunQ at hrem
  obtain ⟨_, -, hrem⟩ := bind_eq_ok.mp hrem
  split at hrem
  · cases hrem
  cases hrem
  exact ⟨if_pos rfl, rfl, rfl, rfl, rfl, fun i hi => ⟨if_neg hi, rfl⟩⟩

/-- `RunAfter(ticks)` arms the event for `now + ticks`. -/
theorem runAfter_armed (h : Inv s) (hrun : s.run e = false) {ticks : Nat}
    (hwrap : s.now + ticks < 2 ^ 64) :
    ∃ s', s.runAfter e ticks = .ok s' ∧ Armed s s' e (s.now + ticks) := by
  obtain ⟨s', hins, -⟩ := insert_spec h hrun (le_add64 hwrap)
  refine ⟨s', ?_, add64_eq hwrap ▸ armed_of_insert hins⟩
  unfold EventLoop.runAfter
  rw [check_true hrun]
  exact hins

/-- `RunAt(time)` arms the event for `time`. -/
theorem runAt_armed (h : Inv s) (hrun : s.run e = false) {time : Nat} (htime : time > s.now) :
    ∃ s', s.runAt e time = .ok s' ∧ Armed s s' e time := by
  obtain ⟨s', hins, -⟩ := insert_spec h hrun (Nat.le_of_lt htime)
  refine ⟨s', ?_, armed_of_insert hins⟩
  unfold EventLoop.runAt
  rw [check_true hrun, ok_bind, check_true htime]
  exact hins

/-- `Signal()` arms the thread for `now + rand`. -/
theorem signal_armed (h : Inv s) (hrun : s.run e = false) {rand : Nat}
    (hwrap : s.now + rand < 2 ^ 64) :
    ∃ s', s.signal e rand = .ok s' ∧ Armed s s' e (s.now + rand) := by
  obtain ⟨s', hins, -⟩ := insert_spec h hrun (le_add64 hwrap)
  refine ⟨s', ?_, add64_eq hwrap ▸ armed_of_insert hins⟩
  unfold EventLoop.signal
  rw [check_true hrun]
  exact hins

/-- `DelTimer()` of a timer in the run queue. -/
theorem delTimer_disarmed (h : Inv s) (hrun : s.run e = true) :
    ∃ s', s.delTimer e = .ok s' ∧ Disarmed s s' e := by
  obtain ⟨s', hrem, -⟩ := removeFromRunQ_spec h hrun
  refine ⟨s', ?_, disarmed_of_remove hrem⟩
  unfold EventLoop.delTimer
  rw [if_pos hrun]
  exact hrem

/-- `ModTimer(expire)` of a timer in the run queue, to another time: the old arming is cancelled and
the timer is armed for `expire`. -/
theorem modTimer_rearmed (h : Inv s) (hrun : s.run e = true) {expire : Nat}
    (hne : expire ≠ s.runTime e) (htime : expire > s.now) :
    ∃ s', s.modTimer e expire = .ok s' ∧ Armed s s' e expire ∧
      s'.cancelled = s.cancelled ++ [s.arming e] := by
  obtain ⟨s₁, hrem, hinv, -, hnow, hclear, -⟩ := removeFromRunQ_spec h hrun
  obtain ⟨s', hat, harmed⟩ := runAt_armed hinv hclear (hnow.symm ▸ htime)
  have hdis := disarmed_of_remove hrem
  refine ⟨s', ?_, ⟨harmed.run, hdis.armed ▸ harmed.arming, hdis.armed ▸ harmed.armed,
    harmed.fired.trans hdis.fired, harmed.now.trans hdis.now, fun i hi => ?_⟩,
    (runAt_moved hinv hat).2.trans hdis.cancelled⟩
  · unfold EventLoop.modTimer
    rw [if_pos hrun, if_neg hne, hrem]
    exact hat
  · exact ⟨(harmed.others i hi).1.trans (hdis.others i hi).1,
      (harmed.others i hi).2.trans (hdis.others i hi).2⟩

/-- A turn of the loop fires an event that is armed, and no other. -/
structure Fired (s s' : EventLoop) (e : Nat) : Prop where
  was : s.run e = true
  run : s'.run e = false
  now : s'.now = s.runTime e
  fired : s'.fired = s.fired ++ [(s.arming e, s.runTime e)]
  armed : s'.armed = s.armed
  cancelled : s'.cancelled = s.cancelled
  others : ∀ i, i ≠ e → s'.run i = s.run i ∧ s'.arming i = s.arming i

/-- A turn of the loop fires an event, unless no event is armed. -/
theorem turn_fired (h : Inv s) (hloop : s.phase = .loop) (hsound : s.agenda.Sound) :
    ((∀ e, s.run e = false) ∧ ∃ s', s.turn = .ok (none, s')) ∨
    ∃ e s', s.turn = .ok (some e, s') ∧ Fired s s' e := by
  rcases turn_spec h hloop hsound with ⟨hempty, hnone⟩ | ⟨e, s', hturn, -⟩
  · refine Or.inl ⟨fun e => ?_, hnone⟩
    have hnot : e ∉ s.runQ.entries := by
      rw [hempty]
      exact List.not_mem_nil
    rw [h.run] at hnot
    exact Bool.eq_false_iff.mpr hnot
  · refine Or.inr ⟨e, s', hturn, ?_⟩
    rcases nextRunEvent_spec h with ⟨-, s₁, hnext, -⟩ | ⟨e₁, q', hnext, -, hlist, -⟩
    · unfold EventLoop.turn at hturn
      rw [hnext] at hturn
      cases hturn
    · have hin : e₁ ∈ s.runQ.entries := hlist ▸ List.mem_cons_self
      unfold EventLoop.turn at hturn
      rw [hnext] at hturn
      dsimp only [ok_bind] at hturn
      obtain ⟨_, -, hturn⟩ := bind_eq_ok.mp hturn
      simp only [Except.ok.injEq, Prod.mk.injEq, Option.some.injEq] at hturn
      obtain ⟨rfl, rfl⟩ := hturn
      exact ⟨(h.run e₁).mp hin, if_pos rfl, rfl, rfl, rfl, rfl, fun i hi => ⟨if_neg hi, rfl⟩⟩

/-! ### The end of the program -/

/-- What the loop at the end of `Schedule` does. -/
structure Drained (s s' : EventLoop) : Prop where
  inv : Inv s'
  empty : s'.runQ.entries = []
  phase : s'.phase = s.phase
  now : s'.now = s.now
  armed : s'.armed = s.armed
  fired : s'.fired = s.fired
  cancelled : s'.cancelled = s.cancelled
  dropped : s'.dropped = s.dropped ++ s.runQ.entries.map s.arming

/-- The loop at the end of `Schedule` empties the run queue. It takes one turn more than there are
events in it. -/
theorem drain_spec (k : Nat) : ∀ {s : EventLoop}, Inv s →
    (k ≤ s.runQ.entries.length ∧ drain k s = .error .loop) ∨
    (s.runQ.entries.length < k ∧ ∃ s', drain k s = .ok s' ∧ Drained s s') := by
  induction k with
  | zero => exact fun _ => Or.inl ⟨Nat.zero_le _, rfl⟩
  | succ k ih =>
      intro s h
      unfold drain
      rcases nextRunEvent_spec h with ⟨hempty, s', hnext, rfl⟩ | ⟨e, q', hnext, hinv, hlist, -⟩
      · right
        rw [hnext, hempty]
        refine ⟨Nat.succ_pos k, s', rfl, h, hempty, rfl, rfl, rfl, rfl, rfl, ?_⟩
        rw [hempty, List.map_nil, List.append_nil]
      · rw [hnext, hlist]
        have hinv' : Inv { s with
            runQ := .rbtree q'
            run := fun i => if i = e then false else s.run i
            dropped := s.dropped ++ [s.arming e] } :=
          ⟨hinv.tree, hinv.sorted, hinv.nodup, hinv.run⟩
        rcases ih hinv' with ⟨hle, herr⟩ | ⟨hlt, s', hok, hd⟩
        · left
          exact ⟨Nat.succ_le_succ hle, herr⟩
        · right
          refine ⟨Nat.succ_lt_succ hlt, s', hok, hd.inv, hd.empty, hd.phase, hd.now, hd.armed,
            hd.fired, hd.cancelled, ?_⟩
          have hdropped : s'.dropped = s.dropped ++ [s.arming e] ++ q'.entries.map s.arming :=
            hd.dropped
          rw [hdropped, hlist, List.map_cons, List.append_assoc, List.singleton_append]

/-! ### Runs -/

/-- What holds of every state of a run. -/
structure Good (maxRunTicks : Nat) (s : EventLoop) : Prop where
  inv : Inv s
  sound : s.agenda.Sound
  going : s.phase ≠ .stopped → s.dropped = []
  stopped : s.phase = .stopped →
    s.runQ.entries = [] ∧ (s.now ≤ maxRunTicks → s.dropped = [])

/-- The clock of the agenda after `Schedule` started. -/
theorem agenda_now (hphase : s.phase ≠ .setup) : s.agenda.now = s.now := if_neg hphase

/-- A call of a handler keeps everything. -/
theorem Good.moved {maxRunTicks : Nat} (h : Good maxRunTicks s) (hphase : s.phase ≠ .stopped)
    (hm : Moved s s') : Good maxRunTicks s' := by
  obtain ⟨acts, hacts⟩ := hm.agenda
  refine ⟨hm.inv, Agenda.sound_run hacts h.sound, ?_, ?_⟩
  · intro _
    rw [hm.dropped]
    exact h.going hphase
  · intro hstopped
    rw [hm.phase] at hstopped
    exact absurd hstopped hphase

/-- `Schedule` starts. -/
theorem Good.schedule {maxRunTicks : Nat} (h : Good maxRunTicks s) (hphase : s.phase = .setup) :
    Good maxRunTicks { s with now := 0, phase := .loop } := by
  -- the agenda was at time 0 already
  have hagenda : ({ s with now := 0, phase := .loop } : EventLoop).agenda = s.agenda := by
    unfold agenda
    rw [if_pos hphase, if_neg (show Phase.loop ≠ Phase.setup by decide)]
    rfl
  have hnone : s.dropped = [] := h.going (by rw [hphase]; decide)
  refine ⟨⟨h.inv.tree, h.inv.sorted, h.inv.nodup, h.inv.run⟩, ?_, fun _ => hnone,
    fun hstopped => nomatch hstopped⟩
  rw [hagenda]
  exact h.sound

/-- A turn of the loop fires an event, and the clock does not go back. -/
theorem Good.turned {maxRunTicks e : Nat} (h : Good maxRunTicks s) (hphase : s.phase = .loop)
    (hturn : s.turn = .ok (some e, s')) : Good maxRunTicks s' ∧ s.now ≤ s'.now := by
  rcases turn_spec h.inv hphase h.sound with ⟨-, s₁, hturn₁⟩ | ⟨e₁, s₁, hturn₁, hinv, hphase₁, -,
    hfire⟩
  · rw [hturn₁] at hturn
    cases hturn
  · rw [hturn₁] at hturn
    cases hturn
    have hne : s.phase ≠ .setup := by rw [hphase]; decide
    have hne' : s'.phase ≠ .setup := by rw [hphase₁]; decide
    have hdropped : s'.dropped = s.dropped := hfire.dropped_eq (fun h => nomatch h)
    have hle := hfire.now_le h.sound
    rw [agenda_now hne, agenda_now hne'] at hle
    refine ⟨⟨hinv, hfire.sound h.sound, fun _ => ?_, fun hstopped => ?_⟩, hle⟩
    · rw [hdropped]
      exact h.going (by rw [hphase]; decide)
    · rw [hphase₁] at hstopped
      cases hstopped

/-- The loop ends because its time is over or its queue empty, and the queue is drained. -/
theorem Good.stop {maxRunTicks k : Nat} (h : Good maxRunTicks s) (hphase : s.phase = .loop)
    (hwhy : s.now > maxRunTicks ∨ ∃ s₁, s.turn = .ok (none, s₁)) (hdrain : drain k s = .ok s') :
    Good maxRunTicks { s' with phase := .stopped } ∧ s'.now = s.now := by
  have hne : s.phase ≠ .setup := by rw [hphase]; decide
  have hnone : s.dropped = [] := h.going (by rw [hphase]; decide)
  rcases drain_spec k h.inv with ⟨-, herr⟩ | ⟨-, s₂, hok, hd⟩
  · rw [herr] at hdrain
    cases hdrain
  obtain rfl : s₂ = s' := Except.ok.inj (hok.symm.trans hdrain)
  have hdrop : Agenda.Step s.agenda .drop ({ s₂ with phase := .stopped } : EventLoop).agenda := by
    refine .drop ?_ ?_ hd.armed ?_ hd.fired hd.cancelled
    · show s₂.runQ.entries.map _ = []
      rw [hd.empty]
      rfl
    · exact List.Perm.of_eq hd.dropped
    · rw [agenda_now hne]
      exact hd.now
  refine ⟨⟨⟨hd.inv.tree, hd.inv.sorted, hd.inv.nodup, hd.inv.run⟩, hdrop.sound h.sound,
    fun hgoing => absurd rfl hgoing, fun _ => ⟨hd.empty, fun hle => ?_⟩⟩, hd.now⟩
  -- the clock is not past the end, so the loop ended because the queue was empty
  have hle' : s.now ≤ maxRunTicks := by
    rw [← hd.now]
    exact hle
  show s₂.dropped = []
  rw [hd.dropped, hnone]
  rcases hwhy with hgt | ⟨s₃, hturn⟩
  · omega
  · rcases turn_spec h.inv hphase h.sound with ⟨hempty, -⟩ | ⟨e, s₄, hturn₄, -⟩
    · rw [hempty]
      rfl
    · rw [hturn₄] at hturn
      cases hturn

/-- A step of the program keeps everything. In the loop of `Schedule` the clock does not go
back. -/
theorem Good.step {maxRunTicks : Nat} {a : Action} (h : Good maxRunTicks s) (hwrap : NoWrap s a)
    (hstep : Step maxRunTicks s a s') :
    Good maxRunTicks s' ∧ (s.phase = .loop → s.now ≤ s'.now) := by
  cases hstep with
  | runAfter hphase hcall =>
      unfold EventLoop.runAfter at hcall
      obtain ⟨_, hrun, hins⟩ := bind_eq_ok.mp hcall
      obtain ⟨hm, -⟩ := insert_moved h.inv (check_eq_ok.mp hrun) (le_add64 hwrap) hins
      exact ⟨h.moved hphase hm, fun _ => Nat.le_of_eq hm.now.symm⟩
  | runAt hphase hcall =>
      obtain ⟨hm, -⟩ := runAt_moved h.inv hcall
      exact ⟨h.moved hphase hm, fun _ => Nat.le_of_eq hm.now.symm⟩
  | signal hphase hcall =>
      unfold EventLoop.signal at hcall
      obtain ⟨_, hrun, hins⟩ := bind_eq_ok.mp hcall
      obtain ⟨hm, -⟩ := insert_moved h.inv (check_eq_ok.mp hrun) (le_add64 hwrap) hins
      exact ⟨h.moved hphase hm, fun _ => Nat.le_of_eq hm.now.symm⟩
  | modTimer hphase hcall =>
      have hm := modTimer_moved h.inv hcall
      exact ⟨h.moved hphase hm, fun _ => Nat.le_of_eq hm.now.symm⟩
  | delTimer hphase hcall =>
      have hm := delTimer_moved h.inv hcall
      exact ⟨h.moved hphase hm, fun _ => Nat.le_of_eq hm.now.symm⟩
  | schedule hphase =>
      refine ⟨h.schedule hphase, fun hloop => ?_⟩
      rw [hphase] at hloop
      cases hloop
  | turn hphase _ hturn =>
      obtain ⟨hgood, hle⟩ := h.turned hphase hturn
      exact ⟨hgood, fun _ => hle⟩
  | stop hphase hwhy hdrain =>
      obtain ⟨hgood, hnow⟩ := h.stop hphase hwhy hdrain
      exact ⟨hgood, fun _ => Nat.le_of_eq hnow.symm⟩

/-- The program starts with everything right. -/
theorem good_start (maxRunTicks now : Nat) : Good maxRunTicks (start (.rbtree .new) now) := by
  refine ⟨⟨⟨.new, rfl, NrsRbtree.wf_new⟩, List.Pairwise.nil, List.nodup_nil, ?_⟩,
    Agenda.sound_empty 0, fun _ => rfl, fun h => (nomatch h)⟩
  exact fun e => iff_of_false List.not_mem_nil Bool.false_ne_true

/-- The program does what a discrete-event scheduler does. -/
structure Scheduled (maxRunTicks : Nat) (s : EventLoop) : Prop where
  /-- No two armings are the same, -/
  nodup : s.armed.Nodup
  /-- and each is in the run queue, or it fired, was cancelled, or was left over at the end. -/
  once : (s.runQ.entries.map s.arming ++ s.fired.map Prod.fst ++ s.cancelled ++ s.dropped).Perm
    s.armed
  /-- The clock was at the time of the arming that fired. -/
  clock : ∀ f ∈ s.fired, f.2 = f.1.time
  /-- The armings fired in the order of their times. -/
  sorted : s.fired.Pairwise fun f g => f.1.time ≤ g.1.time
  /-- No event in the run queue is earlier than one that fired. -/
  waiting : ∀ f ∈ s.fired, ∀ e, s.run e = true → f.1.time ≤ s.runTime e
  /-- The run queue takes every event that is not in it, -/
  insert : ∀ e time, s.run e = false → s.now ≤ time →
    ∃ s', (s.setRunTime e time).insertRunQ e = .ok s'
  /-- and gives back every event that is. -/
  remove : ∀ e, s.run e = true → ∃ s', s.removeFromRunQ e = .ok s'
  /-- `RunAfter` arms an event for `now + ticks`, -/
  runAfter : ∀ e ticks, s.run e = false → s.now + ticks < 2 ^ 64 →
    ∃ s', s.runAfter e ticks = .ok s' ∧ Armed s s' e (s.now + ticks)
  /-- `RunAt` for the time that it is given, -/
  runAt : ∀ e time, s.run e = false → time > s.now →
    ∃ s', s.runAt e time = .ok s' ∧ Armed s s' e time
  /-- and `Signal` for `now + rand`. -/
  signal : ∀ e rand, s.run e = false → s.now + rand < 2 ^ 64 →
    ∃ s', s.signal e rand = .ok s' ∧ Armed s s' e (s.now + rand)
  /-- `ModTimer` arms a timer that is not armed, -/
  modTimer_arm : ∀ e expire, s.run e = false → expire > s.now →
    ∃ s', s.modTimer e expire = .ok s' ∧ Armed s s' e expire
  /-- arms one that is again when the time is another one, and cancels its old arming, -/
  modTimer_rearm : ∀ e expire, s.run e = true → expire ≠ s.runTime e → expire > s.now →
    ∃ s', s.modTimer e expire = .ok s' ∧ Armed s s' e expire ∧
      s'.cancelled = s.cancelled ++ [s.arming e]
  /-- and does nothing when the time is the same. -/
  modTimer_same : ∀ e, s.run e = true → s.modTimer e (s.runTime e) = .ok s
  /-- `DelTimer` cancels the arming of a timer, -/
  delTimer : ∀ e, s.run e = true → ∃ s', s.delTimer e = .ok s' ∧ Disarmed s s' e
  /-- when there is one. -/
  delTimer_idle : ∀ e, s.run e = false → s.delTimer e = .ok s
  /-- The loop of `Schedule` does not fail: `assert(now <= e->runTime)` holds. A turn fires an
  event, unless no event is armed. -/
  turn : s.phase = .loop → ((∀ e, s.run e = false) ∧ ∃ s', s.turn = .ok (none, s')) ∨
    ∃ e s', s.turn = .ok (some e, s') ∧ Fired s s' e
  /-- The clock does not go back. -/
  forward : s.phase = .loop → ∀ a s', NoWrap s a → Step maxRunTicks s a s' → s.now ≤ s'.now
  /-- At the end the run queue is empty. What was left over was after `maxRunTicks`. -/
  stopped : s.phase = .stopped →
    s.runQ.entries = [] ∧ (s.now ≤ maxRunTicks → s.dropped = [])

/-- **Scheduling.** In every run in which no call makes `runTime` wrap around, the event loop does
what a discrete-event scheduler does. -/
theorem schedule_run {maxRunTicks now : Nat} {acts : List Action}
    (hrun : Run (fun s a t => NoWrap s a ∧ Step maxRunTicks s a t)
      (start (.rbtree .new) now) acts s) :
    Scheduled maxRunTicks s := by
  have h : Good maxRunTicks s :=
    hrun.invariant (fun _ _ _ hs hstep => (hs.step hstep.1 hstep.2).1) (good_start maxRunTicks now)
  exact
    { nodup := h.sound.nodup
      once := h.sound.once
      clock := h.sound.clock
      sorted := h.sound.sorted
      waiting := fun f hf e he => h.sound.fired_le_pending (a := s.arming e) hf
        (List.mem_map_of_mem ((h.inv.run e).mpr he))
      insert := by
        intro e time he htime
        obtain ⟨s', hins, -⟩ := insert_spec h.inv he htime
        exact ⟨s', hins⟩
      remove := by
        intro e he
        obtain ⟨s', hrem, -⟩ := removeFromRunQ_spec h.inv he
        exact ⟨s', hrem⟩
      runAfter := fun _ _ he hwrap => runAfter_armed h.inv he hwrap
      runAt := fun _ _ he htime => runAt_armed h.inv he htime
      signal := fun _ _ he hwrap => signal_armed h.inv he hwrap
      modTimer_arm := by
        intro e expire he htime
        unfold EventLoop.modTimer
        rw [if_neg (Bool.eq_false_iff.mp he)]
        exact runAt_armed h.inv he htime
      modTimer_rearm := fun _ _ he hne htime => modTimer_rearmed h.inv he hne htime
      modTimer_same := by
        intro e he
        unfold EventLoop.modTimer
        rw [if_pos he, if_pos rfl]
      delTimer := fun _ he => delTimer_disarmed h.inv he
      delTimer_idle := by
        intro e he
        unfold EventLoop.delTimer
        rw [if_neg (Bool.eq_false_iff.mp he)]
      turn := fun hloop => turn_fired h.inv hloop h.sound
      forward := fun hloop a s' hnowrap hstep => (h.step hnowrap hstep).2 hloop
      stopped := h.stopped }

/-- Three events: one fires, one is armed again for a later time, and one is deleted. Then a thread
is signalled. -/
theorem schedule_three :
    ∃ s, Run (fun s a t => NoWrap s a ∧ Step 100 s a t) (start (.rbtree .new) 0)
        [.runAfter 0 5, .runAfter 1 7, .runAfter 2 6, .schedule, .turn 0, .modTimer 1 9,
          .delTimer 2, .turn 1, .signal 3 2] s ∧
      s.now = 9 ∧ s.fired = [(⟨0, 0, 5⟩, 5), (⟨3, 1, 9⟩, 9)] ∧ s.arming 3 = ⟨4, 3, 11⟩ ∧
      Scheduled 100 s := by
  have hexists : ∃ s, Run (fun s a t => NoWrap s a ∧ Step 100 s a t) (start (.rbtree .new) 0)
      [.runAfter 0 5, .runAfter 1 7, .runAfter 2 6, .schedule, .turn 0, .modTimer 1 9,
        .delTimer 2, .turn 1, .signal 3 2] s ∧
      s.now = 9 ∧ s.fired = [(⟨0, 0, 5⟩, 5), (⟨3, 1, 9⟩, 9)] ∧ s.arming 3 = ⟨4, 3, 11⟩ :=
    ⟨_, .cons ⟨(by decide : 0 + 5 < 2 ^ 64), .runAfter (by decide) rfl⟩ <|
      .cons ⟨(by decide : 0 + 7 < 2 ^ 64), .runAfter (by decide) rfl⟩ <|
      .cons ⟨(by decide : 0 + 6 < 2 ^ 64), .runAfter (by decide) rfl⟩ <|
      .cons ⟨trivial, .schedule rfl⟩ <|
      .cons ⟨trivial, .turn rfl (by decide) rfl⟩ <| .cons ⟨trivial, .modTimer (by decide) rfl⟩ <|
      .cons ⟨trivial, .delTimer (by decide) rfl⟩ <|
      .cons ⟨trivial, .turn rfl (by decide) rfl⟩ <|
      .cons ⟨(by decide : 9 + 2 < 2 ^ 64), .signal (by decide) rfl⟩ (.nil _), rfl, rfl, rfl⟩
  obtain ⟨s, hrun, hrest⟩ := hexists
  exact ⟨s, hrun, hrest.1, hrest.2.1, hrest.2.2, schedule_run hrun⟩

end LustreSimulator.EventLoop
