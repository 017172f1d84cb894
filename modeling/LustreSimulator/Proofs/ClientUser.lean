import LustreSimulator.Lib.Rank
import LustreSimulator.Lib.Roster
import LustreSimulator.Proofs.ClientUserTurn
import Mathlib.Data.List.Flatten

/-!
# `LustreSimulator.Proofs.ClientUser`: runs of the users of the clients

The clients of a set write and read a file. `Inv` says what holds of the set at any time: every client
is in order, `finished` counts the writers that are through, no client reads before the last of them
is, and what stands in `rwQ` after that came too late to be woken up.

An event is the turn of a client, the completion of a sub-IO or the end of an OPEN. Each is a turn in
the sense of `Turned` (`fire_good`), so `Inv.turned` is all that a run needs.
-/

set_option autoImplicit false

namespace LustreSimulator

open Lib

namespace ClientUser

/-- The client that the event is of. -/
def Action.client : Action → Nat
  | .user i _ _ | .completion i _ _ _ | .opened i _ _ => i

/-- The time of the event. -/
def Action.time : Action → Nat
  | .user _ time _ | .completion _ _ time _ | .opened _ time _ => time

section
variable {p : Params} {s s' : ClientUser} {i now time : Nat} {c : Client} {queued : Prop}
  {rand skew : Nat → Nat} {a : Action} {as : List Action}

/-- What holds of the set at any time. -/
structure Inv (p : Params) (s : ClientUser) : Prop where
  sizes : Sizes p s.set
  clients : ∀ i < p.cnr, Ok p i s.now (i ∈ s.rwQ) (s.clients i)
  nodup : s.rwQ.Nodup
  inside : ∀ i ∈ s.rwQ, i < p.cnr
  finished : p.Barrier → s.finished =
    (List.range (newSetCtl p).wtnr).countP fun i => (s.clients i).state.passed
  reads : p.Barrier → ∀ i < p.cnr, (s.clients i).state.reads = true → i ∉ s.rwQ →
    (newSetCtl p).wtnr ≤ s.finished
  late : p.Barrier → (newSetCtl p).wtnr ≤ s.finished → ∀ i ∈ s.rwQ, (newSetCtl p).wtnr ≤ i

/-! ### A client that has no turn -/

/-- A client in `rwQ` waits for nothing else. -/
theorem Ok.of_queued (h : Ok p i now queued c) (hq : queued) :
    c.run = none ∧ c.subs = [] ∧ c.opening = false ∧ c.destroyed = 0 ∧ c.sent < now ∧
      c.state = .readStart ∧ Progress p i c := by
  cases h.wait with
  | armed _ _ _ _ _ free | io _ _ _ _ free | opening _ _ _ _ free | done _ _ _ _ free =>
      exact absurd hq free
  | rwQ run subs opening destroyed _ sent progress state =>
      exact ⟨run, subs, opening, destroyed, sent, state, progress⟩

/-- A client stays in order while time passes, as long as its thread is not due. -/
theorem Ok.later (h : Ok p i now queued c) (hle : now ≤ time)
    (hdue : ∀ t, c.run = some t → time ≤ t) : Ok p i time queued c where
  wait := by
    cases h.wait with
    | armed t run subs opening destroyed free _ sent progress =>
        exact .armed t run subs opening destroyed free (hdue t run) sent progress
    | io run subs opening destroyed free sent progress state =>
        exact .io run subs opening destroyed free (sent.trans hle) progress state
    | opening run subs opening destroyed free sent progress state =>
        exact .opening run subs opening destroyed free (Nat.lt_of_lt_of_le sent hle) progress state
    | rwQ run subs opening destroyed queued sent progress state =>
        exact .rwQ run subs opening destroyed queued (Nat.lt_of_lt_of_le sent hle) progress state
    | done run subs opening destroyed free finished =>
        exact .done run subs opening destroyed free finished
  kept := { h.kept with wtime := h.kept.wtime.trans hle }

/-- A client that is woken up from `rwQ`. -/
theorem Ok.woken (h : Ok p i now queued c) (hq : queued) (hle : now ≤ time) {t : Nat}
    (ht : time ≤ t) : Ok p i time False { c with run := some t } where
  wait := by
    obtain ⟨-, hsubs, hopening, hdestroyed, hsent, -, hprogress⟩ := h.of_queued hq
    exact .armed t rfl hsubs hopening hdestroyed not_false ht (by show c.sent < t; omega) hprogress
  kept := by
    obtain ⟨hx, hl, hm, hw, hr⟩ := h.kept
    exact ⟨hx, hl, hm, hw.trans hle, hr⟩

/-! ### A turn keeps the invariant -/

/-- A turn of another client leaves the state of this one. -/
theorem Noticed.state_eq {j : Nat} (h : Noticed s s' j) :
    (s'.clients j).state = (s.clients j).state := by
  rcases h with ⟨hc, -⟩ | ⟨-, -, -, -, t, -, hc⟩ <;> rw [hc]

@[inherit_doc Noticed.state_eq]
theorem Noticed.eventsLeft_eq {j k : Nat} (h : Noticed s s' j) :
    eventsLeft p k (s'.clients j) = eventsLeft p k (s.clients j) := by
  rcases h with ⟨hc, -⟩ | ⟨-, -, -, -, t, -, hc⟩ <;> simp [hc, eventsLeft]

/-- There is a client for every writer. -/
theorem wtnr_le_cnr : (newSetCtl p).wtnr ≤ p.cnr := by
  unfold newSetCtl Params.cnr
  cases p.mode <;> simp

/-- A turn counts a writer that gets through. -/
theorem Turned.finished_eq (ht : Turned p i s s') (hbar : p.Barrier)
    (hfinished : s.finished =
      (List.range (newSetCtl p).wtnr).countP fun j => (s.clients j).state.passed) :
    s'.finished = (List.range (newSetCtl p).wtnr).countP fun j => (s'.clients j).state.passed := by
  have hothers : ∀ j, j ≠ i → (s'.clients j).state.passed = (s.clients j).state.passed :=
    fun j hj => by rw [(ht.others j hj).state_eq]
  have hcount := ht.finished hbar
  have hpassed := ht.passed hbar
  rw [ht.sizes.wtnr, hfinished] at hcount
  by_cases hi : i < (newSetCtl p).wtnr
  · have hadd := Roster.countP_range_add hi hothers
    simp only [hi, true_and] at hcount
    revert hcount hadd hpassed
    cases (s.clients i).state.passed <;> cases (s'.clients i).state.passed <;> simp <;> omega
  · rw [hcount, if_neg fun h => hi h.1, Nat.add_zero]
    refine List.countP_congr fun j hj => ?_
    rw [hothers j fun hji => hi (hji ▸ List.mem_range.mp hj)]

/-- No more writers get through than there are. -/
theorem Inv.finished_le (h : Inv p s) (hbar : p.Barrier) : s.finished ≤ (newSetCtl p).wtnr := by
  rw [h.finished hbar]
  exact List.countP_le_length.trans_eq List.length_range

/-- A turn of a client that is not in `rwQ` keeps the invariant. -/
theorem Inv.turned (h : Inv p s) (hnext : s.Next p time) (hi : i < p.cnr) (hfree : i ∉ s.rwQ)
    (ht : Turned p i { s with now := time } s') : Inv p s' := by
  obtain ⟨hle, -, hdue⟩ := hnext
  have hnow : s'.now = time := ht.now
  have hwtnr := ht.sizes.wtnr
  have hmono : p.Barrier → s.finished ≤ s'.finished := fun hbar => by
    rw [ht.finished hbar]
    exact Nat.le_add_right ..
  have hfinished : p.Barrier → s'.finished =
      (List.range (newSetCtl p).wtnr).countP fun j => (s'.clients j).state.passed :=
    fun hbar => ht.finished_eq hbar (h.finished hbar)
  refine ⟨ht.sizes, fun j hj => ?_, ht.nodup, fun j hj => ?_, hfinished, ?_, ?_⟩
  · -- the client of the turn, one that does not notice it, and one that it wakes up
    rw [hnow]
    by_cases hji : j = i
    · rw [hji]
      exact ht.ok
    · rcases ht.others j hji with ⟨hc, hq⟩ | ⟨hin, hout, -, -, t, hlt, hc⟩
      · rw [hc, hq]
        exact (h.clients j hj).later hle (hdue j hj)
      · rw [hc, iff_false_intro hout]
        exact (h.clients j hj).woken hin hle hlt
  · by_cases hji : j = i
    · rwa [hji]
    · rcases ht.others j hji with ⟨-, hq⟩ | ⟨-, hout, -⟩
      · exact h.inside j (hq.mp hj)
      · exact absurd hj hout
  · intro hbar j hj hreads hout
    by_cases hji : j = i
    · subst hji
      rcases ht.reads hbar hreads hout with hbefore | hall
      · exact (h.reads hbar j hj hbefore hfree).trans (hmono hbar)
      · rwa [hwtnr] at hall
    · rw [(ht.others j hji).state_eq] at hreads
      rcases ht.others j hji with ⟨-, hq⟩ | ⟨-, -, -, hall, -⟩
      · exact (h.reads hbar j hj hreads fun hin => hout (hq.mpr hin)).trans (hmono hbar)
      · rwa [hwtnr] at hall
  · intro hbar hall j hin
    rcases ht.emptied hbar with hsame | hlt | hnil
    · -- no writer got through
      have hall' : (newSetCtl p).wtnr ≤ s.finished := hsame ▸ hall
      by_cases hji : j = i
      · -- it has just joined, and would have been counted
        subst hji
        by_contra hj
        have hstate := (ht.ok.of_queued hin).2.2.2.2.2.1
        have hcount := ht.finished hbar
        rw [hsame, hwtnr, if_pos ⟨by omega, ht.joined hin, by simp [hstate, UserState.passed]⟩]
          at hcount
        omega
      · rcases ht.others j hji with ⟨-, hq⟩ | ⟨-, hout, -⟩
        · exact h.late hbar hall' j (hq.mp hin)
        · exact absurd hin hout
    · rw [hwtnr] at hlt
      omega
    · simp [hnil] at hin

/-! ### The events -/

/-- The set when the event of a client comes. -/
theorem Inv.before (h : Inv p s) (hnext : s.Next p time) (hi : i < p.cnr) (hfree : i ∉ s.rwQ) :
    Before p i { s with now := time } where
  inside := hi
  sizes := h.sizes
  now := hnext.2.1
  free := hfree
  nodup := h.nodup
  asleep j hj := ((h.clients j (h.inside j hj)).of_queued hj).1

/-- The thread leaves the run queue before its turn. -/
theorem Turned.of_run {run : Option Nat}
    (ht : Turned p i (s.setClient i { s.clients i with run := run }) s') : Turned p i s s' where
  now := ht.now
  sizes := ht.sizes
  nodup := ht.nodup
  ok := ht.ok
  left := by simpa [eventsLeft] using ht.left
  others j hj := by simpa [Noticed, hj] using ht.others j hj
  joined hin := by simpa using ht.joined hin
  passed hbar := by simpa using ht.passed hbar
  finished hbar := by simpa using ht.finished hbar
  emptied hbar := by simpa using ht.emptied hbar
  reads hbar := by simpa using ht.reads hbar

@[inherit_doc Turned.of_run]
theorem Good.of_run {run : Option Nat} {r : Except Fault ClientUser}
    (h : Good p i (s.setClient i { s.clients i with run := run }) r) : Good p i s r := by
  cases r with
  | error e => exact h
  | ok s' => exact Turned.of_run h

/-- The turn of a client whose thread is due. -/
theorem user_good (h : Inv p s) (hen : s.Enabled p (.user i time rand)) :
    i ∉ s.rwQ ∧ Good p i { s with now := time } (s.fire p (.user i time rand)) := by
  obtain ⟨hnext, hi, hrun⟩ := hen
  have hok := h.clients i hi
  cases hok.wait with
  | io run | opening run | rwQ run | done run => exact absurd (run.symm.trans hrun) (by simp)
  | armed t run subs opening destroyed free due sent progress =>
      obtain rfl : t = time := Option.some.inj (run.symm.trans hrun)
      refine ⟨free, ?_⟩
      obtain ⟨hx, hl, hm, hw, hr⟩ := hok.kept
      refine Good.of_run (userStateMachine_good
        ⟨hi, h.sizes, hnext.2.1, free, h.nodup, fun j hj => ?_⟩ ?_ ?_)
      · have hne : j ≠ i := fun hji => free (hji ▸ hj)
        simpa [hne] using ((h.clients j (h.inside j hj)).of_queued hj).1
      · simp only [setClient_clients, setClient_now, Function.update_self]
        exact ⟨⟨hx, hl, hm, hw.trans due, hr⟩, rfl, subs, opening, destroyed, sent⟩
      · simp only [setClient_clients, Function.update_self]
        exact progress

/-- The completion of a sub-IO. The last one signals the thread. -/
theorem completion_good (h : Inv p s) {k : Nat} (hen : s.Enabled p (.completion i k time rand)) :
    i ∉ s.rwQ ∧ Good p i { s with now := time } (s.fire p (.completion i k time rand)) := by
  obtain ⟨hnext, hi, hk, hsent⟩ := hen
  have hok := h.clients i hi
  cases hok.wait with
  | armed _ _ subs | opening _ subs | rwQ _ subs | done _ subs => simp [subs] at hk
  | io run subs opening destroyed free sent progress state =>
      refine ⟨free, ?_⟩
      obtain ⟨hx, hl, hm, hw, hr⟩ := hok.kept
      have hb := h.before hnext hi free
      have hlen : ((s.clients i).subs.eraseIdx k).length = (s.clients i).subs.length - 1 :=
        List.length_eraseIdx_of_lt hk
      have hleft : eventsLeft p i { s.clients i with subs := (s.clients i).subs.eraseIdx k } <
          eventsLeft p i (s.clients i) := by
        -- every state with an IO under way counts the sub-IOs
        unfold Progress at progress
        simp only [eventsLeft, destroyed, hlen, ne_eq, not_true_eq_false, ↓reduceIte]
        cases hstate : (s.clients i).state <;> simp_all <;> omega
      unfold fire completion
      dsimp only
      rw [check_true (by rw [hr]; omega), ok_bind]
      split_ifs with hlast
      · -- the last sub-IO
        rw [runAfter_eq (by simpa using run)]
        refine turned_alone hb rfl h.sizes rfl (fun j hj => by simp [hj]) ?_ ?_ fun _ => ⟨rfl, ?_⟩
        · simp only [setClient_clients, setClient_now, Function.update_self]
          have hnil : (s.clients i).subs.eraseIdx k = [] := by
            rw [← List.length_eq_zero_iff, hlen, ← hr, hlast]
          refine ⟨.armed _ rfl hnil opening destroyed not_false (Nat.le_add_right ..) ?_ progress,
            hx, hl, hm, hw.trans hnext.1, ?_⟩
          · exact Nat.lt_of_lt_of_le hsent (Nat.le_add_right ..)
          · simp [hlast, hnil]
        · simpa [eventsLeft] using hleft
        · simp
      · refine turned_alone hb rfl h.sizes rfl (fun j hj => by simp [hj]) ?_ ?_ fun _ => ⟨rfl, ?_⟩
        · simp only [setClient_clients, Function.update_self]
          have hne : (s.clients i).subs.eraseIdx k ≠ [] := by
            rw [← List.length_pos_iff, hlen]
            omega
          refine ⟨.io run hne opening destroyed not_false (sent.trans hnext.1) progress state,
            hx, hl, hm, hw.trans hnext.1, ?_⟩
          rw [hlen, ← hr]
        · simpa [eventsLeft] using hleft
        · simp

/-- The end of an OPEN. -/
theorem opened_good (h : Inv p s) (hen : s.Enabled p (.opened i time rand)) :
    i ∉ s.rwQ ∧ Good p i { s with now := time } (s.fire p (.opened i time rand)) := by
  obtain ⟨hnext, hi, hopen⟩ := hen
  have hok := h.clients i hi
  cases hok.wait with
  | armed _ _ _ opening | io _ _ opening | rwQ _ _ opening | done _ _ opening =>
      exact absurd (opening.symm.trans hopen) (by simp)
  | opening run subs opening destroyed free sent progress state =>
      refine ⟨free, ?_⟩
      obtain ⟨hx, hl, hm, hw, hr⟩ := hok.kept
      unfold fire ClientUser.opened
      dsimp only
      rw [runAfter_eq (by simpa using run)]
      refine turned_alone (h.before hnext hi free) rfl h.sizes rfl (fun j hj => by simp [hj]) ?_ ?_
        fun _ => ⟨rfl, ?_⟩
      · simp only [setClient_clients, setClient_now, Function.update_self]
        refine ⟨.armed _ rfl subs rfl destroyed not_false (Nat.le_add_right ..) ?_ progress,
          hx, hl, hm, hw.trans hnext.1, hr⟩
        exact Nat.lt_of_lt_of_le (Nat.lt_of_lt_of_le sent hnext.1) (Nat.le_add_right ..)
      · simp [eventsLeft, state, destroyed, opening]
      · simp

/-- Every event is a turn of its client, which is not in `rwQ`. -/
theorem fire_good (h : Inv p s) (hen : s.Enabled p a) :
    s.Next p a.time ∧ a.client < p.cnr ∧ a.client ∉ s.rwQ ∧
      Good p a.client { s with now := a.time } (s.fire p a) := by
  cases a with
  | user i time rand => exact ⟨hen.1, hen.2.1, user_good h hen⟩
  | completion i k time rand => exact ⟨hen.1, hen.2.1, completion_good h hen⟩
  | opened i time rand => exact ⟨hen.1, hen.2.1, opened_good h hen⟩

/-- A step is a turn of a client that is not in `rwQ`. -/
theorem Inv.turn (h : Inv p s) (hstep : Step p s a s') :
    s.Next p a.time ∧ a.client < p.cnr ∧ a.client ∉ s.rwQ ∧
      Turned p a.client { s with now := a.time } s' := by
  obtain ⟨hnext, hi, hfree, hgood⟩ := fire_good h hstep.1
  rw [hstep.2] at hgood
  exact ⟨hnext, hi, hfree, hgood⟩

/-- A step keeps the invariant. -/
theorem Inv.step (h : Inv p s) (hstep : Step p s a s') : Inv p s' := by
  obtain ⟨hnext, hi, hfree, hturned⟩ := h.turn hstep
  exact h.turned hnext hi hfree hturned

/-- The tests of the token buckets change no more than the size, the interval and the stop. -/
theorem confTbfTestSuit_kept (rw : Rw) : (confTbfTestSuit p i rw).launch = rw.launch ∧
    (confTbfTestSuit p i rw).maxRuntime = rw.maxRuntime ∧
    (confTbfTestSuit p i rw).wtime = rw.wtime := by
  unfold confTbfTestSuit
  split
  · split <;> exact ⟨rfl, rfl, rfl⟩
  · exact ⟨rfl, rfl, rfl⟩

/-- The clients start in order. -/
theorem Inv.start (p : Params) (skew : Nat → Nat) : Inv p (ClientUser.start p skew) := by
  refine ⟨⟨rfl, rfl, rfl⟩, fun i _ => ⟨?_, ?_⟩, List.nodup_nil, ?_, fun _ => ?_, ?_, ?_⟩
  · refine .armed _ rfl rfl rfl rfl ?_ (Nat.zero_le _) ?_ ⟨rfl, rfl⟩
    · simp [ClientUser.start]
    · show 0 < 5000 + skew i
      omega
  · obtain ⟨hlaunch, hmax, hwtime⟩ := confTbfTestSuit_kept (p := p) (i := i) (newRw p)
    exact ⟨rfl, hlaunch, hmax, Nat.le_of_eq hwtime, rfl⟩
  · simp [ClientUser.start]
  · refine (List.countP_eq_zero.mpr fun i _ => ?_).symm
    simp [ClientUser.start, newClient, UserState.passed]
  · intro _ i _ hreads
    simp [ClientUser.start, newClient, UserState.reads] at hreads
  · simp [ClientUser.start]

/-- What holds in every run. -/
theorem Inv.run (hrun : Run (Step p) (ClientUser.start p skew) as s) : Inv p s :=
  hrun.invariant (fun _ _ _ h hstep => h.step hstep) (Inv.start p skew)

/-! ### What has been transferred -/

instance (p : Params) (i : Nat) : Decidable (p.Writes i) := inferInstanceAs (Decidable (¬ _))

instance (p : Params) (i : Nat) : Decidable (p.Reads i) := inferInstanceAs (Decidable (_ ∧ ¬ _))

/-- The IOs that the client is to write, if it writes at all. -/
def Params.toWrite (p : Params) (i : Nat) : List (Nat × Nat) :=
  if p.Writes i then p.writePieces i else []

/-- The IOs that the client is to read, if it reads at all. -/
def Params.toRead (p : Params) (i : Nat) : List (Nat × Nat) :=
  if p.Reads i then p.readPieces i else []

/-- What a client has written and read at some time. -/
structure Transfers (p : Params) (i : Nat) (c : Client) : Prop where
  writes : c.writes <+: p.toWrite i
  reads : c.reads <+: p.toRead i
  first : c.reads ≠ [] → c.writes = p.toWrite i

/-- All is written. -/
theorem Written.writes_eq (h : Written p i c) : c.writes = p.toWrite i := by
  unfold Params.toWrite
  split_ifs with hwrites
  · exact h.1 hwrites
  · exact h.2 hwrites

/-- A client that has read nothing yet. -/
theorem Transfers.unread (hwrites : c.writes <+: p.toWrite i) (hnil : c.reads = []) :
    Transfers p i c :=
  ⟨hwrites, by simp [hnil], fun hne => absurd hnil hne⟩

/-- Nothing is read before all is written. -/
theorem Progress.transfers (h : Progress p i c) : Transfers p i c := by
  have hread : p.Reads i → p.toRead i = p.readPieces i := fun hreads => if_pos hreads
  have hwrite : p.Writes i → p.toWrite i = p.writePieces i := fun hwrites => if_pos hwrites
  unfold Progress at h
  -- the cases are the states in which a client is not through
  split at h
  case h_1 | h_2 => exact .unread (by simp [h.1]) h.2
  case h_3 | h_4 | h_5 =>
    obtain ⟨hwrites, hpieces, hnil, -⟩ := h
    exact .unread (hwrite hwrites ▸ ⟨_, hpieces⟩) hnil
  case h_6 =>
    obtain ⟨hwrites, hpieces, hnil, -⟩ := h
    exact .unread (by rw [hwrite hwrites, hpieces]) hnil
  case h_7 =>
    obtain ⟨-, -, hwritten, hnil⟩ := h
    exact .unread (by rw [hwritten.writes_eq]) hnil
  case h_8 =>
    obtain ⟨hreads, hwritten, hpieces, -⟩ := h
    exact ⟨by rw [hwritten.writes_eq], hread hreads ▸ ⟨_, hpieces⟩, fun _ => hwritten.writes_eq⟩
  case h_9 =>
    obtain ⟨hreads, hwritten, hpieces, -⟩ := h
    exact ⟨by rw [hwritten.writes_eq], by rw [hread hreads, hpieces], fun _ => hwritten.writes_eq⟩
  case h_10 => exact absurd h id

/-- A client that is through has written and read all. -/
theorem Finished.reads_eq (h : Finished p i c) : c.reads = p.toRead i := by
  unfold Params.toRead
  split_ifs with hreads
  · exact h.reads hreads
  · exact h.noReads hreads

/-- What a client in order has transferred. -/
theorem Ok.transfers (h : Ok p i now queued c) : Transfers p i c := by
  cases h.wait with
  | armed _ _ _ _ _ _ _ _ progress | io _ _ _ _ _ _ progress | opening _ _ _ _ _ _ progress
  | rwQ _ _ _ _ _ _ progress => exact progress.transfers
  | done _ _ _ _ _ finished =>
      exact ⟨by rw [finished.written.writes_eq], by rw [finished.reads_eq],
        fun _ => finished.written.writes_eq⟩

/-- The file of a client is destroyed when the client is through, and not again. -/
theorem Ok.of_destroyed (h : Ok p i now queued c) :
    c.destroyed = 0 ∨ c.destroyed = 1 ∧ c.subs = [] ∧ Finished p i c := by
  cases h.wait with
  | armed _ _ _ _ destroyed | io _ _ _ destroyed | opening _ _ _ destroyed
  | rwQ _ _ _ destroyed => exact .inl destroyed
  | done _ subs _ destroyed _ finished => exact .inr ⟨destroyed, subs, finished⟩

/-- A writer and a reader of one file, of two blocks, with an IO for each part. -/
def twoClients : Params where
  mode := .share
  testRead := true
  waitAllWrites := true
  directIo := false
  clientAT := false
  mdt := false
  clientCount := 0
  writerCount := 1
  readerCount := 2
  countFPP := 0
  fileSizeSF := 2
  sizeUnit := 4096
  xferSize := 0
  interval := 0
  stepSize := 0
  lyt := ⟨8192, 1, by decide, by decide⟩
  tbfTest := none
  stopTime := 0
  stopTicks := 0
  tbfInterval := 0

/-- The writer writes and then reads. The other client comes only then. -/
def twoClientsRun : List Action :=
  [.user 0 5000 0, .completion 0 0 5001 0, .user 0 5001 0, .user 0 5001 0, .user 1 5002 0,
    .completion 0 0 5002 0, .user 0 5002 0]

/-- The writer reads, and the other client has come. -/
def Halfway (s : ClientUser) : Prop :=
  s.Enabled twoClients (.completion 0 0 5002 0) ∧ s.set.wtnr ≤ s.finished ∧ 0 < s.set.wtnr ∧
    1 ∈ s.rwQ ∧ (s.clients 0).reads ≠ [] ∧ (s.clients 0).subs ≠ []

/-- The writer is through, the other client is not, and nothing is under way. -/
def AtEnd (s : ClientUser) : Prop :=
  s.now = 5002 ∧ (s.clients 0).reads = [(0, 4096)] ∧ (s.clients 0).destroyed = 1 ∧
    (s.clients 1).destroyed = 0 ∧ ∀ i < twoClients.cnr, (s.clients i).run = none ∧
      (s.clients i).subs = [] ∧ (s.clients i).opening = false

instance (s : ClientUser) : Decidable (Halfway s) := inferInstanceAs (Decidable (_ ∧ _))

instance (s : ClientUser) : Decidable (AtEnd s) := inferInstanceAs (Decidable (_ ∧ _))

/-- The run of the two clients, computed. -/
theorem exists_twoClients : ∃ s s', Run (Step twoClients) (start twoClients fun i => 2 * i)
      (twoClientsRun.take 5) s ∧ Run (Step twoClients) s (twoClientsRun.drop 5) s' ∧
    Run (Step twoClients) (start twoClients fun i => 2 * i) twoClientsRun s' ∧ Halfway s ∧
    AtEnd s' := by
  have hstep : ∀ s a s', Enabled twoClients s a → fire twoClients s a = .ok s' →
      Step twoClients s a s' := fun _ _ _ hen hfire => ⟨hen, hfire⟩
  have hexec : (Run.exec (Enabled twoClients) (fire twoClients) (start twoClients fun i => 2 * i)
      (twoClientsRun.take 5)).any (fun s => decide (Halfway s) &&
        (Run.exec (Enabled twoClients) (fire twoClients) s (twoClientsRun.drop 5)).any
          fun s' => decide (AtEnd s')) = true := by
    decide +kernel
  obtain ⟨s, hrun, h⟩ := Run.exists_of_exec hstep hexec
  obtain ⟨hhalf, hlater⟩ := Bool.and_eq_true_iff.mp h
  obtain ⟨s', hrun', hend⟩ := Run.exists_of_exec hstep hlater
  exact ⟨s, s', hrun, hrun', hrun.append hrun', of_decide_eq_true hhalf, of_decide_eq_true hend⟩

/-! ### Faults -/

/-- In every run an event stops the program only where the parameters are not valid: no thread is put
into the run queue or into `rwQ` that is there already, and no IO is completed too often. -/
theorem run_faults (hrun : Run (Step p) (start p skew) as s) (hen : s.Enabled p a) :
    (∀ e, s.fire p a = .error e → e.OfParams) ∧ (p.Valid → ∃ s', s.fire p a = .ok s') := by
  obtain ⟨-, -, -, hgood⟩ := fire_good (Inv.run hrun) hen
  cases hfire : s.fire p a with
  | ok s' => simp
  | error e =>
      rw [hfire] at hgood
      exact ⟨fun e' he => Except.error.inj he ▸ hgood.1, fun hv => absurd hv hgood.2⟩

/-- The two clients have something to do, in pieces that the layout accepts. -/
theorem twoClients_valid : twoClients.Valid where
  counts _ := by decide
  waits _ _ _ := rfl
  writes i hi hwrites := by
    have h0 : i = 0 := by
      by_contra hne
      exact hwrites ⟨rfl, rfl, by decide, Nat.one_le_iff_ne_zero.mpr hne⟩
    subst h0
    have hpieces : twoClients.writePieces 0 = [(0, 8192)] := pieces_whole (by decide)
    refine ⟨by decide, fun r hr => ?_⟩
    rw [hpieces] at hr
    rw [List.mem_singleton.mp hr]
    rfl
  reads i _ _ := by
    have hcount : (twoClients.readRange i).2 = 4096 := rfl
    have hpieces : twoClients.readPieces i = [((twoClients.readRange i).1, 4096)] := by
      rw [Params.readPieces, hcount]
      exact pieces_whole (by decide)
    have hcheck : Lov.check twoClients.lyt 4096 = .ok true := by decide
    refine ⟨by simp [hcount], fun r hr => ?_⟩
    rw [hpieces] at hr
    rw [List.mem_singleton.mp hr]
    exact hcheck

/-- The writer reads its block. -/
theorem run_faults_two : ∃ s, Run (Step twoClients) (start twoClients fun i => 2 * i)
      (twoClientsRun.take 5) s ∧ ∃ s', s.fire twoClients (.completion 0 0 5002 0) = .ok s' := by
  obtain ⟨s, -, hrun, -, -, ⟨hen, -⟩, -⟩ := exists_twoClients
  exact ⟨s, hrun, (run_faults hrun hen).2 twoClients_valid⟩

/-! ### Transfers -/

/-- A client that is through. -/
theorem Ok.of_through (h : Ok p i now queued c) (hdestroyed : c.destroyed = 1) :
    c.writes = p.toWrite i ∧ c.reads = p.toRead i := by
  rcases h.of_destroyed with h0 | ⟨-, -, hfinished⟩
  · rw [hdestroyed] at h0
    cases h0
  · exact ⟨hfinished.written.writes_eq, hfinished.reads_eq⟩

/-- In every run a client has written a beginning of what it is to write, and read a beginning of what
it is to read, in this order. It reads nothing before it has written all. Its file is destroyed once
at most, and then all is written and read and no sub-IO is under way. -/
theorem run_transfers (hrun : Run (Step p) (start p skew) as s) (hi : i < p.cnr) :
    (s.clients i).writes <+: p.toWrite i ∧ (s.clients i).reads <+: p.toRead i ∧
      ((s.clients i).reads ≠ [] → (s.clients i).writes = p.toWrite i) ∧
      ((s.clients i).destroyed = 0 ∨ (s.clients i).destroyed = 1 ∧ (s.clients i).subs = [] ∧
        (s.clients i).writes = p.toWrite i ∧ (s.clients i).reads = p.toRead i) := by
  have hok := (Inv.run hrun).clients i hi
  obtain ⟨hwrites, hreads, hfirst⟩ := hok.transfers
  refine ⟨hwrites, hreads, hfirst, hok.of_destroyed.imp_right ?_⟩
  rintro ⟨hdestroyed, hsubs, hfinished⟩
  exact ⟨hdestroyed, hsubs, hfinished.written.writes_eq, hfinished.reads_eq⟩

/-- The writer has read its part. -/
theorem run_transfers_two : ∃ s, Run (Step twoClients) (start twoClients fun i => 2 * i)
      twoClientsRun s ∧ (s.clients 0).reads = [(0, 4096)] ∧
    (s.clients 0).writes = twoClients.toWrite 0 := by
  obtain ⟨-, s, -, -, hrun, -, -, hreads, -⟩ := exists_twoClients
  exact ⟨s, hrun, hreads, (run_transfers hrun (by decide)).2.2.1 (by simp [hreads])⟩

/-! ### The bytes of a shared file -/

/-- The writes of all clients. -/
def written (p : Params) (s : ClientUser) : List (Nat × Nat) :=
  (List.range p.cnr).flatMap fun i => (s.clients i).writes

/-- The reads of all clients. -/
def read (p : Params) (s : ClientUser) : List (Nat × Nat) :=
  (List.range p.cnr).flatMap fun i => (s.clients i).reads

/-- What the clients are to write of a shared file is the file, in order. -/
theorem tiles_toWrite (hmode : p.mode = .share) (hpos : 0 < p.writerCount)
    (hall : p.testRead = true ∨ p.readerCount ≤ p.writerCount) :
    Tiles 0 ((List.range p.cnr).flatMap p.toWrite) (p.fileSizeSF * p.sizeUnit) := by
  have hwrites : ∀ i < p.cnr, p.Writes i ↔ i < p.writerCount := by
    intro i hi
    simp only [Params.cnr, hmode] at hi
    simp only [Params.Writes, hmode, true_and]
    rcases hall with htest | hle
    · simp only [htest, true_and]
      omega
    · refine iff_of_true (fun h => ?_) ?_ <;> omega
  obtain ⟨step, hstep⟩ : ∃ step, step = p.fileSizeSF / p.writerCount := ⟨_, rfl⟩
  have hdiv : p.writerCount * step + p.fileSizeSF % p.writerCount = p.fileSizeSF := by
    rw [hstep]
    exact Nat.div_add_mod ..
  -- the client `i` begins at `i` steps, and behind the writers there is nothing to write
  have htiles := tiles_flatMap (n := p.cnr) (l := p.toWrite)
    (f := fun i => if i < p.writerCount then step * i * p.sizeUnit else p.fileSizeSF * p.sizeUnit) ?_
  · have hlast : ¬ p.cnr < p.writerCount := by
      simp only [Params.cnr, hmode]
      omega
    simpa [hpos, hlast] using htiles
  intro i hi
  by_cases hwriter : i < p.writerCount
  · rw [Params.toWrite, if_pos ((hwrites i hi).mpr hwriter), if_pos hwriter]
    have hpieces := tiles_pieces (p.writeSize i) (p.writeRange i).1 (p.writeRange i).2
    have hrange : (p.writeRange i).1 = step * i * p.sizeUnit := by
      simp [Params.writeRange, ClientUser.writeRange, newSetCtl, hmode, hstep]
    rw [← Params.writePieces, hrange] at hpieces
    convert hpieces using 1
    by_cases hlast : i + 1 = p.writerCount
    · rw [if_neg (by omega)]
      simp only [Params.writeRange, ClientUser.writeRange, newSetCtl, hmode, hlast, ← hstep,
        ↓reduceIte]
      rw [← Nat.add_mul, ← Nat.add_mul, ← Nat.add_assoc, ← Nat.mul_succ, Nat.succ_eq_add_one, hlast,
        Nat.mul_comm step, hdiv]
    · rw [if_pos (by omega)]
      simp only [Params.writeRange, ClientUser.writeRange, newSetCtl, hmode, hlast, ← hstep,
        ↓reduceIte]
      ring
  · rw [Params.toWrite, if_neg fun h => hwriter ((hwrites i hi).mp h), if_neg hwriter,
      if_neg (by omega)]
    rfl

/-- What the clients are to read of a shared file are as many steps as there are readers. -/
theorem tiles_toRead (hmode : p.mode = .share) (htest : p.testRead = true)
    (hall : p.waitAllWrites = true ∨ p.writerCount ≤ p.readerCount) :
    Tiles 0 ((List.range p.cnr).flatMap p.toRead)
      (p.fileSizeSF / p.readerCount * p.readerCount * p.sizeUnit) := by
  have hreads : ∀ i < p.cnr, p.Reads i ↔ i < p.readerCount := by
    intro i hi
    simp only [Params.cnr, hmode] at hi
    simp only [Params.Reads, hmode, htest, true_and]
    rcases hall with hwait | hle
    · simp only [hwait, true_and]
      omega
    · refine iff_of_true (fun h => ?_) ?_ <;> omega
  generalize hstep : p.fileSizeSF / p.readerCount = step
  have htiles := tiles_flatMap (n := p.cnr) (l := p.toRead)
    (f := fun i => step * min i p.readerCount * p.sizeUnit) ?_
  · have hlast : min p.cnr p.readerCount = p.readerCount := by
      simp only [Params.cnr, hmode]
      omega
    simpa [hlast] using htiles
  intro i hi
  by_cases hreader : i < p.readerCount
  · rw [Params.toRead, if_pos ((hreads i hi).mpr hreader)]
    have hpieces := tiles_pieces p.readSize (p.readRange i).1 (p.readRange i).2
    have hrange : p.readRange i = (step * i * p.sizeUnit, step * p.sizeUnit) := by
      simp [Params.readRange, ClientUser.readRange, newSetCtl, hmode, hstep]
    rw [← Params.readPieces, hrange] at hpieces
    convert hpieces using 1
    · rw [Nat.min_eq_left (by omega)]
    · rw [Nat.min_eq_left (by omega)]
      ring
  · rw [Params.toRead, if_neg fun h => hreader ((hreads i hi).mp h), Nat.min_eq_right (by omega),
      Nat.min_eq_right (by omega)]
    rfl

/-- In every run at most one write of all clients holds a byte of a shared file, and none holds a byte
behind its end. When all clients are through, there is one for each byte of the file. -/
theorem run_written (hmode : p.mode = .share) (hpos : 0 < p.writerCount)
    (hall : p.testRead = true ∨ p.readerCount ≤ p.writerCount)
    (hrun : Run (Step p) (start p skew) as s) (b : Nat) :
    (written p s).countP (Covers b) ≤ (if b < p.fileSizeSF * p.sizeUnit then 1 else 0) ∧
      ((∀ i < p.cnr, (s.clients i).destroyed = 1) →
        (written p s).countP (Covers b) = if b < p.fileSizeSF * p.sizeUnit then 1 else 0) := by
  have hinv := Inv.run hrun
  have hcount := (tiles_toWrite hmode hpos hall).countP_covers b
  simp only [Nat.zero_le, true_and] at hcount
  rw [← hcount]
  refine ⟨?_, fun hdone => ?_⟩
  · -- what is written so far is a part of what is to be written
    refine (List.Sublist.flatMap_right _ fun i hi => ?_).countP_le
    exact (hinv.clients i (List.mem_range.mp hi)).transfers.writes.sublist
  · have hsame : written p s = (List.range p.cnr).flatMap p.toWrite := by
      refine List.flatMap_congr fun i hi => ?_
      have hi := List.mem_range.mp hi
      exact ((hinv.clients i hi).of_through (hdone i hi)).1
    rw [hsame]

/-- The writer is through with its block, and the other client is not. -/
theorem run_written_two : ∃ s, Run (Step twoClients) (start twoClients fun i => 2 * i)
      twoClientsRun s ∧ (s.clients 1).destroyed = 0 ∧
    (written twoClients s).countP (Covers 5000) ≤ 1 := by
  obtain ⟨-, s, -, -, hrun, -, -, -, -, hdestroyed, -⟩ := exists_twoClients
  exact ⟨s, hrun, hdestroyed, (run_written rfl (by decide) (.inl rfl) hrun 5000).1⟩

/-- In every run at most one read of all clients holds a byte of a shared file, and none holds one of
the bytes that are left when the file does not divide by the readers. When all clients are through,
there is one for each other byte. -/
theorem run_read (hmode : p.mode = .share) (htest : p.testRead = true)
    (hall : p.waitAllWrites = true ∨ p.writerCount ≤ p.readerCount)
    (hrun : Run (Step p) (start p skew) as s) (b : Nat) :
    let stop := p.fileSizeSF / p.readerCount * p.readerCount * p.sizeUnit
    (read p s).countP (Covers b) ≤ (if b < stop then 1 else 0) ∧
      ((∀ i < p.cnr, (s.clients i).destroyed = 1) →
        (read p s).countP (Covers b) = if b < stop then 1 else 0) := by
  have hinv := Inv.run hrun
  have hcount := (tiles_toRead hmode htest hall).countP_covers b
  simp only [Nat.zero_le, true_and] at hcount
  intro stop
  rw [← hcount]
  refine ⟨?_, fun hdone => ?_⟩
  · refine (List.Sublist.flatMap_right _ fun i hi => ?_).countP_le
    exact (hinv.clients i (List.mem_range.mp hi)).transfers.reads.sublist
  · have hsame : read p s = (List.range p.cnr).flatMap p.toRead := by
      refine List.flatMap_congr fun i hi => ?_
      have hi := List.mem_range.mp hi
      exact ((hinv.clients i hi).of_through (hdone i hi)).2
    rw [hsame]

/-- One of the two readers has read its block. -/
theorem run_read_two : ∃ s, Run (Step twoClients) (start twoClients fun i => 2 * i)
      twoClientsRun s ∧ (s.clients 0).destroyed = 1 ∧
    (read twoClients s).countP (Covers 100) ≤ 1 := by
  obtain ⟨-, s, -, -, hrun, -, -, -, hdestroyed, -⟩ := exists_twoClients
  exact ⟨s, hrun, hdestroyed, (run_read rfl rfl (.inl rfl) hrun 100).1⟩

/-! ### The barrier -/

/-- Where no writer is missing, all are through with their writes. -/
theorem Inv.passed (h : Inv p s) (hbar : p.Barrier) (hall : (newSetCtl p).wtnr ≤ s.finished) {j : Nat}
    (hj : j < (newSetCtl p).wtnr) : (s.clients j).state.passed = true := by
  have hcount := h.finished hbar
  have hle := h.finished_le hbar
  have heq : (List.range (newSetCtl p).wtnr).countP (fun i => (s.clients i).state.passed) =
      (List.range (newSetCtl p).wtnr).length := by
    rw [List.length_range]
    omega
  exact List.countP_eq_length.mp heq j (List.mem_range.mpr hj)

/-- A client that is through with its writes has written all, and what it waits for is a read. -/
theorem Ok.of_passed (h : Ok p i now queued c) (hpassed : c.state.passed = true) :
    c.writes = p.toWrite i ∧ (c.subs ≠ [] → c.io.cmd = .read) := by
  have hwritten : Progress p i c → Written p i c := by
    intro hprogress
    unfold Progress at hprogress
    cases hstate : c.state <;> simp_all [UserState.passed]
  cases h.wait with
  | armed _ _ subs _ _ _ _ _ progress | opening _ subs _ _ _ _ progress
  | rwQ _ subs _ _ _ _ progress => exact ⟨(hwritten progress).writes_eq, fun hne => absurd subs hne⟩
  | io _ _ _ _ _ _ progress state =>
      refine ⟨(hwritten progress).writes_eq, fun _ => ?_⟩
      unfold Progress at progress
      cases hstate : c.state <;> simp_all [UserState.passed]
  | done _ subs _ _ _ finished => exact ⟨finished.written.writes_eq, fun hne => absurd subs hne⟩

/-- A client that has read came to its reads, and is not in `rwQ`. -/
theorem Ok.of_reads (h : Ok p i now queued c) (hbar : p.Barrier) (hreads : c.reads ≠ []) :
    c.state.reads = true ∧ ¬ queued := by
  have hstate : Progress p i c → c.state.reads = true := by
    intro hprogress
    unfold Progress at hprogress
    cases hstate : c.state <;> simp_all [UserState.reads]
  cases h.wait with
  | armed _ _ _ _ _ free _ _ progress | io _ _ _ _ free _ progress
  | opening _ _ _ _ free _ progress => exact ⟨hstate progress, free⟩
  | rwQ _ _ _ _ _ _ progress state =>
      unfold Progress at progress
      rw [state] at progress
      exact absurd progress.2.2.2 hreads
  | done _ _ _ _ free finished =>
      refine ⟨finished.come hbar ?_, free⟩
      by_contra hno
      exact hreads (finished.noReads hno)

/-- In every run of clients that wait for all writes, no client reads before every writer has written
all it is to write, and no sub-IO of a write is under way then. -/
theorem run_barrier (hbar : p.Barrier) (hrun : Run (Step p) (start p skew) as s) (hi : i < p.cnr)
    (hreads : (s.clients i).reads ≠ []) {j : Nat} (hj : j < s.set.wtnr) :
    (s.clients j).writes = p.toWrite j ∧
      ((s.clients j).subs ≠ [] → (s.clients j).io.cmd = .read) := by
  have h := Inv.run hrun
  obtain ⟨hstate, hfree⟩ := (h.clients i hi).of_reads hbar hreads
  rw [h.sizes.wtnr] at hj
  have hpassed := h.passed hbar (h.reads hbar i hi hstate hfree) hj
  exact (h.clients j (Nat.lt_of_lt_of_le hj wtnr_le_cnr)).of_passed hpassed

/-- The writer has come to read. -/
theorem run_barrier_two : ∃ s, Run (Step twoClients) (start twoClients fun i => 2 * i)
      (twoClientsRun.take 5) s ∧ (s.clients 0).subs ≠ [] ∧ (s.clients 0).io.cmd = .read := by
  obtain ⟨s, -, hrun, -, -, ⟨-, -, hpos, -, hreads, hsubs⟩, -⟩ := exists_twoClients
  exact ⟨s, hrun, hsubs, (run_barrier ⟨rfl, rfl⟩ hrun (by decide) hreads hpos).2 hsubs⟩

/-! ### The end -/

/-- How many events the clients still take part in, at most. -/
def allEventsLeft (p : Params) (s : ClientUser) : Nat :=
  ((List.range p.cnr).map fun i => eventsLeft p i (s.clients i)).sum

/-- Each event leaves fewer. -/
theorem Turned.allEventsLeft_lt (ht : Turned p i s s') (hi : i < p.cnr) :
    allEventsLeft p s' < allEventsLeft p s := by
  have hadd := Roster.sum_range_add (f := fun j => eventsLeft p j (s.clients j))
    (g := fun j => eventsLeft p j (s'.clients j)) hi fun j hj => (ht.others j hj).eventsLeft_eq
  have hleft := ht.left
  unfold allEventsLeft
  omega

/-- A run has no more events than are left at its start. -/
theorem length_add_le (hrun : Run (Step p) (start p skew) as s) :
    as.length + allEventsLeft p s ≤ allEventsLeft p (start p skew) := by
  have hle := Run.countP_add_le (Inv p) (fun s => (allEventsLeft p s : Int)) (fun _ => true)
    (fun s a s' h hstep => ?_) hrun (Inv.start p skew)
  · rw [List.countP_true] at hle
    omega
  · obtain ⟨-, hi, -, hturned⟩ := h.turn hstep
    have hlt := hturned.allEventsLeft_lt hi
    refine ⟨h.step hstep, ?_⟩
    have hsame : allEventsLeft p { s with now := a.time } = allEventsLeft p s := rfl
    simp only [↓reduceIte]
    omega

/-- Where no event can happen, no thread is in the run queue. -/
theorem Inv.run_eq_none (h : Inv p s) (hend : ∀ a, ¬ s.Enabled p a)
    (hclock : ∀ i < p.cnr, ∀ t, (s.clients i).run = some t → t < startTime) :
    ∀ i < p.cnr, (s.clients i).run = none := by
  by_contra hsome
  push Not at hsome
  obtain ⟨i, hi, hrun⟩ := hsome
  obtain ⟨t, ht⟩ := Option.ne_none_iff_exists'.mp hrun
  -- the thread with the least time
  obtain ⟨j, hj, u, hu, hleast⟩ := Roster.exists_least (fun j => (s.clients j).run.toList)
    (List.mem_range.mpr hi) (Option.mem_toList.mpr ht)
  have hj := List.mem_range.mp hj
  have hu := Option.mem_toList.mp hu
  have hdue : s.now ≤ u := by
    cases (h.clients j hj).wait with
    | armed t run _ _ _ _ due =>
        obtain rfl : t = u := Option.some.inj (run.symm.trans hu)
        exact due
    | io run | opening run | rwQ run | done run => exact absurd (run.symm.trans hu) (by simp)
  refine hend (.user j u id) ⟨⟨hdue, hclock j hj u hu, fun k hk v hv => ?_⟩, hj, hu⟩
  exact hleast k (List.mem_range.mpr hk) v (Option.mem_toList.mpr hv)

/-- Where no event can happen, a client is through, or it stands in `rwQ`. -/
theorem Inv.done_or_queued (h : Inv p s) (hend : ∀ a, ¬ s.Enabled p a)
    (hnow : s.now + 1 < startTime)
    (hclock : ∀ i < p.cnr, ∀ t, (s.clients i).run = some t → t < startTime) (hi : i < p.cnr) :
    (s.clients i).destroyed = 1 ∧ Finished p i (s.clients i) ∨ i ∈ s.rwQ := by
  have hnone := h.run_eq_none hend hclock
  have hnext : ∀ time, s.now ≤ time → time < startTime → s.Next p time :=
    fun time hle hlt => ⟨hle, hlt, fun j hj t ht => absurd ((hnone j hj).symm.trans ht) (by simp)⟩
  cases (h.clients i hi).wait with
  | armed t run => exact absurd ((hnone i hi).symm.trans run) (by simp)
  | io _ subs _ _ _ sent =>
      refine absurd ?_ (hend (.completion i 0 (s.now + 1) id))
      exact ⟨hnext _ (Nat.le_succ _) hnow, hi, List.length_pos_iff.mpr subs, by omega⟩
  | opening _ _ opening =>
      refine absurd ?_ (hend (.opened i s.now id))
      exact ⟨hnext _ (Nat.le_refl _) (by omega), hi, opening⟩
  | rwQ _ _ _ _ queued => exact .inr queued
  | done _ _ _ destroyed _ finished => exact .inl ⟨destroyed, finished⟩

/-- A run comes to an end. Where no event can happen, every client has written and read all it is to,
but for those that only read a shared file and have come too late: they stand in `rwQ`. -/
theorem run_ends (hrun : Run (Step p) (start p skew) as s) :
    as.length ≤ ((List.range p.cnr).map fun i =>
        3 * (p.writeRange i).2 + 3 * (p.readRange i).2 + 6).sum ∧
      ((∀ a, ¬ s.Enabled p a) → s.now + 1 < startTime →
        (∀ i < p.cnr, ∀ t, (s.clients i).run = some t → t < startTime) →
        ∀ i < p.cnr,
          ((s.clients i).destroyed = 1 ∧ (s.clients i).writes = p.toWrite i ∧
            (s.clients i).reads = p.toRead i) ∨
          (p.Barrier ∧ p.mode = .share ∧ p.writerCount ≤ i ∧ i ∈ s.rwQ ∧
            (s.clients i).reads = [])) := by
  have h := Inv.run hrun
  refine ⟨?_, fun hend hnow hclock i hi => ?_⟩
  · have hle := length_add_le hrun
    have hstart : allEventsLeft p (start p skew) = ((List.range p.cnr).map fun i =>
        3 * (p.writeRange i).2 + 3 * (p.readRange i).2 + 6).sum := rfl
    omega
  · rcases h.done_or_queued hend hnow hclock hi with ⟨hdestroyed, hfinished⟩ | hqueued
    · exact .inl ⟨hdestroyed, hfinished.written.writes_eq, hfinished.reads_eq⟩
    · obtain ⟨-, -, -, -, -, hstate, hprogress⟩ := (h.clients i hi).of_queued hqueued
      unfold Progress at hprogress
      rw [hstate] at hprogress
      obtain ⟨hbar, -, -, hnil⟩ := hprogress
      -- all writers are through, so this is none
      have hpassed : ∀ j < (newSetCtl p).wtnr, (s.clients j).state.passed = true := by
        intro j hj
        rcases h.done_or_queued hend hnow hclock (Nat.lt_of_lt_of_le hj wtnr_le_cnr) with
          ⟨-, hfinished⟩ | hjoined
        · exact hfinished.passed hbar
        · have hj' := ((h.clients j (h.inside j hjoined)).of_queued hjoined).2.2.2.2.2.1
          rw [hj']
          rfl
      have hall : (newSetCtl p).wtnr ≤ s.finished := by
        rw [h.finished hbar, List.countP_eq_length.mpr fun j hj => hpassed j (List.mem_range.mp hj),
          List.length_range]
      have hlate := h.late hbar hall i hqueued
      refine .inr ⟨hbar, ?_⟩
      cases hmode : p.mode with
      | share => exact ⟨rfl, by simpa [newSetCtl, hmode] using hlate, hqueued, hnil⟩
      | fpp =>
          simp only [newSetCtl, hmode] at hlate
          simp only [Params.cnr, hmode] at hi
          omega

/-- The writer is through, and the other client is too late. -/
theorem run_ends_two : ∃ s, Run (Step twoClients) (start twoClients fun i => 2 * i)
      twoClientsRun s ∧ 1 ∈ s.rwQ ∧ (s.clients 1).reads = [] := by
  obtain ⟨-, s, -, -, hrun, -, hnow, -, -, hdestroyed, hnone⟩ := exists_twoClients
  have hend : ∀ a, ¬ s.Enabled twoClients a := by
    rintro (⟨i, t, r⟩ | ⟨i, k, t, r⟩ | ⟨i, t, r⟩) hen
    · exact absurd ((hnone i hen.2.1).1.symm.trans hen.2.2) (by simp)
    · have hk := hen.2.2.1
      rw [(hnone i hen.2.1).2.1] at hk
      exact absurd hk (by simp)
    · exact absurd ((hnone i hen.2.1).2.2.symm.trans hen.2.2) (by simp)
  rcases (run_ends hrun).2 hend (by rw [hnow]; decide)
    (fun i hi t ht => absurd ((hnone i hi).1.symm.trans ht) (by simp)) 1 (by decide) with h1 | ⟨-, -, -, hq, hnil⟩
  · rw [hdestroyed] at h1
    exact absurd h1.1 (by decide)
  · exact ⟨s, hrun, hq, hnil⟩

/-! ### The clients that come too late -/

/-- `WakeupAll` is called once, by the last writer. A client that joins `rwQ` after that is never woken
up: whatever happens, it waits, and it reads nothing. -/
theorem run_waits (hbar : p.Barrier) (hrun : Run (Step p) (start p skew) as s)
    (hall : s.set.wtnr ≤ s.finished) (hi : i ∈ s.rwQ) {bs : List Action}
    (hlater : Run (Step p) s bs s') :
    i ∈ s'.rwQ ∧ (s'.clients i).state = .readStart ∧ (s'.clients i).run = none ∧
      (s'.clients i).reads = [] ∧ (s'.clients i).destroyed = 0 := by
  have h := Inv.run hrun
  rw [h.sizes.wtnr] at hall
  have hstay := hlater.invariant
    (P := fun s => Inv p s ∧ (newSetCtl p).wtnr ≤ s.finished ∧ i ∈ s.rwQ) (fun s a s' hs hstep => ?_)
    ⟨h, hall, hi⟩
  · obtain ⟨h, -, hin⟩ := hstay
    obtain ⟨hrun, -, -, hdestroyed, -, hstate, hprogress⟩ :=
      (h.clients i (h.inside i hin)).of_queued hin
    unfold Progress at hprogress
    rw [hstate] at hprogress
    exact ⟨hin, hstate, hrun, hprogress.2.2.2, hdestroyed⟩
  · obtain ⟨h, hall, hin⟩ := hs
    obtain ⟨-, -, hfree, hturned⟩ := h.turn hstep
    have h' := h.step hstep
    have hle : s.finished ≤ s'.finished := by
      rw [hturned.finished hbar]
      exact Nat.le_add_right ..
    have hne : i ≠ a.client := fun heq => hfree (heq ▸ hin)
    refine ⟨h', hall.trans hle, ?_⟩
    rcases hturned.others i hne with ⟨-, hq⟩ | ⟨-, -, hlt, -⟩
    · exact hq.mpr hin
    · -- no writer is left to get through
      have hlt : s.finished < s'.finished := hlt
      have hle' := h'.finished_le hbar
      omega

/-- The other client comes when the writer has written. -/
theorem run_waits_two : ∃ s s', Run (Step twoClients) (start twoClients fun i => 2 * i)
      (twoClientsRun.take 5) s ∧ Run (Step twoClients) s (twoClientsRun.drop 5) s' ∧ 1 ∈ s'.rwQ := by
  obtain ⟨s, s', hrun, hlater, -, ⟨-, hall, -, hin, -⟩, -⟩ := exists_twoClients
  exact ⟨s, s', hrun, hlater, (run_waits ⟨rfl, rfl⟩ hrun hall hin hlater).1⟩

end

end ClientUser

end LustreSimulator
