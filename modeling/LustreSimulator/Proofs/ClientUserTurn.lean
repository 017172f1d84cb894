import LustreSimulator.ClientUser
import LustreSimulator.Lib.Tiling
import LustreSimulator.Proofs.Lov

/-!
# `LustreSimulator.Proofs.ClientUserTurn`: a turn of the user of a client

A client has a part of the file to write and one to read, and it goes through each in pieces.
`Progress` says what a client in a state has written and read so far: what it has transferred and
what it will transfer are together the pieces of its part. `Wait` says what the client waits for: its
thread is in the run queue, an IO or an OPEN is under way, it stands in `rwQ`, or it is through. `Ok`
joins the two.

`Turned` is what a turn of one client may do to the set, and `userStateMachine_good` shows it of every
turn. The case of each state is a lemma of its own, from the last state back to the first, since a
state may fall through to the next. Where a turn stops the program, the parameters are not `Valid`,
and the thread that is signalled is never one that runs already.
-/

set_option autoImplicit false

namespace LustreSimulator

open Lib

namespace Lov

/-- `io->ref` counts the sub-IOs, of which there is none without a byte. -/
theorem readWriteLoop_ref (lyt : Layout) (cmd : Cmd) (off left idx ref : Nat) :
    let res := readWriteLoop lyt cmd off left idx ref
    res.ref = ref + res.subs.length ∧ res.subs.length ≤ left ∧ (left ≠ 0 → res.subs ≠ []) := by
  induction left using Nat.strongRecOn generalizing off idx ref with
  | _ left ih =>
      by_cases hleft : left = 0
      · subst hleft
        simp [readWriteLoop]
      · have hpos := lyt.size_pos
        have hrest := ih (left - min left lyt.stripeSize) (by omega)
          (off + min left lyt.stripeSize) ((idx + 1) % lyt.stripeCount) (ref + 1)
        rw [readWriteLoop_turn lyt cmd off idx ref (Nat.pos_of_ne_zero hleft)]
        simp only [List.length_cons, ne_eq, reduceCtorEq, not_false_eq_true, implies_true, and_true]
        omega

/-- An IO that is not refused has a byte and is sent as sub-IOs. -/
theorem readWrite_ref {lyt : Layout} {io : IoDesc} {res : Result}
    (h : readWrite lyt io = .ok res) :
    res.ref = io.ref + res.subs.length ∧ res.subs.length ≤ io.count ∧ res.subs ≠ [] ∧
      io.count ≠ 0 := by
  unfold readWrite at h
  obtain ⟨ok, hcheck, h⟩ := bind_eq_ok.mp h
  obtain ⟨-, -, h⟩ := bind_eq_ok.mp h
  have hcount : io.count ≠ 0 := by
    intro h0
    simp [check, h0] at hcheck
  obtain ⟨href, hlen, hne⟩ := readWriteLoop_ref lyt io.cmd io.off io.count
    (io.off / lyt.stripeSize % lyt.stripeCount) io.ref
  rw [Except.ok.inj h] at href hlen hne
  exact ⟨href, hlen, hne hcount, hcount⟩

end Lov

namespace ClientUser

/-! ### What a client is to do -/

section
variable (p : Params) (i : Nat)

/-- The client writes. Clients beyond the writers of a shared file that is read only read. -/
def Params.Writes : Prop :=
  ¬ (p.mode = .share ∧ p.testRead = true ∧ p.writerCount < p.readerCount ∧ p.writerCount ≤ i)

/-- The client reads. Where the clients wait for all writes, those beyond the readers of a shared
file do not. -/
def Params.Reads : Prop :=
  p.testRead = true ∧
    ¬ (p.waitAllWrites = true ∧ p.mode = .share ∧ p.readerCount < p.writerCount ∧ p.readerCount ≤ i)

/-- The clients that read wait until all writes are done. -/
def Params.Barrier : Prop := p.testRead = true ∧ p.waitAllWrites = true

/-- The offset and the count that the client writes. -/
def Params.writeRange : Nat × Nat := ClientUser.writeRange p i (newSetCtl p)

/-- The offset and the count that the client reads. -/
def Params.readRange : Nat × Nat := ClientUser.readRange p i (newSetCtl p)

/-- `rw.xfersize` of the client. -/
def Params.writeSize : Nat := (confTbfTestSuit p i (newRw p)).xfersize

/-- The size of the transfers of a read, which is 0 for a single one. -/
def Params.readSize : Nat := if p.directIo then p.xferSize else 0

/-- The IOs that the client is to write. -/
def Params.writePieces : List (Nat × Nat) :=
  pieces (p.writeSize i) (p.writeRange i).1 (p.writeRange i).2

/-- The IOs that the client is to read. -/
def Params.readPieces : List (Nat × Nat) :=
  pieces p.readSize (p.readRange i).1 (p.readRange i).2

/-- The parameters with which the program does not stop: a shared file has a writer and a reader,
clients that only read wait for the others, and every client has something to do, in pieces that the
layout accepts. -/
structure Params.Valid : Prop where
  counts : p.mode = .share → 0 < p.writerCount ∧ 0 < p.readerCount
  waits : p.mode = .share → p.testRead = true → p.writerCount < p.readerCount →
    p.waitAllWrites = true
  writes : ∀ i < p.cnr, p.Writes i →
    (p.writeRange i).2 ≠ 0 ∧ ∀ r ∈ p.writePieces i, Lov.check p.lyt r.2 = .ok true
  reads : ∀ i < p.cnr, p.Reads i →
    (p.readRange i).2 ≠ 0 ∧ ∀ r ∈ p.readPieces i, Lov.check p.lyt r.2 = .ok true

end

/-- A fault that depends on the parameters only. -/
def Fault.OfParams : Fault → Prop
  | .run | .linked | .ref => False
  | .divide | .waitAllWrites | .wticks | .lov _ => True

/-- The client is through with its writes. -/
def UserState.passed : UserState → Bool
  | .readStart | .readXfer | .readCompletion | .last => true
  | _ => false

/-- The client has come to its reads. -/
def UserState.reads : UserState → Bool
  | .readStart | .readXfer | .readCompletion => true
  | _ => false

section
variable {p : Params} {s s₁ s' : ClientUser} {i j : Nat} {c : Client} {rand : Nat → Nat}

/-! ### What holds of a client -/

/-- The client has written all it is to write. -/
def Written (p : Params) (i : Nat) (c : Client) : Prop :=
  (p.Writes i → c.writes = p.writePieces i) ∧ (¬ p.Writes i → c.writes = [])

/-- What a client that is not through has written and read so far. -/
def Progress (p : Params) (i : Nat) (c : Client) : Prop :=
  match c.state with
  | .first | .initRW => c.writes = [] ∧ c.reads = []
  | .writeXfer | .writeInterval | .writeSleep =>
      p.Writes i ∧ c.writes ++ pieces (p.writeSize i) c.rw.off c.rw.count = p.writePieces i ∧
        c.reads = [] ∧ c.rw.wtime ≤ c.sent ∧ c.io.cmd = .write ∧ p.writeSize i ≠ 0
  | .writeCompletion =>
      p.Writes i ∧ c.writes = p.writePieces i ∧ c.reads = [] ∧ c.rw.wtime ≤ c.sent
  | .readStart => p.Barrier ∧ p.Reads i ∧ Written p i c ∧ c.reads = []
  | .readXfer =>
      p.Reads i ∧ Written p i c ∧ c.reads ++ pieces p.readSize c.rw.off c.rw.count = p.readPieces i ∧
        c.io.cmd = .read ∧ p.directIo = true ∧ p.xferSize ≠ 0
  | .readCompletion => p.Reads i ∧ Written p i c ∧ c.reads = p.readPieces i ∧ c.io.cmd = .read
  | _ => False

/-- The client has written and read what it is to. -/
structure Finished (p : Params) (i : Nat) (c : Client) : Prop where
  written : Written p i c
  reads : p.Reads i → c.reads = p.readPieces i
  noReads : ¬ p.Reads i → c.reads = []
  passed : p.Barrier → c.state.passed = true
  come : p.Barrier → p.Reads i → c.state.reads = true

/-- The client waits for one thing. -/
inductive Wait (p : Params) (i now : Nat) (c : Client) (queued : Prop) : Prop
  | armed (t : Nat) (run : c.run = some t) (subs : c.subs = []) (opening : c.opening = false)
      (destroyed : c.destroyed = 0) (free : ¬ queued) (due : now ≤ t) (sent : c.sent < t)
      (progress : Progress p i c)
  | io (run : c.run = none) (subs : c.subs ≠ []) (opening : c.opening = false)
      (destroyed : c.destroyed = 0) (free : ¬ queued) (sent : c.sent ≤ now)
      (progress : Progress p i c)
      (state : c.state ≠ .first ∧ c.state ≠ .initRW ∧ c.state ≠ .readStart)
  | opening (run : c.run = none) (subs : c.subs = []) (opening : c.opening = true)
      (destroyed : c.destroyed = 0) (free : ¬ queued) (sent : c.sent < now)
      (progress : Progress p i c) (state : c.state = .initRW)
  | rwQ (run : c.run = none) (subs : c.subs = []) (opening : c.opening = false)
      (destroyed : c.destroyed = 0) (queued : queued) (sent : c.sent < now)
      (progress : Progress p i c) (state : c.state = .readStart)
  | done (run : c.run = none) (subs : c.subs = []) (opening : c.opening = false)
      (destroyed : c.destroyed = 1) (free : ¬ queued) (finished : Finished p i c)

/-- What the program never changes of a client, and `io->ref`. -/
structure Kept (p : Params) (i now : Nat) (c : Client) : Prop where
  xfersize : c.rw.xfersize = p.writeSize i
  launch : c.rw.launch = 0
  maxRuntime : c.rw.maxRuntime = startTime
  wtime : c.rw.wtime ≤ now
  ref : c.io.ref = c.subs.length

/-- The client is in order. -/
structure Ok (p : Params) (i now : Nat) (queued : Prop) (c : Client) : Prop where
  wait : Wait p i now c queued
  kept : Kept p i now c

/-- The client is in its turn, so it waits for nothing. -/
structure Going (p : Params) (i now : Nat) (c : Client) : Prop where
  kept : Kept p i now c
  run : c.run = none
  subs : c.subs = []
  opening : c.opening = false
  destroyed : c.destroyed = 0
  sent : c.sent < now

/-! ### What a turn does -/

/-- How many events the client still takes part in, at most. -/
def eventsLeft (p : Params) (i : Nat) (c : Client) : Nat :=
  let reads := 3 * (p.readRange i).2 + 2
  if c.destroyed ≠ 0 then 0
  else match c.state with
    | .first => 3 * (p.writeRange i).2 + reads + 4
    | .initRW => 3 * (p.writeRange i).2 + reads + 2 + c.opening.toNat
    | .writeXfer => 3 * c.rw.count + reads + c.subs.length + 1
    | .writeInterval | .writeSleep => 3 * c.rw.count + reads + c.subs.length + 2
    | .writeCompletion => reads + c.subs.length + 1
    | .readStart => reads
    | .readXfer => 3 * c.rw.count + c.subs.length + 1
    | .readCompletion => c.subs.length + 1
    | _ => 0

/-- The sizes of the set, which never change. -/
structure Sizes (p : Params) (set : SetCtl) : Prop where
  fsz : set.fsz = (newSetCtl p).fsz
  wtnr : set.wtnr = (newSetCtl p).wtnr
  rdnr : set.rdnr = (newSetCtl p).rdnr

/-- The set before a turn of the client `i`. -/
structure Before (p : Params) (i : Nat) (s : ClientUser) : Prop where
  inside : i < p.cnr
  sizes : Sizes p s.set
  now : s.now < startTime
  free : i ∉ s.rwQ
  nodup : s.rwQ.Nodup
  asleep : ∀ j ∈ s.rwQ, (s.clients j).run = none

/-- The set in a turn of the client `i`, in which nothing but this client and the times of the set
have changed. -/
structure Within (p : Params) (i : Nat) (s s₁ : ClientUser) : Prop where
  now : s₁.now = s.now
  sizes : Sizes p s₁.set
  finished : s₁.finished = s.finished
  rwQ : s₁.rwQ = s.rwQ
  others : ∀ j, j ≠ i → s₁.clients j = s.clients j
  going : Going p i s.now (s₁.clients i)

/-- The client `j` does not notice the turn, or it is woken up from `rwQ` by the last writer. -/
def Noticed (s s' : ClientUser) (j : Nat) : Prop :=
  (s'.clients j = s.clients j ∧ (j ∈ s'.rwQ ↔ j ∈ s.rwQ)) ∨
  (j ∈ s.rwQ ∧ j ∉ s'.rwQ ∧ s.finished < s'.finished ∧ s'.set.wtnr ≤ s'.finished ∧
    ∃ t, s.now ≤ t ∧ s'.clients j = { s.clients j with run := some t })

/-- What a turn of the client `i` does to the set. -/
structure Turned (p : Params) (i : Nat) (s s' : ClientUser) : Prop where
  now : s'.now = s.now
  sizes : Sizes p s'.set
  nodup : s'.rwQ.Nodup
  ok : Ok p i s.now (i ∈ s'.rwQ) (s'.clients i)
  left : eventsLeft p i (s'.clients i) < eventsLeft p i (s.clients i)
  others : ∀ j, j ≠ i → Noticed s s' j
  joined : i ∈ s'.rwQ → (s.clients i).state.passed = false
  passed : p.Barrier → (s.clients i).state.passed = true → (s'.clients i).state.passed = true
  finished : p.Barrier → s'.finished = s.finished +
    if i < s'.set.wtnr ∧ (s.clients i).state.passed = false ∧ (s'.clients i).state.passed = true
    then 1 else 0
  emptied : p.Barrier →
    s'.finished = s.finished ∨ s'.finished < s'.set.wtnr ∨ s'.rwQ = []
  reads : p.Barrier → (s'.clients i).state.reads = true → i ∉ s'.rwQ →
    (s.clients i).state.reads = true ∨ s'.set.wtnr ≤ s'.finished

/-- The turn does what it may. Where it stops the program, the parameters are to blame. -/
def Good (p : Params) (i : Nat) (s : ClientUser) : Except Fault ClientUser → Prop
  | .ok s' => Turned p i s s'
  | .error e => e.OfParams ∧ ¬ p.Valid

/-! ### The record of the set -/

@[simp]
theorem setClient_now (c : Client) : (s.setClient i c).now = s.now := rfl

@[simp]
theorem setClient_set (c : Client) : (s.setClient i c).set = s.set := rfl

@[simp]
theorem setClient_finished (c : Client) : (s.setClient i c).finished = s.finished := rfl

@[simp]
theorem setClient_rwQ (c : Client) : (s.setClient i c).rwQ = s.rwQ := rfl

@[simp]
theorem setClient_clients (c : Client) :
    (s.setClient i c).clients = Function.update s.clients i c := rfl

/-- A turn that ends with nothing but its client changed. -/
theorem turned_alone (hb : Before p i s) (hnow : s'.now = s.now) (hsizes : Sizes p s'.set)
    (hq : s'.rwQ = s.rwQ) (hothers : ∀ j, j ≠ i → s'.clients j = s.clients j)
    (hok : Ok p i s.now False (s'.clients i))
    (hleft : eventsLeft p i (s'.clients i) < eventsLeft p i (s.clients i))
    (hfinished : p.Barrier → s'.finished = s.finished ∧
      (s'.clients i).state.passed = (s.clients i).state.passed ∧
      ((s'.clients i).state.reads = true → (s.clients i).state.reads = true)) :
    Turned p i s s' where
  now := hnow
  sizes := hsizes
  nodup := hq ▸ hb.nodup
  ok := by simpa [hq, hb.free] using hok
  left := hleft
  others j hj := .inl ⟨hothers j hj, by rw [hq]⟩
  joined h := absurd (hq ▸ h) hb.free
  passed hbar h := by rw [(hfinished hbar).2.1, h]
  finished hbar := by
    obtain ⟨hfin, hpassed, -⟩ := hfinished hbar
    rw [hpassed, hfin]
    simp
  emptied hbar := .inl (hfinished hbar).1
  reads hbar h _ := .inl ((hfinished hbar).2.2 h)

/-- The turn goes on with another record of its client. -/
theorem Within.setClient (h : Within p i s s₁) (hc : Going p i s.now c) :
    Within p i s (s₁.setClient i c) where
  now := h.now
  sizes := h.sizes
  finished := h.finished
  rwQ := h.rwQ
  others j hj := by simpa [hj] using h.others j hj
  going := by simpa using hc

/-- The turn goes on with other times of the set. -/
theorem Within.setTimes (h : Within p i s s₁) {set : SetCtl} (hset : Sizes p set) :
    Within p i s { s₁ with set := set } :=
  { h with sizes := hset }

/-! ### An IO is sent -/

/-- The client when its IO is on its way. -/
def Client.issue (c : Client) (now : Nat) : Client :=
  { c with
    sent := now
    writes := if c.io.cmd = .write then c.writes ++ [(c.io.off, c.io.count)] else c.writes
    reads := if c.io.cmd = .read then c.reads ++ [(c.io.off, c.io.count)] else c.reads }

/-- A turn that ends with an IO. -/
theorem readWrite_good (hb : Before p i s) (h : Within p i s s₁)
    (hstate : (s₁.clients i).state ≠ .first ∧ (s₁.clients i).state ≠ .initRW ∧
      (s₁.clients i).state ≠ .readStart)
    (hprogress : (s₁.clients i).io.count ≠ 0 → Progress p i ((s₁.clients i).issue s.now))
    (hvalid : p.Valid → Lov.check p.lyt (s₁.clients i).io.count = .ok true)
    (hleft : ∀ subs : List Lov.SubIo, subs.length ≤ (s₁.clients i).io.count →
      (s₁.clients i).io.count ≠ 0 →
      eventsLeft p i { s₁.clients i with subs := subs } < eventsLeft p i (s.clients i))
    (hbar : p.Barrier → (s₁.clients i).state.passed = (s.clients i).state.passed ∧
      ((s₁.clients i).state.reads = true → (s.clients i).state.reads = true)) :
    Good p i s (s₁.readWrite p i) := by
  have hgoing := h.going
  unfold readWrite
  generalize s₁.clients i = c at *
  cases hrw : Lov.readWrite p.lyt c.io with
  | error f =>
      simp only [hrw]
      refine ⟨trivial, fun hv => ?_⟩
      have haccepts : Lov.Accepts p.lyt c.io := hvalid hv
      obtain ⟨⟨r, hr, -⟩, -⟩ := Lov.readWrite_spec haccepts
      rw [hrw] at hr
      cases hr
  | ok res =>
      simp only [hrw]
      obtain ⟨href, hlen, hne, hcount⟩ := Lov.readWrite_ref hrw
      have hsubs : c.subs = [] := hgoing.subs
      refine turned_alone hb h.now h.sizes h.rwQ (fun j hj => by simpa [hj] using h.others j hj)
        ⟨?_, ?_⟩ ?_ fun hbarrier => ⟨h.finished, by simpa using hbar hbarrier⟩
      · -- the IO is on its way now
        refine .io ?_ ?_ ?_ ?_ (not_false) ?_ ?_ ?_
        · simpa using hgoing.run
        · simpa [hsubs] using hne
        · simpa using hgoing.opening
        · simpa using hgoing.destroyed
        · simp [h.now]
        · simp only [setClient_clients, Function.update_self, h.now]
          exact hprogress hcount
        · simpa using hstate
      · obtain ⟨hx, hl, hm, hw, hr⟩ := hgoing.kept
        simp only [setClient_clients, Function.update_self]
        exact ⟨hx, hl, hm, hw, by simp [href, hr, hsubs]⟩
      · simp only [setClient_clients, Function.update_self, hsubs, List.nil_append]
        exact hleft res.subs hlen hcount

/-! ### The reads -/

/-- No event is left after `user_LastState`. -/
theorem eventsLeft_lastState : eventsLeft p i ((s.lastState i).clients i) = 0 := by
  simp [lastState, eventsLeft]

/-- `user_LastState` ends the turn of a client that is through. -/
theorem lastState_turned (hb : Before p i s) (h : Within p i s s₁)
    (hdone : Finished p i (s₁.clients i)) (hleft : 0 < eventsLeft p i (s.clients i))
    (hbar : p.Barrier → (s₁.clients i).state.passed = (s.clients i).state.passed ∧
      ((s₁.clients i).state.reads = true → (s.clients i).state.reads = true)) :
    Turned p i s (s₁.lastState i) := by
  have hgoing := h.going
  unfold lastState
  generalize s₁.clients i = c at *
  obtain ⟨⟨hx, hl, hm, hw, hr⟩, hrun, hsubs, hopening, hdestroyed, -⟩ := hgoing
  refine turned_alone hb h.now h.sizes h.rwQ (fun j hj => by simpa [hj] using h.others j hj)
    ⟨?_, ?_⟩ ?_ fun hbarrier => ⟨h.finished, by simpa using hbar hbarrier⟩
  · obtain ⟨hwritten, hreads, hnoReads, hpassed, hcome⟩ := hdone
    refine .done ?_ ?_ ?_ ?_ (not_false) ?_
    · simpa using hrun
    · simpa using hsubs
    · simpa using hopening
    · simp [hdestroyed]
    · simp only [setClient_clients, Function.update_self]
      exact ⟨hwritten, hreads, hnoReads, hpassed, hcome⟩
  · simp only [setClient_clients, Function.update_self]
    exact ⟨hx, hl, hm, hw, hr⟩
  · simpa [eventsLeft] using hleft

/-- The end of the reads. -/
theorem readCompletionState_turned (hb : Before p i s) (h : Within p i s s₁)
    (hdone : Finished p i (s₁.clients i)) (hleft : 0 < eventsLeft p i (s.clients i))
    (hbar : p.Barrier → (s₁.clients i).state.passed = (s.clients i).state.passed ∧
      ((s₁.clients i).state.reads = true → (s.clients i).state.reads = true)) :
    Turned p i s (s₁.readCompletionState i) := by
  obtain ⟨⟨hx, hl, hm, hw, hr⟩, hrun, hsubs, hopening, hdestroyed, hsent⟩ := h.going
  have hset : Within p i s
      ({ s₁ with set := { s₁.set with readtime := s₁.now - s₁.set.srtime } }.setClient i
        { s₁.clients i with
          rw := { (s₁.clients i).rw with rticks := s₁.now - (s₁.clients i).rw.rtime } }) := by
    refine (h.setTimes ?_).setClient ?_
    · exact ⟨h.sizes.fsz, h.sizes.wtnr, h.sizes.rdnr⟩
    · exact ⟨⟨hx, hl, hm, hw, hr⟩, hrun, hsubs, hopening, hdestroyed, hsent⟩
  refine lastState_turned hb hset ?_ hleft ?_
  · obtain ⟨hwritten, hreads, hnoReads, hpassed, hcome⟩ := hdone
    simp only [setClient_clients, Function.update_self]
    exact ⟨hwritten, hreads, hnoReads, hpassed, hcome⟩
  · simpa using hbar

/-- A transfer of a read, or the end of the reads. -/
theorem readXferState_good (hb : Before p i s) (h : Within p i s s₁) (hreads : p.Reads i)
    (hwritten : Written p i (s₁.clients i))
    (hpieces : (s₁.clients i).reads ++
      pieces p.readSize (s₁.clients i).rw.off (s₁.clients i).rw.count = p.readPieces i)
    (hcmd : (s₁.clients i).io.cmd = .read) (hdirect : p.directIo = true) (hsize : p.xferSize ≠ 0)
    (hleft : 3 * (s₁.clients i).rw.count + 1 ≤ eventsLeft p i (s.clients i))
    (hstate : p.Barrier → (s.clients i).state.reads = true)
    (hstate₁ : p.Barrier → (s₁.clients i).state.reads = true) :
    Good p i s (s₁.readXferState p i) := by
  obtain ⟨⟨hx, hl, hm, hw, hr⟩, hrun, hsubs, hopening, hdestroyed, hsent⟩ := h.going
  have hpassed : ∀ st : UserState, st.reads = true → st.passed = true := by
    intro st
    cases st <;> simp [UserState.reads, UserState.passed]
  have hread : p.readSize = p.xferSize := by simp [Params.readSize, hdirect]
  unfold readXferState
  dsimp only
  split_ifs with hcount
  · -- the next piece
    rw [hread, pieces_cons hcount hsize] at hpieces
    generalize hc : s₁.clients i = c at *
    refine readWrite_good hb (h.setClient ?_) ?_ ?_ ?_ ?_ ?_
    · exact ⟨⟨hx, hl, hm, hw, hr⟩, hrun, hsubs, hopening, hdestroyed, hsent⟩
    · simp
    · intro _
      simp [Progress, Client.issue, hcmd, hreads, hdirect, hsize, hread, ← hpieces]
      exact hwritten
    · intro hv
      have hmem : (c.rw.off, min c.rw.count p.xferSize) ∈ p.readPieces i := by simp [← hpieces]
      simpa using (hv.reads i hb.inside hreads).2 _ hmem
    · intro subs hlen hne
      simp only [setClient_clients, Function.update_self] at hlen hne ⊢
      simp only [eventsLeft, hdestroyed, ne_eq, not_true_eq_false, ↓reduceIte] at hleft ⊢
      refine lt_of_lt_of_le ?_ hleft
      show 3 * (c.rw.count - min c.rw.count p.xferSize) + subs.length + 1 < _
      omega
    · intro hbarrier
      have hr := hstate hbarrier
      rw [hpassed _ hr, setClient_clients, Function.update_self]
      exact ⟨rfl, fun _ => hr⟩
  · rw [not_not.mp hcount, pieces_zero, List.append_nil] at hpieces
    refine readCompletionState_turned hb h ⟨hwritten, fun _ => hpieces, fun hno => absurd hreads hno,
      fun hbarrier => hpassed _ (hstate₁ hbarrier), fun hbarrier _ => hstate₁ hbarrier⟩ (by omega)
      fun hbarrier => ?_
    have hr := hstate hbarrier
    rw [hpassed _ hr, hpassed _ (hstate₁ hbarrier)]
    exact ⟨rfl, fun _ => hr⟩

/-- The sizes of the set give a client its parts. -/
theorem Sizes.readRange {set : SetCtl} (h : Sizes p set) :
    ClientUser.readRange p i set = p.readRange i := by
  simp [Params.readRange, ClientUser.readRange, h.fsz, h.rdnr]

@[inherit_doc Sizes.readRange]
theorem Sizes.writeRange {set : SetCtl} (h : Sizes p set) :
    ClientUser.writeRange p i set = p.writeRange i := by
  simp [Params.writeRange, ClientUser.writeRange, h.fsz, h.wtnr]

/-- The begin of the reads. -/
theorem readStartState_good (hb : Before p i s) (h : Within p i s s₁) (hreads : p.Reads i)
    (hwritten : Written p i (s₁.clients i)) (hnil : (s₁.clients i).reads = [])
    (hleft : 3 * (p.readRange i).2 + 2 ≤ eventsLeft p i (s.clients i))
    (hstate : p.Barrier → (s.clients i).state.reads = true ∧ (s₁.clients i).state.reads = true) :
    Good p i s (s₁.readStartState p i) := by
  obtain ⟨⟨hx, hl, hm, hw, hr⟩, hrun, hsubs, hopening, hdestroyed, hsent⟩ := h.going
  unfold readStartState
  dsimp only
  rw [h.sizes.readRange]
  by_cases hrdnr : p.mode = .share → s₁.set.rdnr ≠ 0
  · rw [check_true hrdnr, ok_bind]
    generalize (if s₁.set.srtime = startTime then s₁.now else s₁.set.srtime) = srtime
    split_ifs with hbuffered
    · -- a single IO
      have hsize : p.readSize = 0 := by
        unfold Params.readSize
        rcases hbuffered with hd | hz
        · simp [hd]
        · simp [hz]
      have hpieces : (p.readRange i).2 ≠ 0 →
          p.readPieces i = [((p.readRange i).1, (p.readRange i).2)] := by
        intro hne
        rw [Params.readPieces, hsize, pieces_whole hne]
      refine readWrite_good hb (.setClient (h.setTimes ?_) ?_) ?_ ?_ ?_ ?_ ?_
      · exact ⟨h.sizes.fsz, h.sizes.wtnr, h.sizes.rdnr⟩
      · exact ⟨⟨hx, hl, hm, hw, hr⟩, hrun, hsubs, hopening, hdestroyed, hsent⟩
      · simp
      · simp only [setClient_clients, Function.update_self]
        intro hne
        simp only [Progress, Client.issue, reduceCtorEq, ↓reduceIte, hnil, List.nil_append]
        exact ⟨hreads, hwritten, (hpieces hne).symm, trivial⟩
      · intro hv
        obtain ⟨hne, hall⟩ := hv.reads i hb.inside hreads
        simpa using hall _ (by rw [hpieces hne]; simp)
      · simp only [setClient_clients, Function.update_self]
        intro subs hlen hne
        simp only [eventsLeft, hdestroyed, ne_eq, not_true_eq_false, ↓reduceIte] at hleft ⊢
        omega
      · intro hbarrier
        obtain ⟨hs, -⟩ := hstate hbarrier
        have hpassed : (s.clients i).state.passed = true := by
          revert hs
          cases (s.clients i).state <;> simp [UserState.reads, UserState.passed]
        rw [hpassed, setClient_clients, Function.update_self]
        exact ⟨rfl, fun _ => hs⟩
    · obtain ⟨hdirect, hsize⟩ := not_or.mp hbuffered
      rw [Bool.not_eq_false] at hdirect
      refine readXferState_good hb (.setClient (h.setTimes ?_) ?_) hreads ?_ ?_ ?_ hdirect hsize ?_
        (fun hbarrier => (hstate hbarrier).1) ?_
      · exact ⟨h.sizes.fsz, h.sizes.wtnr, h.sizes.rdnr⟩
      · exact ⟨⟨hx, hl, hm, hw, hr⟩, hrun, hsubs, hopening, hdestroyed, hsent⟩
      · simp only [setClient_clients, Function.update_self]
        exact hwritten
      · simp [hnil, Params.readPieces]
      · simp
      · simp only [setClient_clients, Function.update_self]
        omega
      · simpa using fun hbarrier => (hstate hbarrier).2
  · rw [check, if_neg hrdnr]
    refine ⟨trivial, fun hv => ?_⟩
    obtain ⟨hmode, h0⟩ := Classical.not_imp.mp hrdnr
    have hpos := (hv.counts hmode).2
    rw [h.sizes.rdnr] at h0
    simp [newSetCtl, hmode] at h0
    omega

/-! ### The end of the writes -/

/-- A thread that does not run can be put into the run queue. -/
theorem runAfter_eq (h : (s.clients i).run = none) (ticks : Nat) :
    s.runAfter i ticks = .ok (s.setClient i { s.clients i with run := some (s.now + ticks) }) := by
  rw [runAfter, check_true h, ok_bind]

/-- `WakeupAll` wakes up every thread in the list, and nobody else. -/
theorem wakeupLoop_spec {q : List Nat} (hnodup : q.Nodup)
    (hrun : ∀ j ∈ q, (s.clients j).run = none) :
    ∃ s', wakeupLoop rand q s = .ok s' ∧ s'.now = s.now ∧ s'.set = s.set ∧
      s'.finished = s.finished ∧ s'.rwQ = [] ∧
      (∀ j ∈ q, s'.clients j = { s.clients j with run := some (s.now + rand j) }) ∧
      ∀ j, j ∉ q → s'.clients j = s.clients j := by
  induction q generalizing s with
  | nil => exact ⟨_, rfl, rfl, rfl, rfl, rfl, by simp, by simp⟩
  | cons i q ih =>
      obtain ⟨hi, hnodup⟩ := List.nodup_cons.mp hnodup
      have hfirst := runAfter_eq (s := { s with rwQ := q }) (hrun i (List.mem_cons_self ..)) (rand i)
      have hne : ∀ j ∈ q, j ≠ i := fun j hj heq => hi (heq ▸ hj)
      obtain ⟨s', hloop, hnow, hset, hfinished, hnil, hwoken, hother⟩ :=
        ih (s := ClientUser.setClient { s with rwQ := q } i
          { s.clients i with run := some (s.now + rand i) }) hnodup fun j hj => by
            simpa [hne j hj] using hrun j (List.mem_cons_of_mem i hj)
      refine ⟨s', ?_, hnow, hset, hfinished, hnil, fun j hj => ?_, fun j hj => ?_⟩
      · rw [wakeupLoop, hfirst, ok_bind]
        exact hloop
      · rcases List.mem_cons.mp hj with rfl | hj
        · simpa using hother j hi
        · simpa [hne j hj] using hwoken j hj
      · obtain ⟨hji, hjq⟩ := not_or.mp (List.mem_cons.not.mp hj)
        simpa [hji] using hother j hjq

/-- A writer is counted, and the last one wakes up whoever waits. -/
theorem finishWriter_spec (rand : Nat → Nat) (hnodup : s.rwQ.Nodup) (hrun : ∀ j ∈ s.rwQ, (s.clients j).run = none) :
    ∃ s', s.finishWriter i rand = .ok s' ∧ s'.now = s.now ∧ s'.set = s.set ∧
      s'.finished = s.finished + (if i < s.set.wtnr then 1 else 0) ∧
      ((s'.rwQ = s.rwQ ∧ s'.clients = s.clients ∧
          (s'.finished = s.finished ∨ s'.finished < s.set.wtnr)) ∨
        (s.finished < s'.finished ∧ s.set.wtnr ≤ s'.finished ∧ s'.rwQ = [] ∧
          (∀ j ∈ s.rwQ, s'.clients j = { s.clients j with run := some (s.now + rand j) }) ∧
          ∀ j, j ∉ s.rwQ → s'.clients j = s.clients j)) := by
  unfold finishWriter
  dsimp only
  split_ifs with hi hlast
  · -- the last writer
    obtain ⟨s', hloop, hnow, hset, hfinished, hnil, hwoken, hother⟩ :=
      wakeupLoop_spec (s := { s with finished := s.finished + 1 }) hnodup hrun
    refine ⟨s', hloop, hnow, hset, hfinished, .inr ⟨?_, ?_, hnil, hwoken, hother⟩⟩
    · rw [hfinished]
      exact Nat.lt_succ_self _
    · rw [hfinished]
      exact hlast
  · exact ⟨_, rfl, rfl, rfl, rfl, .inl ⟨rfl, rfl, .inr (Nat.not_le.mp hlast)⟩⟩
  · exact ⟨_, rfl, rfl, rfl, rfl, .inl ⟨rfl, rfl, .inl rfl⟩⟩

/-- A client that does not read is through with its writes. -/
theorem finishWrites_turned (hb : Before p i s) (h : Within p i s s₁) (hread : p.testRead = false)
    (hwritten : Written p i (s₁.clients i)) (hnil : (s₁.clients i).reads = [])
    (hleft : 0 < eventsLeft p i (s.clients i)) : Turned p i s (s₁.finishWrites p i) := by
  obtain ⟨⟨hx, hl, hm, hw, hr⟩, hrun, hsubs, hopening, hdestroyed, hsent⟩ := h.going
  have hno : ¬ p.Reads i := fun hreads => by simp [Params.Reads, hread] at hreads
  have hbar : ¬ p.Barrier := fun hbarrier => by simp [Params.Barrier, hread] at hbarrier
  have hlast : Turned p i s ((s₁.setClient i { s₁.clients i with state := .last }).lastState i) := by
    refine lastState_turned hb (h.setClient ?_) ?_ hleft fun hbarrier => absurd hbarrier hbar
    · exact ⟨⟨hx, hl, hm, hw, hr⟩, hrun, hsubs, hopening, hdestroyed, hsent⟩
    · simp only [setClient_clients, Function.update_self]
      exact ⟨hwritten, fun hreads => absurd hreads hno, fun _ => hnil, fun _ => rfl,
        fun _ hreads => absurd hreads hno⟩
  unfold finishWrites
  dsimp only
  split_ifs
  · exact {
      hlast with
      others := fun j hj => (hlast.others j hj).imp_right fun ⟨hin, hout, hlt, hle, hwoken⟩ =>
        ⟨hin, hout, Nat.lt_succ_of_lt hlt, Nat.le_succ_of_le hle, hwoken⟩
      passed := fun hbarrier => absurd hbarrier hbar
      finished := fun hbarrier => absurd hbarrier hbar
      emptied := fun hbarrier => absurd hbarrier hbar
      reads := fun hbarrier => absurd hbarrier hbar }
  · exact hlast

/-- The clients that read, where they wait for the others. -/
theorem reads_iff (hbar : p.Barrier) (hsizes : Sizes p s.set) :
    p.Reads i ↔ ¬ (p.mode = .share ∧ s.set.rdnr < s.set.wtnr ∧ s.set.rdnr ≤ i) := by
  rw [hsizes.rdnr, hsizes.wtnr]
  cases hmode : p.mode <;> simp [Params.Reads, newSetCtl, hmode, hbar.1, hbar.2]

/-- A client is through with its writes. In `s₂` it may have joined `rwQ`. After `finishWriter` the
turn may still write to the client itself, and ends in `s'`. -/
theorem exists_finishWriter (rand : Nat → Nat) (s₂ : ClientUser) (hb : Before p i s) (hnow : s₂.now = s.now)
    (hsizes : Sizes p s₂.set) (hfinished : s₂.finished = s.finished)
    (hq : ∀ j, j ≠ i → (j ∈ s₂.rwQ ↔ j ∈ s.rwQ)) (hnodup : s₂.rwQ.Nodup)
    (hothers : ∀ j, j ≠ i → s₂.clients j = s.clients j)
    (hrun : (s₂.clients i).run = none) (hnotPassed : (s.clients i).state.passed = false) :
    ∃ s₃, s₂.finishWriter i rand = .ok s₃ ∧ s₃.now = s.now ∧
      (s₃.rwQ = s₂.rwQ ∧ s₃.clients i = s₂.clients i ∨ s₃.rwQ = [] ∧
        s₃.clients i = if i ∈ s₂.rwQ
          then { s₂.clients i with run := some (s.now + rand i) } else s₂.clients i) ∧
      ∀ s', s'.now = s₃.now → s'.set = s₃.set → s'.finished = s₃.finished → s'.rwQ = s₃.rwQ →
        (∀ j, j ≠ i → s'.clients j = s₃.clients j) →
        Ok p i s.now (i ∈ s₃.rwQ) (s'.clients i) →
        eventsLeft p i (s'.clients i) < eventsLeft p i (s.clients i) →
        (s'.clients i).state.passed = true →
        ((s'.clients i).state.reads = true → i ∈ s₂.rwQ) → Turned p i s s' := by
  have hasleep : ∀ j ∈ s₂.rwQ, (s₂.clients j).run = none := by
    intro j hj
    by_cases hji : j = i
    · rw [hji, hrun]
    · rw [hothers j hji]
      exact hb.asleep j ((hq j hji).mp hj)
  obtain ⟨s₃, hthird, hnow₃, hset₃, hfinished₃, hcases⟩ :=
    finishWriter_spec (i := i) rand hnodup hasleep
  refine ⟨s₃, hthird, hnow₃.trans hnow, ?_, ?_⟩
  · rcases hcases with ⟨hq₃, hclients, -⟩ | ⟨-, -, hq₃, hwoken, hother⟩
    · exact .inl ⟨hq₃, congrFun hclients i⟩
    · refine .inr ⟨hq₃, ?_⟩
      split_ifs with hi
      · rw [hwoken i hi, hnow]
      · exact hother i hi
  intro s' hnow' hset' hfinished' hq' hothers' hok hleft hpassed hreads
  have hwtnr : s'.set.wtnr = s₂.set.wtnr := by rw [hset', hset₃]
  refine ⟨?_, ?_, ?_, ?_, hleft, ?_, fun _ => hnotPassed, fun _ _ => hpassed, ?_, ?_, ?_⟩
  · rw [hnow', hnow₃, hnow]
  · rw [hset', hset₃]
    exact hsizes
  · rw [hq']
    rcases hcases with ⟨hq₃, -⟩ | ⟨-, -, hq₃, -⟩
    · rwa [hq₃]
    · rw [hq₃]
      exact List.nodup_nil
  · rwa [hq']
  · intro j hj
    rcases hcases with ⟨hq₃, hclients, -⟩ | ⟨hlt, hle, hq₃, hwoken, hother⟩
    · exact .inl ⟨by rw [hothers' j hj, hclients, hothers j hj], by rw [hq', hq₃, hq j hj]⟩
    · by_cases hin : j ∈ s₂.rwQ
      · refine .inr ⟨(hq j hj).mp hin, by simp [hq', hq₃], by rwa [hfinished', ← hfinished],
          by rwa [hwtnr, hfinished'], _, Nat.le_add_right s.now (rand j), ?_⟩
        rw [hothers' j hj, hwoken j hin, hothers j hj, hnow]
      · exact .inl ⟨by rw [hothers' j hj, hother j hin, hothers j hj],
          by simp [hq', hq₃, ← hq j hj, hin]⟩
  · intro _
    rw [hfinished', hfinished₃, hfinished, hwtnr]
    simp [hnotPassed, hpassed]
  · intro _
    rw [hfinished', hq', hwtnr]
    rcases hcases with ⟨-, -, heq | hlt⟩ | ⟨-, -, hq₃, -⟩
    · exact .inl (heq.trans hfinished)
    · exact .inr (.inl hlt)
    · exact .inr (.inr hq₃)
  · intro _ hr hout
    rw [hq'] at hout
    rw [hwtnr, hfinished']
    rcases hcases with ⟨hq₃, -⟩ | ⟨-, hle, -⟩
    · exact absurd (hreads hr) (hq₃ ▸ hout)
    · exact .inr hle

/-- The client joins `rwQ`, or it is done, and the last writer wakes up the others. -/
theorem waitWrites_good (hb : Before p i s) (h : Within p i s s₁) (hbar : p.Barrier)
    (hwritten : Written p i (s₁.clients i)) (hnil : (s₁.clients i).reads = [])
    (hnotPassed : (s.clients i).state.passed = false)
    (hleft : 3 * (p.readRange i).2 + 2 < eventsLeft p i (s.clients i)) :
    Good p i s (s₁.waitWrites p i rand) := by
  obtain ⟨⟨hx, hl, hm, hw, hr⟩, hrun, hsubs, hopening, hdestroyed, hsent⟩ := h.going
  have hfree : i ∉ s₁.rwQ := h.rwQ ▸ hb.free
  unfold waitWrites
  split_ifs with hlast
  · -- a client that has nothing to read
    have hno : ¬ p.Reads i := fun hreads => (reads_iff hbar h.sizes).mp hreads hlast
    obtain ⟨s₂, hs₂⟩ : ∃ s₂, s₂ = s₁.setClient i { s₁.clients i with state := .last } := ⟨_, rfl⟩
    have hq₂ : s₂.rwQ = s₁.rwQ := by simp [hs₂]
    have hc₂ : s₂.clients i = { s₁.clients i with state := .last } := by simp [hs₂]
    obtain ⟨s₃, hthird, hnow₃, hcases, hturned⟩ := exists_finishWriter rand s₂ hb
      (hs₂ ▸ h.now) (hs₂ ▸ h.sizes) (hs₂ ▸ h.finished) (fun j _ => by rw [hq₂, h.rwQ])
      (hq₂ ▸ h.rwQ ▸ hb.nodup) (fun j hj => by simpa [hs₂, hj] using h.others j hj)
      (by rwa [hc₂]) hnotPassed
    have hq₃ : i ∉ s₃.rwQ := by
      rcases hcases with ⟨hq, -⟩ | ⟨hq, -⟩ <;> simp [hq, hq₂, hfree]
    have hc₃ : s₃.clients i = { s₁.clients i with state := .last } := by
      rcases hcases with ⟨-, hc⟩ | ⟨-, hc⟩ <;> simp [hc, hc₂, hq₂, hfree]
    rw [← hs₂, hthird, ok_bind]
    refine hturned _ rfl rfl rfl rfl (fun j hj => by simp [lastState, hj]) ?_ ?_ ?_ ?_
    · simp only [lastState, setClient_clients, Function.update_self, hc₃]
      refine ⟨.done hrun hsubs hopening ?_ hq₃ ?_, hx, hl, hm, hw, hr⟩
      · simp [hdestroyed]
      · exact ⟨hwritten, fun hreads => absurd hreads hno, fun _ => hnil, fun _ => rfl,
        fun _ hreads => absurd hreads hno⟩
    · rw [eventsLeft_lastState]
      omega
    · simp [lastState, hc₃, UserState.passed]
    · simp [lastState, hc₃, UserState.reads]
  · -- a client that waits to read
    have hreads : p.Reads i := (reads_iff hbar h.sizes).mpr hlast
    obtain ⟨s₂, hs₂⟩ : ∃ s₂ : ClientUser, s₂ =
        { s₁.setClient i { s₁.clients i with state := .readStart } with
          rwQ := s₁.rwQ ++ [i], waitnr := s₁.waitnr + 1 } := ⟨_, rfl⟩
    have hjoin : (s₁.setClient i { s₁.clients i with state := .readStart }).insertRwQ i = .ok s₂ := by
      rw [insertRwQ, setClient_rwQ, check_true hfree, ok_bind, hs₂]
      rfl
    have hq₂ : s₂.rwQ = s₁.rwQ ++ [i] := by rw [hs₂]
    have hc₂ : s₂.clients i = { s₁.clients i with state := .readStart } := by simp [hs₂]
    have hnodup : (s₁.rwQ ++ [i]).Nodup := by
      rw [h.rwQ, List.nodup_append]
      refine ⟨hb.nodup, by simp, fun a ha b hb' heq => hb.free ?_⟩
      rwa [← List.mem_singleton.mp hb', ← heq]
    obtain ⟨s₃, hthird, hnow₃, hcases, hturned⟩ := exists_finishWriter rand s₂ hb
      (hs₂ ▸ h.now) (hs₂ ▸ h.sizes) (hs₂ ▸ h.finished) (fun j hj => by simp [hq₂, h.rwQ, hj])
      (hq₂ ▸ hnodup) (fun j hj => by simpa [hs₂, hj] using h.others j hj)
      (by rwa [hc₂]) hnotPassed
    rw [hjoin, ok_bind, hthird, ok_bind]
    refine hturned _ rfl rfl rfl rfl (fun j hj => by simp [hj]) ?_ ?_ ?_ ?_
    · simp only [setClient_clients, Function.update_self]
      rcases hcases with ⟨hq₃, hc₃⟩ | ⟨hq₃, hc₃⟩
      · -- it stands in the list
        have hin : i ∈ s₃.rwQ := by simp [hq₃, hq₂]
        rw [hc₃, hc₂]
        refine ⟨.rwQ hrun hsubs hopening hdestroyed hin hsent ?_ rfl, hx, hl, hm, hw, hr⟩
        exact ⟨hbar, hreads, hwritten, hnil⟩
      · -- it is the last writer, and wakes up itself
        have hout : i ∉ s₃.rwQ := by simp [hq₃]
        rw [if_pos (by simp [hq₂]), hc₂] at hc₃
        rw [hc₃]
        refine ⟨.armed _ rfl hsubs hopening hdestroyed hout (Nat.le_add_right ..) ?_ ?_,
          hx, hl, hm, hw, hr⟩
        · exact Nat.lt_of_lt_of_le hsent (Nat.le_add_right ..)
        · exact ⟨hbar, hreads, hwritten, hnil⟩
    · have hstate : (s₃.clients i).state = .readStart ∧ (s₃.clients i).destroyed = 0 := by
        rcases hcases with ⟨-, hc⟩ | ⟨-, hc⟩ <;> simp [hc, hc₂, hq₂, hdestroyed]
      simpa [eventsLeft, hstate] using hleft
    · rcases hcases with ⟨-, hc⟩ | ⟨-, hc⟩ <;> simp [hc, hc₂, hq₂, UserState.passed]
    · simp [hq₂]

/-- The end of the writes. -/
theorem writeCompletionState_good (hb : Before p i s) (h : Within p i s s₁) (hwrites : p.Writes i)
    (hpieces : (s₁.clients i).writes = p.writePieces i) (hnil : (s₁.clients i).reads = [])
    (hlate : (s₁.clients i).rw.wtime < s.now ∨ p.writePieces i = [])
    (hnotPassed : (s.clients i).state.passed = false)
    (hleft : 3 * (p.readRange i).2 + 2 < eventsLeft p i (s.clients i)) :
    Good p i s (s₁.writeCompletionState p i rand) := by
  obtain ⟨⟨hx, hl, hm, hw, hr⟩, hrun, hsubs, hopening, hdestroyed, hsent⟩ := h.going
  have hwritten : Written p i (s₁.clients i) :=
    ⟨fun _ => hpieces, fun hno => absurd hwrites hno⟩
  unfold writeCompletionState
  dsimp only
  by_cases hticks : s₁.now - (s₁.clients i).rw.wtime ≠ 0
  · rw [check_true hticks, ok_bind]
    obtain ⟨s₂, hs₂⟩ : ∃ s₂ : ClientUser, s₂ =
        { s₁ with set := { s₁.set with writetime := s₁.now - s₁.set.swtime } }.setClient i
          { s₁.clients i with
            rw := { (s₁.clients i).rw with wticks := s₁.now - (s₁.clients i).rw.wtime } } := ⟨_, rfl⟩
    have h₂ : Within p i s s₂ := by
      rw [hs₂]
      refine (h.setTimes ?_).setClient ?_
      · exact ⟨h.sizes.fsz, h.sizes.wtnr, h.sizes.rdnr⟩
      · exact ⟨⟨hx, hl, hm, hw, hr⟩, hrun, hsubs, hopening, hdestroyed, hsent⟩
    have hwritten₂ : Written p i (s₂.clients i) := by
      simp only [hs₂, setClient_clients, Function.update_self]
      exact hwritten
    have hnil₂ : (s₂.clients i).reads = [] := by simp [hs₂, hnil]
    rw [← hs₂]
    split_ifs with hread hwait
    · exact finishWrites_turned hb h₂ hread hwritten₂ hnil₂ (by omega)
    · exact waitWrites_good hb h₂ ⟨by simpa using hread, hwait⟩ hwritten₂ hnil₂ hnotPassed hleft
    · -- a client that reads at once
      rw [Bool.not_eq_false] at hread
      have hreads : p.Reads i := ⟨hread, fun hno => hwait hno.1⟩
      exact readStartState_good hb h₂ hreads hwritten₂ hnil₂ (by omega) fun hbarrier =>
        absurd hbarrier.2 hwait
  · rw [check, if_neg hticks]
    refine ⟨trivial, fun hv => ?_⟩
    have hnow := h.now
    rcases hlate with hlt | hnone
    · omega
    · obtain ⟨hne, -⟩ := hv.writes i hb.inside hwrites
      have htiles := tiles_pieces (p.writeSize i) (p.writeRange i).1 (p.writeRange i).2
      rw [Params.writePieces] at hnone
      rw [hnone, tiles_nil] at htiles
      omega

/-! ### The writes -/

/-- A transfer of a write, or the end of the writes. -/
theorem writeXferState_good (hb : Before p i s) (h : Within p i s s₁) (hwrites : p.Writes i)
    (hpieces : (s₁.clients i).writes ++
      pieces (p.writeSize i) (s₁.clients i).rw.off (s₁.clients i).rw.count = p.writePieces i)
    (hnil : (s₁.clients i).reads = []) (hcmd : (s₁.clients i).io.cmd = .write)
    (hsize : p.writeSize i ≠ 0)
    (hlate : (s₁.clients i).rw.wtime < s.now ∨ (s₁.clients i).writes = [])
    (hnotPassed : (s.clients i).state.passed = false)
    (hleft : 3 * (s₁.clients i).rw.count + 3 * (p.readRange i).2 + 2 < eventsLeft p i (s.clients i)) :
    Good p i s (s₁.writeXferState p i rand) := by
  obtain ⟨⟨hx, hl, hm, hw, hr⟩, hrun, hsubs, hopening, hdestroyed, hsent⟩ := h.going
  have htime : s₁.now < (s₁.clients i).rw.maxRuntime := by
    rw [hm, h.now]
    exact hb.now
  unfold writeXferState
  dsimp only
  split_ifs with hcount
  · obtain ⟨hcount, -⟩ := hcount
    generalize hc : s₁.clients i = c at *
    rw [hx]
    rw [pieces_cons hcount hsize] at hpieces
    generalize hstep : c.rw.stepsize + min c.rw.count (p.writeSize i) = stepsize
    obtain ⟨after, hafter⟩ : ∃ after, after = afterXfer p s₁.now c.rw
        (c.rw.count - min c.rw.count (p.writeSize i)) stepsize := ⟨_, rfl⟩
    have hstate : after.1 = .writeXfer ∨ after.1 = .writeInterval ∨ after.1 = .writeSleep ∨
        after.1 = .writeCompletion ∧ c.rw.count - min c.rw.count (p.writeSize i) = 0 := by
      rw [hafter]
      unfold afterXfer
      split_ifs <;> simp_all
    rw [← hafter]
    refine readWrite_good hb (h.setClient ?_) ?_ ?_ ?_ ?_ ?_
    · exact ⟨⟨rfl, hl, hm, hw, hr⟩, hrun, hsubs, hopening, hdestroyed, hsent⟩
    · simp only [setClient_clients, Function.update_self]
      rcases hstate with h | h | h | ⟨h, -⟩ <;> simp [h]
    · intro _
      rcases hstate with h | h | h | ⟨h, h0⟩ <;>
        simp [Progress, Client.issue, h, hcmd, hwrites, hnil, hsize, hw, ← hpieces]
      rw [h0, pieces_zero]
    · intro hv
      have hmem : (c.rw.off, min c.rw.count (p.writeSize i)) ∈ p.writePieces i := by simp [← hpieces]
      simpa using (hv.writes i hb.inside hwrites).2 _ hmem
    · intro subs hlen hne
      simp only [setClient_clients, Function.update_self] at hlen hne ⊢
      refine lt_of_le_of_lt ?_ hleft
      rcases hstate with h | h | h | ⟨h, -⟩ <;> simp [eventsLeft, h, hdestroyed] <;> omega
    · intro _
      simp only [setClient_clients, Function.update_self, hnotPassed]
      rcases hstate with h | h | h | ⟨h, -⟩ <;> simp [h, UserState.passed, UserState.reads]
  · -- all is written
    have hzero : (s₁.clients i).rw.count = 0 := by
      by_contra hne
      exact hcount ⟨hne, htime⟩
    rw [hzero, pieces_zero, List.append_nil] at hpieces
    refine writeCompletionState_good hb (h.setClient ?_) hwrites ?_ ?_ ?_ hnotPassed (by omega)
    · exact ⟨⟨hx, hl, hm, hw, hr⟩, hrun, hsubs, hopening, hdestroyed, hsent⟩
    · simpa using hpieces
    · simpa using hnil
    · simpa [← hpieces] using hlate

/-- A turn that ends with the thread in the run queue. -/
theorem runAfter_good (hb : Before p i s) (h : Within p i s s₁) (ticks : Nat)
    (hprogress : Progress p i (s₁.clients i))
    (hleft : eventsLeft p i (s₁.clients i) < eventsLeft p i (s.clients i))
    (hnotPassed : (s.clients i).state.passed = false)
    (hstate : (s₁.clients i).state.passed = false) : Good p i s (s₁.runAfter i ticks) := by
  obtain ⟨⟨hx, hl, hm, hw, hr⟩, hrun, hsubs, hopening, hdestroyed, hsent⟩ := h.going
  have hreads : (s₁.clients i).state.reads = false := by
    revert hstate
    cases (s₁.clients i).state <;> simp [UserState.passed, UserState.reads]
  rw [runAfter_eq hrun]
  refine turned_alone hb h.now h.sizes h.rwQ (fun j hj => by simpa [hj] using h.others j hj) ?_ ?_
    fun _ => ⟨h.finished, by simp [hnotPassed, hstate, hreads]⟩
  · simp only [setClient_clients, Function.update_self, h.now]
    refine ⟨.armed _ rfl hsubs hopening hdestroyed not_false (Nat.le_add_right ..) ?_ hprogress,
      hx, hl, hm, hw, hr⟩
    exact Nat.lt_of_lt_of_le hsent (Nat.le_add_right ..)
  · simpa [eventsLeft] using hleft

/-- Only a client whose transfers are those of the parameter may write in one IO. -/
theorem xferSize_of_writeSize (h : p.writeSize i = 0) : p.xferSize = 0 := by
  unfold Params.writeSize confTbfTestSuit at h
  split at h
  · split at h <;> simp_all [newRw]
  · exact h

/-- The first transfer of a write, or the only one. -/
theorem startWrites_good (hb : Before p i s) (h : Within p i s s₁) (hwrites : p.Writes i)
    (hnone : (s₁.clients i).writes = []) (hnil : (s₁.clients i).reads = [])
    (hrange : (s₁.clients i).io.off = (p.writeRange i).1 ∧
      (s₁.clients i).io.count = (p.writeRange i).2 ∧
      (s₁.clients i).rw.off = (p.writeRange i).1 ∧ (s₁.clients i).rw.count = (p.writeRange i).2)
    (hcmd : (s₁.clients i).io.cmd = .write)
    (hnotPassed : (s.clients i).state.passed = false)
    (hleft : 3 * (p.writeRange i).2 + 3 * (p.readRange i).2 + 4 ≤ eventsLeft p i (s.clients i)) :
    Good p i s (s₁.startWrites p i rand) := by
  obtain ⟨⟨hx, hl, hm, hw, hr⟩, hrun, hsubs, hopening, hdestroyed, hsent⟩ := h.going
  obtain ⟨hioff, hiocount, hoff, hcount⟩ := hrange
  unfold startWrites
  dsimp only
  rw [hx]
  split_ifs with hbuffered hlaunch
  · -- a single IO
    have hpieces : (p.writeRange i).2 ≠ 0 →
        p.writePieces i = [((p.writeRange i).1, (p.writeRange i).2)] := by
      intro hne
      rw [Params.writePieces, hbuffered.2, pieces_whole hne]
    refine readWrite_good hb (h.setClient ?_) ?_ ?_ ?_ ?_ ?_
    · exact ⟨⟨hx, hl, hm, hw, hr⟩, hrun, hsubs, hopening, hdestroyed, hsent⟩
    · simp
    · simp only [setClient_clients, Function.update_self, hiocount]
      intro hne
      simp [Progress, Client.issue, hcmd, hwrites, hnil, hnone, hioff, hiocount, hpieces hne, hw]
    · intro hv
      obtain ⟨hne, hall⟩ := hv.writes i hb.inside hwrites
      simpa [hiocount] using hall _ (by rw [hpieces hne]; simp)
    · simp only [setClient_clients, Function.update_self, hiocount]
      intro subs hlen hne
      refine lt_of_lt_of_le ?_ hleft
      simp [eventsLeft, hdestroyed]
      omega
    · intro _
      rw [hnotPassed, setClient_clients, Function.update_self]
      simp [UserState.passed, UserState.reads]
  · exact absurd hl hlaunch
  · have hsize : p.writeSize i ≠ 0 := fun h0 => hbuffered ⟨.inr (xferSize_of_writeSize h0), h0⟩
    refine writeXferState_good hb h hwrites ?_ hnil hcmd hsize (.inr hnone) hnotPassed ?_
    · rw [hnone, hoff, hcount, List.nil_append]
      rfl
    · rw [hcount]
      omega

/-- The begin of the writes. -/
theorem writeStartState_good (hb : Before p i s) (h : Within p i s s₁) (hwrites : p.Writes i)
    (hnone : (s₁.clients i).writes = []) (hnil : (s₁.clients i).reads = [])
    (hrange : (s₁.clients i).io.off = (p.writeRange i).1 ∧
      (s₁.clients i).io.count = (p.writeRange i).2 ∧
      (s₁.clients i).rw.off = (p.writeRange i).1 ∧ (s₁.clients i).rw.count = (p.writeRange i).2)
    (hnotPassed : (s.clients i).state.passed = false)
    (hleft : 3 * (p.writeRange i).2 + 3 * (p.readRange i).2 + 4 ≤ eventsLeft p i (s.clients i)) :
    Good p i s (s₁.writeStartState p i rand) := by
  obtain ⟨⟨hx, hl, hm, hw, hr⟩, hrun, hsubs, hopening, hdestroyed, hsent⟩ := h.going
  unfold writeStartState
  dsimp only
  split_ifs
  · refine startWrites_good hb (.setClient (h.setTimes ?_) ?_) hwrites ?_ ?_ ?_ ?_ hnotPassed hleft
    · exact ⟨h.sizes.fsz, h.sizes.wtnr, h.sizes.rdnr⟩
    · exact ⟨⟨hx, hl, hm, h.now.le, hr⟩, hrun, hsubs, hopening, hdestroyed, hsent⟩
    · simpa using hnone
    · simpa using hnil
    · simpa using hrange
    · simp
  · refine startWrites_good hb (h.setClient ?_) hwrites ?_ ?_ ?_ ?_ hnotPassed hleft
    · exact ⟨⟨hx, hl, hm, hw, hr⟩, hrun, hsubs, hopening, hdestroyed, hsent⟩
    · simpa using hnone
    · simpa using hnil
    · simpa using hrange
    · simp

/-! ### The first turn -/

/-- The clients that only read. -/
theorem writes_iff (hsizes : Sizes p s.set) :
    p.Writes i ↔ ¬ (p.mode = .share ∧ p.testRead = true ∧ s.set.wtnr < s.set.rdnr ∧
      s.set.wtnr ≤ i) := by
  rw [hsizes.rdnr, hsizes.wtnr]
  cases hmode : p.mode <;> simp [Params.Writes, newSetCtl, hmode]

/-- The parts are set up, or the client joins `rwQ` at once. -/
theorem initRWState_good (hb : Before p i s) (h : Within p i s s₁)
    (hnone : (s₁.clients i).writes = []) (hnil : (s₁.clients i).reads = [])
    (hnotPassed : (s.clients i).state.passed = false)
    (hleft : 3 * (p.writeRange i).2 + 3 * (p.readRange i).2 + 4 ≤ eventsLeft p i (s.clients i)) :
    Good p i s (s₁.initRWState p i rand) := by
  obtain ⟨⟨hx, hl, hm, hw, hr⟩, hrun, hsubs, hopening, hdestroyed, hsent⟩ := h.going
  have href : 0 = (s₁.clients i).subs.length := by rw [hsubs, List.length_nil]
  unfold initRWState
  dsimp only
  split_ifs with hwaits
  · -- a client that only reads
    have hno : ¬ p.Writes i := fun hwrites => (writes_iff h.sizes).mp hwrites hwaits
    by_cases hall : p.waitAllWrites = true
    · have hbar : p.Barrier := ⟨hwaits.2.1, hall⟩
      have hreads : p.Reads i := (reads_iff hbar h.sizes).mpr fun hlast => by omega
      have hfree : i ∉ s₁.rwQ := h.rwQ ▸ hb.free
      rw [check_true hall, ok_bind, insertRwQ, setClient_rwQ, check_true hfree, ok_bind]
      have hcount : ¬ i < s₁.set.wtnr := by omega
      have hc : ∀ j, j ≠ i → (s₁.clients j = s.clients j ∧
          (j ∈ s₁.rwQ ++ [i] ↔ j ∈ s.rwQ)) := fun j hj => ⟨h.others j hj, by simp [h.rwQ, hj]⟩
      refine ⟨h.now, h.sizes, ?_, ?_, ?_, fun j hj => .inl ?_, fun _ => hnotPassed, ?_, ?_, ?_, ?_⟩
      · rw [h.rwQ, List.nodup_append]
        refine ⟨hb.nodup, by simp, fun a ha b hb' heq => hb.free ?_⟩
        rwa [← List.mem_singleton.mp hb', ← heq]
      · simp only [setClient_clients, Function.update_self]
        refine ⟨.rwQ hrun hsubs hopening hdestroyed (by simp) hsent ?_ rfl, hx, hl, hm, hw, href⟩
        exact ⟨hbar, hreads, ⟨fun hwrites => absurd hwrites hno, fun _ => hnone⟩, hnil⟩
      · refine lt_of_lt_of_le ?_ hleft
        simp [eventsLeft, hdestroyed]
        omega
      · simpa [hj] using hc j hj
      · intro _ hpassed
        simp [hnotPassed] at hpassed
      · intro _
        simp [h.finished, hcount]
      · intro _
        exact .inl h.finished
      · intro _ _ hout
        simp at hout
    · rw [check, if_neg hall]
      refine ⟨trivial, fun hv => hall (hv.waits hwaits.1 hwaits.2.1 ?_)⟩
      simpa [h.sizes.rdnr, h.sizes.wtnr, newSetCtl, hwaits.1] using hwaits.2.2.1
  · have hwrites : p.Writes i := (writes_iff h.sizes).mpr hwaits
    rw [h.sizes.writeRange]
    by_cases hwtnr : p.mode = .share → s₁.set.wtnr ≠ 0
    · rw [check_true hwtnr, ok_bind]
      refine writeStartState_good hb (h.setClient ?_) hwrites ?_ ?_ ?_ hnotPassed hleft
      · exact ⟨⟨hx, hl, hm, hw, href⟩, hrun, hsubs, hopening, hdestroyed, hsent⟩
      · simpa using hnone
      · simpa using hnil
      · simp
    · rw [check, if_neg hwtnr]
      refine ⟨trivial, fun hv => ?_⟩
      obtain ⟨hmode, h0⟩ := Classical.not_imp.mp hwtnr
      have hpos := (hv.counts hmode).1
      rw [h.sizes.wtnr] at h0
      simp [newSetCtl, hmode] at h0
      omega

/-- The first turn of a client. -/
theorem firstState_good (hb : Before p i s) (h : Within p i s s₁)
    (hnone : (s₁.clients i).writes = []) (hnil : (s₁.clients i).reads = [])
    (hnotPassed : (s.clients i).state.passed = false)
    (hleft : 3 * (p.writeRange i).2 + 3 * (p.readRange i).2 + 6 ≤ eventsLeft p i (s.clients i)) :
    Good p i s (s₁.firstState p i rand) := by
  obtain ⟨⟨hx, hl, hm, hw, hr⟩, hrun, hsubs, hopening, hdestroyed, hsent⟩ := h.going
  unfold firstState
  dsimp only
  generalize (if s₁.set.sotime = startTime then s₁.now else s₁.set.sotime) = sotime
  split_ifs
  · -- the file is opened first
    refine turned_alone hb h.now ?_ h.rwQ (fun j hj => by simpa [hj] using h.others j hj) ?_ ?_
      fun _ => ⟨h.finished, ?_⟩
    · exact ⟨h.sizes.fsz, h.sizes.wtnr, h.sizes.rdnr⟩
    · simp only [setClient_clients, Function.update_self]
      exact ⟨.opening hrun hsubs rfl hdestroyed not_false hsent ⟨hnone, hnil⟩ rfl, hx, hl, hm, hw, hr⟩
    · refine lt_of_lt_of_le ?_ hleft
      simp [eventsLeft, hdestroyed]
      omega
    · rw [hnotPassed, setClient_clients, Function.update_self]
      simp [UserState.passed, UserState.reads]
  · refine initRWState_good hb (.setClient (h.setTimes ?_) ?_) ?_ ?_ hnotPassed (by omega)
    · exact ⟨h.sizes.fsz, h.sizes.wtnr, h.sizes.rdnr⟩
    · exact ⟨⟨hx, hl, hm, hw, hr⟩, hrun, hsubs, hopening, hdestroyed, hsent⟩
    · simpa using hnone
    · simpa using hnil

/-! ### Any turn -/

/-- The turns of a client that is in order. -/
theorem userStateMachine_good (hb : Before p i s) (hgoing : Going p i s.now (s.clients i))
    (hprogress : Progress p i (s.clients i)) : Good p i s (s.userStateMachine p i rand) := by
  have h : Within p i s s := ⟨rfl, hb.sizes, rfl, rfl, fun _ _ => rfl, hgoing⟩
  have hdestroyed := hgoing.destroyed
  have hsubs := hgoing.subs
  have hsent := hgoing.sent
  unfold userStateMachine
  unfold Progress at hprogress
  cases hstate : (s.clients i).state <;> rw [hstate] at hprogress <;> simp only
  all_goals try exact absurd hprogress id
  case first =>
    refine firstState_good hb h hprogress.1 hprogress.2 (by simp [hstate, UserState.passed]) ?_
    simp [eventsLeft, hstate, hdestroyed]
    omega
  case initRW =>
    refine initRWState_good hb h hprogress.1 hprogress.2 (by simp [hstate, UserState.passed]) ?_
    simp [eventsLeft, hstate, hdestroyed]
    omega
  case writeSleep =>
    unfold writeSleepState
    obtain ⟨⟨hx, hl, hm, hw, hr⟩, hrun, -, hopening, -, -⟩ := hgoing
    refine runAfter_good hb (h.setClient ?_) _ ?_ ?_ (by simp [hstate, UserState.passed])
      (by simp [UserState.passed])
    · exact ⟨⟨hx, hl, hm, hw, hr⟩, hrun, hsubs, hopening, hdestroyed, hsent⟩
    · simp only [setClient_clients, Function.update_self]
      exact hprogress
    · simp [eventsLeft, hstate, hdestroyed]
  case writeInterval =>
    unfold writeIntervalState
    obtain ⟨⟨hx, hl, hm, hw, hr⟩, hrun, -, hopening, -, -⟩ := hgoing
    refine runAfter_good hb (h.setClient ?_) _ ?_ ?_ (by simp [hstate, UserState.passed])
      (by simp [UserState.passed])
    · exact ⟨⟨hx, hl, hm, hw, hr⟩, hrun, hsubs, hopening, hdestroyed, hsent⟩
    · simp only [setClient_clients, Function.update_self]
      exact hprogress
    · simp [eventsLeft, hstate, hdestroyed]
  case writeXfer =>
    obtain ⟨hwrites, hpieces, hnil, hwtime, hcmd, hsize⟩ := hprogress
    refine writeXferState_good hb h hwrites hpieces hnil hcmd hsize (.inl (by omega))
      (by simp [hstate, UserState.passed]) ?_
    simp [eventsLeft, hstate, hdestroyed, hsubs]
    omega
  case writeCompletion =>
    obtain ⟨hwrites, hpieces, hnil, hwtime⟩ := hprogress
    refine writeCompletionState_good hb h hwrites hpieces hnil (.inl (by omega))
      (by simp [hstate, UserState.passed]) ?_
    simp [eventsLeft, hstate, hdestroyed, hsubs]
  case readStart =>
    obtain ⟨hbar, hreads, hwritten, hnil⟩ := hprogress
    refine readStartState_good hb h hreads hwritten hnil ?_ fun _ => by
      simp [hstate, UserState.reads]
    simp [eventsLeft, hstate, hdestroyed]
  case readXfer =>
    obtain ⟨hreads, hwritten, hpieces, hcmd, hdirect, hsize⟩ := hprogress
    refine readXferState_good hb h hreads hwritten hpieces hcmd hdirect hsize ?_
      (fun _ => by simp [hstate, UserState.reads]) fun _ => by simp [hstate, UserState.reads]
    simp [eventsLeft, hstate, hdestroyed, hsubs]
  case readCompletion =>
    obtain ⟨hreads, hwritten, hpieces, -⟩ := hprogress
    refine readCompletionState_turned hb h ⟨hwritten, fun _ => hpieces, fun hno => absurd hreads hno,
      fun _ => by simp [hstate, UserState.passed], fun _ _ => by simp [hstate, UserState.reads]⟩ ?_
      fun _ => ⟨rfl, id⟩
    simp [eventsLeft, hstate, hdestroyed]

end

end ClientUser

end LustreSimulator
