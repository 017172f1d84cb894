import LustreSimulator.Lib.Run
import LustreSimulator.Network

/-!
# `LustreSimulator.Proofs.Network`: flow control

The invariant `Inv` has three parts. `Core` is about the packets and the messages: the credit
count is the number of accepted packets, every packet is in one place, and the packets that
wait for `TxDone` or in `blkQ` are the current packets of their NICs. `SendInv` and `RecvInv` say
for each state of a NIC which thread or event will move it on.

A call goes from `Network::Recv` back into the NIC and, when a receiver returns a credit, from
the network into the next NIC. In the middle of such a call one NIC has a message or a packet
in its hands that is in no queue. So `Core` takes as parameters the messages `Q i` that the NIC
`i` has still to cut and the packets `H i` that it holds. Between two events these are
`NIC.queued` and `NIC.held`. `recv_spec` and `postPacket_spec` are the two calls that put the
packet and the message back. `fire_spec` says that an event that is enabled, and whose message
is in order if it is a send, runs to its end and keeps the invariant. `flow_control` is the
result for a run.
-/

set_option autoImplicit false

namespace LustreSimulator

open Lib

/-! ### The messages and the packets of a NIC -/

namespace NIC

/-- The messages that the NIC has still to cut packets from. -/
def queued (nic : NIC) : List Nat :=
  (match nic.sendState, nic.txp with
    | .postPacket, _ => nic.txm.toList
    | .txPacket, some p => if p.msg then [] else nic.txm.toList
    | .congest, some p => if p.msg then [] else nic.txm.toList
    | _, _ => []) ++ nic.msgQ

/-- The receiving side of a NIC. -/
def rx (nic : NIC) : RecvState × List Packet × Option Packet × Bool :=
  (nic.recvState, nic.inQ, nic.rxp, nic.rth)

/-- The sending side of a NIC. -/
def tx (nic : NIC) : SendState × List Nat × Option Nat × Option Packet × Bool × Option Packet :=
  (nic.sendState, nic.msgQ, nic.txm, nic.txp, nic.sth, nic.cnp)

/-- The packets that the NIC has received and not reported. -/
def held (nic : NIC) : List Packet :=
  (if nic.recvState = .rxDone then nic.rxp.toList else []) ++ nic.inQ

/-- The receive thread is armed unless the NIC is idle. -/
def RecvInv (nic : NIC) : Prop :=
  match nic.recvState with
  | .start => nic.rth = true
  | .idle => nic.rth = false
  | .rxPacket => nic.rth = true
  | .rxDone => nic.rth = true ∧ nic.rxp.isSome = true
  | .last => False

/-- The packets held depend on the receiving side only. -/
theorem held_eq_of_rx {nic nic' : NIC} (h : nic'.rx = nic.rx) : nic'.held = nic.held := by
  simp only [rx, Prod.mk.injEq] at h
  unfold held
  rw [h.1, h.2.1, h.2.2.1]

/-- The messages to cut depend on the sending side only. -/
theorem queued_eq_of_tx {nic nic' : NIC} (h : nic'.tx = nic.tx) : nic'.queued = nic.queued := by
  simp only [tx, Prod.mk.injEq] at h
  unfold queued
  rw [h.1, h.2.1, h.2.2.1, h.2.2.2.1]

/-- The state of the receive thread depends on the receiving side only. -/
theorem RecvInv.of_rx {nic nic' : NIC} (h : nic'.rx = nic.rx) (hinv : nic.RecvInv) :
    nic'.RecvInv := by
  simp only [rx, Prod.mk.injEq] at h
  unfold RecvInv at hinv ⊢
  rw [h.1, h.2.2.1, h.2.2.2]
  exact hinv

end NIC

namespace Net

/-! ### The invariant -/

/-- The packets and the messages, when the NIC `i` has still to cut the messages `Q i` and
holds the received packets `H i`. -/
structure Core (s : Net) (Q : Nat → List Nat) (H : Nat → List Packet) : Prop where
  capacity_lt : s.network.capacity < 2 ^ 64
  inflight_eq : s.network.inflight = s.accepted.length
  inflight_le : s.network.inflight ≤ s.network.capacity
  accepted_nodup : s.accepted.Nodup
  blkQ_nodup : s.network.blkQ.Nodup
  blocked : ∀ p ∈ s.network.blkQ, p ∉ s.accepted
  armed_nodup : (s.txDone ++ s.netTraversed).Nodup
  armed : ∀ p ∈ s.txDone ++ s.netTraversed, p ∈ s.accepted
  held_nodup : ∀ i, (H i).Nodup
  held : ∀ i, ∀ p ∈ H i, p.dst = i ∧ p ∈ s.accepted ∧ p ∉ s.txDone ++ s.netTraversed
  alive : ∀ p ∈ s.accepted ++ s.network.blkQ, s.IsNid p.src ∧ s.IsNid p.dst ∧
    p.addr < s.nextAddr ∧ (p.msg = true → ∀ i, p.data ∉ Q i)
  queue_nodup : ∀ i, (Q i).Nodup
  queue : ∀ i, ∀ m ∈ Q i, (s.msgs m).sender = i ∧ s.IsNid (s.msgs m).receiver
  sending : ∀ p ∈ s.txDone,
    (s.nics p.src).sendState = .txPacket ∧ (s.nics p.src).txp = some p
  congested : ∀ p ∈ s.network.blkQ, (s.nics p.src).sendState = .congest ∧
    (s.nics p.src).txp = some p ∧ (s.nics p.src).cnp = some p
  own : ∀ i p, (s.nics i).txp = some p → p.src = i

/-- What moves the sending side of the NIC `n` on: its thread, the `TxDone` of its packet, or a
place in `blkQ`. -/
def SendInv (s : Net) (n : Nat) (nic : NIC) : Prop :=
  match nic.sendState with
  | .start => nic.sth = true
  | .idle => nic.sth = false
  | .postMessage => nic.sth = true
  | .postPacket => False
  | .txPacket => nic.sth = false ∧ ∃ p, nic.txp = some p ∧ nic.txm = some p.data ∧
      p.src = n ∧ p ∈ s.txDone
  | .congest => nic.sth = false ∧ ∃ p, nic.txp = some p ∧ nic.txm = some p.data ∧
      p.src = n ∧ p ∈ s.network.blkQ
  | .last => False

/-- A packet waits only when all credits are taken. -/
def Full (s : Net) : Prop := s.network.blkQ ≠ [] → s.network.inflight = s.network.capacity

/-- The invariant between two events. -/
structure Inv (s : Net) : Prop where
  core : Core s (fun i => (s.nics i).queued) (fun i => (s.nics i).held)
  send : ∀ i, SendInv s i (s.nics i)
  recv : ∀ i, (s.nics i).RecvInv
  full : Full s

/-- No packet of the NIC `n` waits for `TxDone` or in `blkQ`. -/
def Free (s : Net) (n : Nat) : Prop :=
  (∀ p ∈ s.txDone, p.src ≠ n) ∧ ∀ p ∈ s.network.blkQ, p.src ≠ n

/-! ### Replacing one NIC or one message -/

variable {s s' : Net} {n : Nat} {Q : Nat → List Nat} {H : Nat → List Packet}

/-- The NIC that was put in place. -/
@[simp]
theorem nics_setNic_self (s : Net) (n : Nat) (nic : NIC) : (s.setNic n nic).nics n = nic :=
  if_pos rfl

/-- The other NICs stay. -/
@[simp]
theorem nics_setNic_ne {i : Nat} (s : Net) (nic : NIC) (h : i ≠ n) :
    (s.setNic n nic).nics i = s.nics i :=
  if_neg h

/-- `GetNetDevice` finds every NIC. -/
theorem getNetDevice_eq (h : s.IsNid n) : s.getNetDevice n = .ok (s.nics n) := by
  unfold getNetDevice
  rw [check_true h, ok_bind]

/-- The packets and messages do not depend on a NIC none of whose packets wait. -/
theorem Core.setNic (h : Core s Q H) (hfree : Free s n) {nic : NIC}
    (hown : ∀ p, nic.txp = some p → p.src = n) : Core (s.setNic n nic) Q H :=
  { h with
    own := by
      intro i p hp
      by_cases hi : i = n
      · rw [hi, nics_setNic_self] at hp
        rw [hi]
        exact hown p hp
      · rw [nics_setNic_ne s nic hi] at hp
        exact h.own i p hp
    sending := by
      intro p hp
      rw [nics_setNic_ne s nic (hfree.1 p hp)]
      exact h.sending p hp
    congested := by
      intro p hp
      rw [nics_setNic_ne s nic (hfree.2 p hp)]
      exact h.congested p hp }

/-- Nor on the receiving side and the threads of any NIC. -/
theorem Core.setNic_rx (h : Core s Q H) {nic : NIC}
    (hstate : nic.sendState = (s.nics n).sendState) (htxp : nic.txp = (s.nics n).txp)
    (hcnp : nic.cnp = (s.nics n).cnp) : Core (s.setNic n nic) Q H := by
  have hsame : ∀ i, ((s.setNic n nic).nics i).sendState = (s.nics i).sendState ∧
      ((s.setNic n nic).nics i).txp = (s.nics i).txp ∧
      ((s.setNic n nic).nics i).cnp = (s.nics i).cnp := by
    intro i
    by_cases hi : i = n
    · subst hi
      rw [nics_setNic_self]
      exact ⟨hstate, htxp, hcnp⟩
    · rw [nics_setNic_ne s nic hi]
      exact ⟨rfl, rfl, rfl⟩
  exact { h with
    sending := by
      intro p hp
      rw [(hsame p.src).1, (hsame p.src).2.1]
      exact h.sending p hp
    congested := by
      intro p hp
      rw [(hsame p.src).1, (hsame p.src).2.1, (hsame p.src).2.2]
      exact h.congested p hp
    own := by
      intro i p hp
      rw [(hsame i).2.1] at hp
      exact h.own i p hp }

/-- A message that no NIC has still to cut may change. -/
theorem Core.setMsg (h : Core s Q H) {m : Nat} (hm : ∀ i, m ∉ Q i) (msg : Message) :
    Core (s.setMsg m msg) Q H :=
  { h with
    queue := by
      intro i k hk
      have hne : k ≠ m := by
        rintro rfl
        exact hm i hk
      show ((if k = m then msg else s.msgs k).sender = i ∧
        s.IsNid (if k = m then msg else s.msgs k).receiver)
      rw [if_neg hne]
      exact h.queue i k hk }

/-- A message in a queue may change, as long as it goes the same way. -/
theorem Core.setMsg_same (h : Core s Q H) {m : Nat} {msg : Message}
    (hsender : msg.sender = (s.msgs m).sender)
    (hreceiver : msg.receiver = (s.msgs m).receiver) : Core (s.setMsg m msg) Q H :=
  { h with
    queue := by
      intro i k hk
      show ((if k = m then msg else s.msgs k).sender = i ∧
        s.IsNid (if k = m then msg else s.msgs k).receiver)
      split
      · rename_i heq
        rw [hsender, hreceiver, ← heq]
        exact h.queue i k hk
      · exact h.queue i k hk }

/-- Fewer messages in the queues. -/
theorem Core.mono (h : Core s Q H) {Q' : Nat → List Nat}
    (hsub : ∀ i, (Q' i).Sublist (Q i)) : Core s Q' H :=
  { h with
    alive := by
      intro p hp
      obtain ⟨hsrc, hdst, haddr, hdata⟩ := h.alive p hp
      exact ⟨hsrc, hdst, haddr, fun hmsg i hi => hdata hmsg i ((hsub i).subset hi)⟩
    queue_nodup := fun i => (h.queue_nodup i).sublist (hsub i)
    queue := fun i m hm => h.queue i m ((hsub i).subset hm) }

/-- `SendInv` needs the packet of the NIC only. -/
theorem SendInv.of_subset {i : Nat} {nic : NIC} (h : SendInv s i nic)
    (htx : ∀ p ∈ s.txDone, p.src = i → p ∈ s'.txDone)
    (hblk : ∀ p ∈ s.network.blkQ, p.src = i → p ∈ s'.network.blkQ) : SendInv s' i nic := by
  unfold SendInv at h ⊢
  split <;> simp_all only
  · obtain ⟨hsth, p, htxp, htxm, hsrc, hp⟩ := h
    exact ⟨trivial, p, htxp, htxm, hsrc, htx p hp hsrc⟩
  · obtain ⟨hsth, p, htxp, htxm, hsrc, hp⟩ := h
    exact ⟨trivial, p, htxp, htxm, hsrc, hblk p hp hsrc⟩

/-! ### In the middle of a call -/

/-- The state in the middle of `SendStateMachine` of the NIC `n`: none of its packets waits, and
a credit may have been returned that the first packet of `blkQ` is about to take. -/
structure Busy (s : Net) (n : Nat) (Q : Nat → List Nat) (H : Nat → List Packet) : Prop where
  core : Core s Q H
  nid : s.IsNid n
  free : Free s n
  send : ∀ i, i ≠ n → SendInv s i (s.nics i)
  queued : ∀ i, i ≠ n → (s.nics i).queued = Q i
  sth : (s.nics n).sth = false
  room : s.network.blkQ ≠ [] → s.network.capacity ≤ s.network.inflight + 1

/-- The state `s'` after a call of `SendStateMachine` in the state `s`, where the messages `Q`
were still to be cut. -/
structure Settled (s s' : Net) (Q : Nat → List Nat) (H : Nat → List Packet) : Prop where
  core : Core s' (fun i => (s'.nics i).queued) H
  queued : ∀ i, ((s'.nics i).queued).Sublist (Q i)
  send : ∀ i, SendInv s' i (s'.nics i)
  full : Full s'
  rx : ∀ i, (s'.nics i).rx = (s.nics i).rx
  netTraversed : s'.netTraversed = s.netTraversed
  accepted : ∀ p ∈ s.accepted, p ∈ s'.accepted
  txDone : ∀ p ∈ s'.txDone, p ∈ s.txDone ∨ p ∉ s.accepted

/-- A call that ends without a packet. -/
theorem Busy.settle (h : Busy s n Q H) (hfull : Full s) {nic : NIC}
    (htxp : nic.txp = (s.nics n).txp)
    (hsend : SendInv s n nic) (hqueued : nic.queued.Sublist (Q n))
    (hrx : nic.rx = (s.nics n).rx) : Settled s (s.setNic n nic) Q H := by
  have hsub : ∀ i, (((s.setNic n nic).nics i).queued).Sublist (Q i) := by
    intro i
    by_cases hi : i = n
    · subst hi
      rwa [nics_setNic_self]
    · rw [nics_setNic_ne s nic hi, h.queued i hi]
  have hown : ∀ p, nic.txp = some p → p.src = n := by
    rw [htxp]
    exact h.core.own n
  refine ⟨(h.core.setNic h.free hown).mono hsub, hsub, ?_, hfull, ?_, rfl, fun _ hp => hp,
    fun _ hp => Or.inl hp⟩
  · intro i
    by_cases hi : i = n
    · subst hi
      rw [nics_setNic_self]
      exact hsend
    · rw [nics_setNic_ne s nic hi]
      exact h.send i hi
  · intro i
    by_cases hi : i = n
    · subst hi
      rwa [nics_setNic_self]
    · rw [nics_setNic_ne s nic hi]

/-- The NIC `n` is about to hand the packet `pkt` to the network. -/
structure Posting (s : Net) (n : Nat) (pkt : Packet) (Q : Nat → List Nat) : Prop where
  state : (s.nics n).sendState = .txPacket
  txp : (s.nics n).txp = some pkt
  txm : (s.nics n).txm = some pkt.data
  queued : (s.nics n).queued = Q n
  src : pkt.src = n
  fresh : pkt ∉ s.accepted ++ s.network.blkQ
  alive : s.IsNid pkt.src ∧ s.IsNid pkt.dst ∧ pkt.addr < s.nextAddr ∧
    (pkt.msg = true → ∀ i, pkt.data ∉ Q i)

/-- The state after the network accepted a packet. -/
def accept (s : Net) (pkt : Packet) : Net :=
  { s with
    network := { s.network with inflight := s.network.inflight + 1 }
    txDone := s.txDone ++ [pkt]
    accepted := s.accepted ++ [pkt] }

/-- The state after the network queued a packet in `blkQ`. -/
def block (s : Net) (pkt : Packet) : Net :=
  { s with network := { s.network with blkQ := s.network.blkQ ++ [pkt] } }.setNic pkt.src
    { s.nics pkt.src with sendState := .congest, cnp := some pkt }

/-- One more packet at the end of a list without duplicates. -/
theorem nodup_snoc {l : List Packet} {p : Packet} (h : l.Nodup) (hp : p ∉ l) :
    (l ++ [p]).Nodup :=
  (List.perm_append_singleton p l).nodup_iff.mpr (List.nodup_cons.mpr ⟨hp, h⟩)

/-- `Network::Recv` while there is a credit. -/
theorem recv_accept {pkt : Packet} (h : Core s Q H) (hnew : pkt ∉ s.accepted)
    (hlt : s.network.inflight < s.network.capacity) : s.recv pkt = .ok (s.accept pkt) := by
  have hadd : add64 s.network.inflight 1 = s.network.inflight + 1 := by
    apply add64_eq
    have := h.capacity_lt
    omega
  have harmed : pkt ∉ s.txDone ∧ pkt ∉ s.netTraversed := by
    rw [← not_or, ← List.mem_append]
    exact fun hp => hnew (h.armed pkt hp)
  unfold recv
  rw [if_pos hlt, check_true harmed, ok_bind, hadd]
  rfl

/-- `NET_PKT_TXDONE` at the NIC whose packet is sent. -/
theorem notify_txDone {nic : NIC} {pkt : Packet} (htxp : nic.txp = some pkt)
    (hstate : nic.sendState = .txPacket) : nic.notify netPktTxDone pkt =
      .ok ({ nic with sendState := if pkt.msg then .postMessage else .postPacket }, true) := by
  show (check (nic.txp = some pkt ∧ nic.sendState = .txPacket) Fault.nicNotify).bind _ = _
  rw [check_true ⟨htxp, hstate⟩, ok_bind]

/-- `NET_PKT_RETX` at the NIC whose packet waited. -/
theorem notify_retx {nic : NIC} {pkt : Packet} (htxp : nic.txp = some pkt)
    (hcnp : nic.cnp = some pkt) (hstate : nic.sendState = .congest) :
    nic.notify netPktRetx pkt = .ok ({ nic with sendState := .txPacket }, true) := by
  show (check (nic.txp = some pkt ∧ nic.cnp = some pkt ∧ nic.sendState = .congest)
    Fault.nicNotify).bind _ = _
  rw [check_true ⟨htxp, hcnp, hstate⟩, ok_bind]

/-- `NET_PKT_BLK` at the NIC whose packet must wait. -/
theorem notify_blk {nic : NIC} {pkt : Packet} (htxp : nic.txp = some pkt)
    (hstate : nic.sendState = .txPacket) : nic.notify netPktBlk pkt =
      .ok ({ nic with sendState := .congest, cnp := some pkt }, false) := by
  show (check (nic.txp = some pkt ∧ nic.sendState = .txPacket) Fault.nicNotify).bind _ = _
  rw [check_true ⟨htxp, hstate⟩, ok_bind]

/-- `Network::Recv` without a credit. -/
theorem recv_block {pkt : Packet} (hpost : Posting s n pkt Q)
    (hlt : ¬ s.network.inflight < s.network.capacity) : s.recv pkt = .ok (s.block pkt) := by
  have hnotify : (s.nics pkt.src).notify netPktBlk pkt =
      .ok ({ s.nics pkt.src with sendState := .congest, cnp := some pkt }, false) := by
    rw [hpost.src]
    exact notify_blk hpost.txp hpost.state
  unfold recv
  rw [if_neg hlt]
  dsimp only
  rw [getNetDevice_eq (s := { s with network := { s.network with
    blkQ := s.network.blkQ ++ [pkt] } }) hpost.alive.1, ok_bind, hnotify, ok_bind]
  rfl

/-- An accepted packet. -/
theorem Core.accept {pkt : Packet} (h : Core s Q H) (hpost : Posting s n pkt Q)
    (hlt : s.network.inflight < s.network.capacity) : Core (s.accept pkt) Q H := by
  have hnew : pkt ∉ s.accepted := fun hp => hpost.fresh (List.mem_append_left _ hp)
  have hnewBlk : pkt ∉ s.network.blkQ := fun hp => hpost.fresh (List.mem_append_right _ hp)
  have hnewArmed : pkt ∉ s.txDone ++ s.netTraversed := fun hp => hnew (h.armed pkt hp)
  have hperm : (s.txDone ++ [pkt] ++ s.netTraversed).Perm
      (pkt :: (s.txDone ++ s.netTraversed)) := by
    rw [List.append_assoc]
    exact List.perm_middle
  exact { h with
    inflight_eq := by
      show s.network.inflight + 1 = (s.accepted ++ [pkt]).length
      rw [List.length_append, h.inflight_eq]
      rfl
    inflight_le := hlt
    accepted_nodup := nodup_snoc h.accepted_nodup hnew
    blocked := by
      intro p hp hmem
      rcases List.mem_append.mp hmem with hmem | hmem
      · exact h.blocked p hp hmem
      · rw [List.mem_singleton.mp hmem] at hp
        exact hnewBlk hp
    armed_nodup := hperm.nodup_iff.mpr (List.nodup_cons.mpr ⟨hnewArmed, h.armed_nodup⟩)
    armed := by
      intro p hp
      rcases List.mem_cons.mp (hperm.mem_iff.mp hp) with rfl | hp
      · exact List.mem_append_right _ (List.mem_singleton_self p)
      · exact List.mem_append_left _ (h.armed p hp)
    held := by
      intro i p hp
      obtain ⟨hdst, hacc, harmed⟩ := h.held i p hp
      refine ⟨hdst, List.mem_append_left _ hacc, ?_⟩
      intro hmem
      rcases List.mem_cons.mp (hperm.mem_iff.mp hmem) with rfl | hmem
      · exact hnew hacc
      · exact harmed hmem
    alive := by
      intro p hp
      have hp : p ∈ s.accepted ++ [pkt] ++ s.network.blkQ := hp
      have hcases : p = pkt ∨ p ∈ s.accepted ++ s.network.blkQ := by
        simp only [List.mem_append, List.mem_singleton] at hp ⊢
        tauto
      rcases hcases with rfl | hp
      · exact hpost.alive
      · exact h.alive p hp
    sending := by
      intro p hp
      rcases List.mem_append.mp hp with hp | hp
      · exact h.sending p hp
      · rw [List.mem_singleton.mp hp, hpost.src]
        exact ⟨hpost.state, hpost.txp⟩ }

/-- A packet in `blkQ`, with its NIC congested. -/
theorem Core.block {pkt : Packet} (h : Core s Q H) (hfree : Free s n)
    (hpost : Posting s n pkt Q) : Core (s.block pkt) Q H := by
  have hnew : pkt ∉ s.accepted := fun hp => hpost.fresh (List.mem_append_left _ hp)
  have hnewBlk : pkt ∉ s.network.blkQ := fun hp => hpost.fresh (List.mem_append_right _ hp)
  have hcore : Core (s.setNic pkt.src
      { s.nics pkt.src with sendState := .congest, cnp := some pkt }) Q H :=
    h.setNic (by rwa [hpost.src]) (h.own pkt.src)
  exact { hcore with
    blkQ_nodup := nodup_snoc h.blkQ_nodup hnewBlk
    blocked := by
      intro p hp
      rcases List.mem_append.mp hp with hp | hp
      · exact h.blocked p hp
      · rwa [List.mem_singleton.mp hp]
    alive := by
      intro p hp
      have hp : p ∈ s.accepted ++ (s.network.blkQ ++ [pkt]) := hp
      have hcases : p = pkt ∨ p ∈ s.accepted ++ s.network.blkQ := by
        simp only [List.mem_append, List.mem_singleton] at hp ⊢
        tauto
      rcases hcases with rfl | hp
      · exact hpost.alive
      · exact h.alive p hp
    congested := by
      intro p hp
      rcases List.mem_append.mp hp with hp | hp
      · exact hcore.congested p hp
      · rw [List.mem_singleton.mp hp]
        unfold Net.block
        rw [nics_setNic_self]
        refine ⟨rfl, ?_, rfl⟩
        rw [hpost.src]
        exact hpost.txp }

/-- `Network::Recv` accepts the packet, or queues it and congests its NIC. -/
theorem recv_spec {pkt : Packet} (h : Busy s n Q H) (hpost : Posting s n pkt Q) :
    ∃ s', s.recv pkt = .ok s' ∧ Settled s s' Q H := by
  have hnew : pkt ∉ s.accepted := fun hp => hpost.fresh (List.mem_append_left _ hp)
  have hqueued : ∀ i, (s.nics i).queued = Q i := by
    intro i
    by_cases hi : i = n
    · rw [hi, hpost.queued]
    · exact h.queued i hi
  by_cases hlt : s.network.inflight < s.network.capacity
  · -- a credit is free
    refine ⟨s.accept pkt, recv_accept h.core hnew hlt, ?_⟩
    have hsub : ∀ i, (((s.accept pkt).nics i).queued).Sublist (Q i) := by
      intro i
      rw [← hqueued i]
      exact List.Sublist.refl _
    refine ⟨(h.core.accept hpost hlt).mono hsub, hsub, ?_, ?_, fun _ => rfl, rfl,
      fun p hp => List.mem_append_left _ hp, ?_⟩
    · intro i
      by_cases hi : i = n
      · subst hi
        show SendInv _ i (s.nics i)
        unfold SendInv
        rw [hpost.state]
        exact ⟨h.sth, pkt, hpost.txp, hpost.txm, hpost.src,
          List.mem_append_right _ (List.mem_singleton_self pkt)⟩
      · exact (h.send i hi).of_subset (fun p hp _ => List.mem_append_left _ hp)
          (fun p hp _ => hp)
    · intro hblk
      have hroom := h.room hblk
      show s.network.inflight + 1 = s.network.capacity
      omega
    · intro p hp
      rcases List.mem_append.mp hp with hp | hp
      · exact Or.inl hp
      · rw [List.mem_singleton.mp hp]
        exact Or.inr hnew
  · -- the packet waits, and its NIC is congested
    refine ⟨s.block pkt, recv_block hpost hlt, ?_⟩
    obtain rfl := hpost.src
    have hsame : ({ s.nics pkt.src with sendState := .congest, cnp := some pkt } : NIC).queued =
        (s.nics pkt.src).queued := by
      unfold NIC.queued
      rw [hpost.state, hpost.txp]
    have hsub : ∀ i, (((s.block pkt).nics i).queued).Sublist (Q i) := by
      intro i
      rw [← hqueued i]
      by_cases hi : i = pkt.src
      · rw [hi]
        unfold block
        rw [nics_setNic_self, hsame]
      · unfold block
        rw [nics_setNic_ne _ _ hi]
    refine ⟨(h.core.block h.free hpost).mono hsub, hsub, ?_, ?_, ?_, rfl, fun p hp => hp,
      fun p hp => Or.inl hp⟩
    · intro i
      unfold block
      by_cases hi : i = pkt.src
      · rw [hi, nics_setNic_self]
        exact ⟨h.sth, pkt, hpost.txp, hpost.txm, rfl,
          List.mem_append_right _ (List.mem_singleton_self pkt)⟩
      · rw [nics_setNic_ne _ _ hi]
        exact (h.send i hi).of_subset (fun p hp _ => hp)
          (fun p hp _ => List.mem_append_left _ hp)
    · intro _
      show s.network.inflight = s.network.capacity
      have := h.core.inflight_le
      omega
    · intro i
      unfold block
      by_cases hi : i = pkt.src
      · rw [hi, nics_setNic_self]
        rfl
      · rw [nics_setNic_ne _ _ hi]

/-! ### The send machine -/

/-- The direction of a message and the packet that is cut from it. -/
theorem getPacket_spec (m : Message) (packetSize self addr : Nat) :
    (m.getPacket packetSize self addr).1.src = m.sender ∧
    (m.getPacket packetSize self addr).1.dst = m.receiver ∧
    (m.getPacket packetSize self addr).1.data = self ∧
    (m.getPacket packetSize self addr).1.addr = addr ∧
    (m.getPacket packetSize self addr).2.sender = m.sender ∧
    (m.getPacket packetSize self addr).2.receiver = m.receiver :=
  ⟨rfl, rfl, rfl, rfl, rfl, rfl⟩

/-- A new address leaves the packets as they are. -/
theorem Core.setNextAddr (h : Core s Q H) :
    Core { s with nextAddr := s.nextAddr + 1 } Q H :=
  { h with
    alive := by
      intro p hp
      obtain ⟨hsrc, hdst, haddr, hdata⟩ := h.alive p hp
      exact ⟨hsrc, hdst, Nat.lt_succ_of_lt haddr, hdata⟩ }

/-- The NIC `n` cuts the next packet of its message `m` and hands it to the network. -/
theorem postPacket_spec {m packetSize : Nat} (h : Busy s n Q H)
    (htxm : (s.nics n).txm = some m) (hQ : Q n = m :: (s.nics n).msgQ) :
    ∃ s', s.postPacket packetSize n = .ok s' ∧ Settled s s' Q H := by
  obtain ⟨hmsender, hmreceiver⟩ := h.core.queue n m (by rw [hQ]; exact List.mem_cons_self)
  have hnodup := h.core.queue_nodup n
  rw [hQ] at hnodup
  obtain ⟨hsrc, hdst, hdata, haddr, hsender, hreceiver⟩ :=
    getPacket_spec (s.msgs m) packetSize m s.nextAddr
  unfold postPacket
  rw [htxm]
  dsimp only
  generalize hr : (s.msgs m).getPacket packetSize m s.nextAddr = r at *
  obtain ⟨pkt, msg⟩ := r
  dsimp only at hsrc hdst hdata haddr hsender hreceiver ⊢
  -- the state in which `Network::Recv` is called
  generalize hnic : ({ s.nics n with txp := some pkt, sendState := .txPacket } : NIC) = nic
  generalize hs₁ : ({ s with nextAddr := s.nextAddr + 1 }.setMsg m msg).setNic n nic = s₁
  have hnics : ∀ i, i ≠ n → s₁.nics i = s.nics i := by
    intro i hi
    rw [← hs₁, nics_setNic_ne _ _ hi]
    rfl
  have hself : s₁.nics n = nic := by rw [← hs₁, nics_setNic_self]
  have hqueued : nic.queued = if pkt.msg then (s.nics n).msgQ else m :: (s.nics n).msgQ := by
    rw [← hnic]
    unfold NIC.queued
    simp only [htxm]
    split <;> rfl
  have hsub : ∀ i, ((s₁.nics i).queued).Sublist (Q i) := by
    intro i
    by_cases hi : i = n
    · rw [hi, hself, hqueued, hQ]
      split
      · exact List.sublist_cons_self m _
      · exact List.Sublist.refl _
    · rw [hnics i hi, h.queued i hi]
  have hcore : Core s₁ (fun i => (s₁.nics i).queued) H := by
    have hmsg := (h.core.setNextAddr).setMsg_same hsender hreceiver
    have hset := hmsg.setNic (n := n) h.free (show ∀ p, nic.txp = some p → p.src = n by
      rw [← hnic]
      rintro p hp
      cases hp
      rw [hsrc, hmsender])
    rw [hs₁] at hset
    exact hset.mono hsub
  have hbusy : Busy s₁ n (fun i => (s₁.nics i).queued) H := by
    refine ⟨hcore, ?_, ?_, ?_, fun _ _ => rfl, ?_, ?_⟩
    · rw [← hs₁]
      exact h.nid
    · rw [← hs₁]
      exact h.free
    · intro i hi
      rw [hnics i hi, ← hs₁]
      exact (h.send i hi).of_subset (fun _ hp _ => hp) (fun _ hp _ => hp)
    · rw [hself, ← hnic]
      exact h.sth
    · rw [← hs₁]
      exact h.room
  have hpost : Posting s₁ n pkt (fun i => (s₁.nics i).queued) := by
    refine ⟨?_, ?_, ?_, rfl, by rw [hsrc, hmsender], ?_, ?_, ?_, ?_, ?_⟩
    · rw [hself, ← hnic]
    · rw [hself, ← hnic]
    · rw [hself, ← hnic, hdata]
      exact htxm
    · -- the address is new
      rw [← hs₁]
      intro hp
      obtain ⟨-, -, hlt, -⟩ := h.core.alive pkt hp
      omega
    · rw [← hs₁, hsrc, hmsender]
      exact h.nid
    · rw [← hs₁, hdst]
      exact hmreceiver
    · rw [← hs₁, haddr]
      exact Nat.lt_succ_self s.nextAddr
    · intro hmsg i
      rw [hdata]
      by_cases hi : i = n
      · rw [hi, hself, hqueued, if_pos hmsg]
        exact (List.nodup_cons.mp hnodup).1
      · rw [hnics i hi, h.queued i hi]
        intro hm
        exact hi ((h.core.queue i m hm).1.symm.trans hmsender)
  obtain ⟨s', hok, hsettled⟩ := recv_spec hbusy hpost
  refine ⟨s', hok, hsettled.core, ?_, hsettled.send, hsettled.full, ?_, ?_, ?_, ?_⟩
  · exact fun i => (hsettled.queued i).trans (hsub i)
  · intro i
    rw [hsettled.rx i]
    by_cases hi : i = n
    · rw [hi, hself, ← hnic]
      rfl
    · rw [hnics i hi]
  · rw [hsettled.netTraversed, ← hs₁]
    rfl
  · intro p hp
    exact hsettled.accepted p (by rw [← hs₁]; exact hp)
  · intro p hp
    have := hsettled.txDone p hp
    rw [← hs₁] at this
    exact this

/-- The sending side of the NIC may be replaced in the middle of a call. -/
theorem Busy.setNic (h : Busy s n Q H) {nic : NIC} (hsth : nic.sth = false)
    (htxp : nic.txp = (s.nics n).txp) : Busy (s.setNic n nic) n Q H := by
  have hown : ∀ p, nic.txp = some p → p.src = n := by
    rw [htxp]
    exact h.core.own n
  refine ⟨h.core.setNic h.free hown, h.nid, h.free, ?_, ?_, ?_, h.room⟩
  · intro i hi
    rw [nics_setNic_ne s nic hi]
    exact (h.send i hi).of_subset (fun _ hp _ => hp) (fun _ hp _ => hp)
  · intro i hi
    rw [nics_setNic_ne s nic hi]
    exact h.queued i hi
  · rw [nics_setNic_self]
    exact hsth

/-- A call that replaced the sending side of the NIC before. -/
theorem Settled.of_setNic {nic : NIC} (h : Settled (s.setNic n nic) s' Q H)
    (hrx : nic.rx = (s.nics n).rx) : Settled s s' Q H := by
  refine ⟨h.core, h.queued, h.send, h.full, ?_, h.netTraversed, h.accepted, h.txDone⟩
  intro i
  rw [h.rx i]
  by_cases hi : i = n
  · rw [hi, nics_setNic_self, hrx]
  · rw [nics_setNic_ne s nic hi]

/-- `SendStateMachine` of a NIC that is new: it waits for its first message. -/
theorem sendStateMachine_start {packetSize : Nat} (hstate : (s.nics n).sendState = .start) :
    s.sendStateMachine packetSize n =
      .ok (s.setNic n { s.nics n with sendState := .idle }) := by
  unfold sendStateMachine
  dsimp only
  split
  case h_4 => rfl
  all_goals
    rename_i heq
    rw [hstate] at heq
    cases heq

/-- `SendStateMachine` of a NIC that takes its next message. -/
theorem postMessage_spec {packetSize : Nat} (h : Busy s n Q H) (hfull : Full s)
    (hstate : (s.nics n).sendState = .postMessage) (hQ : Q n = (s.nics n).msgQ) :
    ∃ s', s.sendStateMachine packetSize n = .ok s' ∧ Settled s s' Q H := by
  unfold sendStateMachine
  dsimp only
  split
  case h_1 =>
    split
    · -- no message
      rename_i hmsgQ
      refine ⟨_, rfl, h.settle hfull rfl h.sth ?_ rfl⟩
      rw [hQ]
      exact List.Sublist.refl _
    · -- the next message
      rename_i m rest hmsgQ
      have hbusy : Busy (s.setNic n { s.nics n with txm := some m, msgQ := rest }) n Q H :=
        h.setNic h.sth rfl
      obtain ⟨s', hok, hsettled⟩ := @postPacket_spec _ _ _ _ m packetSize hbusy
        (by rw [nics_setNic_self]) (by rw [nics_setNic_self, hQ, hmsgQ])
      exact ⟨s', hok, hsettled.of_setNic rfl⟩
  all_goals
    rename_i heq
    rw [hstate] at heq
    cases heq

/-- `SendStateMachine` of a NIC that cuts the next packet of its message. -/
theorem sendStateMachine_postPacket {packetSize m : Nat} (h : Busy s n Q H)
    (hstate : (s.nics n).sendState = .postPacket) (htxm : (s.nics n).txm = some m)
    (hQ : Q n = m :: (s.nics n).msgQ) :
    ∃ s', s.sendStateMachine packetSize n = .ok s' ∧ Settled s s' Q H := by
  unfold sendStateMachine
  simp only [hstate]
  exact postPacket_spec h htxm hQ

/-- `SendStateMachine` of a NIC that sends its packet again. -/
theorem sendStateMachine_txPacket {packetSize : Nat} {pkt : Packet} (h : Busy s n Q H)
    (hpost : Posting s n pkt Q) :
    ∃ s', s.sendStateMachine packetSize n = .ok s' ∧ Settled s s' Q H := by
  unfold sendStateMachine
  simp only [hpost.state, hpost.txp]
  exact recv_spec h hpost

/-- A NIC that has no packet to send has no packet that waits. -/
theorem Core.free (h : Core s Q H) (htx : (s.nics n).sendState ≠ .txPacket)
    (hcongest : (s.nics n).sendState ≠ .congest) : Free s n := by
  constructor
  · rintro p hp rfl
    exact htx (h.sending p hp).1
  · rintro p hp rfl
    exact hcongest (h.congested p hp).1

/-- Between two events a NIC keeps its packets while its sending side runs. -/
theorem Settled.inv (h : Settled s s' Q (fun i => (s.nics i).held))
    (hrecv : ∀ i, (s.nics i).RecvInv) : Inv s' := by
  have hheld : (fun i => (s'.nics i).held) = fun i => (s.nics i).held :=
    funext fun i => NIC.held_eq_of_rx (h.rx i)
  refine ⟨?_, h.send, fun i => (hrecv i).of_rx (h.rx i), h.full⟩
  rw [hheld]
  exact h.core

/-! ### The send thread and `TxDone` -/

/-- The send thread runs. -/
theorem sth_spec {packetSize : Nat} (h : Inv s) (hn : s.IsNid n)
    (hsth : (s.nics n).sth = true) :
    ∃ s', s.fire packetSize (.sth n) = .ok s' ∧ Inv s' := by
  have hsend := h.send n
  unfold SendInv at hsend
  have hstate : (s.nics n).sendState = .start ∨ (s.nics n).sendState = .postMessage := by
    cases hstate : (s.nics n).sendState <;> simp_all
  have hfree : Free s n := by
    apply h.core.free <;> rcases hstate with hstate | hstate <;> rw [hstate] <;> decide
  have hqueued : (s.nics n).queued = (s.nics n).msgQ := by
    unfold NIC.queued
    rcases hstate with hstate | hstate <;> rw [hstate] <;> rfl
  generalize hnic : ({ s.nics n with sth := false } : NIC) = nic
  have hnicqueued : nic.queued = (s.nics n).queued := by
    rw [← hnic]
    rfl
  have hbusy : Busy (s.setNic n nic) n (fun i => (s.nics i).queued)
      (fun i => (s.nics i).held) := by
    refine ⟨h.core.setNic hfree ?_, hn, hfree, ?_, ?_, ?_, ?_⟩
    · rw [← hnic]
      exact h.core.own n
    · intro i hi
      rw [nics_setNic_ne s nic hi]
      exact (h.send i).of_subset (fun _ hp _ => hp) (fun _ hp _ => hp)
    · intro i hi
      rw [nics_setNic_ne s nic hi]
    · rw [nics_setNic_self, ← hnic]
    · intro hblk
      exact Nat.le_succ_of_le (Nat.le_of_eq (h.full hblk).symm)
  have hcall : ∃ s', (s.setNic n nic).sendStateMachine packetSize n = .ok s' ∧
      Settled (s.setNic n nic) s' (fun i => (s.nics i).queued) (fun i => (s.nics i).held) := by
    rcases hstate with hstate | hstate
    · have hok : (s.setNic n nic).sendStateMachine packetSize n =
          .ok ((s.setNic n nic).setNic n { nic with sendState := .idle }) := by
        rw [sendStateMachine_start (by rw [nics_setNic_self, ← hnic]; exact hstate),
          nics_setNic_self]
      refine ⟨_, hok, hbusy.settle h.full ?_ ?_ ?_ ?_⟩
      · rw [nics_setNic_self]
      · rw [← hnic]
        exact rfl
      · show List.Sublist _ (s.nics n).queued
        rw [hqueued, ← hnic]
        exact List.Sublist.refl _
      · rw [nics_setNic_self]
        rfl
    · apply postMessage_spec hbusy h.full
      · rw [nics_setNic_self, ← hnic]
        exact hstate
      · rw [nics_setNic_self, ← hnic]
        exact hqueued
  obtain ⟨s', hok, hsettled⟩ := hcall
  refine ⟨s', ?_, Settled.inv (hsettled.of_setNic ?_) h.recv⟩
  · show (s.setNic n { s.nics n with sth := false }).sendStateMachine packetSize n = _
    rw [hnic]
    exact hok
  · rw [← hnic]
    rfl

/-- The packets without a packet whose `TxDone` fires. -/
theorem Core.eraseTxDone (h : Core s Q H) (pkt : Packet) :
    Core { s with txDone := s.txDone.erase pkt } Q H := by
  have hsub : (s.txDone.erase pkt ++ s.netTraversed).Sublist (s.txDone ++ s.netTraversed) :=
    List.Sublist.append_right List.erase_sublist s.netTraversed
  exact { h with
    armed_nodup := h.armed_nodup.sublist hsub
    armed := fun p hp => h.armed p (hsub.subset hp)
    held := by
      intro i p hp
      obtain ⟨hdst, hacc, harmed⟩ := h.held i p hp
      exact ⟨hdst, hacc, fun hmem => harmed (hsub.subset hmem)⟩
    sending := fun p hp => h.sending p (List.mem_of_mem_erase hp) }

/-- A packet on its way to the receiver. -/
theorem Core.traverse {pkt : Packet} (h : Core s Q H) (hacc : pkt ∈ s.accepted)
    (hnew : pkt ∉ s.txDone ++ s.netTraversed) (hheld : ∀ i, pkt ∉ H i) :
    Core { s with netTraversed := s.netTraversed ++ [pkt] } Q H :=
  { h with
    armed_nodup := by
      show (s.txDone ++ (s.netTraversed ++ [pkt])).Nodup
      rw [← List.append_assoc]
      exact nodup_snoc h.armed_nodup hnew
    armed := by
      intro p hp
      have hp : p ∈ s.txDone ++ (s.netTraversed ++ [pkt]) := hp
      rw [← List.append_assoc] at hp
      rcases List.mem_append.mp hp with hp | hp
      · exact h.armed p hp
      · rwa [List.mem_singleton.mp hp]
    held := by
      intro i p hp
      obtain ⟨hdst, hacc, harmed⟩ := h.held i p hp
      refine ⟨hdst, hacc, ?_⟩
      show p ∉ s.txDone ++ (s.netTraversed ++ [pkt])
      rw [← List.append_assoc]
      intro hmem
      rcases List.mem_append.mp hmem with hmem | hmem
      · exact harmed hmem
      · rw [List.mem_singleton.mp hmem] at hp
        exact hheld i hp }

/-- The NIC of a packet that has been sent has no other packet in the network. -/
theorem Inv.sent_free {pkt : Packet} (h : Inv s) (hpkt : pkt ∈ s.txDone) :
    Free { s with txDone := s.txDone.erase pkt } pkt.src := by
  obtain ⟨hstate, htxp⟩ := h.core.sending pkt hpkt
  have hnodup : s.txDone.Nodup := (List.nodup_append.mp h.core.armed_nodup).1
  constructor
  · intro p hp hsrc
    obtain ⟨-, htxp'⟩ := h.core.sending p (List.mem_of_mem_erase hp)
    rw [hsrc, htxp] at htxp'
    cases htxp'
    exact (List.Nodup.mem_erase_iff hnodup).mp hp |>.1 rfl
  · intro p hp hsrc
    obtain ⟨hcongest, -⟩ := h.core.congested p hp
    rw [hsrc, hstate] at hcongest
    cases hcongest

/-- The NIC that has sent a packet is busy with what follows. -/
theorem Inv.sent_busy {pkt : Packet} (h : Inv s) (hpkt : pkt ∈ s.txDone) (state : SendState) :
    Busy ({ s with txDone := s.txDone.erase pkt }.setNic pkt.src
        { s.nics pkt.src with sendState := state }) pkt.src
      (fun i => (s.nics i).queued) (fun i => (s.nics i).held) := by
  have hacc := h.core.armed pkt (List.mem_append_left _ hpkt)
  obtain ⟨hstate, -⟩ := h.core.sending pkt hpkt
  have hsend := h.send pkt.src
  unfold SendInv at hsend
  simp only [hstate] at hsend
  obtain ⟨hsth, -⟩ := hsend
  have hfree := h.sent_free hpkt
  refine ⟨(h.core.eraseTxDone pkt).setNic hfree (h.core.own pkt.src),
    (h.core.alive pkt (List.mem_append_left _ hacc)).1, hfree, ?_, ?_, ?_, ?_⟩
  · intro i hi
    rw [nics_setNic_ne _ _ hi]
    refine (h.send i).of_subset ?_ (fun _ hp _ => hp)
    intro p hp hsrc
    refine (List.mem_erase_of_ne ?_).mpr hp
    rintro rfl
    exact hi hsrc.symm
  · intro i hi
    rw [nics_setNic_ne _ _ hi]
  · rw [nics_setNic_self]
    exact hsth
  · intro hblk
    exact Nat.le_succ_of_le (Nat.le_of_eq (h.full hblk).symm)

/-- The NIC that has sent a packet sends the next one of the message, or takes the next message. -/
theorem Inv.sent_settled {packetSize : Nat} {pkt : Packet} {nic : NIC} (h : Inv s)
    (hpkt : pkt ∈ s.txDone) (hnic : ({ s.nics pkt.src with
      sendState := if pkt.msg then .postMessage else .postPacket } : NIC) = nic) :
    ∃ s', ({ s with txDone := s.txDone.erase pkt }.setNic pkt.src nic).sendStateMachine packetSize
        pkt.src = .ok s' ∧
      Settled ({ s with txDone := s.txDone.erase pkt }.setNic pkt.src nic) s'
        (fun i => (s.nics i).queued) (fun i => (s.nics i).held) := by
  obtain ⟨hstate, htxp⟩ := h.core.sending pkt hpkt
  have hsend := h.send pkt.src
  unfold SendInv at hsend
  simp only [hstate] at hsend
  obtain ⟨-, p, htxp', htxm, -, -⟩ := hsend
  obtain rfl : pkt = p := Option.some.inj (htxp.symm.trans htxp')
  have hbusy := hnic ▸ h.sent_busy hpkt (if pkt.msg then .postMessage else .postPacket)
  by_cases hmsg : pkt.msg = true
  · -- the last packet of the message
    apply postMessage_spec hbusy
    · exact h.full
    · rw [nics_setNic_self, ← hnic]
      exact if_pos hmsg
    · rw [nics_setNic_self, ← hnic]
      unfold NIC.queued
      rw [hstate, htxp]
      simp only [if_pos hmsg, List.nil_append]
  · apply sendStateMachine_postPacket (m := pkt.data) hbusy
    · rw [nics_setNic_self, ← hnic]
      exact if_neg hmsg
    · rw [nics_setNic_self, ← hnic]
      exact htxm
    · rw [nics_setNic_self, ← hnic]
      unfold NIC.queued
      rw [hstate, htxp]
      simp only [if_neg hmsg, htxm]
      rfl

/-- The network has sent the packet: its NIC goes on, and the packet travels. -/
theorem txDone_spec {packetSize : Nat} {pkt : Packet} (h : Inv s) (hpkt : pkt ∈ s.txDone) :
    ∃ s', s.fire packetSize (.txDone pkt) = .ok s' ∧ Inv s' := by
  obtain ⟨hstate, htxp⟩ := h.core.sending pkt hpkt
  have hacc := h.core.armed pkt (List.mem_append_left _ hpkt)
  have hnid := (h.core.alive pkt (List.mem_append_left _ hacc)).1
  have hnodup : s.txDone.Nodup := (List.nodup_append.mp h.core.armed_nodup).1
  generalize hnic : ({ s.nics pkt.src with
    sendState := if pkt.msg then .postMessage else .postPacket } : NIC) = nic
  have hcall := @Inv.sent_settled _ packetSize _ _ h hpkt hnic
  generalize hs₁ : ({ s with txDone := s.txDone.erase pkt } : Net) = s₁ at hcall
  obtain ⟨s', hok, hsettled⟩ := hcall
  have hupdate : s₁.updateState packetSize pkt.src netPktTxDone pkt = .ok s' := by
    have hnics : s₁.nics = s.nics := by rw [← hs₁]
    unfold updateState
    rw [getNetDevice_eq (s := s₁) (by rw [← hs₁]; exact hnid), ok_bind, hnics,
      notify_txDone htxp hstate, ok_bind, hnic]
    exact hok
  have hsettled := hsettled.of_setNic (by rw [← hnic, ← hs₁]; rfl)
  -- `TxDone` arms the event of the packet again
  have hnotTx : pkt ∉ s'.txDone := by
    intro hp
    rcases hsettled.txDone pkt hp with hp | hp
    · rw [← hs₁] at hp
      exact (List.Nodup.mem_erase_iff hnodup).mp hp |>.1 rfl
    · rw [← hs₁] at hp
      exact hp hacc
  have hnotTraversed : pkt ∉ s'.netTraversed := by
    rw [hsettled.netTraversed, ← hs₁]
    intro hp
    exact (List.nodup_append.mp h.core.armed_nodup).2.2 pkt hpkt pkt hp rfl
  have hinv : Inv s' := by
    have hheld : (fun i => (s.nics i).held) = fun i => (s₁.nics i).held := by rw [← hs₁]
    rw [hheld] at hsettled
    apply hsettled.inv
    rw [← hs₁]
    exact h.recv
  have hacc' : pkt ∈ s'.accepted := hsettled.accepted pkt (by rw [← hs₁]; exact hacc)
  have hheld' : ∀ i, pkt ∉ (s'.nics i).held := by
    intro i hp
    rw [NIC.held_eq_of_rx (hsettled.rx i), ← hs₁] at hp
    exact (h.core.held i pkt hp).2.2 (List.mem_append_left _ hpkt)
  have hnew : pkt ∉ s'.txDone ++ s'.netTraversed := by
    rw [List.mem_append]
    exact not_or.mpr ⟨hnotTx, hnotTraversed⟩
  refine ⟨{ s' with netTraversed := s'.netTraversed ++ [pkt] }, ?_,
    hinv.core.traverse hacc' hnew hheld', ?_, hinv.recv, hinv.full⟩
  · show ({ s with txDone := s.txDone.erase pkt }.updateState packetSize pkt.src netPktTxDone
      pkt).bind _ = _
    rw [hs₁, hupdate, ok_bind, check_true ⟨hnotTx, hnotTraversed⟩, ok_bind]
  · intro i
    exact (hinv.send i).of_subset (fun _ hp _ => hp) (fun _ hp _ => hp)

/-! ### The receive thread and `NetTraversed` -/

/-- `SendInv` depends on the sending side of the NIC only. -/
theorem SendInv.of_tx {i : Nat} {nic nic' : NIC} (h : SendInv s i nic) (htx : nic'.tx = nic.tx) :
    SendInv s i nic' := by
  simp only [NIC.tx, Prod.mk.injEq] at htx
  unfold SendInv at h ⊢
  rw [htx.1, htx.2.2.1, htx.2.2.2.1, htx.2.2.2.2.1]
  exact h

/-- A change on the receiving side of a NIC leaves what the NICs have still to cut. -/
theorem queued_setNic {nic : NIC} (htx : nic.tx = (s.nics n).tx) :
    (fun i => ((s.setNic n nic).nics i).queued) = fun i => (s.nics i).queued := by
  funext i
  by_cases hi : i = n
  · rw [hi, nics_setNic_self]
    exact NIC.queued_eq_of_tx htx
  · rw [nics_setNic_ne s nic hi]

/-- It keeps the facts about the packets. -/
theorem Core.setNic_tx {nic : NIC} (h : Core s (fun i => (s.nics i).queued) H)
    (htx : nic.tx = (s.nics n).tx) :
    Core (s.setNic n nic) (fun i => ((s.setNic n nic).nics i).queued) H := by
  rw [queued_setNic htx]
  simp only [NIC.tx, Prod.mk.injEq] at htx
  exact h.setNic_rx htx.1 htx.2.2.2.1 htx.2.2.2.2.2

/-- It keeps the invariants of the sending sides. -/
theorem SendInv.setNic_tx {nic : NIC} (h : ∀ i, SendInv s i (s.nics i))
    (htx : nic.tx = (s.nics n).tx) (i : Nat) :
    SendInv (s.setNic n nic) i ((s.setNic n nic).nics i) := by
  have hi₁ : SendInv (s.setNic n nic) i (s.nics i) :=
    (h i).of_subset (fun _ hp _ => hp) (fun _ hp _ => hp)
  by_cases hi : i = n
  · subst hi
    rw [nics_setNic_self]
    exact hi₁.of_tx htx
  · rwa [nics_setNic_ne s nic hi]

/-- A change on the receiving side of the NIC `n`, which then holds the packets `H n`. -/
theorem Inv.of_setNic {nic : NIC} (hcore : Core s (fun i => (s.nics i).queued) H)
    (hsend : ∀ i, SendInv s i (s.nics i)) (hfull : Full s)
    (hrecv : ∀ i, i ≠ n → (s.nics i).RecvInv) (hheld : ∀ i, i ≠ n → (s.nics i).held = H i)
    (htx : nic.tx = (s.nics n).tx) (hnicRecv : nic.RecvInv) (hnicHeld : nic.held = H n) :
    Inv (s.setNic n nic) := by
  have hH : (fun i => ((s.setNic n nic).nics i).held) = H := by
    funext i
    by_cases hi : i = n
    · rw [hi, nics_setNic_self]
      exact hnicHeld
    · rw [nics_setNic_ne s nic hi]
      exact hheld i hi
  refine ⟨?_, SendInv.setNic_tx hsend htx, ?_, hfull⟩
  · rw [hH]
    exact hcore.setNic_tx htx
  · intro i
    by_cases hi : i = n
    · rw [hi, nics_setNic_self]
      exact hnicRecv
    · rw [nics_setNic_ne s nic hi]
      exact hrecv i hi

/-- A packet that arrives moves from the network to its receiver. -/
theorem Core.arrive {pkt : Packet} (h : Core s Q H) (hpkt : pkt ∈ s.netTraversed) :
    Core { s with netTraversed := s.netTraversed.erase pkt } Q
      (fun i => if i = pkt.dst then H i ++ [pkt] else H i) := by
  have hnodup : s.netTraversed.Nodup := (List.nodup_append.mp h.armed_nodup).2.1
  have hsub : (s.txDone ++ s.netTraversed.erase pkt).Sublist (s.txDone ++ s.netTraversed) :=
    List.Sublist.append_left List.erase_sublist s.txDone
  have hgone : pkt ∉ s.txDone ++ s.netTraversed.erase pkt := by
    intro hp
    rcases List.mem_append.mp hp with hp | hp
    · exact (List.nodup_append.mp h.armed_nodup).2.2 pkt hp pkt hpkt rfl
    · exact ((List.Nodup.mem_erase_iff hnodup).mp hp).1 rfl
  have hnotHeld : ∀ i, pkt ∉ H i := by
    intro i hp
    exact (h.held i pkt hp).2.2 (List.mem_append_right _ hpkt)
  exact { h with
    armed_nodup := h.armed_nodup.sublist hsub
    armed := fun p hp => h.armed p (hsub.subset hp)
    held_nodup := by
      intro i
      split
      · exact nodup_snoc (h.held_nodup i) (hnotHeld i)
      · exact h.held_nodup i
    held := by
      intro i p hp
      have hcases : p ∈ H i ∨ (p = pkt ∧ i = pkt.dst) := by
        split at hp
        · rename_i hi
          rcases List.mem_append.mp hp with hp | hp
          · exact Or.inl hp
          · exact Or.inr ⟨List.mem_singleton.mp hp, hi⟩
        · exact Or.inl hp
      rcases hcases with hp | ⟨rfl, rfl⟩
      · obtain ⟨hdst, hacc, harmed⟩ := h.held i p hp
        exact ⟨hdst, hacc, fun hmem => harmed (hsub.subset hmem)⟩
      · exact ⟨rfl, h.armed p (List.mem_append_right _ hpkt), hgone⟩ }

/-- The packet arrives at its receiver. -/
theorem netTraversed_spec {packetSize : Nat} {pkt : Packet} (h : Inv s)
    (hpkt : pkt ∈ s.netTraversed) :
    ∃ s', s.fire packetSize (.netTraversed pkt) = .ok s' ∧ Inv s' := by
  have hacc := h.core.armed pkt (List.mem_append_right _ hpkt)
  have hnid := (h.core.alive pkt (List.mem_append_left _ hacc)).2.1
  have hrecv := h.recv pkt.dst
  generalize hs₁ : ({ s with netTraversed := s.netTraversed.erase pkt } : Net) = s₁
  have hnics : s₁.nics = s.nics := by rw [← hs₁]
  -- every branch of `NIC::Recv` puts the packet at the end of `inQ`
  have hstep : ∀ nic : NIC, nic.tx = (s.nics pkt.dst).tx → nic.RecvInv →
      nic.held = (s.nics pkt.dst).held ++ [pkt] → Inv (s₁.setNic pkt.dst nic) := by
    intro nic htx hnicRecv hnicHeld
    rw [← hs₁]
    apply Inv.of_setNic (h.core.arrive hpkt)
    · exact fun i => (h.send i).of_subset (fun _ hp _ => hp) (fun _ hp _ => hp)
    · exact h.full
    · exact fun i _ => h.recv i
    · intro i hi
      exact (if_neg hi).symm
    · exact htx
    · exact hnicRecv
    · rw [if_pos rfl]
      exact hnicHeld
  have hcall : ∃ s', s₁.nicRecv pkt.dst pkt = .ok s' ∧ Inv s' := by
    unfold nicRecv
    rw [hnics]
    dsimp only
    unfold NIC.RecvInv at hrecv
    by_cases hidle : (s.nics pkt.dst).recvState = .idle
    · rw [if_pos hidle]
      simp only [hidle] at hrecv
      rw [check_true hrecv, ok_bind]
      refine ⟨_, rfl, hstep _ rfl rfl ?_⟩
      unfold NIC.held
      rw [hidle]
      rfl
    · rw [if_neg hidle]
      by_cases hstart : (s.nics pkt.dst).recvState = .start
      · rw [if_pos hstart]
        simp only [hstart] at hrecv
        refine ⟨_, rfl, hstep _ rfl hrecv ?_⟩
        unfold NIC.held
        rw [hstart]
        rfl
      · rw [if_neg hstart]
        refine ⟨_, rfl, hstep _ rfl (h.recv pkt.dst) ?_⟩
        unfold NIC.held
        exact (List.append_assoc _ _ _).symm
  obtain ⟨s', hok, hinv⟩ := hcall
  refine ⟨s', ?_, hinv⟩
  show (({ s with netTraversed := s.netTraversed.erase pkt } : Net).getNetDevice pkt.dst).bind _
    = _
  rw [getNetDevice_eq (s := { s with netTraversed := s.netTraversed.erase pkt }) hnid, ok_bind,
    hs₁]
  exact hok

/-- `RecvStateMachine` in `nic_RecvStartState`. -/
theorem recvStateMachine_start {packetSize : Nat} (h : (s.nics n).recvState = .start) :
    s.recvStateMachine packetSize n = .ok (s.setNic n { s.nics n with recvState := .idle }) := by
  rw [recvStateMachine]
  simp only [h]

/-- `RecvStateMachine` in `nic_RecvRxPacketState`. -/
theorem recvStateMachine_rxPacket {packetSize : Nat} (h : (s.nics n).recvState = .rxPacket) :
    s.recvStateMachine packetSize n = s.rxPacket n := by
  rw [recvStateMachine]
  simp only [h]

/-- `RecvStateMachine` in `nic_RecvRxDoneState`. -/
theorem recvStateMachine_rxDone {packetSize : Nat} {pkt : Packet}
    (h : (s.nics n).recvState = .rxDone) (hrxp : (s.nics n).rxp = some pkt) :
    s.recvStateMachine packetSize n =
      ({ s with accepted := s.accepted.erase pkt }.networkNotify packetSize netPktRxDone
        none).bind fun s =>
      ((if pkt.msg then s.deliver n pkt.data else s).setNic n
        { (if pkt.msg then s.deliver n pkt.data else s).nics n with
          recvState := .rxPacket }).rxPacket n := by
  rw [recvStateMachine]
  simp only [h, hrxp]

/-- The case `nic_RecvRxPacketState` of `RecvStateMachine`: the NIC takes the next packet of
`inQ`, or becomes idle. -/
theorem rxPacket_spec (hcore : Core s (fun i => (s.nics i).queued) H)
    (hsend : ∀ i, SendInv s i (s.nics i)) (hfull : Full s)
    (hrecv : ∀ i, i ≠ n → (s.nics i).RecvInv) (hheld : ∀ i, i ≠ n → (s.nics i).held = H i)
    (hrth : (s.nics n).rth = false) (hinQ : (s.nics n).inQ = H n) :
    ∃ s', s.rxPacket n = .ok s' ∧ Inv s' := by
  unfold rxPacket
  dsimp only
  split
  · rename_i hnil
    refine ⟨_, rfl, Inv.of_setNic hcore hsend hfull hrecv hheld rfl hrth ?_⟩
    exact hinQ
  · rename_i pkt rest hcons
    rw [check_true hrth, ok_bind]
    refine ⟨_, rfl, Inv.of_setNic hcore hsend hfull hrecv hheld rfl ⟨rfl, rfl⟩ ?_⟩
    rw [← hinQ, hcons]
    rfl

/-- The packets without the packet `pkt` that the NIC `n` reports as received. -/
theorem Core.report {pkt : Packet} {rest : List Packet} (h : Core s Q H)
    (hH : H n = pkt :: rest) :
    Core { s with
      accepted := s.accepted.erase pkt
      network := { s.network with inflight := s.network.inflight - 1 } } Q
      (fun i => if i = n then rest else H i) := by
  have hmem : pkt ∈ H n := by
    rw [hH]
    exact List.mem_cons_self
  obtain ⟨hdst, hacc, hnotArmed⟩ := h.held n pkt hmem
  have hnodup := h.held_nodup n
  rw [hH] at hnodup
  have hle := h.inflight_le
  -- a packet in another place is another packet
  have hkeep : ∀ p ∈ s.accepted, p ≠ pkt → p ∈ s.accepted.erase pkt := fun p hp hne =>
    (List.mem_erase_of_ne hne).mpr hp
  exact { h with
    inflight_eq := by
      show s.network.inflight - 1 = (s.accepted.erase pkt).length
      rw [List.length_erase_of_mem hacc, h.inflight_eq]
    inflight_le := by
      show s.network.inflight - 1 ≤ s.network.capacity
      omega
    accepted_nodup := h.accepted_nodup.erase pkt
    blocked := fun p hp hmem => h.blocked p hp (List.mem_of_mem_erase hmem)
    armed := by
      intro p hp
      apply hkeep p (h.armed p hp)
      rintro rfl
      exact hnotArmed hp
    held_nodup := by
      intro i
      split
      · exact (List.nodup_cons.mp hnodup).2
      · exact h.held_nodup i
    held := by
      intro i p hp
      by_cases hi : i = n
      · rw [if_pos hi] at hp
        have hp' : p ∈ H i := by
          rw [hi, hH]
          exact List.mem_cons_of_mem _ hp
        obtain ⟨hpdst, hpacc, hparmed⟩ := h.held i p hp'
        refine ⟨hpdst, hkeep p hpacc ?_, hparmed⟩
        rintro rfl
        exact (List.nodup_cons.mp hnodup).1 hp
      · rw [if_neg hi] at hp
        obtain ⟨hpdst, hpacc, hparmed⟩ := h.held i p hp
        refine ⟨hpdst, hkeep p hpacc ?_, hparmed⟩
        rintro rfl
        exact hi (hpdst.symm.trans hdst)
    alive := by
      intro p hp
      apply h.alive p
      rcases List.mem_append.mp hp with hp | hp
      · exact List.mem_append_left _ (List.mem_of_mem_erase hp)
      · exact List.mem_append_right _ hp }

/-- The packets without the first packet of `blkQ`. -/
theorem Core.unblock {pkt : Packet} {rest : List Packet} (h : Core s Q H)
    (hblk : s.network.blkQ = pkt :: rest) :
    Core { s with network := { s.network with blkQ := rest } } Q H := by
  have hsub : ∀ p ∈ rest, p ∈ s.network.blkQ := by
    intro p hp
    rw [hblk]
    exact List.mem_cons_of_mem _ hp
  have hnodup := h.blkQ_nodup
  rw [hblk] at hnodup
  exact { h with
    blkQ_nodup := (List.nodup_cons.mp hnodup).2
    blocked := fun p hp => h.blocked p (hsub p hp)
    alive := by
      intro p hp
      apply h.alive p
      rcases List.mem_append.mp hp with hp | hp
      · exact List.mem_append_left _ hp
      · exact List.mem_append_right _ (hsub p hp)
    congested := fun p hp => h.congested p (hsub p hp) }

/-- The NIC of the packet that leaves `blkQ` has no other packet in the network. -/
theorem Core.unblock_free {pkt : Packet} {rest : List Packet} (h : Core s Q H)
    (hblk : s.network.blkQ = pkt :: rest) :
    Free { s with network := { s.network with blkQ := rest } } pkt.src := by
  have hnodup := h.blkQ_nodup
  rw [hblk] at hnodup
  obtain ⟨hstate, htxp, -⟩ := h.congested pkt (by rw [hblk]; exact List.mem_cons_self)
  constructor
  · intro p hp hsrc
    obtain ⟨hsending, -⟩ := h.sending p hp
    rw [hsrc, hstate] at hsending
    cases hsending
  · intro p hp hsrc
    obtain ⟨-, hptxp, -⟩ := h.congested p (by rw [hblk]; exact List.mem_cons_of_mem _ hp)
    rw [hsrc, htxp] at hptxp
    cases hptxp
    exact (List.nodup_cons.mp hnodup).1 hp

/-- `NET_PKT_RETX`: the first packet of `blkQ` takes the credit that was returned. -/
theorem retx_spec {packetSize : Nat} {pkt : Packet} {rest : List Packet} (h : Core s Q H)
    (hsend : ∀ i, SendInv s i (s.nics i)) (hqueued : ∀ i, (s.nics i).queued = Q i)
    (hroom : s.network.capacity ≤ s.network.inflight + 1)
    (hblk : s.network.blkQ = pkt :: rest) :
    ∃ s', { s with network := { s.network with blkQ := rest } }.updateState packetSize pkt.src
      netPktRetx pkt = .ok s' ∧ Settled s s' Q H := by
  have hmem : pkt ∈ s.network.blkQ := by
    rw [hblk]
    exact List.mem_cons_self
  obtain ⟨hstate, htxp, hcnp⟩ := h.congested pkt hmem
  have halive := h.alive pkt (List.mem_append_right _ hmem)
  have hnodup := h.blkQ_nodup
  rw [hblk] at hnodup
  have hcongest := hsend pkt.src
  unfold SendInv at hcongest
  simp only [hstate] at hcongest
  obtain ⟨hsth, p, htxp', htxm, -, -⟩ := hcongest
  obtain rfl : pkt = p := Option.some.inj (htxp.symm.trans htxp')
  generalize hs₁ : ({ s with network := { s.network with blkQ := rest } } : Net) = s₁
  generalize hnic : ({ s.nics pkt.src with sendState := .txPacket } : NIC) = nic
  have hnics : s₁.nics = s.nics := by rw [← hs₁]
  have hcore : Core s₁ Q H := hs₁ ▸ h.unblock hblk
  have hfree : Free s₁ pkt.src := hs₁ ▸ h.unblock_free hblk
  have hnicQueued : nic.queued = (s.nics pkt.src).queued := by
    rw [← hnic]
    unfold NIC.queued
    rw [hstate, htxp]
  have hbusy : Busy (s₁.setNic pkt.src nic) pkt.src Q H := by
    refine ⟨hcore.setNic hfree ?_, ?_, hfree, ?_, ?_, ?_, ?_⟩
    · rw [← hnic]
      exact h.own pkt.src
    · rw [← hs₁]
      exact halive.1
    · intro i hi
      rw [nics_setNic_ne s₁ nic hi, hnics]
      refine (hsend i).of_subset ?_ ?_
      · intro p hp _
        rw [← hs₁]
        exact hp
      · intro p hp hsrc
        rw [← hs₁]
        rw [hblk] at hp
        rcases List.mem_cons.mp hp with rfl | hp
        · exact absurd hsrc.symm hi
        · exact hp
    · intro i hi
      rw [nics_setNic_ne s₁ nic hi, hnics]
      exact hqueued i
    · rw [nics_setNic_self, ← hnic]
      exact hsth
    · intro _
      rw [← hs₁]
      exact hroom
  have hpost : Posting (s₁.setNic pkt.src nic) pkt.src pkt Q := by
    refine ⟨?_, ?_, ?_, ?_, rfl, ?_, ?_⟩
    · rw [nics_setNic_self, ← hnic]
    · rw [nics_setNic_self, ← hnic]
      exact htxp
    · rw [nics_setNic_self, ← hnic]
      exact htxm
    · rw [nics_setNic_self, hnicQueued]
      exact hqueued pkt.src
    · rw [← hs₁]
      intro hp
      rcases List.mem_append.mp hp with hp | hp
      · exact h.blocked pkt hmem hp
      · exact (List.nodup_cons.mp hnodup).1 hp
    · rw [← hs₁]
      exact halive
  obtain ⟨s', hok, hsettled⟩ := @sendStateMachine_txPacket _ _ _ _ packetSize _ hbusy hpost
  have hframe : Settled s₁ s' Q H := hsettled.of_setNic (by rw [← hnic, hnics]; rfl)
  refine ⟨s', ?_, ?_⟩
  · unfold updateState
    rw [getNetDevice_eq (s := s₁) (by rw [← hs₁]; exact halive.1), ok_bind, hnics,
      notify_retx htxp hcnp hstate, ok_bind, hnic]
    exact hok
  · rw [← hs₁] at hframe
    exact ⟨hframe.core, hframe.queued, hframe.send, hframe.full, hframe.rx,
      hframe.netTraversed, hframe.accepted, hframe.txDone⟩

/-- `NET_PKT_RXDONE`: the credit of a received packet is returned. -/
theorem networkNotify_spec {packetSize : Nat} {pkt : Packet} {rest : List Packet}
    (h : Core s Q H) (hsend : ∀ i, SendInv s i (s.nics i)) (hfull : Full s)
    (hqueued : ∀ i, (s.nics i).queued = Q i) (hH : H n = pkt :: rest) :
    ∃ s', { s with accepted := s.accepted.erase pkt }.networkNotify packetSize netPktRxDone
        none = .ok s' ∧
      Settled { s with
        accepted := s.accepted.erase pkt
        network := { s.network with inflight := s.network.inflight - 1 } } s' Q
        (fun i => if i = n then rest else H i) := by
  have hacc : pkt ∈ s.accepted := (h.held n pkt (by rw [hH]; exact List.mem_cons_self)).2.1
  have hpos : 0 < s.network.inflight := by
    rw [h.inflight_eq]
    exact List.length_pos_of_mem hacc
  have hsub : sub64 s.network.inflight 1 = s.network.inflight - 1 := by
    have hle := h.inflight_le
    have hlt := h.capacity_lt
    exact sub64_eq (by omega) hpos
  have hcore := h.report hH
  unfold networkNotify
  rw [check_true ⟨rfl, rfl⟩, ok_bind]
  generalize sub64 s.network.inflight 1 = inflight at hsub ⊢
  subst hsub
  dsimp only
  split
  · -- nobody waits for the credit
    rename_i hblk
    have hsame : ∀ i, ((s.nics i).queued).Sublist (Q i) := fun i => by rw [hqueued i]
    refine ⟨_, rfl, hcore.mono hsame, hsame, ?_, fun hne => absurd hblk hne, fun _ => rfl, rfl,
      fun _ hp => hp, fun _ hp => Or.inl hp⟩
    exact fun i => (hsend i).of_subset (fun _ hp _ => hp) (fun _ hp _ => hp)
  · rename_i first others hblk
    have hfull := hfull (by rw [hblk]; exact List.cons_ne_nil _ _)
    apply retx_spec hcore
    · exact fun i => (hsend i).of_subset (fun _ hp _ => hp) (fun _ hp _ => hp)
    · exact hqueued
    · show s.network.capacity ≤ s.network.inflight - 1 + 1
      omega
    · exact hblk

/-- Delivering a message that no NIC has still to cut. -/
theorem Core.deliver (h : Core s Q H) {m : Nat} (hm : ∀ i, m ∉ Q i) :
    Core (s.deliver n m) Q H := by
  have hcore := h.setMsg hm (s.msgs m).reverseChannel
  exact { hcore with }

/-- The receive thread runs when a packet is received. -/
theorem rxDone_spec {packetSize : Nat} {pkt : Packet} {rest : List Packet}
    (h : Core s (fun i => (s.nics i).queued) H) (hsend : ∀ i, SendInv s i (s.nics i))
    (hfull : Full s) (hrecv : ∀ i, i ≠ n → (s.nics i).RecvInv)
    (hheld : ∀ i, i ≠ n → (s.nics i).held = H i) (hrth : (s.nics n).rth = false)
    (hstate : (s.nics n).recvState = .rxDone) (hrxp : (s.nics n).rxp = some pkt)
    (hinQ : (s.nics n).inQ = rest) (hH : H n = pkt :: rest) :
    ∃ s', s.recvStateMachine packetSize n = .ok s' ∧ Inv s' := by
  have hacc := (h.held n pkt (by rw [hH]; exact List.mem_cons_self)).2.1
  have hdata := (h.alive pkt (List.mem_append_left _ hacc)).2.2.2
  obtain ⟨s₁, hok, hsettled⟩ :=
    @networkNotify_spec _ _ _ _ packetSize _ _ h hsend hfull (fun _ => rfl) hH
  generalize hs₂ : (if pkt.msg then s₁.deliver n pkt.data else s₁) = s₂
  have hnics : s₂.nics = s₁.nics := by
    rw [← hs₂]
    split <;> rfl
  have hcore : Core s₂ (fun i => (s₂.nics i).queued) (fun i => if i = n then rest else H i) := by
    rw [hnics, ← hs₂]
    split
    · rename_i hmsg
      exact hsettled.core.deliver fun i hi => hdata hmsg i ((hsettled.queued i).subset hi)
    · exact hsettled.core
  have hnetwork : s₂.network = s₁.network ∧ s₂.txDone = s₁.txDone := by
    rw [← hs₂]
    split <;> exact ⟨rfl, rfl⟩
  have hrx : ∀ i, (s₂.nics i).rx = (s.nics i).rx := by
    intro i
    rw [hnics]
    exact hsettled.rx i
  -- the NIC takes the next packet
  generalize hnic : ({ s₂.nics n with recvState := .rxPacket } : NIC) = nic
  have htx : nic.tx = (s₂.nics n).tx := by rw [← hnic]; rfl
  have hsend₂ : ∀ i, SendInv s₂ i (s₂.nics i) := by
    intro i
    rw [hnics]
    apply (hsettled.send i).of_subset
    · intro p hp _
      rwa [hnetwork.2]
    · intro p hp _
      rwa [hnetwork.1]
  have hself := hrx n
  simp only [NIC.rx, Prod.mk.injEq] at hself
  obtain ⟨s', hok', hinv⟩ := rxPacket_spec (n := n) (hcore.setNic_tx htx)
    (SendInv.setNic_tx hsend₂ htx) (by
      show s₂.network.blkQ ≠ [] → s₂.network.inflight = s₂.network.capacity
      rw [hnetwork.1]
      exact hsettled.full)
    (by
      intro i hi
      rw [nics_setNic_ne s₂ nic hi]
      exact (hrecv i hi).of_rx (hrx i))
    (by
      intro i hi
      rw [nics_setNic_ne s₂ nic hi, if_neg hi, ← hheld i hi]
      exact NIC.held_eq_of_rx (hrx i))
    (by
      rw [nics_setNic_self, ← hnic]
      exact hself.2.2.2.trans hrth)
    (by
      rw [nics_setNic_self, if_pos rfl, ← hnic]
      exact hself.2.1.trans hinQ)
  refine ⟨s', ?_, hinv⟩
  rw [recvStateMachine_rxDone hstate hrxp, hok, ok_bind, hs₂, hnic]
  exact hok'

/-- The receive thread runs. -/
theorem rth_spec {packetSize : Nat} (h : Inv s) (hrth : (s.nics n).rth = true) :
    ∃ s', s.fire packetSize (.rth n) = .ok s' ∧ Inv s' := by
  generalize hnic : ({ s.nics n with rth := false } : NIC) = nic
  have htx : nic.tx = (s.nics n).tx := by rw [← hnic]; rfl
  have hcore := h.core.setNic_tx htx
  have hsend := SendInv.setNic_tx h.send htx
  have hrecv : ∀ i, i ≠ n → ((s.setNic n nic).nics i).RecvInv := by
    intro i hi
    rw [nics_setNic_ne s nic hi]
    exact h.recv i
  have hheld : ∀ i, i ≠ n → ((s.setNic n nic).nics i).held = (s.nics i).held := by
    intro i hi
    rw [nics_setNic_ne s nic hi]
  have hself : (s.setNic n nic).nics n = nic := nics_setNic_self s n nic
  have hnrth : ((s.setNic n nic).nics n).rth = false := by rw [hself, ← hnic]
  have hstate : ((s.setNic n nic).nics n).recvState = (s.nics n).recvState := by
    rw [hself, ← hnic]
  have hinQ : ((s.setNic n nic).nics n).inQ = (s.nics n).inQ := by rw [hself, ← hnic]
  have hrx := h.recv n
  unfold NIC.RecvInv at hrx
  show ∃ s', (s.setNic n { s.nics n with rth := false }).recvStateMachine packetSize n = .ok s' ∧ _
  rw [hnic]
  cases hcase : (s.nics n).recvState with
  | start =>
      have hnheld : (s.nics n).held = (s.nics n).inQ := by
        unfold NIC.held
        rw [hcase]
        rfl
      refine ⟨(s.setNic n nic).setNic n { nic with recvState := .idle }, ?_,
        Inv.of_setNic hcore hsend h.full hrecv hheld (by rw [hself]; rfl) ?_ ?_⟩
      · rw [recvStateMachine_start (hstate.trans hcase), hself]
      · show nic.rth = false
        rw [← hnic]
      · rw [hnheld, ← hnic]
        rfl
  | rxPacket =>
      have hnheld : (s.nics n).held = (s.nics n).inQ := by
        unfold NIC.held
        rw [hcase]
        rfl
      obtain ⟨s', hok, hinv⟩ := rxPacket_spec hcore hsend h.full hrecv hheld hnrth
        (hinQ.trans hnheld.symm)
      exact ⟨s', (recvStateMachine_rxPacket (hstate.trans hcase)).trans hok, hinv⟩
  | rxDone =>
      simp only [hcase] at hrx
      obtain ⟨pkt, hrxp⟩ := Option.isSome_iff_exists.mp hrx.2
      have hnheld : (s.nics n).held = pkt :: (s.nics n).inQ := by
        unfold NIC.held
        rw [hcase, hrxp]
        rfl
      refine rxDone_spec hcore hsend h.full hrecv hheld hnrth (hstate.trans hcase) ?_ hinQ hnheld
      rw [hself, ← hnic]
      exact hrxp
  | idle =>
      simp only [hcase] at hrx
      rw [hrx] at hrth
      cases hrth
  | last =>
      simp only [hcase] at hrx

/-! ### Sending a message -/

/-- The message is still being sent: a NIC has packets of it to cut, or its last packet is in
the network or at the receiving NIC. -/
def InTransit (s : Net) (m : Nat) : Prop :=
  (∃ i, m ∈ (s.nics i).queued) ∨
    ∃ p ∈ s.accepted ++ s.network.blkQ, p.msg = true ∧ p.data = m

/-- A send is in order: the message is not of the type of the latency test, the NIC is the one
at its sending end, it goes to a NIC, and it is not still being sent. -/
def SendOk (s : Net) : Event → Prop
  | .send n m msg => msg.type ≠ .latency ∧ msg.sender = n ∧ s.IsNid msg.receiver ∧
      ¬ s.InTransit m
  | _ => True

/-- A message at the end of the queue of a NIC. -/
theorem Core.enqueue {m : Nat} (h : Core s Q H) (hsender : (s.msgs m).sender = n)
    (hreceiver : s.IsNid (s.msgs m).receiver) (hnew : ∀ i, m ∉ Q i)
    (hlast : ∀ p ∈ s.accepted ++ s.network.blkQ, p.msg = true → p.data ≠ m) :
    Core s (fun i => if i = n then Q i ++ [m] else Q i) H := by
  have hmem : ∀ i k, k ∈ (if i = n then Q i ++ [m] else Q i) → k ∈ Q i ∨ (k = m ∧ i = n) := by
    intro i k hk
    split at hk
    · rename_i hi
      rcases List.mem_append.mp hk with hk | hk
      · exact Or.inl hk
      · exact Or.inr ⟨List.mem_singleton.mp hk, hi⟩
    · exact Or.inl hk
  exact { h with
    alive := by
      intro p hp
      obtain ⟨hsrc, hdst, haddr, hdata⟩ := h.alive p hp
      refine ⟨hsrc, hdst, haddr, ?_⟩
      intro hmsg i hi
      rcases hmem i p.data hi with hi | ⟨hi, -⟩
      · exact hdata hmsg i hi
      · exact hlast p hp hmsg hi
    queue_nodup := by
      intro i
      split
      · exact (List.perm_append_singleton m (Q i)).nodup_iff.mpr
          (List.nodup_cons.mpr ⟨hnew i, h.queue_nodup i⟩)
      · exact h.queue_nodup i
    queue := by
      intro i k hk
      rcases hmem i k hk with hk | ⟨rfl, rfl⟩
      · exact h.queue i k hk
      · exact ⟨hsender, hreceiver⟩ }

/-- A node sends a message. -/
theorem send_spec {packetSize m : Nat} {msg : Message} (h : Inv s) (hsender : msg.sender = n)
    (hreceiver : s.IsNid msg.receiver) (htransit : ¬ s.InTransit m) :
    ∃ s', s.fire packetSize (.send n m msg) = .ok s' ∧ Inv s' := by
  have hnew : ∀ i, m ∉ (s.nics i).queued := fun i hi => htransit (Or.inl ⟨i, hi⟩)
  have hcore := (h.core.setMsg hnew msg).enqueue (n := n) (m := m)
    (by
      show (if m = m then msg else s.msgs m).sender = n
      rw [if_pos rfl]
      exact hsender)
    (by
      show s.IsNid (if m = m then msg else s.msgs m).receiver
      rw [if_pos rfl]
      exact hreceiver)
    hnew
    (fun p hp hmsg hdata => htransit (Or.inr ⟨p, hp, hmsg, hdata⟩))
  generalize hs₁ : s.setMsg m msg = s₁ at hcore
  have hnics : s₁.nics = s.nics := by rw [← hs₁]; rfl
  have hsend := h.send n
  -- every branch of `NIC::Send` puts the message at the end of `msgQ`
  have hstep : ∀ nic : NIC, nic.queued = (s.nics n).queued ++ [m] →
      nic.rx = (s.nics n).rx → SendInv s n nic →
      Core (s₁.setNic n nic) (fun i => if i = n then (s.nics i).queued ++ [m] else
        (s.nics i).queued) (fun i => (s.nics i).held) → Inv (s₁.setNic n nic) := by
    intro nic hqueued hrx hsendNic hcoreNic
    have hQ : (fun i => ((s₁.setNic n nic).nics i).queued) =
        fun i => if i = n then (s.nics i).queued ++ [m] else (s.nics i).queued := by
      funext i
      by_cases hi : i = n
      · rw [if_pos hi, hi, nics_setNic_self, hqueued]
      · rw [if_neg hi, nics_setNic_ne s₁ nic hi, hnics]
    have hnicsRx : ∀ i, ((s₁.setNic n nic).nics i).rx = (s.nics i).rx := by
      intro i
      by_cases hi : i = n
      · rw [hi, nics_setNic_self, hrx]
      · rw [nics_setNic_ne s₁ nic hi, hnics]
    have hH : (fun i => ((s₁.setNic n nic).nics i).held) = fun i => (s.nics i).held :=
      funext fun i => NIC.held_eq_of_rx (hnicsRx i)
    refine ⟨?_, ?_, fun i => (h.recv i).of_rx (hnicsRx i), ?_⟩
    · rw [hQ, hH]
      exact hcoreNic
    · intro i
      rw [← hs₁]
      by_cases hi : i = n
      · rw [hi, nics_setNic_self]
        exact hsendNic.of_subset (fun _ hp _ => hp) (fun _ hp _ => hp)
      · rw [nics_setNic_ne _ nic hi]
        exact (h.send i).of_subset (fun _ hp _ => hp) (fun _ hp _ => hp)
    · rw [← hs₁]
      exact h.full
  show ∃ s', (s.setMsg m msg).send n m = .ok s' ∧ Inv s'
  rw [hs₁]
  unfold send
  rw [hnics]
  dsimp only
  by_cases hidle : (s.nics n).sendState = .idle
  · have hfree : Free s n := by
      apply h.core.free <;> rw [hidle] <;> decide
    unfold SendInv at hsend
    simp only [hidle] at hsend
    rw [if_pos hidle, check_true hsend, ok_bind]
    refine ⟨_, rfl, hstep _ ?_ rfl rfl (hcore.setNic (by rw [← hs₁]; exact hfree) (h.core.own n))⟩
    unfold NIC.queued
    rw [hidle]
    rfl
  · rw [if_neg hidle]
    by_cases hstart : (s.nics n).sendState = .start
    · have hfree : Free s n := by
        apply h.core.free <;> rw [hstart] <;> decide
      unfold SendInv at hsend
      simp only [hstart] at hsend
      rw [if_pos hstart]
      refine ⟨_, rfl, hstep _ ?_ rfl hsend
        (hcore.setNic (by rw [← hs₁]; exact hfree) (h.core.own n))⟩
      unfold NIC.queued
      rw [hstart]
      rfl
    · rw [if_neg hstart]
      refine ⟨_, rfl, hstep _ ?_ rfl hsend (hcore.setNic_rx ?_ ?_ ?_)⟩
      · unfold NIC.queued
        exact (List.append_assoc _ _ _).symm
      · rw [hnics]
      · rw [hnics]
      · rw [hnics]

/-! ### Runs -/

/-- An event that is enabled, and in order if it is a send, runs to its end and keeps the
invariant. -/
theorem fire_spec {packetSize : Nat} {e : Event} (h : Inv s) (he : s.Enabled e)
    (hok : s.SendOk e) : ∃ s', s.fire packetSize e = .ok s' ∧ Inv s' := by
  cases e with
  | send n m msg => exact send_spec h hok.2.1 hok.2.2.1 hok.2.2.2
  | sth n => exact sth_spec h he.1 he.2
  | rth n => exact rth_spec h he.2
  | txDone pkt => exact txDone_spec h he
  | netTraversed pkt => exact netTraversed_spec h he

/-- The steps whose sends are in order. -/
def OrderlyStep (packetSize : Nat) (s : Net) (e : Event) (s' : Net) : Prop :=
  s.SendOk e ∧ Step packetSize s e s'

/-- The invariant is kept by every orderly step. -/
theorem Inv.step {packetSize : Nat} {e : Event} (h : Inv s)
    (hstep : OrderlyStep packetSize s e s') : Inv s' := by
  obtain ⟨hok, he, hfire⟩ := hstep
  obtain ⟨t, hfire', hinv⟩ := @fire_spec _ packetSize _ h he hok
  rw [hfire] at hfire'
  cases hfire'
  exact hinv

/-- Connecting NICs gives an empty network with a 64-bit capacity. -/
theorem connect_spec (ns : List Nat) (w : Network) (hcap : w.capacity < 2 ^ 64) :
    (ns.foldl Network.connect w).inflight = w.inflight ∧
    (ns.foldl Network.connect w).blkQ = w.blkQ ∧
    (ns.foldl Network.connect w).capacity < 2 ^ 64 := by
  induction ns generalizing w with
  | nil => exact ⟨rfl, rfl, hcap⟩
  | cons n ns ih => exact ih (w.connect n) (Nat.mod_lt _ (by decide))

/-- The invariant holds at the start. -/
theorem inv_start (num n : Nat) (msgs : Nat → Message) : Inv (start num n msgs) := by
  obtain ⟨hinflight, hblkQ, hcapacity⟩ :=
    connect_spec (List.replicate (num - 1) n) ⟨0, 0, 0, []⟩ (by decide)
  have hnone : ∀ p, p ∉ (start num n msgs).network.blkQ := by
    intro p hp
    have hp : p ∈ ((List.replicate (num - 1) n).foldl Network.connect ⟨0, 0, 0, []⟩).blkQ := hp
    rw [hblkQ] at hp
    cases hp
  refine ⟨⟨hcapacity, hinflight, ?_, List.nodup_nil, ?_, ?_, List.nodup_nil, ?_, ?_, ?_, ?_, ?_,
    ?_, ?_, ?_, ?_⟩, fun _ => rfl, fun _ => rfl, fun h => absurd hblkQ h⟩
  · show (start num n msgs).network.inflight ≤ _
    rw [show (start num n msgs).network.inflight = 0 from hinflight]
    exact Nat.zero_le _
  · rw [show (start num n msgs).network.blkQ = [] from hblkQ]
    exact List.nodup_nil
  · exact fun p hp => absurd hp (hnone p)
  · intro p hp
    cases hp
  · exact fun _ => List.nodup_nil
  · intro i p hp
    cases hp
  · intro p hp
    exact absurd hp (hnone p)
  · exact fun _ => List.nodup_nil
  · intro i m hm
    cases hm
  · intro p hp
    cases hp
  · exact fun p hp => absurd hp (hnone p)
  · intro i p hp
    cases hp

/-- Flow control: the credits in use are the packets that were accepted and not reported as
received, a NIC is congested exactly when its packet is in `blkQ` once, and packets wait only
when all credits are in use. -/
structure FlowControl (s : Net) : Prop where
  inflight_le : s.network.inflight ≤ s.network.capacity
  inflight_eq : s.network.inflight = s.accepted.length
  accepted_nodup : s.accepted.Nodup
  congest_iff : ∀ n, (s.nics n).sendState = .congest ↔
    ∃ p, (s.nics n).txp = some p ∧ s.network.blkQ.count p = 1
  full : s.network.blkQ ≠ [] → s.network.inflight = s.network.capacity

/-- The invariant gives flow control. -/
theorem Inv.flowControl (h : Inv s) : FlowControl s := by
  refine ⟨h.core.inflight_le, h.core.inflight_eq, h.core.accepted_nodup, ?_, h.full⟩
  intro n
  constructor
  · intro hstate
    have hsend := h.send n
    unfold SendInv at hsend
    simp only [hstate] at hsend
    obtain ⟨-, p, htxp, -, -, hp⟩ := hsend
    exact ⟨p, htxp, h.core.blkQ_nodup.count.trans (if_pos hp)⟩
  · rintro ⟨p, htxp, hcount⟩
    have hp : p ∈ s.network.blkQ := List.count_pos_iff.mp (by omega)
    have hstate := (h.core.congested p hp).1
    rwa [h.core.own n p htxp] at hstate

/-- In every run of a fixed set of NICs whose sends are in order, flow control holds in the
state reached, and no event that may come next fails an assertion. -/
theorem flow_control (num n packetSize : Nat) (msgs : Nat → Message) (es : List Event) (s : Net)
    (hrun : Run (OrderlyStep packetSize) (start num n msgs) es s) :
    FlowControl s ∧
      ∀ e, s.Enabled e → s.SendOk e → ∃ s', s.fire packetSize e = .ok s' := by
  have hinv : Inv s := hrun.invariant (fun _ _ _ h hstep => h.step hstep) (inv_start num n msgs)
  refine ⟨hinv.flowControl, fun e he hok => ?_⟩
  obtain ⟨s', hfire, -⟩ := @fire_spec _ packetSize _ hinv he hok
  exact ⟨s', hfire⟩

/-- A request of the network test from the NIC 1 to the server with the NIC 2. -/
def readNetRequest : Message := ⟨.readNet, 1, 2, false, false, 1024, 1024, 0, 4094⟩

/-- The request is sent, and the packet is accepted. -/
theorem flow_control_send : ∃ s,
    Run (OrderlyStep 4096) (start 3 8 fun _ => readNetRequest)
      [.send 1 0 readNetRequest, .sth 1] s ∧
    FlowControl s ∧ ∀ e, s.Enabled e → s.SendOk e → ∃ s', s.fire 4096 e = .ok s' := by
  have hidle : ¬ (start 3 8 fun _ => readNetRequest).InTransit 0 := by
    rintro (⟨i, hi⟩ | ⟨p, hp, -⟩)
    · cases hi
    · cases hp
  have hrun : ∃ s, Run (OrderlyStep 4096) (start 3 8 fun _ => readNetRequest)
      [.send 1 0 readNetRequest, .sth 1] s :=
    ⟨_, .cons ⟨⟨by decide, rfl, by decide, hidle⟩, by decide, rfl⟩ <|
      .cons ⟨trivial, by decide, rfl⟩ (.nil _)⟩
  obtain ⟨s, hrun⟩ := hrun
  exact ⟨s, hrun, flow_control 3 8 4096 _ _ s hrun⟩

/-- In the network test the server reverses a request that the NIC has reversed already, so the
reply is sent from the wrong end. When its first packet is sent, the NIC of the client is
notified, and its assertion fails. -/
theorem readNet_nicNotify : ∃ t s reply pkt,
    Run (Step 4096) (start 3 8 fun _ => readNetRequest)
      [.sth 1, .sth 2, .rth 1, .rth 2, .send 1 0 readNetRequest, .sth 1,
        .txDone ⟨0, 0, true, 1024, 1, 2, 0⟩, .netTraversed ⟨0, 0, true, 1024, 1, 2, 0⟩,
        .rth 2, .rth 2] t ∧
    t.outputs = [.deliver 2 0] ∧
    Peer.processNetReadWrite (t.msgs 0) = some reply ∧
    Run (Step 4096) t [.send 2 0 reply, .sth 2] s ∧
    s.Enabled (.txDone pkt) ∧ s.fire 4096 (.txDone pkt) = .error .nicNotify :=
  ⟨_, _, _, ⟨1, 1, true, 4094, 1, 2, 0⟩,
    .cons ⟨by decide, rfl⟩ <| .cons ⟨by decide, rfl⟩ <| .cons ⟨by decide, rfl⟩ <|
    .cons ⟨by decide, rfl⟩ <| .cons ⟨by decide, rfl⟩ <| .cons ⟨by decide, rfl⟩ <|
    .cons ⟨by decide, rfl⟩ <| .cons ⟨by decide, rfl⟩ <| .cons ⟨by decide, rfl⟩ <|
    .cons ⟨by decide, rfl⟩ (.nil _), rfl, rfl,
    .cons ⟨by decide, rfl⟩ <| .cons ⟨by decide, rfl⟩ (.nil _), by decide, rfl⟩

end Net

end LustreSimulator
