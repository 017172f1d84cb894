import LustreSimulator.Lib.Courier
import LustreSimulator.Proofs.Network

/-!
# `LustreSimulator.Proofs.NetCourier`: the network carries messages in packets

The network is a courier: a message is a load and its packets are the parts. A packet is posted
while it waits for `TxDone` or in `blkQ`, it is on the way while it waits for `NetTraversed`, and
then it is in the queue of its NIC.

A handler ends in at most one call of `GetPacket`. `Cutting` says what that call changes, and
`Quiet` is a call that cuts nothing. `carried` puts the handlers together: every step of the network
is one step of the courier, or none, or two when a packet leaves and the next one is cut.
-/

set_option autoImplicit false

namespace LustreSimulator.Net

open Lib

variable {s s' : Net} {n m packetSize : Nat} {pkt : Packet}

/-! ### What a call changes -/

/-- The packet waits for `TxDone` or in `blkQ`. -/
def Posted (s : Net) (pkt : Packet) : Prop := pkt ∈ s.txDone ∨ pkt ∈ s.network.blkQ

/-- The packets that are in the network. -/
def packets (s : Net) : List Packet := s.accepted ++ s.network.blkQ

/-- A call that takes no new packet. -/
structure Quiet (s s' : Net) : Prop where
  posted : ∀ q, s'.Posted q ↔ s.Posted q
  packets : ∀ q ∈ s'.packets, q ∈ s.packets
  msgs : s'.msgs = s.msgs
  netTraversed : s'.netTraversed = s.netTraversed
  nextAddr : s'.nextAddr = s.nextAddr
  outputs : s'.outputs = s.outputs
  queued : ∀ i, (s'.nics i).queued = (s.nics i).queued
  rx : ∀ i, (s'.nics i).rx = (s.nics i).rx

/-- A call that hands the packet to the network. -/
structure Taking (s s' : Net) (pkt : Packet) : Prop where
  posted : ∀ q, s'.Posted q ↔ q = pkt ∨ s.Posted q
  packets : ∃ l r, s'.packets = l ++ pkt :: r ∧ s.packets = l ++ r
  msgs : s'.msgs = s.msgs
  netTraversed : s'.netTraversed = s.netTraversed
  nextAddr : s'.nextAddr = s.nextAddr
  outputs : s'.outputs = s.outputs
  queued : ∀ i, (s'.nics i).queued = (s.nics i).queued
  rx : ∀ i, (s'.nics i).rx = (s.nics i).rx

/-- Replacing the sending side of a NIC that keeps its messages is quiet. -/
theorem quiet_setNic {nic : NIC} (hqueued : nic.queued = (s.nics n).queued)
    (hrx : nic.rx = (s.nics n).rx) : Quiet s (s.setNic n nic) := by
  refine ⟨fun _ => Iff.rfl, fun _ hq => hq, rfl, rfl, rfl, rfl, fun i => ?_, fun i => ?_⟩
  · by_cases hi : i = n
    · rw [hi, nics_setNic_self, hqueued]
    · rw [nics_setNic_ne s nic hi]
  · by_cases hi : i = n
    · rw [hi, nics_setNic_self, hrx]
    · rw [nics_setNic_ne s nic hi]

/-- `Network::Recv` takes the packet, in either branch. -/
theorem recv_taking (h : s.recv pkt = .ok s') (htxp : (s.nics pkt.src).txp = some pkt)
    (hstate : (s.nics pkt.src).sendState = .txPacket) : Taking s s' pkt := by
  unfold recv at h
  split at h
  · obtain ⟨u, -, h⟩ := bind_eq_ok.mp h
    cases h
    refine ⟨fun q => ?_, ⟨s.accepted, s.network.blkQ, ?_, rfl⟩, rfl, rfl, rfl, rfl, fun _ => rfl,
      fun _ => rfl⟩
    · unfold Posted
      rw [List.mem_append, List.mem_singleton]
      tauto
    · show s.accepted ++ [pkt] ++ s.network.blkQ = _
      rw [List.append_assoc]
      rfl
  · dsimp only at h
    obtain ⟨nic, hnic, h⟩ := bind_eq_ok.mp h
    unfold getNetDevice at hnic
    obtain ⟨u, -, hnic⟩ := bind_eq_ok.mp hnic
    cases hnic
    dsimp only at h
    rw [notify_blk htxp hstate, ok_bind] at h
    cases h
    have hquiet : Quiet s (s.setNic pkt.src
        { s.nics pkt.src with sendState := .congest, cnp := some pkt }) := by
      refine quiet_setNic ?_ rfl
      unfold NIC.queued
      rw [hstate, htxp]
    refine ⟨fun q => ?_, ⟨s.accepted ++ s.network.blkQ, [], ?_, (List.append_nil _).symm⟩, rfl, rfl,
      rfl, rfl, hquiet.queued, hquiet.rx⟩
    · unfold Posted
      show q ∈ s.txDone ∨ q ∈ s.network.blkQ ++ [pkt] ↔ _
      rw [List.mem_append, List.mem_singleton]
      tauto
    · exact (List.append_assoc _ _ _).symm

/-- A call of `GetPacket` for the message `m` of the NIC `n`, whose packet goes to the network. The
messages behind `m` are `rest`. -/
structure Cutting (s s' : Net) (packetSize n m : Nat) (rest : List Nat) : Prop where
  posted : ∀ q, s'.Posted q ↔
    q = ((s.msgs m).getPacket packetSize m s.nextAddr).1 ∨ s.Posted q
  packets : ∃ l r, s'.packets = l ++ ((s.msgs m).getPacket packetSize m s.nextAddr).1 :: r ∧
    s.packets = l ++ r
  msgs : s'.msgs =
    fun i => if i = m then ((s.msgs m).getPacket packetSize m s.nextAddr).2 else s.msgs i
  netTraversed : s'.netTraversed = s.netTraversed
  nextAddr : s'.nextAddr = s.nextAddr + 1
  outputs : s'.outputs = s.outputs
  queued : (s'.nics n).queued =
    if ((s.msgs m).getPacket packetSize m s.nextAddr).1.msg then rest else m :: rest
  others : ∀ i, i ≠ n → (s'.nics i).queued = (s.nics i).queued
  rx : ∀ i, (s'.nics i).rx = (s.nics i).rx

/-- The case `nic_SendPostPacketState` cuts a packet from the current message. -/
theorem postPacket_cutting (h : s.postPacket packetSize n = .ok s')
    (htxm : (s.nics n).txm = some m) (hsender : (s.msgs m).sender = n) :
    Cutting s s' packetSize n m (s.nics n).msgQ := by
  unfold postPacket at h
  rw [htxm] at h
  dsimp only at h
  have hsrc : ((s.msgs m).getPacket packetSize m s.nextAddr).1.src = n := hsender
  generalize hr : (s.msgs m).getPacket packetSize m s.nextAddr = r at h hsrc
  obtain ⟨pkt, msg⟩ := r
  have hnic : ∀ t : Net, (t.setNic n { s.nics n with txp := some pkt, sendState := .txPacket }).nics
      pkt.src = { s.nics n with txp := some pkt, sendState := .txPacket } := by
    intro t
    rw [show pkt.src = n from hsrc, nics_setNic_self]
  have htaking := recv_taking h (by rw [hnic]) (by rw [hnic])
  refine ⟨by rw [hr]; exact htaking.posted, by rw [hr]; exact htaking.packets,
    by rw [hr]; exact htaking.msgs, htaking.netTraversed, htaking.nextAddr, htaking.outputs, ?_,
    fun i hi => ?_, fun i => ?_⟩
  · rw [htaking.queued n, nics_setNic_self, hr]
    unfold NIC.queued
    dsimp only
    rw [htxm]
    split
    · rfl
    · rfl
  · rw [htaking.queued i, nics_setNic_ne _ _ hi]
    rfl
  · rw [htaking.rx i]
    by_cases hi : i = n
    · rw [hi, nics_setNic_self]
      rfl
    · rw [nics_setNic_ne _ _ hi]
      rfl

/-- A call that replaced the sending side of the NIC before. -/
theorem Cutting.of_setNic {nic : NIC} {rest : List Nat}
    (h : Cutting (s.setNic n nic) s' packetSize n m rest) (hrx : nic.rx = (s.nics n).rx) :
    Cutting s s' packetSize n m rest := by
  refine ⟨h.posted, h.packets, h.msgs, h.netTraversed, h.nextAddr, h.outputs, h.queued,
    fun i hi => ?_, fun i => ?_⟩
  · rw [h.others i hi, nics_setNic_ne _ _ hi]
  · rw [h.rx i]
    by_cases hi : i = n
    · rw [hi, nics_setNic_self, hrx]
    · rw [nics_setNic_ne _ _ hi]

/-- `SendStateMachine` cuts a packet from the first message of the NIC, or nothing. -/
def Served (s s' : Net) (packetSize n : Nat) : Prop :=
  Quiet s s' ∨ ∃ m rest, (s.nics n).queued = m :: rest ∧ Cutting s s' packetSize n m rest

/-- `SendStateMachine` of a NIC that has no packet in the network. -/
theorem sendStateMachine_served (h : s.sendStateMachine packetSize n = .ok s')
    (hstate : (s.nics n).sendState ≠ .txPacket) (hsender : ∀ k ∈ (s.nics n).queued,
      (s.msgs k).sender = n) : Served s s' packetSize n := by
  have hqueued : ∀ m rest, (s.nics n).queued = m :: rest → (s.msgs m).sender = n := by
    intro m rest hq
    exact hsender m (by rw [hq]; exact List.mem_cons_self)
  unfold sendStateMachine at h
  dsimp only at h
  split at h
  · rename_i hpost
    have hmsgQ : (s.nics n).queued = (s.nics n).msgQ := by
      unfold NIC.queued
      rw [hpost]
      rfl
    split at h
    · cases h
      refine .inl (quiet_setNic ?_ rfl)
      rw [hmsgQ]
      rfl
    · rename_i m rest hcons
      rw [hcons] at hmsgQ
      have hcut := postPacket_cutting (m := m) h (by rw [nics_setNic_self]) (hqueued m rest hmsgQ)
      rw [nics_setNic_self] at hcut
      exact .inr ⟨m, rest, hmsgQ, hcut.of_setNic rfl⟩
  · rename_i hpost
    cases htxm : (s.nics n).txm with
    | none =>
        unfold postPacket at h
        rw [htxm] at h
        cases h
    | some m =>
        have hq : (s.nics n).queued = m :: (s.nics n).msgQ := by
          unfold NIC.queued
          rw [hpost, htxm]
          rfl
        exact .inr ⟨m, _, hq, postPacket_cutting h htxm (hqueued m _ hq)⟩
  · rename_i htx
    exact absurd htx hstate
  · rename_i hstart
    cases h
    refine .inl (quiet_setNic ?_ rfl)
    unfold NIC.queued
    rw [hstart]
  · cases h
    exact .inl ⟨fun _ => Iff.rfl, fun _ hq => hq, rfl, rfl, rfl, rfl, fun _ => rfl, fun _ => rfl⟩
  · cases h
    exact .inl ⟨fun _ => Iff.rfl, fun _ hq => hq, rfl, rfl, rfl, rfl, fun _ => rfl, fun _ => rfl⟩
  · cases h
    exact .inl ⟨fun _ => Iff.rfl, fun _ hq => hq, rfl, rfl, rfl, rfl, fun _ => rfl, fun _ => rfl⟩

/-! ### What an event changes -/

/-- The send thread cuts a packet, or nothing. -/
theorem sth_served (h : s.fire packetSize (.sth n) = .ok s') (hinv : Inv s)
    (hsth : (s.nics n).sth = true) : Served s s' packetSize n := by
  have hstate : (s.nics n).sendState ≠ .txPacket := by
    intro htx
    have hsend := hinv.send n
    unfold SendInv at hsend
    rw [htx] at hsend
    rw [hsend.1] at hsth
    cases hsth
  have hquiet : Quiet s (s.setNic n { s.nics n with sth := false }) := quiet_setNic rfl rfl
  have hserved := sendStateMachine_served h (by rw [nics_setNic_self]; exact hstate) (by
    rw [hquiet.queued n]
    exact fun k hk => (hinv.core.queue n k hk).1)
  rcases hserved with hnone | ⟨m, rest, hq, hcut⟩
  · exact .inl ⟨hnone.posted, hnone.packets, hnone.msgs, hnone.netTraversed, hnone.nextAddr,
      hnone.outputs, fun i => (hnone.queued i).trans (hquiet.queued i),
      fun i => (hnone.rx i).trans (hquiet.rx i)⟩
  · rw [hquiet.queued n] at hq
    exact .inr ⟨m, rest, hq, hcut.of_setNic rfl⟩

/-- `TxDone` lets the NIC of the packet cut the next one, and then the packet is on the way. -/
theorem txDone_served (h : s.fire packetSize (.txDone pkt) = .ok s') (hinv : Inv s)
    (hpkt : pkt ∈ s.txDone) : ∃ s₁, s' = { s₁ with netTraversed := s₁.netTraversed ++ [pkt] } ∧
      Served { s with txDone := s.txDone.erase pkt } s₁ packetSize pkt.src := by
  obtain ⟨hstate, htxp⟩ := hinv.core.sending pkt hpkt
  have hacc := hinv.core.armed pkt (List.mem_append_left _ hpkt)
  have hnid := (hinv.core.alive pkt (List.mem_append_left _ hacc)).1
  obtain ⟨s₁, hupdate, h⟩ := bind_eq_ok.mp h
  obtain ⟨u, -, h⟩ := bind_eq_ok.mp h
  cases h
  refine ⟨s₁, rfl, ?_⟩
  unfold updateState at hupdate
  rw [getNetDevice_eq (s := { s with txDone := s.txDone.erase pkt }) hnid, ok_bind,
    notify_txDone htxp hstate, ok_bind, if_pos rfl] at hupdate
  have hqueued : NIC.queued { s.nics pkt.src with
      sendState := if pkt.msg then .postMessage else .postPacket } = (s.nics pkt.src).queued := by
    by_cases hmsg : pkt.msg = true
    · simp [NIC.queued, hstate, htxp, hmsg]
    · simp [NIC.queued, hstate, htxp, hmsg]
  have hquiet : Quiet { s with txDone := s.txDone.erase pkt }
      ({ s with txDone := s.txDone.erase pkt }.setNic pkt.src { s.nics pkt.src with
        sendState := if pkt.msg then .postMessage else .postPacket }) := quiet_setNic hqueued rfl
  have hserved := sendStateMachine_served hupdate (by
    rw [nics_setNic_self]
    dsimp only
    split
    · decide
    · decide) (by
    rw [hquiet.queued pkt.src]
    exact fun k hk => (hinv.core.queue pkt.src k hk).1)
  rcases hserved with hnone | ⟨m, rest, hq, hcut⟩
  · exact .inl ⟨hnone.posted, hnone.packets, hnone.msgs, hnone.netTraversed, hnone.nextAddr,
      hnone.outputs, fun i => (hnone.queued i).trans (hquiet.queued i),
      fun i => (hnone.rx i).trans (hquiet.rx i)⟩
  · rw [hquiet.queued pkt.src] at hq
    exact .inr ⟨m, rest, hq, hcut.of_setNic rfl⟩

/-- The packet is at the end of the queue of its NIC. -/
structure Arriving (s s' : Net) (pkt : Packet) : Prop where
  posted : ∀ q, s'.Posted q ↔ s.Posted q
  packets : s'.packets = s.packets
  msgs : s'.msgs = s.msgs
  netTraversed : s'.netTraversed = s.netTraversed.erase pkt
  nextAddr : s'.nextAddr = s.nextAddr
  outputs : s'.outputs = s.outputs
  queued : ∀ i, (s'.nics i).queued = (s.nics i).queued
  held : ∀ i, (s'.nics i).held = if i = pkt.dst then (s.nics i).held ++ [pkt] else (s.nics i).held

/-- `NetTraversed` brings the packet to its NIC. -/
theorem netTraversed_arriving (h : s.fire packetSize (.netTraversed pkt) = .ok s') (hinv : Inv s) :
    Arriving s s' pkt := by
  have hrecv := hinv.recv pkt.dst
  -- every branch of `NIC::Recv` puts the packet at the end of `inQ`
  have hset : ∀ nic : NIC, nic.tx = (s.nics pkt.dst).tx →
      nic.held = (s.nics pkt.dst).held ++ [pkt] → Arriving s
        ({ s with netTraversed := s.netTraversed.erase pkt }.setNic pkt.dst nic) pkt := by
    intro nic htx hheld
    refine ⟨fun _ => Iff.rfl, rfl, rfl, rfl, rfl, rfl, fun i => ?_, fun i => ?_⟩
    · by_cases hi : i = pkt.dst
      · rw [hi, nics_setNic_self]
        exact NIC.queued_eq_of_tx htx
      · rw [nics_setNic_ne _ _ hi]
    · by_cases hi : i = pkt.dst
      · rw [if_pos hi, hi, nics_setNic_self, hheld]
      · rw [if_neg hi, nics_setNic_ne _ _ hi]
  obtain ⟨nic, -, h⟩ := bind_eq_ok.mp h
  unfold nicRecv at h
  dsimp only at h
  split at h
  · rename_i hidle
    obtain ⟨u, -, h⟩ := bind_eq_ok.mp h
    cases h
    refine hset _ rfl ?_
    unfold NIC.held
    rw [hidle]
    rfl
  · split at h
    · rename_i hstart
      cases h
      refine hset _ rfl ?_
      unfold NIC.held
      rw [hstart]
      rfl
    · cases h
      refine hset _ rfl ?_
      unfold NIC.held
      exact (List.append_assoc _ _ _).symm

/-- A node has sent the message. -/
structure Sending (s s' : Net) (n m : Nat) (msg : Message) : Prop where
  posted : ∀ q, s'.Posted q ↔ s.Posted q
  packets : s'.packets = s.packets
  msgs : s'.msgs = fun i => if i = m then msg else s.msgs i
  netTraversed : s'.netTraversed = s.netTraversed
  nextAddr : s'.nextAddr = s.nextAddr
  outputs : s'.outputs = s.outputs
  queued : ∀ i, (s'.nics i).queued = if i = n then (s.nics i).queued ++ [m] else (s.nics i).queued
  rx : ∀ i, (s'.nics i).rx = (s.nics i).rx

/-- `NIC::Send` puts the message at the end of the queue of the NIC. -/
theorem send_sending {msg : Message} (h : s.fire packetSize (.send n m msg) = .ok s') :
    Sending s s' n m msg := by
  have hset : ∀ nic : NIC, nic.queued = (s.nics n).queued ++ [m] → nic.rx = (s.nics n).rx →
      Sending s ((s.setMsg m msg).setNic n nic) n m msg := by
    intro nic hqueued hrx
    refine ⟨fun _ => Iff.rfl, rfl, rfl, rfl, rfl, rfl, fun i => ?_, fun i => ?_⟩
    · by_cases hi : i = n
      · rw [if_pos hi, hi, nics_setNic_self, hqueued]
      · rw [if_neg hi, nics_setNic_ne _ _ hi]
        rfl
    · by_cases hi : i = n
      · rw [hi, nics_setNic_self, hrx]
      · rw [nics_setNic_ne _ _ hi]
        rfl
  have h : (s.setMsg m msg).send n m = .ok s' := h
  unfold send at h
  dsimp only at h
  split at h
  · rename_i hidle
    obtain ⟨u, -, h⟩ := bind_eq_ok.mp h
    cases h
    refine hset _ ?_ rfl
    have hidle : (s.nics n).sendState = .idle := hidle
    unfold NIC.queued
    rw [hidle]
    rfl
  · split at h
    · rename_i hstart
      cases h
      refine hset _ ?_ rfl
      have hstart : (s.nics n).sendState = .start := hstart
      unfold NIC.queued
      rw [hstart]
      rfl
    · cases h
      refine hset _ ?_ rfl
      unfold NIC.queued
      exact (List.append_assoc _ _ _).symm

/-- A packet that was sent again is in the network still. -/
theorem retx_quiet {q : Packet} {others : List Packet} (hblk : s.network.blkQ = q :: others)
    (hcongested : (s.nics q.src).sendState = .congest ∧ (s.nics q.src).txp = some q ∧
      (s.nics q.src).cnp = some q) (hnid : s.IsNid q.src)
    (h : { s with network := { s.network with blkQ := others } }.updateState packetSize q.src
      netPktRetx q = .ok s') : Quiet s s' := by
  obtain ⟨hstate, htxp, hcnp⟩ := hcongested
  unfold updateState at h
  rw [getNetDevice_eq (s := { s with network := { s.network with blkQ := others } }) hnid, ok_bind,
    notify_retx htxp hcnp hstate, ok_bind, if_pos rfl] at h
  generalize hnic : ({ s.nics q.src with sendState := .txPacket } : NIC) = nic at h
  have hqueued : nic.queued = (s.nics q.src).queued := by
    rw [← hnic]
    unfold NIC.queued
    rw [hstate, htxp]
  have hquiet := quiet_setNic (s := { s with network := { s.network with blkQ := others } })
    (n := q.src) hqueued (by rw [← hnic]; rfl)
  have htxp' : nic.txp = some q := by rw [← hnic]; exact htxp
  have hstate' : nic.sendState = .txPacket := by rw [← hnic]
  unfold sendStateMachine at h
  rw [nics_setNic_self] at h
  dsimp only at h
  rw [htxp', hstate'] at h
  have htaking := recv_taking h (by rw [nics_setNic_self]; exact htxp')
    (by rw [nics_setNic_self]; exact hstate')
  refine ⟨fun i => ?_, fun i hi => ?_, htaking.msgs, htaking.netTraversed, htaking.nextAddr,
    htaking.outputs, fun i => (htaking.queued i).trans (hquiet.queued i),
    fun i => (htaking.rx i).trans (hquiet.rx i)⟩
  · rw [htaking.posted i]
    show i = q ∨ i ∈ s.txDone ∨ i ∈ others ↔ i ∈ s.txDone ∨ i ∈ s.network.blkQ
    rw [hblk, List.mem_cons]
    tauto
  · obtain ⟨l, r, hl, hr⟩ := htaking.packets
    have hr : s.accepted ++ others = l ++ r := hr
    rw [hl, List.mem_append, List.mem_cons] at hi
    show i ∈ s.accepted ++ s.network.blkQ
    rw [hblk, List.mem_append, List.mem_cons]
    have hin : i = q ∨ i ∈ s.accepted ++ others := by
      rw [hr, List.mem_append]
      tauto
    rw [List.mem_append] at hin
    tauto

/-- The NIC `n` has received the packet, and the last packet of a message brings the message. -/
structure Receiving (s s' : Net) (n : Nat) (pkt : Packet) : Prop where
  posted : ∀ q, s'.Posted q ↔ s.Posted q
  packets : ∀ q ∈ s'.packets, q ∈ s.packets
  msgs : s'.msgs = if pkt.msg then
    fun i => if i = pkt.data then (s.msgs pkt.data).reverseChannel else s.msgs i else s.msgs
  netTraversed : s'.netTraversed = s.netTraversed
  nextAddr : s'.nextAddr = s.nextAddr
  outputs : s'.outputs = s.outputs ++ if pkt.msg then
    (if (s.msgs pkt.data).nt then [.notify pkt.data] else []) ++
      [if (s.msgs pkt.data).type = .latency then .recv n pkt.data else .deliver n pkt.data] else []
  queued : ∀ i, (s'.nics i).queued = (s.nics i).queued
  before : (s.nics n).held = pkt :: (s'.nics n).held
  others : ∀ i, i ≠ n → (s'.nics i).held = (s.nics i).held

/-- A call that keeps the packets of all NICs. -/
structure Resting (s s' : Net) : Prop where
  posted : ∀ q, s'.Posted q ↔ s.Posted q
  packets : s'.packets = s.packets
  msgs : s'.msgs = s.msgs
  netTraversed : s'.netTraversed = s.netTraversed
  nextAddr : s'.nextAddr = s.nextAddr
  outputs : s'.outputs = s.outputs
  queued : ∀ i, (s'.nics i).queued = (s.nics i).queued
  held : ∀ i, (s'.nics i).held = (s.nics i).held

/-- Two such calls. -/
theorem Resting.trans {s₁ : Net} (h : Resting s s₁) (h' : Resting s₁ s') : Resting s s' :=
  ⟨fun q => (h'.posted q).trans (h.posted q), h'.packets.trans h.packets, h'.msgs.trans h.msgs,
    h'.netTraversed.trans h.netTraversed, h'.nextAddr.trans h.nextAddr, h'.outputs.trans h.outputs,
    fun i => (h'.queued i).trans (h.queued i), fun i => (h'.held i).trans (h.held i)⟩

/-- Replacing the receiving side of a NIC that keeps its packets. -/
theorem resting_setNic {nic : NIC} (htx : nic.tx = (s.nics n).tx)
    (hheld : nic.held = (s.nics n).held) : Resting s (s.setNic n nic) := by
  refine ⟨fun _ => Iff.rfl, rfl, rfl, rfl, rfl, rfl, fun i => ?_, fun i => ?_⟩
  · by_cases hi : i = n
    · rw [hi, nics_setNic_self, NIC.queued_eq_of_tx htx]
    · rw [nics_setNic_ne s nic hi]
  · by_cases hi : i = n
    · rw [hi, nics_setNic_self, hheld]
    · rw [nics_setNic_ne s nic hi]

/-- The case `nic_RecvRxPacketState` keeps the packets of the NIC. -/
theorem rxPacket_resting (h : s.rxPacket n = .ok s') (hstate : (s.nics n).recvState ≠ .rxDone) :
    Resting s s' := by
  have hheld : (s.nics n).held = (s.nics n).inQ := by
    unfold NIC.held
    rw [if_neg hstate]
    rfl
  unfold rxPacket at h
  dsimp only at h
  split at h
  · rename_i hnil
    cases h
    refine resting_setNic rfl ?_
    rw [hheld]
    rfl
  · rename_i pkt rest hcons
    obtain ⟨u, -, h⟩ := bind_eq_ok.mp h
    cases h
    refine resting_setNic rfl ?_
    rw [hheld, hcons]
    rfl

/-- `NET_PKT_RXDONE` returns the credit, and the first packet of `blkQ` is sent again. -/
theorem networkNotify_eq {inflight : Nat} (hinflight : sub64 s.network.inflight 1 = inflight) :
    s.networkNotify packetSize netPktRxDone none =
      match s.network.blkQ with
      | [] => .ok { s with network := { s.network with inflight := inflight } }
      | q :: others => { s with network := { s.network with
          inflight := inflight, blkQ := others } }.updateState packetSize q.src netPktRetx q := by
  unfold networkNotify
  rw [check_true ⟨rfl, rfl⟩, hinflight]
  rfl

/-- Returning the credit of a received packet is quiet. -/
theorem networkNotify_quiet {Q : Nat → List Nat} {H : Nat → List Packet} (hcore : Core s Q H)
    (h : { s with accepted := s.accepted.erase pkt }.networkNotify packetSize netPktRxDone none =
      .ok s') : Quiet s s' := by
  have herase : ∀ l : List Packet, ∀ q ∈ s.accepted.erase pkt ++ l, q ∈ s.accepted ++ l := by
    intro l q hq
    rcases List.mem_append.mp hq with hq | hq
    · exact List.mem_append_left _ (List.mem_of_mem_erase hq)
    · exact List.mem_append_right _ hq
  obtain ⟨inflight, hinflight⟩ : ∃ k, sub64 s.network.inflight 1 = k := ⟨_, rfl⟩
  rw [networkNotify_eq (s := { s with accepted := s.accepted.erase pkt }) hinflight] at h
  dsimp only at h
  split at h
  · cases h
    exact ⟨fun _ => Iff.rfl, herase s.network.blkQ, rfl, rfl, rfl, rfl, fun _ => rfl, fun _ => rfl⟩
  · rename_i q others hblk
    have hmem : q ∈ s.network.blkQ := by
      rw [hblk]
      exact List.mem_cons_self
    have hquiet := retx_quiet (s := { s with
        accepted := s.accepted.erase pkt, network := { s.network with inflight := inflight } })
      hblk (hcore.congested q hmem) (hcore.alive q (List.mem_append_right _ hmem)).1 h
    exact ⟨hquiet.posted, fun i hi => herase s.network.blkQ i (hquiet.packets i hi), hquiet.msgs,
      hquiet.netTraversed, hquiet.nextAddr, hquiet.outputs, hquiet.queued, hquiet.rx⟩

/-- What `RecvStateMachine` does with the last packet of a message. -/
theorem deliver_eq (s : Net) (n m : Nat) : s.deliver n m = { s with
    msgs := fun i => if i = m then (s.msgs m).reverseChannel else s.msgs i
    outputs := s.outputs ++ ((if (s.msgs m).nt then [.notify m] else []) ++
      [if (s.msgs m).type = .latency then .recv n m else .deliver n m]) } := by
  unfold deliver
  rw [← List.append_assoc]
  rfl

/-- `RecvStateMachine` of a NIC that has received the packet. -/
theorem rxDone_receiving {rest : List Packet} (hinv : Inv s) {nic : NIC}
    (htx : nic.tx = (s.nics n).tx) (hstate : nic.recvState = .rxDone) (hrxp : nic.rxp = some pkt)
    (hinQ : nic.inQ = rest) (hheld : (s.nics n).held = pkt :: rest)
    (h : (s.setNic n nic).recvStateMachine packetSize n = .ok s') : Receiving s s' n pkt := by
  rw [recvStateMachine_rxDone (by rw [nics_setNic_self]; exact hstate)
    (by rw [nics_setNic_self]; exact hrxp)] at h
  obtain ⟨s₁, hnotify, h⟩ := bind_eq_ok.mp h
  have hquiet := networkNotify_quiet (hinv.core.setNic_tx htx) hnotify
  have hmsgs : s₁.msgs = s.msgs := hquiet.msgs
  have houtputs : s₁.outputs = s.outputs := hquiet.outputs
  obtain ⟨s₂, hs₂⟩ : ∃ t, t = if pkt.msg then s₁.deliver n pkt.data else s₁ := ⟨_, rfl⟩
  rw [← hs₂] at h
  have hnics : s₂.nics = s₁.nics := by
    rw [hs₂]
    split
    · rw [deliver_eq]
    · rfl
  have hsame : s₂.txDone = s₁.txDone ∧ s₂.network = s₁.network ∧ s₂.accepted = s₁.accepted ∧
      s₂.netTraversed = s₁.netTraversed ∧ s₂.nextAddr = s₁.nextAddr := by
    rw [hs₂]
    split
    · rw [deliver_eq]
      exact ⟨rfl, rfl, rfl, rfl, rfl⟩
    · exact ⟨rfl, rfl, rfl, rfl, rfl⟩
  obtain ⟨htxDone, hnetwork, haccepted, hnetTraversed, hnextAddr⟩ := hsame
  have hrx := hquiet.rx n
  rw [nics_setNic_self] at hrx
  simp only [NIC.rx, Prod.mk.injEq] at hrx
  -- the NIC takes the next packet
  obtain ⟨nic₂, hnic₂⟩ : ∃ t : NIC, t = { s₂.nics n with recvState := .rxPacket } := ⟨_, rfl⟩
  rw [← hnic₂] at h
  have hresting := rxPacket_resting h (by
    rw [nics_setNic_self, hnic₂]
    intro hdone
    cases hdone)
  have hheld₂ : nic₂.held = rest := by
    rw [hnic₂]
    show (s₂.nics n).inQ = rest
    rw [hnics, hrx.2.1, hinQ]
  refine ⟨fun q => ?_, fun q hq => ?_, ?_, ?_, ?_, ?_, fun i => ?_, ?_, fun i hi => ?_⟩
  · rw [hresting.posted q]
    show q ∈ s₂.txDone ∨ q ∈ s₂.network.blkQ ↔ _
    rw [htxDone, hnetwork]
    exact hquiet.posted q
  · rw [hresting.packets] at hq
    have hq : q ∈ s₂.accepted ++ s₂.network.blkQ := hq
    rw [haccepted, hnetwork] at hq
    exact hquiet.packets q hq
  · rw [hresting.msgs]
    show s₂.msgs = _
    rw [hs₂]
    split
    · rw [deliver_eq]
      dsimp only
      rw [hmsgs]
    · exact hmsgs
  · rw [hresting.netTraversed]
    exact hnetTraversed.trans hquiet.netTraversed
  · rw [hresting.nextAddr]
    exact hnextAddr.trans hquiet.nextAddr
  · rw [hresting.outputs]
    show s₂.outputs = _
    rw [hs₂]
    split
    · rw [deliver_eq, hmsgs, houtputs]
    · rw [houtputs, List.append_nil]
  · have htx₂ : nic₂.tx = (s₂.nics n).tx := by rw [hnic₂]; rfl
    calc (s'.nics i).queued
        _ = ((s₂.setNic n nic₂).nics i).queued := hresting.queued i
        _ = (s₂.nics i).queued := congrFun (queued_setNic htx₂) i
        _ = (s₁.nics i).queued := by rw [hnics]
        _ = ((s.setNic n nic).nics i).queued := hquiet.queued i
        _ = (s.nics i).queued := congrFun (queued_setNic htx) i
  · rw [hheld, hresting.held n, nics_setNic_self, hheld₂]
  · rw [hresting.held i, nics_setNic_ne _ _ hi, hnics, NIC.held_eq_of_rx (hquiet.rx i),
      nics_setNic_ne _ _ hi]

/-- The receive thread receives a packet, or nothing. -/
theorem rth_receiving (h : s.fire packetSize (.rth n) = .ok s') (hinv : Inv s)
    (hrth : (s.nics n).rth = true) :
    ((s.nics n).recvState ≠ .rxDone ∧ Resting s s') ∨
    ∃ pkt, (s.nics n).recvState = .rxDone ∧ (s.nics n).rxp = some pkt ∧ Receiving s s' n pkt := by
  generalize hnic : ({ s.nics n with rth := false } : NIC) = nic
  have hheld : nic.held = (s.nics n).held := by rw [← hnic]; rfl
  have htx : nic.tx = (s.nics n).tx := by rw [← hnic]; rfl
  have hstates : nic.recvState = (s.nics n).recvState := by rw [← hnic]
  have hrest : Resting s (s.setNic n nic) := resting_setNic htx hheld
  have h : (s.setNic n { s.nics n with rth := false }).recvStateMachine packetSize n = .ok s' := h
  rw [hnic] at h
  have hself : ((s.setNic n nic).nics n).recvState = (s.nics n).recvState := by
    rw [nics_setNic_self, hstates]
  have hrx := hinv.recv n
  unfold NIC.RecvInv at hrx
  cases hstate : (s.nics n).recvState with
  | rxDone =>
      rw [hstate] at hrx
      obtain ⟨pkt, hrxp⟩ := Option.isSome_iff_exists.mp hrx.2
      have hpkt : (s.nics n).held = pkt :: (s.nics n).inQ := by
        unfold NIC.held
        rw [hstate, hrxp]
        rfl
      refine .inr ⟨pkt, rfl, hrxp, rxDone_receiving hinv htx (hstates.trans hstate) ?_ ?_ hpkt h⟩
      · rw [← hnic]
        exact hrxp
      · rw [← hnic]
  | start =>
      rw [recvStateMachine_start (hself.trans hstate), nics_setNic_self] at h
      cases h
      refine .inl ⟨by decide, hrest.trans (resting_setNic ?_ ?_)⟩
      · rw [nics_setNic_self]
        rfl
      · rw [nics_setNic_self]
        unfold NIC.held
        rw [hstates, hstate]
        rfl
  | rxPacket =>
      rw [recvStateMachine_rxPacket (hself.trans hstate)] at h
      refine .inl ⟨by decide, hrest.trans (rxPacket_resting h ?_)⟩
      rw [hself, hstate]
      decide
  | idle =>
      rw [hstate] at hrx
      have hrx : (s.nics n).rth = false := hrx
      rw [hrx] at hrth
      cases hrth
  | last =>
      rw [hstate] at hrx
      exact hrx.elim

end LustreSimulator.Net
