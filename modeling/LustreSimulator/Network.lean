import LustreSimulator.Lib.Check
import LustreSimulator.Lib.Word

/-!
# `LustreSimulator.Network`: the network and its NICs (`network.cpp`, `nic.cpp`)

A node hands a message to its NIC, which cuts it into packets and gives one packet at a time to
the network. The network carries at most `capacity` packets. A packet beyond that waits in
`blkQ`, and its NIC is congested until a receiver reports a packet as received.

The devices are numbered. The network has the number 0 and the NICs have the numbers from 1 to
`num - 1`. Messages are objects that a node and a NIC share, so the state has a heap `msgs` of
them. A packet does not change after it is cut. It stands for its address, and `addr` tells
apart two packets with equal fields.

The run queue is reduced to what it holds: the packets whose event is armed with `TxDone` or
with `NetTraversed`, and the NICs whose thread is armed. Any armed event may fire next, so every
choice of delays is covered. What the nodes do with a delivered message is left open: they may
send at any time. The statistics of the NIC are left out.
-/

set_option autoImplicit false

namespace LustreSimulator

open Lib

/-! ### Messages and packets -/

/-- The message types, `MSG_NONE` to `MSG_POLL`. -/
inductive MsgType where
  | none | ping | lock | read | write | latency | bandwidth | nicPerf | readNet | writeNet
  | network | open | earlyReply | poll
  deriving DecidableEq, Repr

/-- `class Message`, as far as the network and the network test use it. -/
structure Message where
  type : MsgType
  src : Nat
  dst : Nat
  /-- the channel is reversed: the message goes from `dst` to `src` -/
  r : Bool
  /-- signal the worker when the message has arrived -/
  nt : Bool
  left : Nat
  msz : Nat
  slice : Nat
  /-- `io.count` -/
  ioCount : Nat
  deriving DecidableEq, Repr

/-- `class Packet`. -/
structure Packet where
  addr : Nat
  id : Nat
  /-- `state & NET_PKT_MSG`: the last packet of its message -/
  msg : Bool
  size : Nat
  src : Nat
  dst : Nat
  /-- the message -/
  data : Nat
  deriving DecidableEq, Repr

namespace Message

/-- The number of the device that sends the message. -/
def sender (m : Message) : Nat := if m.r then m.dst else m.src

/-- The number of the device that receives the message. -/
def receiver (m : Message) : Nat := if m.r then m.src else m.dst

/-- `SetLength(len)`. -/
def setLength (m : Message) (len : Nat) : Message := { m with msz := len, left := len }

/-- `ReverseChannel()`. -/
def reverseChannel (m : Message) : Message := { m with r := !m.r }

/-- `GetPacket()` on the message `self`, with the packet at the address `addr`. -/
def getPacket (m : Message) (packetSize self addr : Nat) : Packet × Message :=
  let size := min packetSize m.left
  let left := m.left - size
  (⟨addr, m.slice, decide (left = 0), size, m.sender, m.receiver, self⟩,
    { m with left := left, slice := m.slice + 1 })

end Message

/-! ### The devices -/

/-- `NIC::sendState`. -/
inductive SendState where
  | start | idle | postMessage | postPacket | txPacket | congest | last
  deriving DecidableEq, Repr

/-- `NIC::recvState`. -/
inductive RecvState where
  | start | idle | rxPacket | rxDone | last
  deriving DecidableEq, Repr

/-- `class NIC`. -/
structure NIC where
  sendState : SendState
  msgQ : List Nat
  txm : Option Nat
  txp : Option Packet
  /-- the send thread is in the run queue -/
  sth : Bool
  recvState : RecvState
  inQ : List Packet
  rxp : Option Packet
  /-- the receive thread is in the run queue -/
  rth : Bool
  /-- the congested packet -/
  cnp : Option Packet
  deriving DecidableEq, Repr

/-- `class Network`. -/
structure Network where
  inflight : Nat
  capacity : Nat
  nodes : Nat
  blkQ : List Packet
  deriving DecidableEq, Repr

/-- `Network::Connect()`, where `n` is `params.network.N`. -/
def Network.connect (w : Network) (n : Nat) : Network :=
  let nodes := add64 w.nodes 1
  { w with nodes := nodes, capacity := nodes * n * 128 % 2 ^ 64 }

/-- `NIC::Start()`: both threads run after one tick. -/
def NIC.start : NIC := ⟨.start, [], none, none, true, .start, [], none, true, none⟩

namespace Net

/-- The assertions and errors that stop the program. -/
inductive Fault where
  /-- an assertion of `NIC::Notify` -/
  | nicNotify
  /-- the assertion of `Network::Notify` -/
  | networkNotify
  /-- `assert(nid > 0 && nid < num)` of `GetNetDevice` -/
  | nid
  /-- `assert(!run)` of `RunAfter` or `Signal` -/
  | run
  /-- a `NULL` pointer is used -/
  | null
  deriving DecidableEq, Repr

/-- What a NIC does to its node. -/
inductive Output where
  /-- `Message::Notify()`: signal the worker of the message -/
  | notify (m : Nat)
  /-- `NIC::Recv(Message *)` right away -/
  | recv (nid m : Nat)
  /-- `DeliverMessage(m)`: `NIC::Recv(Message *)` after the interrupt latency -/
  | deliver (nid m : Nat)
  deriving DecidableEq, Repr

end Net

open Net in
/-- The network, the NICs by their number, the messages and the run queue. -/
structure Net where
  network : Network
  nics : Nat → NIC
  num : Nat
  msgs : Nat → Message
  /-- the packets whose event is armed with `TxDone` -/
  txDone : List Packet
  /-- the packets whose event is armed with `NetTraversed` -/
  netTraversed : List Packet
  nextAddr : Nat
  /-- what the NICs told their nodes -/
  outputs : List Output
  /-- the packets that `Network::Recv` accepted and that are not reported as received. The
  program does not have this list. -/
  accepted : List Packet

namespace Net

/-- `NET_PKT_BLK` -/
def netPktBlk : Nat := 4
/-- `NET_PKT_TXDONE` -/
def netPktTxDone : Nat := 8
/-- `NET_PKT_RXDONE` -/
def netPktRxDone : Nat := 16
/-- `NET_PKT_RETX`, the same number as `NET_PKT_RXDONE` -/
def netPktRetx : Nat := 16

/-- Replace a NIC. -/
def setNic (s : Net) (n : Nat) (nic : NIC) : Net :=
  { s with nics := fun i => if i = n then nic else s.nics i }

/-- Replace a message. -/
def setMsg (s : Net) (m : Nat) (msg : Message) : Net :=
  { s with msgs := fun i => if i = m then msg else s.msgs i }

/-- A NIC has this number. -/
def IsNid (s : Net) (n : Nat) : Prop := 0 < n ∧ n < s.num

instance (s : Net) (n : Nat) : Decidable (s.IsNid n) :=
  inferInstanceAs (Decidable (0 < n ∧ n < s.num))

/-- `GetNetDevice(nid)`. -/
def getNetDevice (s : Net) (n : Nat) : Except Fault NIC :=
  (check (s.IsNid n) .nid).bind fun _ => .ok (s.nics n)

/-! ### Sending -/

end Net

open Net in
/-- The switch of `NIC::Notify(state, pkt)`. The flag says whether the call goes on to
`SendStateMachine()`. -/
def NIC.notify (nic : NIC) (state : Nat) (pkt : Packet) : Except Fault (NIC × Bool) :=
  if state = netPktTxDone then
    (check (nic.txp = some pkt ∧ nic.sendState = .txPacket) .nicNotify).bind fun _ =>
    -- the next message, or the next packet of this one
    .ok ({ nic with sendState := if pkt.msg then .postMessage else .postPacket }, true)
  else if state = netPktRetx then
    (check (nic.txp = some pkt ∧ nic.cnp = some pkt ∧ nic.sendState = .congest) .nicNotify).bind
      fun _ => .ok ({ nic with sendState := .txPacket }, true)
  else if state = netPktBlk then
    (check (nic.txp = some pkt ∧ nic.sendState = .txPacket) .nicNotify).bind fun _ =>
    .ok ({ nic with sendState := .congest, cnp := some pkt }, false)
  else .ok (nic, true)

namespace Net

/-- `Network::Recv(pkt)`. -/
def recv (s : Net) (pkt : Packet) : Except Fault Net :=
  if s.network.inflight < s.network.capacity then
    -- a credit is free: the packet is sent, and `TxDone` fires after its transfer
    (check (pkt ∉ s.txDone ∧ pkt ∉ s.netTraversed) .run).bind fun _ =>
    .ok { s with
      network := { s.network with inflight := add64 s.network.inflight 1 }
      txDone := s.txDone ++ [pkt]
      accepted := s.accepted ++ [pkt] }
  else
    let s := { s with network := { s.network with blkQ := s.network.blkQ ++ [pkt] } }
    -- `NET_PKT_BLK` does not reach `SendStateMachine()`, so the flag is not looked at
    (s.getNetDevice pkt.src).bind fun nic =>
    (nic.notify netPktBlk pkt).bind fun r => .ok (s.setNic pkt.src r.1)

/-- The case `nic_SendPostPacketState` of `SendStateMachine()` and what it falls through to. -/
def postPacket (s : Net) (packetSize n : Nat) : Except Fault Net :=
  match (s.nics n).txm with
  | none => .error .null
  | some m =>
      let r := (s.msgs m).getPacket packetSize m s.nextAddr
      (({ s with nextAddr := s.nextAddr + 1 }.setMsg m r.2).setNic n
        { s.nics n with txp := some r.1, sendState := .txPacket }).recv r.1

/-- `SendStateMachine()` of the NIC `n`. -/
def sendStateMachine (s : Net) (packetSize n : Nat) : Except Fault Net :=
  let nic := s.nics n
  match nic.sendState with
  | .postMessage =>
      match nic.msgQ with
      | [] => .ok (s.setNic n { nic with txm := none, sendState := .idle })
      -- this state falls through to the next one
      | m :: rest => (s.setNic n { nic with txm := some m, msgQ := rest }).postPacket packetSize n
  | .postPacket => s.postPacket packetSize n
  | .txPacket =>
      match nic.txp with
      | none => .error .null
      | some pkt => s.recv pkt
  -- the first run of the thread finds no message
  | .start => .ok (s.setNic n { nic with sendState := .idle })
  | .idle => .ok s
  | .congest => .ok s
  | .last => .ok s

/-- `UpdateState(nid, state, pkt)`: notify the NIC `nid`. -/
def updateState (s : Net) (packetSize nid state : Nat) (pkt : Packet) : Except Fault Net :=
  (s.getNetDevice nid).bind fun nic =>
  (nic.notify state pkt).bind fun r =>
  if r.2 then (s.setNic nid r.1).sendStateMachine packetSize nid else .ok (s.setNic nid r.1)

/-- `NIC::Send(msg)` on the NIC `n`. -/
def send (s : Net) (n m : Nat) : Except Fault Net :=
  let nic := { s.nics n with msgQ := (s.nics n).msgQ ++ [m] }
  if nic.sendState = .idle then
    -- the thread sleeps, and is woken up
    (check (nic.sth = false) .run).bind fun _ =>
    .ok (s.setNic n { nic with sth := true, sendState := .postMessage })
  -- the thread has not run yet, and will find the message
  else if nic.sendState = .start then .ok (s.setNic n { nic with sendState := .postMessage })
  else .ok (s.setNic n nic)

/-! ### Receiving -/

/-- `NIC::Recv(pkt)` on the NIC `n`. -/
def nicRecv (s : Net) (n : Nat) (pkt : Packet) : Except Fault Net :=
  let nic := { s.nics n with inQ := (s.nics n).inQ ++ [pkt] }
  if nic.recvState = .idle then
    -- the thread sleeps, and is woken up
    (check (nic.rth = false) .run).bind fun _ =>
    .ok (s.setNic n { nic with rth := true, recvState := .rxPacket })
  else if nic.recvState = .start then .ok (s.setNic n { nic with recvState := .rxPacket })
  else .ok (s.setNic n nic)

/-- `Network::Notify(state, pkt)`. -/
def networkNotify (s : Net) (packetSize state : Nat) (pkt : Option Packet) : Except Fault Net :=
  (check (state = netPktRxDone ∧ pkt = none) .networkNotify).bind fun _ =>
  let s := { s with network := { s.network with inflight := sub64 s.network.inflight 1 } }
  match s.network.blkQ with
  | [] => .ok s
  -- the packet that has waited longest takes the credit
  | pkt :: rest =>
      { s with network := { s.network with blkQ := rest } }.updateState packetSize pkt.src
        netPktRetx pkt

/-- What `RecvStateMachine()` of the NIC `n` does with the last packet of the message `m`. -/
def deliver (s : Net) (n m : Nat) : Net :=
  let msg := s.msgs m
  let notified : List Output := if msg.nt then [.notify m] else []
  let s := s.setMsg m msg.reverseChannel
  let received := if msg.type = .latency then .recv n m else .deliver n m
  { s with outputs := s.outputs ++ notified ++ [received] }

/-- The case `nic_RecvRxPacketState` of `RecvStateMachine()`. -/
def rxPacket (s : Net) (n : Nat) : Except Fault Net :=
  let nic := s.nics n
  match nic.inQ with
  | [] => .ok (s.setNic n { nic with rxp := none, recvState := .idle })
  | pkt :: rest =>
      -- the thread runs again when the packet has been received
      (check (nic.rth = false) .run).bind fun _ =>
      .ok (s.setNic n
        { nic with rxp := some pkt, inQ := rest, rth := true, recvState := .rxDone })

/-- `RecvStateMachine()` of the NIC `n`. -/
def recvStateMachine (s : Net) (packetSize n : Nat) : Except Fault Net :=
  let nic := s.nics n
  match nic.recvState with
  | .rxPacket => s.rxPacket n
  | .rxDone =>
      match nic.rxp with
      | none => .error .null
      | some rxp =>
          -- the credit is returned first, which may start another packet
          ({ s with accepted := s.accepted.erase rxp }.networkNotify packetSize netPktRxDone
            none).bind fun s =>
          let s := if rxp.msg then s.deliver n rxp.data else s
          (s.setNic n { s.nics n with recvState := .rxPacket }).rxPacket n
  | .start => .ok (s.setNic n { nic with recvState := .idle })
  | .idle => .ok s
  | .last => .ok s

/-! ### Runs -/

/-- What happens to the network: a node sets up the message `m` and sends it through the NIC
`n`, or an event of the run queue fires. -/
inductive Event where
  | send (n m : Nat) (msg : Message)
  | sth (n : Nat)
  | rth (n : Nat)
  | txDone (pkt : Packet)
  | netTraversed (pkt : Packet)
  deriving DecidableEq, Repr

/-- The event can happen now. -/
def Enabled (s : Net) : Event → Prop
  | .send n _ _ => s.IsNid n
  | .sth n => s.IsNid n ∧ (s.nics n).sth = true
  | .rth n => s.IsNid n ∧ (s.nics n).rth = true
  | .txDone pkt => pkt ∈ s.txDone
  | .netTraversed pkt => pkt ∈ s.netTraversed

instance (s : Net) (e : Event) : Decidable (s.Enabled e) :=
  match e with
  | .send n _ _ => inferInstanceAs (Decidable (s.IsNid n))
  | .sth n => inferInstanceAs (Decidable (s.IsNid n ∧ (s.nics n).sth = true))
  | .rth n => inferInstanceAs (Decidable (s.IsNid n ∧ (s.nics n).rth = true))
  | .txDone pkt => inferInstanceAs (Decidable (pkt ∈ s.txDone))
  | .netTraversed pkt => inferInstanceAs (Decidable (pkt ∈ s.netTraversed))

/-- The function of the event: `ProcessSend`, `ProcessRecv`, `TxDone` or `NetTraversed`. -/
def fire (s : Net) (packetSize : Nat) : Event → Except Fault Net
  | .send n m msg => (s.setMsg m msg).send n m
  | .sth n => (s.setNic n { s.nics n with sth := false }).sendStateMachine packetSize n
  | .rth n => (s.setNic n { s.nics n with rth := false }).recvStateMachine packetSize n
  | .txDone pkt =>
      ({ s with txDone := s.txDone.erase pkt }.updateState packetSize pkt.src netPktTxDone
        pkt).bind fun s =>
      -- the sender goes on before the packet travels
      (check (pkt ∉ s.txDone ∧ pkt ∉ s.netTraversed) Fault.run).bind fun _ =>
      .ok { s with netTraversed := s.netTraversed ++ [pkt] }
  | .netTraversed pkt =>
      let s := { s with netTraversed := s.netTraversed.erase pkt }
      (s.getNetDevice pkt.dst).bind fun _ => s.nicRecv pkt.dst pkt

/-- The steps of the network. -/
def Step (packetSize : Nat) (s : Net) (e : Event) (s' : Net) : Prop :=
  s.Enabled e ∧ s.fire packetSize e = .ok s'

/-- `num - 1` NICs that are started and connected, where `n` is `params.network.N`. -/
def start (num n : Nat) (msgs : Nat → Message) : Net :=
  { network := (List.replicate (num - 1) n).foldl Network.connect ⟨0, 0, 0, []⟩
    nics := fun _ => .start, num := num, msgs := msgs, txDone := [], netTraversed := [],
    nextAddr := 0, outputs := [], accepted := [] }

end Net

/-- `Peer::ProcessNetReadWrite(msg)`: what the server of the network test makes of a message
before it sends it, if it does. -/
def Peer.processNetReadWrite (msg : Message) : Option Message :=
  let msg := msg.reverseChannel
  match msg.type with
  | .readNet => some (msg.setLength msg.ioCount)
  | .writeNet => some (msg.setLength 1024)
  | _ => none

end LustreSimulator
