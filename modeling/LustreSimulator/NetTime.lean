import LustreSimulator.Network
import Mathlib.Data.List.Sort

/-!
# `LustreSimulator.NetTime`: the network with its delays (`netdevice.cpp`, `event.cpp`)

`Net` lets any armed event fire next. Here the events are in the run queue with the times at which
they fire. The first one fires, and what its handler arms goes into the run queue: a packet after
its transmission time or after the latency of the network, and a thread after the reception of its
packet or after a context switch. `RunTimeCompare` returns -1 for equal times, so an event goes in
front of those with the same time.

Other components share the run queue with the network. All that is seen of them is that a node sends
a message, at any time before the next event.

The state also keeps the packets that `GetPacket` has cut from each message since it was sent, and
the packets of it that were received since. The program does not have these lists.
-/

set_option autoImplicit false

namespace LustreSimulator

open Lib Net

/-- The network, the clock, and the run queue. -/
structure NetTime where
  net : Net
  now : Nat
  runQ : List (Nat × Event)
  cut : Nat → List Packet
  got : Nat → List Packet

namespace NetTime

/-- `params.network`. -/
structure Params where
  packetSize : Nat
  bandwidth : Nat
  netLatency : Nat

/-- `TxTime(size)`. -/
def txTime (p : Params) (size : Nat) : Nat := size / p.bandwidth

/-- `NetLatency()` when `SignRand` returns `jitter`. -/
def netLatency (p : Params) (jitter : Int) : Nat := (p.netLatency + jitter).toNat

/-- `SignRand(NetLatency / 10)` can return `jitter`. -/
def Jitter (p : Params) (jitter : Int) : Prop :=
  -((p.netLatency / 10 : Nat) : Int) ≤ jitter ∧ jitter ≤ (p.netLatency / 10 : Nat)

instance (p : Params) (jitter : Int) : Decidable (Jitter p jitter) :=
  inferInstanceAs (Decidable (_ ∧ _))

/-- An event that fires, or a node that sends a message, with what the random numbers are in it:
the jitter of a packet and the time of a context switch. -/
structure Turn where
  event : Event
  jitter : Int
  switch : Nat
  deriving DecidableEq

/-- The events that the handler of `e` arms in `s`, in that order. After it the state is `s'`. -/
def arms (s : Net) (e : Event) (s' : Net) : List Event :=
  (s'.txDone.filter fun pkt => pkt ∉ s.txDone).map .txDone ++
    match e with
    | .send n _ _ => if (s.nics n).sth = false ∧ (s'.nics n).sth = true then [.sth n] else []
    | .sth _ => []
    | .rth n => if (s'.nics n).rth = true then [.rth n] else []
    | .txDone pkt => [.netTraversed pkt]
    | .netTraversed pkt =>
        if (s.nics pkt.dst).rth = false ∧ (s'.nics pkt.dst).rth = true then [.rth pkt.dst] else []

/-- The delay of an event that was armed. A thread waits for the reception of its packet, or it was
woken up by `Signal()`. -/
def delay (p : Params) (turn : Turn) (s' : Net) : Event → Nat
  | .send _ _ _ => 0
  | .sth _ => turn.switch
  | .rth n =>
      match (s'.nics n).recvState, (s'.nics n).rxp with
      | .rxDone, some rxp => max 1 (txTime p rxp.size)
      | _, _ => turn.switch
  | .txDone pkt => txTime p pkt.size
  | .netTraversed _ => netLatency p turn.jitter

/-- `runQ->Enqueue(e)` of an event for the time `time`. -/
def enqueue (runQ : List (Nat × Event)) (time : Nat) (e : Event) : List (Nat × Event) :=
  runQ.orderedInsert (fun a b => a.1 ≤ b.1) (time, e)

/-- The packets of the message `m` that were cut in a step from `s` to `s'`. -/
def cutIn (s s' : Net) (m : Nat) : List Packet :=
  (s'.accepted ++ s'.network.blkQ).filter fun pkt => decide (s.nextAddr ≤ pkt.addr ∧ pkt.data = m)

/-- The packets of the message `m` that the handler of `e` finds received. -/
def gotIn (s : Net) (e : Event) (m : Nat) : List Packet :=
  match e with
  | .rth n =>
      if (s.nics n).recvState = .rxDone then (s.nics n).rxp.toList.filter fun pkt => pkt.data = m
      else []
  | _ => []

/-- The message is sent in this step. -/
def sends (e : Event) (m : Nat) : Bool :=
  match e with
  | .send _ k _ => decide (k = m)
  | _ => false

/-- The state after the handler of an event, which has led to `net`, at the time `time`. -/
def after (p : Params) (s : NetTime) (time : Nat) (turn : Turn) (net : Net) : NetTime :=
  { net := net
    now := time
    runQ := (arms s.net turn.event net).foldl
      (fun q e => enqueue q (add64 time (delay p turn net e)) e) s.runQ
    cut := fun m => (if sends turn.event m then [] else s.cut m) ++ cutIn s.net net m
    got := fun m => (if sends turn.event m then [] else s.got m) ++ gotIn s.net turn.event m }

/-- The steps. `Schedule` asserts that time does not go back. -/
inductive Step (p : Params) : NetTime → Turn → NetTime → Prop where
  | send {s : NetTime} {time n m : Nat} {msg : Message} {turn : Turn} {net : Net} :
      turn.event = .send n m msg → s.now ≤ time → (∀ a ∈ s.runQ, time ≤ a.1) →
      Net.Step p.packetSize s.net turn.event net → Step p s turn (s.after p time turn net)
  | fire {s : NetTime} {time : Nat} {rest : List (Nat × Event)} {turn : Turn} {net : Net} :
      s.runQ = (time, turn.event) :: rest → s.now ≤ time → Jitter p turn.jitter →
      Net.Step p.packetSize s.net turn.event net →
      Step p s turn (({ s with runQ := rest } : NetTime).after p time turn net)

/-- `num - 1` NICs at the time 0, when their threads run after one tick. -/
def start (num n : Nat) (msgs : Nat → Message) : NetTime :=
  { net := Net.start num n msgs
    now := 0
    runQ := (List.range (num - 1)).foldl
      (fun q i => enqueue (enqueue q 1 (.sth (i + 1))) 1 (.rth (i + 1))) []
    cut := fun _ => []
    got := fun _ => [] }

end NetTime

end LustreSimulator
