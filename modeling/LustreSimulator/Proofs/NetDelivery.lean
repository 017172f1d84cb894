import LustreSimulator.Lib.Run
import LustreSimulator.NetTime
import LustreSimulator.Proofs.NetCourier

/-!
# `LustreSimulator.Proofs.NetDelivery`: when a message is delivered whole

A NIC delivers a message when it has received the packet with `NET_PKT_MSG`. That packet is cut
last, but the latency of every packet is drawn anew, and a packet that leaves later may arrive
earlier.

`carried` says that the network is a `Courier`, so that all follows from the packets with
`NET_PKT_MSG` not overtaking the others. `InTime` is the condition on the delays: when such a packet
leaves, it is armed for a later time than every packet of its message that is on the way. `Timely`
carries the condition to the time of its arrival. `whole_run` is the result.
-/

set_option autoImplicit false

namespace LustreSimulator

open Lib

namespace Net

variable {s s' : Net} {n m packetSize : Nat} {pkt : Packet} {cut got cut' got' : Nat → List Packet}

/-! ### The network is a courier -/

/-- A packet is a part of its message. -/
def label : Label Nat Nat Packet := ⟨Packet.data, Packet.dst, Packet.size, Packet.msg⟩

open Classical in
/-- What the NICs have still to cut from the message. -/
noncomputable def rest (s : Net) (m : Nat) : Nat :=
  if ∃ i, m ∈ (s.nics i).queued then (s.msgs m).left else 0

/-- The messages are loads, and their packets are parts of them. -/
noncomputable def courier (s : Net) (cut got : Nat → List Packet) : Courier Nat Nat Packet where
  account m := ⟨s.rest m, (s.msgs m).msz, cut m, got m⟩
  posted := {q | s.Posted q}
  way := {q | q ∈ s.netTraversed}
  held i := (s.nics i).held

/-- Nothing is cut any more from a message that no NIC has to send. -/
theorem rest_eq_zero (h : ∀ i, m ∉ (s.nics i).queued) : s.rest m = 0 :=
  if_neg fun ⟨i, hi⟩ => h i hi

/-- What is left of a message that a NIC has to send. -/
theorem rest_eq_left {i : Nat} (h : m ∈ (s.nics i).queued) : s.rest m = (s.msgs m).left :=
  if_pos ⟨i, h⟩

/-- What is left depends on the message and the NICs that have to send it. -/
theorem rest_congr (hleft : (s'.msgs m).left = (s.msgs m).left)
    (hqueued : ∀ i, m ∈ (s'.nics i).queued ↔ m ∈ (s.nics i).queued) : s'.rest m = s.rest m := by
  by_cases hsome : ∃ i, m ∈ (s.nics i).queued
  · obtain ⟨i, hi⟩ := hsome
    rw [rest_eq_left hi, rest_eq_left ((hqueued i).mpr hi), hleft]
  · rw [rest_eq_zero fun i hi => hsome ⟨i, hi⟩,
      rest_eq_zero fun i hi => hsome ⟨i, (hqueued i).mp hi⟩]

/-- A state with the same packets is the same courier. -/
theorem courier_congr (hposted : ∀ q, s'.Posted q ↔ s.Posted q) (hmsgs : s'.msgs = s.msgs)
    (hnetTraversed : s'.netTraversed = s.netTraversed)
    (hqueued : ∀ i, (s'.nics i).queued = (s.nics i).queued)
    (hheld : ∀ i, (s'.nics i).held = (s.nics i).held) : s'.courier cut got = s.courier cut got := by
  refine Courier.ext (funext fun m => ?_) (Set.ext hposted) ?_ (funext hheld)
  · refine Account.ext (rest_congr ?_ fun i => ?_) ?_ rfl rfl
    · rw [hmsgs]
    · rw [hqueued i]
    · show (s'.msgs m).msz = (s.msgs m).msz
      rw [hmsgs]
  · show {q | q ∈ s'.netTraversed} = {q | q ∈ s.netTraversed}
    rw [hnetTraversed]

/-- What is left of the message whose packet was cut. -/
theorem Cutting.left_eq {l : List Nat} (h : Cutting s s' packetSize n m l) :
    (s'.msgs m).left =
      (s.msgs m).left - ((s.msgs m).getPacket packetSize m s.nextAddr).1.size := by
  rw [h.msgs]
  exact congrArg Message.left (if_pos rfl)

/-- A cut does not change the length of a message. -/
theorem Cutting.msz_eq {l : List Nat} (h : Cutting s s' packetSize n m l) (k : Nat) :
    (s'.msgs k).msz = (s.msgs k).msz := by
  rw [h.msgs]
  dsimp only
  split
  · rename_i hk
    rw [hk]
    rfl
  · rfl

/-- A NIC that has cut a packet from a message has the rest of it to send. -/
theorem Cutting.rest_eq {l : List Nat} (h : Cutting s s' packetSize n m l)
    (hq : (s.nics n).queued = m :: l) :
    s'.rest m = s.rest m - ((s.msgs m).getPacket packetSize m s.nextAddr).1.size := by
  have hmem : m ∈ (s.nics n).queued := by
    rw [hq]
    exact List.mem_cons_self
  rw [rest_eq_left hmem, ← h.left_eq]
  by_cases hlast : ((s.msgs m).getPacket packetSize m s.nextAddr).1.msg = true
  · -- nothing is left, whether or not the message is queued elsewhere
    have hzero : (s'.msgs m).left = 0 := h.left_eq.trans (of_decide_eq_true hlast)
    unfold rest
    rw [hzero]
    exact ite_self 0
  · refine rest_eq_left (i := n) ?_
    rw [h.queued, if_neg hlast]
    exact List.mem_cons_self

/-- The other messages stay. -/
theorem Cutting.rest_ne {l : List Nat} {k : Nat} (h : Cutting s s' packetSize n m l)
    (hq : (s.nics n).queued = m :: l) (hk : k ≠ m) : s'.rest k = s.rest k := by
  refine rest_congr ?_ fun i => ?_
  · rw [h.msgs]
    exact congrArg Message.left (if_neg hk)
  · by_cases hi : i = n
    · rw [hi, hq, h.queued, List.mem_cons, or_iff_right hk]
      split
      · rfl
      · rw [List.mem_cons, or_iff_right hk]
    · rw [h.others i hi]

/-- `GetPacket` cuts a part off. -/
theorem courier_cutting {l : List Nat} (h : Cutting s s' packetSize n m l)
    (hq : (s.nics n).queued = m :: l)
    (hcut : ∀ k, cut' k = if k = m then
      cut m ++ [((s.msgs m).getPacket packetSize m s.nextAddr).1] else cut k) :
    s'.courier cut' got = (s.courier cut got).cutOff label
      ((s.msgs m).getPacket packetSize m s.nextAddr).1 := by
  refine Courier.ext (funext fun k => ?_) (Set.ext h.posted) ?_
    (funext fun i => NIC.held_eq_of_rx (h.rx i))
  · rw [Courier.account_cutOff]
    by_cases hk : k = m
    · subst hk
      rw [if_pos (show k = label.load _ from rfl)]
      exact Account.ext (h.rest_eq hq) (h.msz_eq k) ((hcut k).trans (if_pos rfl)) rfl
    · rw [if_neg (show ¬ k =
        label.load ((s.msgs m).getPacket packetSize m s.nextAddr).1 from hk)]
      exact Account.ext (h.rest_ne hq hk) (h.msz_eq k) ((hcut k).trans (if_neg hk)) rfl
  · show {q | q ∈ s'.netTraversed} = {q | q ∈ s.netTraversed}
    rw [h.netTraversed]

/-- `TxDone` lets the packet leave. -/
theorem courier_leave (hinv : Inv s) (hpkt : pkt ∈ s.txDone) :
    ({ s with txDone := s.txDone.erase pkt, netTraversed := s.netTraversed ++ [pkt] } : Net).courier
      cut got = (s.courier cut got).leave pkt := by
  have hnodup : s.txDone.Nodup := (List.nodup_append.mp hinv.core.armed_nodup).1
  have hnotBlk : pkt ∉ s.network.blkQ := fun hin => hinv.core.blocked pkt hin
    (hinv.core.armed pkt (List.mem_append_left _ hpkt))
  refine Courier.ext rfl (Set.ext fun q => ?_) (Set.ext fun q => ?_) rfl
  · show q ∈ s.txDone.erase pkt ∨ q ∈ s.network.blkQ ↔
      (q ∈ s.txDone ∨ q ∈ s.network.blkQ) ∧ q ≠ pkt
    rw [hnodup.mem_erase_iff, or_and_right, and_comm]
    refine or_congr Iff.rfl (iff_self_and.mpr ?_)
    rintro hq rfl
    exact hnotBlk hq
  · show q ∈ s.netTraversed ++ [pkt] ↔ q = pkt ∨ q ∈ s.netTraversed
    rw [List.mem_append, List.mem_singleton, or_comm]

/-- `NetTraversed` lets the packet arrive. -/
theorem courier_arriving (h : Arriving s s' pkt) (hinv : Inv s) :
    s'.courier cut got = (s.courier cut got).arrive label pkt := by
  have hnodup : s.netTraversed.Nodup := (List.nodup_append.mp hinv.core.armed_nodup).2.1
  have hmsgs : ∀ m, (s'.msgs m) = s.msgs m := fun m => congrFun h.msgs m
  refine Courier.ext (funext fun m => ?_) (Set.ext h.posted) (Set.ext fun q => ?_)
    (funext fun i => ?_)
  · refine Account.ext (rest_congr ?_ fun i => ?_) (congrArg Message.msz (hmsgs m)) rfl rfl
    · rw [hmsgs]
    · rw [h.queued i]
  · show q ∈ s'.netTraversed ↔ q ∈ s.netTraversed ∧ q ≠ pkt
    rw [h.netTraversed, hnodup.mem_erase_iff, and_comm]
  · rw [Courier.held_arrive]
    refine (h.held i).trans ?_
    by_cases hi : i = pkt.dst
    · subst hi
      rw [if_pos rfl, if_pos (show pkt.dst = label.dst pkt from rfl)]
      rfl
    · rw [if_neg hi, if_neg (show ¬ i = label.dst pkt from hi)]
      rfl

/-- A message that was received keeps its length. -/
theorem Receiving.msgs_eq (h : Receiving s s' n pkt) (k : Nat) :
    (s'.msgs k).left = (s.msgs k).left ∧ (s'.msgs k).msz = (s.msgs k).msz := by
  rw [h.msgs]
  split
  · dsimp only
    split
    · rename_i hk
      rw [hk]
      exact ⟨rfl, rfl⟩
    · exact ⟨rfl, rfl⟩
  · exact ⟨rfl, rfl⟩

/-- The receive thread receives the packet. -/
theorem courier_receiving (h : Receiving s s' n pkt) (hdst : pkt.dst = n)
    (hgot : ∀ k, got' k = if k = pkt.data then got pkt.data ++ [pkt] else got k) :
    s'.courier cut got' = (s.courier cut got).receive label pkt := by
  subst hdst
  have hrest : ∀ k, s'.rest k = s.rest k := fun k =>
    rest_congr (h.msgs_eq k).1 fun i => by rw [h.queued i]
  refine Courier.ext (funext fun k => ?_) (Set.ext h.posted) ?_ (funext fun i => ?_)
  · rw [Courier.account_receive]
    by_cases hk : k = pkt.data
    · subst hk
      rw [if_pos (show pkt.data = label.load pkt from rfl)]
      exact Account.ext (hrest _) (h.msgs_eq _).2 rfl ((hgot _).trans (if_pos rfl))
    · rw [if_neg (show ¬ k = label.load pkt from hk)]
      exact Account.ext (hrest k) (h.msgs_eq k).2 rfl ((hgot k).trans (if_neg hk))
  · show {q | q ∈ s'.netTraversed} = {q | q ∈ s.netTraversed}
    rw [h.netTraversed]
  · rw [Courier.held_receive]
    by_cases hi : i = pkt.dst
    · subst hi
      rw [if_pos (show pkt.dst = label.dst pkt from rfl)]
      show _ = ((s.nics pkt.dst).held).tail
      rw [h.before]
      rfl
    · rw [if_neg (show ¬ i = label.dst pkt from hi)]
      exact h.others i hi

/-- A node sends a load. -/
theorem courier_sending {msg : Message} (h : Sending s s' n m msg) (hleft : msg.left = msg.msz)
    (hcut : ∀ k, cut' k = if k = m then [] else cut k)
    (hgot : ∀ k, got' k = if k = m then [] else got k) :
    s'.courier cut' got' = (s.courier cut got).send m msg.msz := by
  refine Courier.ext (funext fun k => ?_) (Set.ext h.posted) ?_
    (funext fun i => NIC.held_eq_of_rx (h.rx i))
  · rw [Courier.account_send]
    have hmsgs : s'.msgs k = if k = m then msg else s.msgs k := congrFun h.msgs k
    by_cases hk : k = m
    · subst hk
      have hmem : k ∈ (s'.nics n).queued := by
        rw [h.queued n, if_pos rfl]
        simp
      rw [if_pos rfl] at hmsgs ⊢
      refine Account.ext ?_ (congrArg Message.msz hmsgs) ((hcut k).trans (if_pos rfl))
        ((hgot k).trans (if_pos rfl))
      show s'.rest k = msg.msz
      rw [rest_eq_left hmem, hmsgs, hleft]
    · rw [if_neg hk] at hmsgs ⊢
      refine Account.ext (rest_congr (congrArg Message.left hmsgs) fun i => ?_)
        (congrArg Message.msz hmsgs) ((hcut k).trans (if_neg hk)) ((hgot k).trans (if_neg hk))
      rw [h.queued i]
      split
      · rw [List.mem_append, List.mem_singleton, or_iff_left hk]
      · rfl
  · show {q | q ∈ s'.netTraversed} = {q | q ∈ s.netTraversed}
    rw [h.netTraversed]

/-! ### The packets that a step cuts and receives -/

variable {e : Event}

/-- The packets that were cut from a message, after an event. -/
def cutAfter (cut : Nat → List Packet) (e : Event) (s s' : Net) (m : Nat) : List Packet :=
  (if NetTime.sends e m then [] else cut m) ++ NetTime.cutIn s s' m

/-- The packets of a message that were received, after an event. -/
def gotAfter (got : Nat → List Packet) (e : Event) (s : Net) (m : Nat) : List Packet :=
  (if NetTime.sends e m then [] else got m) ++ NetTime.gotIn s e m

/-- The message that an event sends. -/
theorem sends_iff {k : Nat} {msg : Message} :
    NetTime.sends (.send n m msg) k = true ↔ k = m :=
  decide_eq_true_iff.trans eq_comm

/-- A step whose packets are old cuts nothing. -/
theorem cutIn_eq_nil (hinv : Inv s) (h : ∀ q ∈ s'.packets, q ∈ s.packets) (m : Nat) :
    NetTime.cutIn s s' m = [] := by
  refine List.filter_eq_nil_iff.mpr fun q hq hnew => ?_
  have hlt := (hinv.core.alive q (h q hq)).2.2.1
  have hle := (of_decide_eq_true hnew).1
  omega

/-- A step with one call of `GetPacket` cuts this packet. -/
theorem cutIn_cutting {l : List Nat} {t : Net} (hinv : Inv s) (h : Cutting t s' packetSize n m l)
    (hpackets : t.packets = s.packets) (hnextAddr : t.nextAddr = s.nextAddr) (k : Nat) :
    NetTime.cutIn s s' k =
      if k = m then [((t.msgs m).getPacket packetSize m t.nextAddr).1] else [] := by
  obtain ⟨a, b, hnew, hold⟩ := h.packets
  have hnone : ∀ q ∈ a ++ b, ¬ (decide (s.nextAddr ≤ q.addr ∧ q.data = k)) = true := by
    intro q hq hle
    rw [← hold, hpackets] at hq
    have hlt := (hinv.core.alive q hq).2.2.1
    have hle := (of_decide_eq_true hle).1
    omega
  have haddr : s.nextAddr ≤ ((t.msgs m).getPacket packetSize m t.nextAddr).1.addr := by
    rw [← hnextAddr]
    exact Nat.le_refl _
  show s'.packets.filter _ = _
  rw [hnew, List.filter_append, List.filter_cons,
    List.filter_eq_nil_iff.mpr fun q hq => hnone q (List.mem_append_left _ hq),
    List.filter_eq_nil_iff.mpr fun q hq => hnone q (List.mem_append_right _ hq)]
  by_cases hk : k = m
  · rw [if_pos hk, if_pos (decide_eq_true ⟨haddr, hk.symm⟩)]
    rfl
  · rw [if_neg hk, if_neg fun hin => hk (of_decide_eq_true hin).2.symm]
    rfl

/-- The receive thread receives a packet, or nothing. -/
theorem gotAfter_rth_eq (k : Nat) : gotAfter got (.rth n) s k = got k ++
    if (s.nics n).recvState = .rxDone then
      (s.nics n).rxp.toList.filter fun pkt => pkt.data = k else [] :=
  rfl

/-- The receive thread has received the packet. -/
theorem gotAfter_rth (hstate : (s.nics n).recvState = .rxDone) (hrxp : (s.nics n).rxp = some pkt)
    (k : Nat) : gotAfter got (.rth n) s k =
      if k = pkt.data then got pkt.data ++ [pkt] else got k := by
  have hgot : gotAfter got (.rth n) s k = got k ++ if pkt.data = k then [pkt] else [] := by
    rw [gotAfter_rth_eq, if_pos hstate, hrxp, Option.toList_some, List.filter_singleton,
      Bool.cond_decide]
  rw [hgot]
  by_cases hk : k = pkt.data
  · subst hk
    rw [if_pos rfl, if_pos rfl]
  · rw [if_neg hk, if_neg (Ne.symm hk), List.append_nil]

/-! ### What is kept -/

/-- The messages that are queued have something left, and their packets go one way. -/
structure Marked (s : Net) (cut : Nat → List Packet) : Prop where
  loaded : ∀ i, ∀ m ∈ (s.nics i).queued, 0 < (s.msgs m).left
  numbered : ∀ m, ∀ q ∈ cut m, q.addr < s.nextAddr
  aimed : ∀ i, ∀ m ∈ (s.nics i).queued, ∀ q ∈ cut m, q.dst = (s.msgs m).receiver

/-- A step that keeps the messages that are queued. -/
theorem Marked.of_same (h : Marked s cut)
    (hqueued : ∀ i, (s'.nics i).queued = (s.nics i).queued)
    (hmsgs : ∀ i, ∀ m ∈ (s.nics i).queued, s'.msgs m = s.msgs m)
    (hnextAddr : s'.nextAddr = s.nextAddr) (hcut : ∀ m, cut' m = cut m) : Marked s' cut' := by
  refine ⟨fun i m hm => ?_, fun m q hq => ?_, fun i m hm q hq => ?_⟩
  · rw [hqueued i] at hm
    rw [hmsgs i m hm]
    exact h.loaded i m hm
  · rw [hcut m] at hq
    rw [hnextAddr]
    exact h.numbered m q hq
  · rw [hqueued i] at hm
    rw [hcut m] at hq
    rw [hmsgs i m hm]
    exact h.aimed i m hm q hq

/-- A call of `GetPacket`. -/
theorem Marked.cutting {l : List Nat} (h : Marked s cut) (hcutting : Cutting s s' packetSize n m l)
    (hq : (s.nics n).queued = m :: l) (hnodup : (s.nics n).queued.Nodup)
    (hsender : ∀ i, ∀ k ∈ (s.nics i).queued, (s.msgs k).sender = i)
    (hcut : ∀ k, cut' k = if k = m then
      cut m ++ [((s.msgs m).getPacket packetSize m s.nextAddr).1] else cut k) : Marked s' cut' := by
  have hmem : m ∈ (s.nics n).queued := by
    rw [hq]
    exact List.mem_cons_self
  have hnotMem : m ∉ l := by
    rw [hq] at hnodup
    exact (List.nodup_cons.mp hnodup).1
  have hsub : ∀ i, ∀ k ∈ (s'.nics i).queued, k ∈ (s.nics i).queued := by
    intro i k hk
    by_cases hi : i = n
    · subst hi
      rw [hcutting.queued] at hk
      rw [hq]
      split at hk
      · exact List.mem_cons_of_mem _ hk
      · exact hk
    · rwa [hcutting.others i hi] at hk
  have hmsgs : ∀ k, s'.msgs k = if k = m then
      ((s.msgs m).getPacket packetSize m s.nextAddr).2 else s.msgs k := congrFun hcutting.msgs
  refine ⟨fun i k hk => ?_, fun k q hin => ?_, fun i k hk q hin => ?_⟩
  · by_cases hkm : k = m
    · subst hkm
      have hi : i = n := (hsender i k (hsub i k hk)).symm.trans (hsender n k hmem)
      subst hi
      rw [hcutting.queued] at hk
      rw [hcutting.left_eq]
      split at hk
      · exact absurd hk hnotMem
      · rename_i hlast
        -- the packet would have the flag if nothing were left
        exact Nat.pos_of_ne_zero fun hzero => hlast (decide_eq_true hzero)
    · rw [hmsgs k, if_neg hkm]
      exact h.loaded i k (hsub i k hk)
  · rw [hcut k] at hin
    rw [hcutting.nextAddr]
    split at hin
    · rcases List.mem_append.mp hin with hin | hin
      · exact Nat.lt_succ_of_lt (h.numbered m q hin)
      · rw [List.mem_singleton.mp hin]
        exact Nat.lt_succ_self _
    · exact Nat.lt_succ_of_lt (h.numbered k q hin)
  · rw [hcut k] at hin
    rw [hmsgs k]
    split at hin
    · rename_i hkm
      subst hkm
      rw [if_pos rfl]
      rcases List.mem_append.mp hin with hin | hin
      · exact h.aimed n k hmem q hin
      · rw [List.mem_singleton.mp hin]
        rfl
    · rename_i hkm
      rw [if_neg hkm]
      exact h.aimed i k (hsub i k hk) q hin

/-- A message that is sent. -/
theorem Marked.sending {msg : Message} (h : Marked s cut) (hsending : Sending s s' n m msg)
    (hleft : 0 < msg.left) (hcut : ∀ k, cut' k = if k = m then [] else cut k) :
    Marked s' cut' := by
  have hmsgs : ∀ k, s'.msgs k = if k = m then msg else s.msgs k := congrFun hsending.msgs
  have hold : ∀ i k, k ≠ m → k ∈ (s'.nics i).queued → k ∈ (s.nics i).queued := by
    intro i k hk hin
    rw [hsending.queued i] at hin
    split at hin
    · exact (List.mem_append.mp hin).resolve_right fun hin => hk (List.mem_singleton.mp hin)
    · exact hin
  refine ⟨fun i k hin => ?_, fun k q hq => ?_, fun i k hin q hq => ?_⟩
  · rw [hmsgs k]
    split
    · exact hleft
    · rename_i hk
      exact h.loaded i k (hold i k hk hin)
  · rw [hcut k] at hq
    rw [hsending.nextAddr]
    split at hq
    · cases hq
    · exact h.numbered k q hq
  · rw [hcut k] at hq
    rw [hmsgs k]
    split at hq
    · cases hq
    · rename_i hk
      rw [if_neg hk]
      exact h.aimed i k (hold i k hk hin) q hq

/-- The invariant between two events, with the packets that were cut and received. -/
structure Tracked (s : Net) (cut got : Nat → List Packet) : Prop where
  inv : Inv s
  marked : Marked s cut
  sound : (s.courier cut got).Sound label

/-! ### Every step is carried -/

/-- A posted packet is in the network. -/
theorem posted_packets (hinv : Inv s) {q : Packet} (h : s.Posted q) : q ∈ s.packets := by
  rcases h with htx | hblk
  · exact List.mem_append_left _ (hinv.core.armed q (List.mem_append_left _ htx))
  · exact List.mem_append_right _ hblk

/-- A packet that a NIC has not reported is in the network. -/
theorem held_packets (hinv : Inv s) {q : Packet} (h : q ∈ (s.nics n).held) : q ∈ s.packets :=
  List.mem_append_left _ (hinv.core.held n q h).2.1

/-- A packet under way is in the network. -/
theorem flying_packets (hinv : Inv s) {q : Packet} (h : (s.courier cut got).Flying label q) :
    q ∈ s.packets := by
  rcases h with hposted | hway | hheld
  · exact posted_packets hinv hposted
  · exact List.mem_append_left _ (hinv.core.armed q (List.mem_append_right _ hway))
  · exact held_packets hinv hheld

/-- The message of a posted packet is queued, unless the packet is the last one. -/
theorem posted_queued (hinv : Inv s) {q : Packet} (h : s.Posted q) (hmsg : q.msg = false) :
    q.data ∈ (s.nics q.src).queued := by
  have hsend := hinv.send q.src
  have hmem : ∀ l : List Nat,
      q.data ∈ (if q.msg = true then [] else (some q.data).toList) ++ l := by
    intro l
    rw [hmsg]
    exact List.mem_append_left _ (List.mem_singleton_self _)
  unfold SendInv at hsend
  unfold NIC.queued
  rcases h with htx | hblk
  · obtain ⟨hstate, htxp⟩ := hinv.core.sending q htx
    rw [hstate] at hsend
    obtain ⟨-, p, hp, htxm, -⟩ := hsend
    rw [htxp] at hp
    cases hp
    rw [hstate, htxp, htxm]
    exact hmem _
  · obtain ⟨hstate, htxp, -⟩ := hinv.core.congested q hblk
    rw [hstate] at hsend
    obtain ⟨-, p, hp, htxm, -⟩ := hsend
    rw [htxp] at hp
    cases hp
    rw [hstate, htxp, htxm]
    exact hmem _

/-- A posted packet of another NIC is not of a message that this one has to send. -/
theorem posted_ne (hinv : Inv s) {q : Packet} (h : s.Posted q) (hsrc : q.src ≠ n)
    (hm : m ∈ (s.nics n).queued) : q.data ≠ m := by
  rintro rfl
  cases hmsg : q.msg with
  | true => exact (hinv.core.alive q (posted_packets hinv h)).2.2.2 hmsg n hm
  | false =>
      have hq := hinv.core.queue _ _ (posted_queued hinv h hmsg)
      exact hsrc (hq.1.symm.trans (hinv.core.queue n _ hm).1)

/-- The steps of the courier in which no last part overtakes. -/
def CarryStep (c : Courier Nat Nat Packet) (act : Courier.Action Nat Packet)
    (c' : Courier Nat Nat Packet) : Prop :=
  c.Punctual label act ∧ Courier.Step label c act c'

/-- The state `t` in which the NIC `n` calls `SendStateMachine` during an event in the state `s`:
none of its packets is posted. -/
structure Between (s t : Net) (n : Nat) : Prop where
  packets : t.packets = s.packets
  nextAddr : t.nextAddr = s.nextAddr
  msgs : t.msgs = s.msgs
  nics : t.nics = s.nics
  posted : ∀ q, t.Posted q → s.Posted q ∧ q.src ≠ n
  way : ∀ q ∈ t.netTraversed, q ∈ s.packets

/-- The packet that `GetPacket` returns is a new part of its message. -/
theorem cutting_enabled {t : Net} (h : Tracked s cut got) (hbetween : Between s t n)
    (hmarked : Marked t cut) (hsize : 0 < packetSize) (hmem : m ∈ (t.nics n).queued)
    (hmem' : m ∈ (s.nics n).queued) :
    Courier.Step label (t.courier cut got) (.cut ((t.msgs m).getPacket packetSize m t.nextAddr).1)
      ((t.courier cut got).cutOff label ((t.msgs m).getPacket packetSize m t.nextAddr).1) := by
  have hold : ∀ q, q.addr = s.nextAddr → q ∉ s.packets := by
    intro q haddr hq
    have hlt := (h.inv.core.alive q hq).2.2.1
    omega
  have haddr : ((t.msgs m).getPacket packetSize m t.nextAddr).1.addr = s.nextAddr :=
    hbetween.nextAddr
  have hleft := hmarked.loaded n m hmem
  have hrest : t.rest m = (t.msgs m).left := rest_eq_left hmem
  refine .cut ?_ ?_ (Nat.lt_min.mpr ⟨hsize, hleft⟩) ?_ ?_ ?_ (hmarked.aimed n m hmem)
  · rintro (hposted | hway | hheld)
    · exact hold _ haddr (posted_packets h.inv (hbetween.posted _ hposted).1)
    · exact hold _ haddr (hbetween.way _ hway)
    · have hheld : _ ∈ (t.nics _).held := hheld
      rw [hbetween.nics] at hheld
      exact hold _ haddr (held_packets h.inv hheld)
  · intro hgot
    have hlt := h.marked.numbered m _ ((h.sound.mem m _).mpr ⟨rfl, .inl hgot⟩)
    omega
  · show min packetSize (t.msgs m).left ≤ t.rest m
    rw [hrest]
    exact Nat.min_le_right _ _
  · show decide ((t.msgs m).left - min packetSize (t.msgs m).left = 0) = true ↔
      min packetSize (t.msgs m).left = t.rest m
    rw [hrest, decide_eq_true_iff]
    omega
  · intro b hb
    obtain ⟨hposted, hsrc⟩ := hbetween.posted b hb
    exact posted_ne h.inv hposted hsrc hmem'

/-- A call of `SendStateMachine` cuts a packet, or is not seen by the courier. -/
theorem served_carried {t : Net} (h : Tracked s cut got) (hbetween : Between s t n)
    (hserved : Served t s' packetSize n) (hsize : 0 < packetSize)
    (hcut : ∀ k, cut' k = cut k ++ NetTime.cutIn s s' k) :
    (∃ acts, Run CarryStep (t.courier cut got) acts (s'.courier cut' got)) ∧ Marked s' cut' := by
  have hmarked : Marked t cut := h.marked.of_same (fun i => by rw [hbetween.nics])
    (fun i m _ => by rw [hbetween.msgs]) hbetween.nextAddr fun _ => rfl
  rcases hserved with hquiet | ⟨m, l, hq, hcutting⟩
  · have hsame : cut' = cut := by
      funext k
      rw [hcut k, cutIn_eq_nil h.inv (fun q hq => ?_) k, List.append_nil]
      rw [← hbetween.packets]
      exact hquiet.packets q hq
    subst hsame
    refine ⟨⟨[], ?_⟩, hmarked.of_same hquiet.queued (fun i m _ => by rw [hquiet.msgs])
      hquiet.nextAddr fun _ => rfl⟩
    rw [courier_congr hquiet.posted hquiet.msgs hquiet.netTraversed hquiet.queued
      fun i => NIC.held_eq_of_rx (hquiet.rx i)]
    exact .nil _
  · have hcut' : ∀ k, cut' k = if k = m then
        cut m ++ [((t.msgs m).getPacket packetSize m t.nextAddr).1] else cut k := by
      intro k
      rw [hcut k, cutIn_cutting h.inv hcutting hbetween.packets hbetween.nextAddr k]
      split
      · rename_i hk
        rw [hk]
      · exact List.append_nil _
    have hmem : m ∈ (t.nics n).queued := by
      rw [hq]
      exact List.mem_cons_self
    have hmem' : m ∈ (s.nics n).queued := by
      rw [← hbetween.nics]
      exact hmem
    refine ⟨⟨[.cut ((t.msgs m).getPacket packetSize m t.nextAddr).1], ?_⟩,
      hmarked.cutting hcutting hq ?_ (fun i k hk => ?_) hcut'⟩
    · rw [courier_cutting hcutting hq hcut']
      exact .cons ⟨trivial, cutting_enabled h hbetween hmarked hsize hmem hmem'⟩ (.nil _)
    · rw [hbetween.nics]
      exact h.inv.core.queue_nodup n
    · rw [hbetween.nics] at hk
      rw [hbetween.msgs]
      exact (h.inv.core.queue i k hk).1

/-- The send thread runs when no packet of its NIC is posted. -/
theorem between_sth (hinv : Inv s) (hsth : (s.nics n).sth = true) : Between s s n := by
  refine ⟨rfl, rfl, rfl, rfl, fun q hq => ⟨hq, ?_⟩, fun q hq =>
    List.mem_append_left _ (hinv.core.armed q (List.mem_append_right _ hq))⟩
  rintro rfl
  have hsend := hinv.send q.src
  unfold SendInv at hsend
  rcases hq with htx | hblk
  · rw [(hinv.core.sending q htx).1, hsth] at hsend
    cases hsend.1
  · rw [(hinv.core.congested q hblk).1, hsth] at hsend
    cases hsend.1

/-- After `TxDone` no packet of the NIC is posted. -/
theorem between_txDone (hinv : Inv s) (hpkt : pkt ∈ s.txDone) : Between s
    { s with txDone := s.txDone.erase pkt, netTraversed := s.netTraversed ++ [pkt] } pkt.src := by
  obtain ⟨htx, hblk⟩ := hinv.sent_free hpkt
  refine ⟨rfl, rfl, rfl, rfl, ?_, fun q hq => ?_⟩
  · rintro q (hq | hq)
    · exact ⟨.inl (List.mem_of_mem_erase hq), htx q hq⟩
    · exact ⟨.inr hq, hblk q hq⟩
  · refine List.mem_append_left _ ?_
    rcases List.mem_append.mp hq with hq | hq
    · exact hinv.core.armed q (List.mem_append_right _ hq)
    · rw [List.mem_singleton.mp hq]
      exact hinv.core.armed pkt (List.mem_append_left _ hpkt)

/-- `SendStateMachine` does not see the packets on the way. -/
theorem Served.traverse (h : Served s s' packetSize n) (pkt : Packet) :
    Served { s with netTraversed := s.netTraversed ++ [pkt] }
      { s' with netTraversed := s'.netTraversed ++ [pkt] } packetSize n := by
  rcases h with h | ⟨m, l, hq, h⟩
  · exact .inl ⟨h.posted, h.packets, h.msgs, congrArg (· ++ [pkt]) h.netTraversed, h.nextAddr,
      h.outputs, h.queued, h.rx⟩
  · exact .inr ⟨m, l, hq, h.posted, h.packets, h.msgs, congrArg (· ++ [pkt]) h.netTraversed,
      h.nextAddr, h.outputs, h.queued, h.others, h.rx⟩

/-- A message may be sent when `SetLength` has set it up, it goes from this NIC to a NIC, and it is
not still being sent. -/
def MaySend (s : Net) : Event → Prop
  | .send n m msg => msg.sender = n ∧ s.IsNid msg.receiver ∧ 0 < msg.msz ∧ msg.left = msg.msz ∧
      ¬ s.InTransit m
  | _ => True

/-- A last packet that arrives is the only one of its message on the way. -/
def Prompt (s : Net) : Event → Prop
  | .netTraversed pkt => pkt.msg = true → ∀ q ∈ s.netTraversed, q.data = pkt.data → q = pkt
  | _ => True

/-- An event that is no send and makes no packet leaves the packets that were cut. -/
theorem cutAfter_same (hinv : Inv s) (hpackets : ∀ q ∈ s'.packets, q ∈ s.packets)
    (he : ∀ k, NetTime.sends e k = false) : cutAfter cut e s s' = cut := by
  funext k
  unfold cutAfter
  rw [cutIn_eq_nil hinv hpackets, List.append_nil, he k]
  rfl

/-- Sending a message is a send of the courier. -/
theorem send_carried {msg : Message} (h : Tracked s cut got)
    (hfire : s.fire packetSize (.send n m msg) = .ok s') (hsend : s.MaySend (.send n m msg)) :
    (∃ acts, Run CarryStep (s.courier cut got) acts (s'.courier
      (cutAfter cut (.send n m msg) s s') (gotAfter got (.send n m msg) s))) ∧
      Marked s' (cutAfter cut (.send n m msg) s s') := by
  obtain ⟨-, -, hpos, hleft, htransit⟩ := hsend
  have hsending := send_sending hfire
  have hcut : ∀ k, cutAfter cut (.send n m msg) s s' k = if k = m then [] else cut k := by
    intro k
    unfold cutAfter
    rw [cutIn_eq_nil h.inv (fun q hq => by rwa [hsending.packets] at hq), List.append_nil,
      if_congr sends_iff rfl rfl]
  have hgot : ∀ k, gotAfter got (.send n m msg) s k = if k = m then [] else got k := by
    intro k
    unfold gotAfter NetTime.gotIn
    rw [List.append_nil, if_congr sends_iff rfl rfl]
  refine ⟨⟨[.send m msg.msz], ?_⟩, h.marked.sending hsending (by rwa [hleft]) hcut⟩
  rw [courier_sending hsending hleft hcut hgot]
  -- the message before it with this address has left the network
  have hrest : s.rest m = 0 := rest_eq_zero fun i hi => htransit (.inl ⟨i, hi⟩)
  refine .cons ⟨trivial, .send hpos hrest fun q hq => h.sound.not_flying hrest ?_ hq⟩ (.nil _)
  intro a ha hdata
  rw [← Bool.not_eq_true]
  exact fun hlast => htransit (.inr ⟨a, flying_packets h.inv ha, hlast, hdata⟩)

/-- A turn of the receive thread does nothing, or receives a packet of the courier. -/
theorem rth_carried (h : Tracked s cut got) (hfire : s.fire packetSize (.rth n) = .ok s')
    (hrth : (s.nics n).rth = true) :
    (∃ acts, Run CarryStep (s.courier cut got) acts (s'.courier
      (cutAfter cut (.rth n) s s') (gotAfter got (.rth n) s))) ∧
      Marked s' (cutAfter cut (.rth n) s s') := by
  rcases rth_receiving hfire h.inv hrth with
    ⟨hnone, hresting⟩ | ⟨pkt, hdone, hrxp, hreceiving⟩
  · have hcut : cutAfter cut (.rth n) s s' = cut :=
      cutAfter_same h.inv (fun q hq => by rwa [hresting.packets] at hq) fun _ => rfl
    have hgot : ∀ k, gotAfter got (.rth n) s k = got k := by
      intro k
      rw [gotAfter_rth_eq, if_neg hnone, List.append_nil]
    refine ⟨⟨[], ?_⟩, h.marked.of_same hresting.queued
      (fun i m _ => by rw [hresting.msgs]) hresting.nextAddr (congrFun hcut)⟩
    rw [hcut, funext hgot, courier_congr hresting.posted hresting.msgs hresting.netTraversed
      hresting.queued hresting.held]
    exact .nil _
  · have hcut : cutAfter cut (.rth n) s s' = cut :=
      cutAfter_same h.inv hreceiving.packets fun _ => rfl
    have hheld : pkt ∈ (s.nics n).held := by
      rw [hreceiving.before]
      exact List.mem_cons_self
    obtain ⟨hdst, hacc, -⟩ := h.inv.core.held n pkt hheld
    subst hdst
    refine ⟨⟨[.receive pkt], ?_⟩, h.marked.of_same hreceiving.queued (fun i m hm => ?_)
      hreceiving.nextAddr (congrFun hcut)⟩
    · rw [hcut, courier_receiving hreceiving rfl (gotAfter_rth hdone hrxp)]
      exact .cons ⟨trivial, .receive hreceiving.before⟩ (.nil _)
    · -- the message that is reversed has no packet left to cut
      rw [hreceiving.msgs]
      split
      · next hlast =>
          refine if_neg ?_
          rintro rfl
          exact (h.inv.core.alive pkt (List.mem_append_left _ hacc)).2.2.2 hlast i hm
      · rfl

/-- The network is a courier: an event is a run of it. -/
theorem carried (h : Tracked s cut got) (hsize : 0 < packetSize)
    (hstep : Step packetSize s e s') (hsend : s.MaySend e) (hprompt : s.Prompt e) :
    (∃ acts, Run CarryStep (s.courier cut got) acts
      (s'.courier (cutAfter cut e s s') (gotAfter got e s))) ∧ Marked s' (cutAfter cut e s s') := by
  obtain ⟨henabled, hfire⟩ := hstep
  cases e with
  | send n m msg => exact send_carried h hfire hsend
  | sth n =>
      have hgot : gotAfter got (.sth n) s = got := funext fun m => List.append_nil _
      rw [hgot]
      exact served_carried h (between_sth h.inv henabled.2) (sth_served hfire h.inv henabled.2)
        hsize fun _ => rfl
  | rth n => exact rth_carried h hfire henabled.2
  | txDone pkt =>
      -- the packet leaves its NIC, and then the send thread may cut the next one
      have hgot : gotAfter got (.txDone pkt) s = got := funext fun m => List.append_nil _
      obtain ⟨s₁, rfl, hserved⟩ := txDone_served hfire h.inv henabled
      obtain ⟨⟨acts, hrun⟩, hmarked⟩ := served_carried h (between_txDone h.inv henabled)
        (hserved.traverse pkt) hsize fun k => rfl
      rw [hgot]
      refine ⟨⟨.leave pkt :: acts, .cons ⟨trivial, .leave (.inl henabled)⟩ ?_⟩, hmarked⟩
      rw [← courier_leave h.inv henabled]
      exact hrun
  | netTraversed pkt =>
      have harriving := netTraversed_arriving hfire h.inv
      have hgot : gotAfter got (.netTraversed pkt) s = got := funext fun m => List.append_nil _
      have hcut : cutAfter cut (.netTraversed pkt) s s' = cut :=
        cutAfter_same h.inv (fun q hq => by rwa [harriving.packets] at hq) fun _ => rfl
      refine ⟨⟨[.arrive pkt], ?_⟩, h.marked.of_same harriving.queued
        (fun i m _ => by rw [harriving.msgs]) harriving.nextAddr (congrFun hcut)⟩
      rw [hgot, hcut, courier_arriving harriving h.inv]
      exact .cons ⟨hprompt, .arrive henabled⟩ (.nil _)

/-- A step whose send is in order keeps the invariant of flow control. -/
theorem inv_step (h : Inv s) (hstep : Step packetSize s e s') (hsend : s.MaySend e) : Inv s' := by
  obtain ⟨henabled, hfire⟩ := hstep
  have hspec : ∃ t, s.fire packetSize e = .ok t ∧ Inv t := by
    cases e with
    | send n m msg =>
        obtain ⟨hsender, hreceiver, -, -, htransit⟩ := hsend
        exact send_spec h hsender hreceiver htransit
    | sth n => exact fire_spec h henabled trivial
    | rth n => exact fire_spec h henabled trivial
    | txDone pkt => exact fire_spec h henabled trivial
    | netTraversed pkt => exact fire_spec h henabled trivial
  obtain ⟨t, hfire', hinv⟩ := hspec
  rw [hfire] at hfire'
  cases hfire'
  exact hinv

/-- A step in which no last packet overtakes keeps the invariant. -/
theorem Tracked.step (h : Tracked s cut got) (hsize : 0 < packetSize)
    (hstep : Step packetSize s e s') (hsend : s.MaySend e) (hprompt : s.Prompt e) :
    Tracked s' (cutAfter cut e s s') (gotAfter got e s) := by
  obtain ⟨⟨acts, hrun⟩, hmarked⟩ := carried h hsize hstep hsend hprompt
  exact ⟨inv_step h.inv hstep hsend, hmarked,
    hrun.invariant (fun _ _ _ hsound hcarry => hcarry.2.sound hcarry.1 hsound) h.sound⟩

/-- The invariant holds at the start. -/
theorem tracked_start (num n : Nat) (msgs : Nat → Message) :
    Tracked (start num n msgs) (fun _ => []) (fun _ => []) := by
  refine ⟨inv_start num n msgs, ⟨fun i m hm => ?_, fun m q hq => ?_, fun i m hm => ?_⟩,
    Courier.sound_empty (fun m => ⟨rest_eq_zero fun i hi => ?_, rfl, rfl⟩) ?_
      (Set.eq_empty_of_forall_notMem fun q hq => ?_) fun i => rfl⟩
  · cases hm
  · cases hq
  · cases hm
  · cases hi
  · refine Set.eq_empty_of_forall_notMem fun q hq => ?_
    rcases hq with hq | hq
    · cases hq
    · rw [show (start num n msgs).network.blkQ = [] from
        (connect_spec (List.replicate (num - 1) n) ⟨0, 0, 0, []⟩ (by decide)).2.1] at hq
      cases hq
  · cases List.not_mem_nil hq

/-! ### What is delivered -/

/-- The message `m`, as the NIC `n` tells its node about it. -/
def Output.Of (n m : Nat) : Output → Prop
  | .notify k => k = m
  | .recv i k => i = n ∧ k = m
  | .deliver i k => i = n ∧ k = m

/-- The NIC `n` has received the message `m` whole: no NIC has to cut packets from it, the packets
that were cut are the ones that were received, they are as long as the message, and one of them has
the flag `NET_PKT_MSG`. -/
structure Whole (s : Net) (cut got : Nat → List Packet) (n m : Nat) : Prop where
  queued : ∀ i, m ∉ (s.nics i).queued
  received : (got m).Perm (cut m)
  length : ((cut m).map Packet.size).sum = (s.msgs m).msz
  last : (cut m).countP Packet.msg = 1
  dst : ∀ q ∈ cut m, q.dst = n

/-- The message of a last packet that is received is whole. -/
theorem receiving_whole (h : Tracked s cut got) (hreceiving : Receiving s s' n pkt)
    (hlast : pkt.msg = true)
    (hgot : ∀ k, got' k = if k = pkt.data then got pkt.data ++ [pkt] else got k) :
    Whole s' cut got' n pkt.data := by
  have hheld : pkt ∈ (s.nics n).held := by
    rw [hreceiving.before]
    exact List.mem_cons_self
  obtain ⟨hdst, hacc, -⟩ := h.inv.core.held n pkt hheld
  subst hdst
  obtain ⟨-, hperm, hlen, hcount⟩ := Courier.complete_receive h.sound
    hreceiving.before hlast
  rw [Courier.account_receive, if_pos rfl] at hperm
  have hcut := (h.sound.mem pkt.data pkt).mpr ⟨rfl, .inr (h.sound.flying_held hheld)⟩
  refine ⟨fun i hi => ?_, ?_, ?_, hcount, fun q hq => h.sound.dst pkt.data q hq pkt hcut⟩
  · rw [hreceiving.queued i] at hi
    exact (h.inv.core.alive pkt (List.mem_append_left _ hacc)).2.2.2 hlast i hi
  · rw [hgot, if_pos rfl]
    exact hperm
  · rw [(hreceiving.msgs_eq _).2]
    exact hlen

/-- The outputs of a received packet are about its message. -/
theorem receiving_outputs (hreceiving : Receiving s s' n pkt) : ∃ l, s'.outputs = s.outputs ++ l ∧
    ∀ o ∈ l, pkt.msg = true ∧ o.Of n pkt.data := by
  refine ⟨_, hreceiving.outputs, fun o ho => ?_⟩
  split at ho
  · rename_i hlast
    refine ⟨hlast, ?_⟩
    rcases List.mem_append.mp ho with ho | ho
    · split at ho
      · rw [List.mem_singleton.mp ho]
        rfl
      · cases ho
    · rw [List.mem_singleton.mp ho]
      split
      · exact ⟨rfl, rfl⟩
      · exact ⟨rfl, rfl⟩
  · cases ho

/-- In a step, the NICs tell their nodes about messages that are whole. -/
theorem step_outputs (h : Tracked s cut got) (hstep : Step packetSize s e s') :
    ∃ l, s'.outputs = s.outputs ++ l ∧ ∀ o ∈ l, ∃ n m, o.Of n m ∧
      Whole s' (cutAfter cut e s s') (gotAfter got e s) n m := by
  obtain ⟨henabled, hfire⟩ := hstep
  have hsame : s'.outputs = s.outputs → ∃ l, s'.outputs = s.outputs ++ l ∧ ∀ o ∈ l, ∃ n m,
      o.Of n m ∧ Whole s' (cutAfter cut e s s') (gotAfter got e s) n m := fun heq =>
    ⟨[], heq.trans (List.append_nil _).symm, fun o ho => absurd ho List.not_mem_nil⟩
  cases e with
  | send n m msg => exact hsame (send_sending hfire).outputs
  | sth n =>
      refine hsame ?_
      rcases sth_served hfire h.inv henabled.2 with hquiet | ⟨m, l, -, hcutting⟩
      · exact hquiet.outputs
      · exact hcutting.outputs
  | txDone pkt =>
      refine hsame ?_
      obtain ⟨s₁, rfl, hserved⟩ := txDone_served hfire h.inv henabled
      rcases hserved with hquiet | ⟨m, l, -, hcutting⟩
      · exact hquiet.outputs
      · exact hcutting.outputs
  | netTraversed pkt => exact hsame (netTraversed_arriving hfire h.inv).outputs
  | rth n =>
      rcases rth_receiving hfire h.inv henabled.2 with
        ⟨-, hresting⟩ | ⟨pkt, hstate, hrxp, hreceiving⟩
      · exact hsame hresting.outputs
      · obtain ⟨l, hl, hof⟩ := receiving_outputs hreceiving
        have hcut : cutAfter cut (.rth n) s s' = cut := by
          funext k
          unfold cutAfter
          rw [cutIn_eq_nil h.inv hreceiving.packets, List.append_nil]
          rfl
        refine ⟨l, hl, fun o ho => ⟨n, pkt.data, (hof o ho).2, ?_⟩⟩
        rw [hcut]
        exact receiving_whole h hreceiving (hof o ho).1 (gotAfter_rth hstate hrxp)

/-- The packets that leave in an event. -/
def departing : Event → List Packet
  | .txDone pkt => [pkt]
  | _ => []

/-- The packets on the way when an event fires, without the one that arrives. -/
def onWay (s : Net) : Event → List Packet
  | .netTraversed pkt => s.netTraversed.erase pkt
  | _ => s.netTraversed

/-- What an event does to the packets on the way. -/
theorem netTraversed_step (h : Inv s) (hstep : Step packetSize s e s') :
    s'.netTraversed = s.onWay e ++ departing e := by
  obtain ⟨henabled, hfire⟩ := hstep
  have hnone : s'.netTraversed = s.netTraversed → s'.netTraversed = s.netTraversed ++ [] :=
    fun heq => heq.trans (List.append_nil _).symm
  cases e with
  | send n m msg => exact hnone (send_sending hfire).netTraversed
  | sth n =>
      rcases sth_served hfire h henabled.2 with hquiet | ⟨m, l, -, hcutting⟩
      · exact hnone hquiet.netTraversed
      · exact hnone hcutting.netTraversed
  | rth n =>
      rcases rth_receiving hfire h henabled.2 with ⟨-, hresting⟩ | ⟨pkt, -, -, hreceiving⟩
      · exact hnone hresting.netTraversed
      · exact hnone hreceiving.netTraversed
  | txDone pkt =>
      obtain ⟨s₁, rfl, hserved⟩ := txDone_served hfire h henabled
      rcases hserved with hquiet | ⟨m, l, -, hcutting⟩
      · exact congrArg (· ++ [pkt]) hquiet.netTraversed
      · exact congrArg (· ++ [pkt]) hcutting.netTraversed
  | netTraversed pkt =>
      exact (netTraversed_arriving hfire h).netTraversed.trans (List.append_nil _).symm

end Net

/-! ### The delays -/

namespace NetTime

open Net

variable {p : Params} {s s' : NetTime} {turn : Turn} {time : Nat}

/-- The packet that is on the way until the event fires. -/
def travelling : Nat × Event → Option Packet
  | (_, .netTraversed pkt) => some pkt
  | _ => none

/-- Arming events puts them into the run queue. -/
theorem foldl_enqueue_perm (f : Event → Nat) (es : List Event) (q : List (Nat × Event)) :
    (es.foldl (fun q e => enqueue q (f e) e) q).Perm (q ++ es.map fun e => (f e, e)) := by
  induction es generalizing q with
  | nil => rw [List.foldl_nil, List.map_nil, List.append_nil]
  | cons e es ih =>
      refine (ih _).trans ?_
      refine ((List.perm_orderedInsert _ (f e, e) q).append_right _).trans ?_
      rw [List.map_cons]
      exact List.perm_middle.symm

/-- The run queue stays in order. -/
theorem enqueue_sorted {q : List (Nat × Event)} (h : q.Pairwise fun a b => a.1 ≤ b.1) (t : Nat)
    (e : Event) : (enqueue q t e).Pairwise fun a b => a.1 ≤ b.1 := by
  have htotal : Std.Total fun a b : Nat × Event => a.1 ≤ b.1 := ⟨fun a b => Nat.le_total a.1 b.1⟩
  have htrans : IsTrans (Nat × Event) fun a b => a.1 ≤ b.1 := ⟨fun _ _ _ => Nat.le_trans⟩
  exact List.Pairwise.orderedInsert (t, e) q h

/-- The run queue stays in order when events are armed. -/
theorem foldl_enqueue_sorted (f : Event → Nat) (es : List Event) {q : List (Nat × Event)}
    (h : q.Pairwise fun a b => a.1 ≤ b.1) :
    (es.foldl (fun q e => enqueue q (f e) e) q).Pairwise fun a b => a.1 ≤ b.1 := by
  induction es generalizing q with
  | nil => exact h
  | cons e es ih => exact ih (enqueue_sorted h (f e) e)

/-- `TxDone` arms the arrival of its packet, and no other event arms one. -/
theorem travelling_arms (f : Event → Nat) (u : Net) (e : Event) (u' : Net) :
    ((arms u e u').map fun e => (f e, e)).filterMap travelling = departing e := by
  have hposted : (((u'.txDone.filter fun pkt => pkt ∉ u.txDone).map Event.txDone).map
      fun e => (f e, e)).filterMap travelling = [] := by
    rw [List.map_map, List.filterMap_map]
    exact List.filterMap_eq_nil_iff.mpr fun _ _ => rfl
  unfold arms
  rw [List.map_append, List.filterMap_append, hposted, List.nil_append]
  cases e with
  | send n m msg =>
      dsimp only
      split
      · rfl
      · rfl
  | sth n => rfl
  | rth n =>
      dsimp only
      split
      · rfl
      · rfl
  | txDone pkt => rfl
  | netTraversed pkt =>
      dsimp only
      split
      · rfl
      · rfl

/-- The run queue after an event. -/
theorem after_perm (p : Params) (s : NetTime) (time : Nat) (turn : Turn) (net : Net) :
    (s.after p time turn net).runQ.Perm (s.runQ ++ (arms s.net turn.event net).map fun e =>
      (add64 time (delay p turn net e), e)) :=
  foldl_enqueue_perm (fun e => add64 time (delay p turn net e)) _ _

/-- The arrivals in the run queue after an event. -/
theorem mem_after {net : Net} {t : Nat} {q : Packet} :
    (t, .netTraversed q) ∈ (s.after p time turn net).runQ ↔ (t, .netTraversed q) ∈ s.runQ ∨
      turn.event = .txDone q ∧ t = add64 time (netLatency p turn.jitter) := by
  have harms := travelling_arms (fun e => add64 time (delay p turn net e)) s.net turn.event net
  rw [(after_perm p s time turn net).mem_iff, List.mem_append]
  refine or_congr Iff.rfl ⟨fun hin => ?_, fun ⟨he, ht⟩ => ?_⟩
  · have hq : q ∈ ((arms s.net turn.event net).map fun e =>
        (add64 time (delay p turn net e), e)).filterMap travelling :=
      List.mem_filterMap.mpr ⟨_, hin, rfl⟩
    obtain ⟨e, -, he⟩ := List.mem_map.mp hin
    cases he
    rw [harms] at hq
    cases hevent : turn.event with
    | txDone pkt =>
        rw [hevent] at hq
        rw [List.mem_singleton.mp hq]
        exact ⟨rfl, rfl⟩
    | _ =>
        rw [hevent] at hq
        cases hq
  · refine List.mem_map.mpr ⟨.netTraversed q, ?_, by rw [ht]; rfl⟩
    unfold arms
    rw [he]
    exact List.mem_append_right _ (List.mem_singleton_self _)

/-- The arrivals of the packets on the way are in the run queue, and the last packet of a message
arrives after the other ones. -/
structure Timely (s : NetTime) : Prop where
  sorted : s.runQ.Pairwise fun a b => a.1 ≤ b.1
  travels : (s.runQ.filterMap travelling).Perm s.net.netTraversed
  late : ∀ t pkt, (t, .netTraversed pkt) ∈ s.runQ → pkt.msg = true →
    ∀ t' q, (t', .netTraversed q) ∈ s.runQ → q.data = pkt.data → q ≠ pkt → t' < t

/-- When the last packet of a message leaves, it is armed for a later time than the packets of the
message that are on the way. -/
def InTime (p : Params) (s : NetTime) (turn : Turn) : Prop :=
  ∀ pkt time rest, turn.event = .txDone pkt → pkt.msg = true → s.runQ = (time, turn.event) :: rest →
    ∀ t q, (t, .netTraversed q) ∈ rest → q.data = pkt.data →
      t < add64 time (netLatency p turn.jitter)

/-- The packets on the way are the ones whose arrival is armed. -/
theorem Timely.mem_iff (h : Timely s) {q : Packet} :
    q ∈ s.net.netTraversed ↔ ∃ t, (t, .netTraversed q) ∈ s.runQ := by
  rw [← h.travels.mem_iff, List.mem_filterMap]
  constructor
  · rintro ⟨⟨t, e⟩, hin, he⟩
    cases e with
    | netTraversed pkt =>
        cases he
        exact ⟨t, hin⟩
    | _ => cases he
  · rintro ⟨t, hin⟩
    exact ⟨_, hin, rfl⟩

/-- A last packet that arrives is the only one of its message on the way. -/
theorem Timely.prompt (h : Timely s) {rest : List (Nat × Event)}
    (hrunQ : s.runQ = (time, turn.event) :: rest) : s.net.Prompt turn.event := by
  have hsorted := h.sorted
  rw [hrunQ] at hsorted
  cases hevent : turn.event with
  | netTraversed pkt =>
      intro hlast q hq hdata
      by_contra hne
      obtain ⟨t, hin⟩ := h.mem_iff.mp hq
      have hhead : (time, .netTraversed pkt) ∈ s.runQ := by
        rw [hrunQ, hevent]
        exact List.mem_cons_self
      have hlt := h.late time pkt hhead hlast t q hin hdata hne
      rw [hrunQ, hevent] at hin
      rcases List.mem_cons.mp hin with heq | hin
      · cases heq
        exact hne rfl
      · have hle : time ≤ t := (List.pairwise_cons.mp hsorted).1 _ hin
        omega
  | _ => trivial

/-- No packet leaves after the last one of its message. -/
theorem data_ne (h : Tracked s.net s.cut s.got) {pkt q : Packet} (hq : q ∈ s.net.txDone)
    (hpkt : pkt ∈ s.net.netTraversed) (hlast : pkt.msg = true) : q.data ≠ pkt.data := by
  intro hdata
  have hflyq : (s.net.courier s.cut s.got).Flying label q := .inl (.inl hq)
  have hfly : (s.net.courier s.cut s.got).Flying label pkt := .inr (.inl hpkt)
  cases hmsg : q.msg with
  | true =>
      have heq := h.sound.last_unique hfly hlast hflyq hmsg hdata
      rw [heq] at hq
      exact (h.sound.posted pkt (.inl hq)).1 hpkt
  | false =>
      have hrest := h.sound.cutting q (.inl hq) hmsg
      rw [show label.load q = label.load pkt from hdata, h.sound.rest_eq_zero hfly hlast] at hrest
      exact Nat.lt_irrefl 0 hrest

/-- What a handler arms is in time, when `queue` is the run queue without the event. -/
theorem Timely.after {queue : List (Nat × Event)} {net : Net} (h : Timely s)
    (htracked : Tracked s.net s.cut s.got) (henabled : s.net.Enabled turn.event)
    (hsub : queue.Sublist s.runQ)
    (htravels : (queue.filterMap travelling ++ departing turn.event).Perm net.netTraversed)
    (hintime : ∀ pkt, turn.event = .txDone pkt → pkt.msg = true →
      ∀ t q, (t, .netTraversed q) ∈ queue → q.data = pkt.data →
        t < add64 time (netLatency p turn.jitter)) :
    Timely (({ s with runQ := queue } : NetTime).after p time turn net) := by
  refine ⟨foldl_enqueue_sorted (fun e => add64 time (delay p turn net e)) _
    (h.sorted.sublist hsub), ?_, fun t pkt hin hlast t' q hin' hdata hne => ?_⟩
  · refine ((after_perm p { s with runQ := queue } time turn net).filterMap _).trans ?_
    rw [List.filterMap_append, travelling_arms]
    exact htravels
  · rcases mem_after.mp hin with hin | ⟨hevent, ht⟩
    · rcases mem_after.mp hin' with hin' | ⟨hevent, -⟩
      · exact h.late t pkt (hsub.subset hin) hlast t' q (hsub.subset hin') hdata hne
      · -- the last packet is on the way, so no other packet of its message can leave
        rw [hevent] at henabled
        exact absurd hdata (data_ne htracked henabled (h.mem_iff.mpr ⟨t, hsub.subset hin⟩) hlast)
    · rcases mem_after.mp hin' with hin' | ⟨hevent', -⟩
      · rw [ht]
        exact hintime pkt hevent hlast t' q hin' hdata
      · rw [hevent] at hevent'
        cases hevent'
        exact absurd rfl hne

/-- A step in which the last packets are armed in time keeps the order of the arrivals. -/
theorem Timely.step (h : Timely s) (htracked : Tracked s.net s.cut s.got)
    (hstep : Step p s turn s') (hintime : InTime p s turn) : Timely s' := by
  cases hstep with
  | send hevent _ _ hnet =>
      refine h.after htracked hnet.1 (List.Sublist.refl _) ?_ fun pkt hpkt => ?_
      · rw [netTraversed_step htracked.inv hnet, hevent]
        exact h.travels.append_right _
      · rw [hevent] at hpkt
        cases hpkt
  | fire hrunQ _ _ hnet =>
      have htravels := h.travels
      rw [hrunQ] at htravels
      refine h.after htracked hnet.1 (by rw [hrunQ]; exact List.sublist_cons_self _ _) ?_
        fun pkt hpkt hlast => hintime pkt _ _ hpkt hlast hrunQ
      rw [netTraversed_step htracked.inv hnet]
      refine List.Perm.append_right _ ?_
      cases hevent : turn.event with
      | netTraversed pkt =>
          rw [hevent] at htravels
          exact (List.cons_perm_iff_perm_erase.mp htravels).2
      | _ =>
          rw [hevent] at htravels
          exact htravels

/-! ### Runs -/

/-- The steps in which messages are set up and the last packets are armed in time. -/
def InTimeStep (p : Params) (s : NetTime) (turn : Turn) (s' : NetTime) : Prop :=
  s.net.MaySend turn.event ∧ InTime p s turn ∧ Step p s turn s'

/-- Every step is a step of the network. -/
theorem Step.net (h : Step p s turn s') : Net.Step p.packetSize s.net turn.event s'.net ∧
    s'.cut = cutAfter s.cut turn.event s.net s'.net ∧ s'.got = gotAfter s.got turn.event s.net := by
  cases h with
  | send _ _ _ hnet => exact ⟨hnet, rfl, rfl⟩
  | fire _ _ _ hnet => exact ⟨hnet, rfl, rfl⟩

/-- No last packet overtakes in such a step. -/
theorem Step.prompt (h : Step p s turn s') (htimely : Timely s) : s.net.Prompt turn.event := by
  cases h with
  | send hevent _ _ _ =>
      rw [hevent]
      trivial
  | fire hrunQ _ _ _ => exact htimely.prompt hrunQ

/-- The invariants are kept. -/
theorem InTimeStep.keeps (h : InTimeStep p s turn s') (hsize : 0 < p.packetSize)
    (hs : Tracked s.net s.cut s.got ∧ Timely s) : Tracked s'.net s'.cut s'.got ∧ Timely s' := by
  obtain ⟨hsend, hintime, hstep⟩ := h
  obtain ⟨hnet, hcut, hgot⟩ := hstep.net
  refine ⟨?_, hs.2.step hs.1 hstep hintime⟩
  rw [hcut, hgot]
  exact hs.1.step hsize hnet hsend (hstep.prompt hs.2)

/-- At the start only the threads are armed. -/
theorem timely_start (num n : Nat) (msgs : Nat → Message) : Timely (start num n msgs) := by
  have hthreads : ∀ (l : List Nat) (q : List (Nat × Event)),
      (q.Pairwise fun a b => a.1 ≤ b.1) ∧ q.filterMap travelling = [] →
      ((l.foldl (fun q i => enqueue (enqueue q 1 (.sth (i + 1))) 1 (.rth (i + 1))) q).Pairwise
        fun a b => a.1 ≤ b.1) ∧
      (l.foldl (fun q i => enqueue (enqueue q 1 (.sth (i + 1))) 1 (.rth (i + 1))) q).filterMap
        travelling = [] := by
    intro l
    induction l with
    | nil => exact fun q hq => hq
    | cons i l ih =>
        intro q hq
        refine ih _ ⟨enqueue_sorted (enqueue_sorted hq.1 _ _) _ _, ?_⟩
        have hperm : ∀ (q : List (Nat × Event)) (e : Event), travelling (1, e) = none →
            q.filterMap travelling = [] → (enqueue q 1 e).filterMap travelling = [] := by
          intro q e he hq
          refine List.Perm.eq_nil (((List.perm_orderedInsert _ (1, e) q).filterMap _).trans ?_)
          rw [List.filterMap_cons_none he, hq]
        exact hperm _ _ rfl (hperm _ _ rfl hq.2)
  obtain ⟨hsorted, hnone⟩ := hthreads (List.range (num - 1)) [] ⟨List.Pairwise.nil, rfl⟩
  have hnone : (start num n msgs).runQ.filterMap travelling = [] := hnone
  refine ⟨hsorted, ?_, fun t pkt hin => ?_⟩
  · rw [hnone]
    exact List.Perm.nil
  · have hpkt : pkt ∈ (start num n msgs).runQ.filterMap travelling :=
      List.mem_filterMap.mpr ⟨_, hin, rfl⟩
    rw [hnone] at hpkt
    cases hpkt

/-- **A message is delivered whole when its last packet is armed in time.** In a run from the start
whose steps are in time, whatever a NIC tells its node in the next step is about a message whose
packets it has all received. -/
theorem whole_run (num n : Nat) (msgs : Nat → Message) (turns : List Turn)
    (hsize : 0 < p.packetSize) (hrun : Run (InTimeStep p) (start num n msgs) turns s)
    (hstep : InTimeStep p s turn s') :
    ∃ l, s'.net.outputs = s.net.outputs ++ l ∧
      ∀ o ∈ l, ∃ nid m, o.Of nid m ∧ Whole s'.net s'.cut s'.got nid m := by
  obtain ⟨htracked, -⟩ := hrun.invariant
    (P := fun s => Tracked s.net s.cut s.got ∧ Timely s) (fun _ _ _ hs h => h.keeps hsize hs)
    ⟨tracked_start num n msgs, timely_start num n msgs⟩
  obtain ⟨hnet, hcut, hgot⟩ := hstep.2.2.net
  rw [hcut, hgot]
  exact step_outputs htracked hnet

/-- A write of 4097 bytes from the NIC 1 to the NIC 2, which makes two packets. -/
def writeMessage : Message := ⟨.write, 1, 2, false, false, 4097, 4097, 0, 0⟩

/-- The first packet of the write. -/
def writeFirst : Packet := ⟨0, 0, false, 4096, 1, 2, 0⟩

/-- The last packet of the write. -/
def writeLast : Packet := ⟨1, 1, true, 1, 1, 2, 0⟩

/-- The write may be sent at the start. -/
theorem maySend_start (msgs : Nat → Message) :
    (start 3 8 msgs).net.MaySend (.send 1 0 writeMessage) := by
  refine ⟨rfl, ⟨by decide, show 2 < 3 by decide⟩, by decide, rfl, ?_⟩
  rintro (⟨i, hi⟩ | ⟨q, hq, -⟩)
  · cases hi
  · cases hq

/-- A delay past everything in the run queue is in time. -/
theorem inTime_of_forall {queue : List (Nat × Event)} (hrunQ : s.runQ = (time, turn.event) :: queue)
    (h : ∀ a ∈ queue, a.1 < add64 time (netLatency p turn.jitter)) : InTime p s turn := by
  intro pkt time' rest _ _ hrunQ' t q hin _
  rw [hrunQ] at hrunQ'
  cases hrunQ'
  exact h _ hin

set_option maxRecDepth 20000 in
/-- With equal latencies the write is delivered whole. -/
theorem whole_run_write : ∃ s s', Run (InTimeStep ⟨4096, 1, 1000⟩) (start 3 8 fun _ => writeMessage)
    [⟨.send 1 0 writeMessage, 0, 0⟩, ⟨.rth 2, 0, 0⟩, ⟨.sth 2, 0, 0⟩, ⟨.rth 1, 0, 0⟩, ⟨.sth 1, 0, 0⟩,
      ⟨.txDone writeFirst, 0, 0⟩, ⟨.txDone writeLast, 0, 0⟩, ⟨.netTraversed writeFirst, 0, 0⟩,
      ⟨.rth 2, 0, 0⟩, ⟨.netTraversed writeLast, 0, 0⟩, ⟨.rth 2, 0, 0⟩] s ∧
    InTimeStep ⟨4096, 1, 1000⟩ s ⟨.rth 2, 0, 0⟩ s' ∧ s'.net.outputs = [.deliver 2 0] ∧
    ∃ l, s'.net.outputs = s.net.outputs ++ l ∧
      ∀ o ∈ l, ∃ nid m, o.Of nid m ∧ Whole s'.net s'.cut s'.got nid m := by
  have hrun : ∃ s s', Run (InTimeStep ⟨4096, 1, 1000⟩) (start 3 8 fun _ => writeMessage)
      [⟨.send 1 0 writeMessage, 0, 0⟩, ⟨.rth 2, 0, 0⟩, ⟨.sth 2, 0, 0⟩, ⟨.rth 1, 0, 0⟩,
        ⟨.sth 1, 0, 0⟩, ⟨.txDone writeFirst, 0, 0⟩, ⟨.txDone writeLast, 0, 0⟩,
        ⟨.netTraversed writeFirst, 0, 0⟩, ⟨.rth 2, 0, 0⟩, ⟨.netTraversed writeLast, 0, 0⟩,
        ⟨.rth 2, 0, 0⟩] s ∧
      InTimeStep ⟨4096, 1, 1000⟩ s ⟨.rth 2, 0, 0⟩ s' ∧ s'.net.outputs = [.deliver 2 0] :=
    ⟨_, _,
      .cons ⟨maySend_start _, (fun _ _ _ h => nomatch h),
        .send rfl (Nat.le_refl 0) (by decide) ⟨by decide, rfl⟩⟩ <|
      .cons ⟨trivial, (fun _ _ _ h => nomatch h),
        .fire rfl (by decide) (by decide) ⟨by decide, rfl⟩⟩ <|
      .cons ⟨trivial, (fun _ _ _ h => nomatch h),
        .fire rfl (by decide) (by decide) ⟨by decide, rfl⟩⟩ <|
      .cons ⟨trivial, (fun _ _ _ h => nomatch h),
        .fire rfl (by decide) (by decide) ⟨by decide, rfl⟩⟩ <|
      .cons ⟨trivial, (fun _ _ _ h => nomatch h),
        .fire rfl (by decide) (by decide) ⟨by decide, rfl⟩⟩ <|
      .cons ⟨trivial, inTime_of_forall rfl (by decide),
        .fire rfl (by decide) (by decide) ⟨by decide, rfl⟩⟩ <|
      .cons ⟨trivial, inTime_of_forall rfl (by decide),
        .fire rfl (by decide) (by decide) ⟨by decide, rfl⟩⟩ <|
      .cons ⟨trivial, (fun _ _ _ h => nomatch h),
        .fire rfl (by decide) (by decide) ⟨by decide, rfl⟩⟩ <|
      .cons ⟨trivial, (fun _ _ _ h => nomatch h),
        .fire rfl (by decide) (by decide) ⟨by decide, rfl⟩⟩ <|
      .cons ⟨trivial, (fun _ _ _ h => nomatch h),
        .fire rfl (by decide) (by decide) ⟨by decide, rfl⟩⟩ <|
      .cons ⟨trivial, (fun _ _ _ h => nomatch h),
        .fire rfl (by decide) (by decide) ⟨by decide, rfl⟩⟩ (.nil _),
      ⟨trivial, (fun _ _ _ h => nomatch h),
        .fire rfl (by decide) (by decide) ⟨by decide, rfl⟩⟩, rfl⟩
  obtain ⟨s, s', hrun, hstep, houtputs⟩ := hrun
  exact ⟨s, s', hrun, hstep, houtputs, whole_run 3 8 _ _ (by decide) hrun hstep⟩

set_option maxRecDepth 20000 in
/-- The first packet of the write takes 1100 and the last one 900, so the last one arrives first,
and the NIC 2 delivers the message without the first 4096 bytes. -/
theorem overtaken_write : ∃ s, Run
    (fun s turn s' => s.net.MaySend turn.event ∧ Step ⟨4096, 1, 1000⟩ s turn s')
    (start 3 8 fun _ => writeMessage)
    [⟨.send 1 0 writeMessage, 0, 0⟩, ⟨.rth 2, 0, 0⟩, ⟨.sth 2, 0, 0⟩, ⟨.rth 1, 0, 0⟩, ⟨.sth 1, 0, 0⟩,
      ⟨.txDone writeFirst, 100, 0⟩, ⟨.txDone writeLast, -100, 0⟩, ⟨.netTraversed writeLast, 0, 0⟩,
      ⟨.rth 2, 0, 0⟩, ⟨.rth 2, 0, 0⟩] s ∧
    s.net.outputs = [.deliver 2 0] ∧ s.cut 0 = [writeFirst, writeLast] ∧ s.got 0 = [writeLast] :=
  ⟨_, .cons ⟨maySend_start _, .send rfl (Nat.le_refl 0) (by decide) ⟨by decide, rfl⟩⟩ <|
    .cons ⟨trivial, .fire rfl (by decide) (by decide) ⟨by decide, rfl⟩⟩ <|
    .cons ⟨trivial, .fire rfl (by decide) (by decide) ⟨by decide, rfl⟩⟩ <|
    .cons ⟨trivial, .fire rfl (by decide) (by decide) ⟨by decide, rfl⟩⟩ <|
    .cons ⟨trivial, .fire rfl (by decide) (by decide) ⟨by decide, rfl⟩⟩ <|
    .cons ⟨trivial, .fire rfl (by decide) (by decide) ⟨by decide, rfl⟩⟩ <|
    .cons ⟨trivial, .fire rfl (by decide) (by decide) ⟨by decide, rfl⟩⟩ <|
    .cons ⟨trivial, .fire rfl (by decide) (by decide) ⟨by decide, rfl⟩⟩ <|
    .cons ⟨trivial, .fire rfl (by decide) (by decide) ⟨by decide, rfl⟩⟩ <|
    .cons ⟨trivial, .fire rfl (by decide) (by decide) ⟨by decide, rfl⟩⟩ (.nil _), rfl, rfl, rfl⟩

end NetTime

end LustreSimulator
