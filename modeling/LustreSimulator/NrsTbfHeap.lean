import LustreSimulator.Lib.KeyedHeap
import LustreSimulator.Lib.Run
import LustreSimulator.NrsTbf

/-!
# `LustreSimulator.NrsTbfHeap`: the heap of the token bucket filter (`nrstbf.cpp`)

`th_binheap` orders the clients by two of their fields. A `cfs_binheap` cannot see that a field
changes, so the code relocates a client whenever it changes one. Here the heap is a `KeyedHeap`:
it keeps with each client the key that the client had when it was last inserted or relocated, and
its root is least by these keys.

`enqueueHeap` and `dequeueHeap` are the calls of `cfs_binheap` in `Enqueue` and `Dequeue`, where
the source makes them. `HeapStep` are the steps of `NrsTbf.Step` with the heap beside the state.
-/

set_option autoImplicit false

namespace LustreSimulator.NrsTbf

open Lib

/-- What `tbf_cli_compare` reads of a client. -/
structure Key where
  /-- `tc_check_time + tc_nsecs` -/
  deadline : Nat
  /-- `tc_check_time` -/
  checkTime : Nat
  deriving DecidableEq, Repr

/-- The key of a client. -/
def Client.key (c : Client) : Key := ⟨c.checkTime + c.nsecs, c.checkTime⟩

/-- `tbf_cli_compare(e1, e2)`. -/
def tbfCliCompare (e1 e2 : Key) : Bool :=
  if e1.deadline < e2.deadline then true
  else if e1.deadline > e2.deadline then false
  else if e1.checkTime < e2.checkTime then true
  else if e1.checkTime > e2.checkTime then false
  else true

/-- The scheduler with its heap. -/
structure Heaped where
  tbf : NrsTbf
  binheap : KeyedHeap Jobid Key

/-- `cfs_binheap_relocate` of `__nrs_tbf_cli_reset_value`, which `nrs_tbf_update_rule_rate` calls
when the rate of the client's rule changed. `s` and `s'` are the states before and after. -/
def updateHeap (s s' : NrsTbf) (j : Jobid) (c c' : Client) (h : KeyedHeap Jobid Key) :
    KeyedHeap Jobid Key :=
  if (s.rules c.rule).rpcRate ≠ (s'.rules c.rule).rpcRate ∧ c.inHeap = true
  then h.relocate j c'.key else h

/-- The heap after `Enqueue(msg)`: a client that had no message is inserted. -/
def enqueueHeap (s : NrsTbf) (p : Params) (msg : Msg) (h : KeyedHeap Jobid Key) :
    KeyedHeap Jobid Key :=
  let r := s.cliFindAdd p msg.jobid
  match r.2.updateRuleRate p msg.jobid r.1 with
  | .error _ => h
  | .ok (c, s') =>
      let h := updateHeap r.2 s' msg.jobid r.1 c h
      if c.queue = [] then h.insert msg.jobid c.key else h

/-- The heap after a `Dequeue()` that served the client of the job `j`. A client without messages
is removed, and otherwise relocated. -/
def dequeueHeap (s' : NrsTbf) (j : Jobid) (h : KeyedHeap Jobid Key) : KeyedHeap Jobid Key :=
  match s'.clients j with
  | none => h
  | some c => if c.queue = [] then h.remove j else h.relocate j c.key

/-- What `cfs_binheap_root` returns. -/
def CfsBinheapRoot (h : KeyedHeap Jobid Key) (root : Option Jobid) : Prop :=
  h.IsRoot (fun e1 e2 => tbfCliCompare e1 e2 = true) root

/-- The steps of the scheduler with its heap. -/
inductive HeapStep (p : Params) : Heaped → Event → Heaped → Prop where
  | clock {s : NrsTbf} {h : KeyedHeap Jobid Key} {t : Nat} : s.now ≤ t →
      (∀ τ, s.timer = some τ → t ≤ τ) → HeapStep p ⟨s, h⟩ (.clock t) ⟨{ s with now := t }, h⟩
  | enqueue {s s' : NrsTbf} {h : KeyedHeap Jobid Key} {msg : Msg} : s.enqueue p msg = .ok s' →
      HeapStep p ⟨s, h⟩ (.enqueue s.now msg) ⟨s', enqueueHeap s p msg h⟩
  | served {s s' : NrsTbf} {h : KeyedHeap Jobid Key} {j : Jobid} {msg : Msg} :
      CfsBinheapRoot h (some j) → s.dequeue (some j) = .ok (some msg, s') →
      HeapStep p ⟨s, h⟩ (.dequeue s.now (some j) (some msg)) ⟨s', dequeueHeap s' j h⟩
  | idle {s s' : NrsTbf} {h : KeyedHeap Jobid Key} {root : Option Jobid} :
      CfsBinheapRoot h root → s.dequeue root = .ok (none, s') →
      HeapStep p ⟨s, h⟩ (.dequeue s.now root none) ⟨s', h⟩
  | finish {s s' : NrsTbf} {h : KeyedHeap Jobid Key} {msg : Msg} : s.finish p msg = .ok s' →
      HeapStep p ⟨s, h⟩ (.finish s.now msg) ⟨s', h⟩
  | timer {s : NrsTbf} {h : KeyedHeap Jobid Key} : s.timer = some s.now →
      HeapStep p ⟨s, h⟩ (.timer s.now) ⟨s.timerCallback, h⟩

/-- The messages of the job that a run enqueued, in this order. -/
def enqueued (j : Jobid) : List Event → List Msg
  | [] => []
  | .enqueue _ msg :: es => if msg.jobid = j then msg :: enqueued j es else enqueued j es
  | _ :: es => enqueued j es

/-- The messages of the job that `Dequeue` returned in a run, in this order. -/
def dequeued (j : Jobid) : List Event → List Msg
  | [] => []
  | .dequeue _ _ (some msg) :: es => if msg.jobid = j then msg :: dequeued j es else dequeued j es
  | _ :: es => dequeued j es

end LustreSimulator.NrsTbf
