import LustreSimulator.CfsBinheap
import LustreSimulator.NrsTbfHeap

/-!
# `LustreSimulator.NrsTbfBinheap`: the token bucket filter over its `cfs_binheap`

The scheduler of `NrsTbf` with the heap of `heap.cpp` for `th_binheap`. The node of a client has the
name of its job. `tbf_cli_compare` reads the fields that the clients have when it is called.

`CfsStep` are the steps of the scheduler in which no insertion fails. A failed insertion would make
`Enqueue` return `-ENOMEM`.
-/

set_option autoImplicit false

namespace LustreSimulator.NrsTbf

open Lib

/-- What `tbf_cli_compare` reads of the client of a job. -/
def keyOf (s : NrsTbf) (j : Jobid) : Key :=
  match s.clients j with
  | none => ⟨0, 0⟩
  | some c => c.key

/-- `tbf_cli_compare` on the clients of now. -/
def compareClients (s : NrsTbf) : Jobid → Jobid → Bool :=
  CfsBinheap.order tbfCliCompare s.keyOf

/-- The scheduler with its `cfs_binheap`. -/
structure OverCfs where
  tbf : NrsTbf
  binheap : CfsBinheap Jobid

/-- `cfs_binheap_relocate` of `__nrs_tbf_cli_reset_value`, when `nrs_tbf_update_rule_rate` changed the
rate of the client's rule. `s` and `s'` are the states before and after. -/
def updateCfs (s s' : NrsTbf) (j : Jobid) (c : Client) (h : CfsBinheap Jobid) :
    Except CfsBinheap.Fault (CfsBinheap Jobid) :=
  if (s.rules c.rule).rpcRate ≠ (s'.rules c.rule).rpcRate ∧ c.inHeap = true
  then h.cfsBinheapRelocate s'.compareClients j else .ok h

/-- The calls of `cfs_binheap` in `Enqueue(msg)`, with the result of the insertion. -/
def enqueueCfs (s : NrsTbf) (p : Params) (msg : Msg) (alloc : Nat → Bool) (h : CfsBinheap Jobid) :
    Except CfsBinheap.Fault (Int × CfsBinheap Jobid) :=
  let r := s.cliFindAdd p msg.jobid
  match r.2.updateRuleRate p msg.jobid r.1 with
  | .error _ => .ok (0, h)
  | .ok (c, s') =>
      (updateCfs r.2 s' msg.jobid r.1 h).bind fun h =>
      if c.queue = [] then h.cfsBinheapInsert s'.compareClients alloc msg.jobid else .ok (0, h)

/-- The calls of `cfs_binheap` in a `Dequeue()` that served the client of the job `j`. -/
def dequeueCfs (s' : NrsTbf) (j : Jobid) (h : CfsBinheap Jobid) :
    Except CfsBinheap.Fault (CfsBinheap Jobid) :=
  match s'.clients j with
  | none => .ok h
  | some c =>
      if c.queue = [] then h.cfsBinheapRemove s'.compareClients j
      else h.cfsBinheapRelocate s'.compareClients j

/-- The steps of the scheduler with its `cfs_binheap`. -/
inductive CfsStep (p : Params) : OverCfs → Event → OverCfs → Prop where
  | clock {s : NrsTbf} {h : CfsBinheap Jobid} {t : Nat} : s.now ≤ t →
      (∀ τ, s.timer = some τ → t ≤ τ) → CfsStep p ⟨s, h⟩ (.clock t) ⟨{ s with now := t }, h⟩
  | enqueue {s s' : NrsTbf} {h h' : CfsBinheap Jobid} {msg : Msg} {alloc : Nat → Bool} :
      s.enqueue p msg = .ok s' → enqueueCfs s p msg alloc h = .ok (0, h') →
      CfsStep p ⟨s, h⟩ (.enqueue s.now msg) ⟨s', h'⟩
  | served {s s' : NrsTbf} {h h' : CfsBinheap Jobid} {j : Jobid} {msg : Msg} :
      h.cfsBinheapRoot = .ok (some j) → s.dequeue (some j) = .ok (some msg, s') →
      dequeueCfs s' j h = .ok h' →
      CfsStep p ⟨s, h⟩ (.dequeue s.now (some j) (some msg)) ⟨s', h'⟩
  | idle {s s' : NrsTbf} {h : CfsBinheap Jobid} {root : Option Jobid} :
      h.cfsBinheapRoot = .ok root → s.dequeue root = .ok (none, s') →
      CfsStep p ⟨s, h⟩ (.dequeue s.now root none) ⟨s', h⟩
  | finish {s s' : NrsTbf} {h : CfsBinheap Jobid} {msg : Msg} : s.finish p msg = .ok s' →
      CfsStep p ⟨s, h⟩ (.finish s.now msg) ⟨s', h⟩
  | timer {s : NrsTbf} {h : CfsBinheap Jobid} : s.timer = some s.now →
      CfsStep p ⟨s, h⟩ (.timer s.now) ⟨s.timerCallback, h⟩

end LustreSimulator.NrsTbf
