import LustreSimulator.Lib.Check
import LustreSimulator.Lib.Word
import LustreSimulator.Timer

/-!
# `LustreSimulator.NrsTbf`: the token bucket filter (`nrstbf.cpp`)

A message belongs to a job, and every job has an `nrs_tbf_client` with a token bucket and a
queue. `Enqueue` finds or creates the client of the message and queues the message there.
`Dequeue` looks at the client at the root of a heap: if its bucket has a token, the client's
first message is served, and otherwise the scheduler throttles and arms a timer for the next
token. `Finish` drops the message's reference to its client, which may purge clients from the
cache.

The heap and the hash of clients are `cfs_binheap` and `cfs_hash`. Of the heap the model keeps
the clients that are in it, and a `dequeue` event names the client at its root. The order of the
heap is left open. The hash is the
function `clients`, with the item count and the LRU list of each bucket, and `bucketOf` is the
bucket of a job. Memory allocation succeeds. A client has the address `addr`, since a message
refers to its client through `ioreq->ptr`.

Times are `Nat` and do not wrap. The rates that depend on other rules are computed on 64 bits.
The statistics (`nrs_tbf_stat`), the references on rules, the spin locks and the printing are
left out. Nothing here reads them.
-/

set_option autoImplicit false

namespace LustreSimulator

open Lib

/-- A job id. -/
abbrev Jobid := String

namespace NrsTbf

/-- `params.nrs.tbf` and the geometry of the client hash. -/
structure Params where
  /-- `Alpha`, in percent -/
  alpha : Nat
  /-- `Beta`, in percent -/
  beta : Nat
  /-- the bucket of a job in `th_cli_hash` -/
  bucketOf : Jobid → Nat
  /-- `tbf_jobid_cache_size >> (hs_cur_bits - hs_bkt_bits)` -/
  hw : Nat

/-- `NSEC_PER_SEC` -/
def nsecPerSec : Nat := 1000000000

/-- A message to schedule, with the job id of its `ioreq`. -/
structure Msg where
  id : Nat
  jobid : Jobid
  deriving DecidableEq, Repr

/-- `struct nrs_tbf_rule`. Rules refer to each other by their index. -/
structure Rule where
  jobids : List Jobid
  rpcRate : Nat
  nsecs : Nat
  depth : Nat
  /-- `tr_flags & NRS_TBF_DEPENDENCY` -/
  dependency : Bool
  deprule : Nat
  upperRate : Nat
  lowerRate : Nat
  speedup : Nat
  lastRound : Nat
  lastActiveTime : Nat
  nsecsBacklog : Nat
  checkTime : Nat
  deriving DecidableEq, Repr

/-- `struct nrs_tbf_client`. -/
structure Client where
  addr : Nat
  ref : Int
  rule : Nat
  rpcRate : Nat
  nsecs : Nat
  ntoken : Nat
  depth : Nat
  checkTime : Nat
  inHeap : Bool
  queue : List Msg
  backlogCkpt : Nat
  deriving DecidableEq, Repr

/-- The assertions and errors that stop the program. -/
inductive Fault where
  /-- `LASSERT(!cli->tc_in_heap)` -/
  | inHeap
  /-- `LASSERT(cli->tc_in_heap)` -/
  | notInHeap
  /-- `LASSERTF(deadline > now)` -/
  | deadline
  /-- `LASSERT(now >= cli->tc_check_time)` -/
  | checkTime
  /-- `LASSERT(msg != NULL)` -/
  | noMsg
  /-- `LASSERT(ioreq->ptr == cli)` -/
  | ptr
  /-- `LASSERT(rule->tr_speedup >= rule->tr_last_round)` -/
  | speedup
  /-- a division by zero -/
  | divZero
  /-- `assert(time > now)` of `RunAt` -/
  | runAt
  /-- a client that was freed is used -/
  | freed
  /-- `LASSERT(cli->tc_queue->Empty())` or `LASSERT(!cli->tc_in_heap)` of `nrs_tbf_cli_fini` -/
  | fini
  deriving DecidableEq, Repr

end NrsTbf

open NrsTbf in
/-- `class NrsTbf` with `struct nrs_tbf_head`, the clock and the `ioreq->ptr` of the messages. -/
structure NrsTbf where
  now : Nat
  rules : Nat → Rule
  /-- `th_list`, from the newest rule to the oldest -/
  ruleList : List Nat
  clients : Jobid → Option Client
  /-- the jobs whose clients are in `th_binheap` -/
  heap : List Jobid
  /-- `ntb_lru` of each bucket, oldest first -/
  lru : Nat → List Jobid
  /-- the number of items of each bucket -/
  bdCount : Nat → Nat
  throttling : Bool
  deadline : Nat
  timer : Option Nat
  ptr : Nat → Option Nat
  nextAddr : Nat

namespace NrsTbf

/-! ### Clients and rules -/

/-- Replace the client of a job. -/
def setClient (s : NrsTbf) (j : Jobid) (c : Option Client) : NrsTbf :=
  { s with clients := fun i => if i = j then c else s.clients i }

/-- Replace a rule. -/
def setRule (s : NrsTbf) (i : Nat) (r : Rule) : NrsTbf :=
  { s with rules := fun k => if k = i then r else s.rules k }

/-- `nrs_tbf_rule_match(cli)`: the newest rule that lists the job, or the default rule. -/
def ruleMatch (s : NrsTbf) (j : Jobid) : Nat :=
  (s.ruleList.find? fun i => decide (j ∈ (s.rules i).jobids)).getD 0

/-- `__nrs_tbf_cli_reset_value(cli, keep)`: take over the values of the rule, and refill the
bucket unless it is to be kept. -/
def cliResetValue (s : NrsTbf) (c : Client) (keep : Bool) : Client :=
  let rule := s.rules c.rule
  let c := { c with rpcRate := rule.rpcRate, nsecs := rule.nsecs, depth := rule.depth }
  if keep = false then { c with ntoken := rule.depth, checkTime := s.now } else c

/-- `nrs_tbf_cli_init(cli, ioreq)`: a new client for the job. -/
def cliInit (s : NrsTbf) (j : Jobid) : Client :=
  s.cliResetValue ⟨s.nextAddr, 1, s.ruleMatch j, 0, 0, 0, 0, 0, false, [], 0⟩ false

/-- `nrs_tbf_jobid_cli_find(ioreq)`: a cached client gets a reference and leaves the LRU list. -/
def cliFind (s : NrsTbf) (p : Params) (j : Jobid) : Option (Client × NrsTbf) :=
  (s.clients j).map fun c =>
    let c := { c with ref := c.ref + 1 }
    let b := p.bucketOf j
    (c, { s.setClient j (some c) with
      lru := fun i => if i = b then (s.lru b).erase j else s.lru i })

/-- The begin of `Enqueue`: find the client of the job, or create it and add it to the hash. -/
def cliFindAdd (s : NrsTbf) (p : Params) (j : Jobid) : Client × NrsTbf :=
  match s.cliFind p j with
  | some r => r
  | none =>
      let c := s.cliInit j
      let b := p.bucketOf j
      (c, { s.setClient j (some c) with
        nextAddr := s.nextAddr + 1
        bdCount := fun i => if i = b then s.bdCount b + 1 else s.bdCount i })

/-- The new `tr_speedup` and `tr_last_round` of a rule with dependency: a round that doubles when
the rate goes up, and the last round taken back or `tr_speedup` halved when it goes down. -/
def nextRound (rule : Rule) (up : Bool) : Except Fault (Nat × Nat) :=
  if up then
    let lastRound :=
      if rule.lastRound = 0 then 1
      else min (add64 rule.lastRound rule.lastRound)
        (sub64 (sub64 rule.upperRate rule.lowerRate) rule.speedup)
    .ok (add64 rule.speedup lastRound, lastRound)
  else if rule.lastRound > 0 then
    (check (rule.speedup ≥ rule.lastRound) .speedup).bind fun _ =>
    .ok (rule.speedup - rule.lastRound, 0)
  else .ok (rule.speedup / 2, rule.lastRound)

/-- `nrs_tbf_update_rule_rate(cli)`: adapt the rate of a rule with dependency, and the client to
its rule. -/
def updateRuleRate (s : NrsTbf) (p : Params) (j : Jobid) (c : Client) :
    Except Fault (Client × NrsTbf) :=
  let rule := s.rules c.rule
  if rule.dependency = false then .ok (c, s)
  else
    let deprule := s.rules rule.deprule
    -- the rate was adapted less than one token of the other rule ago
    if s.now - rule.checkTime < deprule.nsecs then .ok (c, s)
    else
      let passed := s.now - deprule.lastActiveTime
      -- the other rule has been idle for a while, and its backlog is short
      let up := decide (passed > p.alpha * deprule.nsecs / 100 ∧
        deprule.nsecsBacklog < p.beta * deprule.nsecs / 100)
      (nextRound rule up).bind fun r =>
      let rpcRate := min rule.upperRate (add64 r.1 rule.lowerRate)
      let rule' := { rule with
        speedup := r.1, lastRound := r.2, rpcRate := rpcRate, checkTime := s.now }
      if rule.rpcRate ≠ rpcRate then
        (check (rpcRate ≠ 0) .divZero).bind fun _ =>
        let s := s.setRule c.rule { rule' with nsecs := nsecPerSec / rpcRate }
        -- only this client follows its rule now, and it keeps its tokens
        let c := s.cliResetValue c true
        .ok (c, s.setClient j (some c))
      else .ok (c, s.setRule c.rule rule')

/-! ### Enqueue -/

/-- The end of `Enqueue` for a client whose queue was empty: while the scheduler throttles, a
client with an earlier deadline moves the timer. -/
def enqueueTimer (s : NrsTbf) (c : Client) : Except Fault NrsTbf :=
  if s.throttling then
    let deadline := c.checkTime + c.nsecs
    -- the source leaves this case out, with two lines in comments
    if deadline < s.now then .ok s
    else if s.deadline > deadline then
      (check (deadline > s.now) .deadline).bind fun _ =>
      match Timer.modTimer s.now s.timer deadline with
      | none => .error .runAt
      | some timer => .ok { s with deadline := deadline, timer := timer }
    else .ok s
  else .ok s

/-- `Enqueue(msg)`. -/
def enqueue (s : NrsTbf) (p : Params) (msg : Msg) : Except Fault NrsTbf :=
  let r := s.cliFindAdd p msg.jobid
  (r.2.updateRuleRate p msg.jobid r.1).bind fun r =>
  let c := r.1
  let s := r.2
  if c.queue = [] then
    (check (c.inHeap = false) .inHeap).bind fun _ =>
    -- a cached client has an old `tc_backlog_ckpt`
    let c := { c with backlogCkpt := s.now, inHeap := true, queue := [msg] }
    ({ s.setClient msg.jobid (some c) with heap := s.heap ++ [msg.jobid] }.enqueueTimer c).bind
      fun s => .ok { s with ptr := fun i => if i = msg.id then some c.addr else s.ptr i }
  else
    (check (c.inHeap = true) .notInHeap).bind fun _ =>
    let c := { c with queue := c.queue ++ [msg] }
    .ok { s.setClient msg.jobid (some c) with
      ptr := fun i => if i = msg.id then some c.addr else s.ptr i }

/-! ### Dequeue -/

/-- The tokens of a client at the time `now`: the tokens left and one for each full `tc_nsecs`
since the last check, at most `tc_depth`. -/
def tokens (c : Client) (now : Nat) : Nat :=
  min c.depth ((now - c.checkTime) / c.nsecs + c.ntoken)

/-- `Dequeue` with the client of the job `j` at the root of the heap, when the client has
`ntoken` tokens. -/
def serve (s : NrsTbf) (j : Jobid) (c : Client) (ntoken : Nat) : Except Fault (Msg × NrsTbf) :=
  match c.queue with
  | [] => .error .noMsg
  | msg :: rest =>
      (check (s.ptr msg.id = some c.addr) .ptr).bind fun _ =>
      let s := s.setRule c.rule
        { s.rules c.rule with nsecsBacklog := s.now - c.backlogCkpt }
      let c := { c with ntoken := ntoken - 1, checkTime := s.now, backlogCkpt := s.now,
                        queue := rest }
      -- the last message takes the client out of the heap
      if rest = [] then
        .ok (msg, { s.setClient j (some { c with inHeap := false }) with heap := s.heap.erase j })
      else .ok (msg, s.setClient j (some c))

/-- `Dequeue()`, with the client of the job `root` at the root of the heap. -/
def dequeue (s : NrsTbf) (root : Option Jobid) : Except Fault (Option Msg × NrsTbf) :=
  if s.throttling then .ok (none, s)
  else
    match root with
    | none => .ok (none, s)
    | some j =>
        match s.clients j with
        | none => .error .freed
        | some c =>
            (check (c.inHeap = true) .notInHeap).bind fun _ =>
            (check (s.now ≥ c.checkTime) .checkTime).bind fun _ =>
            (check (c.nsecs ≠ 0) .divZero).bind fun _ =>
            let s := s.setRule c.rule { s.rules c.rule with lastActiveTime := s.now }
            let ntoken := tokens c s.now
            if ntoken > 0 then
              (s.serve j c ntoken).bind fun r => .ok (some r.1, r.2)
            else
              -- no token, so nothing is served before the next one is due
              let deadline := c.checkTime + c.nsecs
              match Timer.modTimer s.now s.timer deadline with
              | none => .error .runAt
              | some timer =>
                  .ok (none, { s with throttling := true, deadline := deadline, timer := timer })

/-- What `cfs_binheap_root` may return: nothing when the heap is empty, and otherwise one of its
clients. Which one it is does not matter here. -/
def IsRoot (s : NrsTbf) (root : Option Jobid) : Prop :=
  match root with
  | none => s.heap = []
  | some j => j ∈ s.heap

/-! ### Finish and the timer -/

/-- The loop of `nrs_tbf_jobid_cli_put`: while the bucket holds more clients than it may, drop
the oldest one of its LRU list. -/
def purge (p : Params) (b : Nat) : List Jobid → NrsTbf → Except Fault NrsTbf
  | [], s => .ok { s with lru := fun i => if i = b then [] else s.lru i }
  | j :: rest, s =>
      if s.bdCount b > p.hw then
        match s.clients j with
        | none => .error .freed
        | some c =>
            -- `nrs_tbf_cli_fini` of a client that nothing uses
            (check (c.ref = 0 ∧ c.queue = [] ∧ c.inHeap = false) .fini).bind fun _ =>
            purge p b rest { s.setClient j none with
              bdCount := fun i => if i = b then s.bdCount b - 1 else s.bdCount i }
      else .ok { s with lru := fun i => if i = b then j :: rest else s.lru i }

/-- `Finish(msg)`: drop the reference of the message. A client without references goes to the
LRU list of its bucket, and the bucket is purged. -/
def finish (s : NrsTbf) (p : Params) (msg : Msg) : Except Fault NrsTbf :=
  match s.clients msg.jobid with
  | none => .error .freed
  | some c =>
      (check (s.ptr msg.id = some c.addr) .freed).bind fun _ =>
      let s := { s.setClient msg.jobid (some { c with ref := c.ref - 1 }) with
        ptr := fun i => if i = msg.id then none else s.ptr i }
      let b := p.bucketOf msg.jobid
      -- the last reference: the client stays in the cache while there is room
      if c.ref - 1 = 0 then purge p b (s.lru b ++ [msg.jobid]) s else .ok s

/-- `NrsTbfTimerCallback`. -/
def timerCallback (s : NrsTbf) : NrsTbf := { s with throttling := false, timer := none }

/-! ### Runs -/

/-- What happens to the scheduler, with the time of it. A `dequeue` carries the message that it
returned. -/
inductive Event where
  | clock (now : Nat)
  | enqueue (now : Nat) (msg : Msg)
  | dequeue (now : Nat) (root : Option Jobid) (msg : Option Msg)
  | finish (now : Nat) (msg : Msg)
  | timer (now : Nat)
  deriving DecidableEq, Repr

/-- The steps of the scheduler. The clock does not go past an armed timer, and a timer fires at
the time it is armed for. -/
inductive Step (p : Params) : NrsTbf → Event → NrsTbf → Prop where
  | clock {s : NrsTbf} {t : Nat} : s.now ≤ t → (∀ τ, s.timer = some τ → t ≤ τ) →
      Step p s (.clock t) { s with now := t }
  | enqueue {s s' : NrsTbf} {msg : Msg} : s.enqueue p msg = .ok s' →
      Step p s (.enqueue s.now msg) s'
  | dequeue {s s' : NrsTbf} {root : Option Jobid} {msg : Option Msg} : s.IsRoot root →
      s.dequeue root = .ok (msg, s') → Step p s (.dequeue s.now root msg) s'
  | finish {s s' : NrsTbf} {msg : Msg} : s.finish p msg = .ok s' →
      Step p s (.finish s.now msg) s'
  | timer {s : NrsTbf} : s.timer = some s.now → Step p s (.timer s.now) s.timerCallback

/-- The scheduler after `nrs_tbf_start` with the given rules. -/
def start (rules : Nat → Rule) (ruleList : List Nat) : NrsTbf :=
  { now := 0, rules := rules, ruleList := ruleList, clients := fun _ => none, heap := [],
    lru := fun _ => [], bdCount := fun _ => 0, throttling := false, deadline := 0, timer := none,
    ptr := fun _ => none, nextAddr := 0 }

end NrsTbf

end LustreSimulator
