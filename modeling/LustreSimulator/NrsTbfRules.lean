import LustreSimulator.NrsTbf

/-!
# `LustreSimulator.NrsTbfRules`: the rules of the token bucket filter (`nrstbf.cpp`)

`nrs_tbf_configure_rules` makes one rule for each index below `NumJobidRule`, before any message
comes. The rule 0 is the default rule and lists no job. The rule `i` lists the job `JOBID.(i-1)`.
A rule with dependency starts at its lower rate.

The names of the rules are left out: the name of a rule is made of its index, and a rule is looked
up by the name of an index.
-/

set_option autoImplicit false

namespace LustreSimulator.NrsTbf

open Lib

/-- The part of `params.nrs.tbf` that describes the rules. -/
structure RuleParams where
  numJobidRule : Nat
  tbfDepth : Nat
  rate : Nat → Nat
  /-- `DepInfo[i].DepIndex`, negative for a rule without dependency -/
  depIndex : Nat → Int
  /-- `DepInfo[i].UpperRate` -/
  upperRate : Nat → Nat
  /-- `DepInfo[i].LowerRate` -/
  lowerRate : Nat → Nat

/-- The assertions and errors that stop the configuration. -/
inductive ConfFault where
  /-- `do_div` by a rate of zero -/
  | divZero
  /-- `LASSERT(head.th_rule == NULL && depid < 0)` -/
  | defaultRule
  /-- `LASSERT(depid < i)` -/
  | depIndex
  /-- `LASSERT(deprule != NULL)` -/
  | depRule
  deriving DecidableEq, Repr

/-- A rule of zeros, as `memset` leaves it. -/
def zeroRule : Rule := ⟨[], 0, 0, 0, false, 0, 0, 0, 0, 0, 0, 0, 0⟩

/-- The jobs of `nrs_tbf_jobid_rule_init(rule)`. -/
def ruleJobids (i : Nat) : List Jobid := if i = 0 then [] else [s!"JOBID.{i - 1}"]

/-- `nrs_tbf_rule_find` for the name of the rule `i`. -/
def ruleFind (s : NrsTbf) (i : Nat) : Option Nat := s.ruleList.find? fun k => decide (k = i)

/-- One turn of the loop of `nrs_tbf_configure_rules`. -/
def configureRule (q : RuleParams) (s : NrsTbf) (i : Nat) : Except ConfFault NrsTbf :=
  let depid := q.depIndex i
  (check (q.rate i ≠ 0) .divZero).bind fun _ =>
  let rule := { zeroRule with
    jobids := ruleJobids i, rpcRate := q.rate i, nsecs := nsecPerSec / q.rate i
    depth := q.tbfDepth }
  let s := { s.setRule i rule with ruleList := i :: s.ruleList }
  (check (i = 0 → depid < 0) .defaultRule).bind fun _ =>
  if depid ≥ 0 then
    (check (depid < i) .depIndex).bind fun _ =>
    let rule := { rule with
      upperRate := q.upperRate i, lowerRate := q.lowerRate i, rpcRate := q.lowerRate i
      dependency := true }
    (require (s.ruleFind depid.toNat) .depRule).bind fun deprule =>
    .ok (s.setRule i { rule with deprule := deprule })
  else .ok s

/-- The first `n` turns of the loop. -/
def configureTurns (q : RuleParams) : Nat → Except ConfFault NrsTbf
  | 0 => .ok (start (fun _ => zeroRule) [])
  | n + 1 => (configureTurns q n).bind fun s => configureRule q s n

/-- The scheduler after `nrs_tbf_start`, with the rules of `nrs_tbf_configure_rules`. -/
def configureRules (q : RuleParams) : Except ConfFault NrsTbf := configureTurns q q.numJobidRule

end LustreSimulator.NrsTbf
