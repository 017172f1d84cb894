import LustreSimulator.Lib.Check
import LustreSimulator.Lib.Word

/-!
# `LustreSimulator.AdaptiveTimeout`: estimates over a sliding window (`ptlrpc.cpp`)

An `adaptive_timeout` keeps the largest value of each of the last `AT_WIND_CNT` sub-windows of time,
newest first, and the largest value of all of them. `at_add` adds a value to it and computes the
estimate.

Two algorithms compute the estimate in floating point. `Params.fit` stands for what they compute.
The time windows of `AT_FLG_AET` belong to that and are left out, and so is `at_est_van`, which only
the statistics read. Values and times are `Nat`, and sums of them do not wrap. `shift` is an `int`,
and a distance of `2 ^ 31` sub-windows or more does not fit into it.
-/

set_option autoImplicit false

namespace LustreSimulator

open Lib

namespace AdaptiveTimeout

/-- `at_flags`. -/
inductive Algo where
  | none
  | max
  | curfit
  | hybrid
  | first
  | queuedRpc
  | fixed
  | aet
  deriving DecidableEq, Repr

/-- The assertions and errors that stop `at_add`. -/
inductive Fault where
  /-- a division by zero -/
  | divZero
  /-- `LASSERT(shift > 0)` -/
  | shift
  deriving DecidableEq, Repr

/-- `AT_WIND_CNT` -/
def atWindCnt : Nat := 8

end AdaptiveTimeout

open AdaptiveTimeout in
/-- `struct adaptive_timeout`. -/
structure AdaptiveTimeout where
  start : Nat
  flags : Algo
  max : Nat
  estimate : Nat
  hist : List Nat
  time : List Nat
  deriving DecidableEq, Repr

namespace AdaptiveTimeout

/-- What `at_add` reads of the parameters. -/
structure Params where
  /-- `params.TimeUnit` -/
  timeUnit : Nat
  /-- `at_max` -/
  atMax : Nat
  /-- `at_history / at_subwndcnt`, in seconds -/
  step : Nat
  /-- the estimate of `CurveFitting`, or of `AT_FLG_AET`, at a time -/
  fit : AdaptiveTimeout → Nat → Nat

/-- `at_init(at, val, flags)`. -/
def atInit (val : Nat) (flags : Algo) : AdaptiveTimeout :=
  ⟨0, flags, val, val, List.replicate atWindCnt 0, List.replicate atWindCnt 0⟩

/-- `at_add` when the time windows move by `shift`: the windows that stay keep their values, and the
first one starts with the new value. -/
def shiftWindows (at_ : AdaptiveTimeout) (p : Params) (shift val tm : Nat) : AdaptiveTimeout :=
  let hist := List.replicate (min shift atWindCnt) 0 ++ at_.hist.take (atWindCnt - shift)
  let time := at_.time.take (min shift atWindCnt) ++ at_.time.take (atWindCnt - shift)
  { at_ with
    hist := hist.set 0 val, time := time.set 0 tm
    max := (at_.hist.take (atWindCnt - shift)).foldl Nat.max val
    start := at_.start + shift * p.step }

/-- The windows after `at_add(at, val, t)`, and whether a value changed for the estimate. -/
def addValue (at_ : AdaptiveTimeout) (p : Params) (val t now : Nat) :
    Except Fault (AdaptiveTimeout × Bool) :=
  let nowsecs := now / p.timeUnit
  let tm := t / p.timeUnit % 2 ^ 32
  if at_.start = 0 then
    .ok ({ at_ with max := val, hist := at_.hist.set 0 val, time := at_.time.set 0 tm
                    start := nowsecs, estimate := val }, false)
  else if nowsecs - at_.start < p.step then
    if val > at_.hist.headD 0 then
      .ok ({ at_ with hist := at_.hist.set 0 val, time := at_.time.set 0 tm
                      max := Nat.max val at_.max }, true)
    else .ok (at_, false)
  else
    (check (p.step ≠ 0) .divZero).bind fun _ =>
    let shift := toInt32 ((nowsecs - at_.start) / p.step)
    (check (shift > 0) .shift).bind fun _ =>
    .ok (at_.shiftWindows p shift.toNat val tm, true)

/-- `at_add(at, val, t)` at the time `now`. -/
def atAdd (at_ : AdaptiveTimeout) (p : Params) (val t now : Nat) : Except Fault AdaptiveTimeout :=
  if at_.flags = .queuedRpc ∨ at_.flags = .fixed then .ok at_
  else
    (check (p.timeUnit ≠ 0) .divZero).bind fun _ =>
    if val = 0 then .ok at_
    else
      (at_.addValue p val t now).bind fun r =>
      let estimate :=
        match r.1.flags with
        | .max => r.1.max
        | .curfit | .hybrid => if r.2 then p.fit r.1 now else r.1.estimate
        | .aet => p.fit r.1 now
        | _ => r.1.estimate
      .ok { r.1 with estimate := if p.atMax > 0 then min estimate p.atMax else estimate }

/-- `RPCS_PER_SEC` -/
def rpcsPerSec : Nat := 200

/-- `at_get(at)`, with `ObdTimeout` and the result of `GetQueuedRPCNum()`. -/
def atGet (at_ : AdaptiveTimeout) (obdTimeout queued : Nat) : Nat :=
  match at_.flags with
  | .queuedRpc => queued / rpcsPerSec
  | .fixed => obdTimeout
  | .first => at_.hist.headD 0
  | .hybrid => min at_.estimate (queued / rpcsPerSec)
  | _ => at_.estimate

/-- `at_get_max(at)`. -/
def atGetMax (at_ : AdaptiveTimeout) : Nat := at_.max

end AdaptiveTimeout

end LustreSimulator
