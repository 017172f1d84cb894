import Mathlib.Algebra.Field.Rat
import LustreSimulator.Lib.Check
import LustreSimulator.Lib.Word

/-!
# `LustreSimulator.GrantRcc`: the credits that a server grants (`ptlrpc.cpp`)

With congestion control on, `ServerSend` of a completed READ or WRITE calls `CalcGrantRCC`. It
adjusts `ccDe`, the depth of the queue that the server allows, to the load, and computes the
credits of the client from it. The methods are chosen at compile time, and this is `METHOD 5`.

The floating-point numbers are rational numbers here. An assignment to an integer truncates, and a
number that does not fit is taken modulo `2 ^ 32`. The statistics are left out.
-/

set_option autoImplicit false

namespace LustreSimulator.GrantRcc

open Lib

/-- `params.cc`, `params.cluster.ClientCount` and `params.TimeUnit`. -/
structure Params where
  clientCount : Int
  dmin : Int
  dmax : Int
  lmax : Int
  cmin : Int
  cmax : Int
  cbest : Int
  timeUnit : Nat

/-- `struct time_control_wind`. -/
structure TimeControlWind where
  start : Nat
  len : Nat
  maxDepth : Nat
  deriving DecidableEq, Repr

/-- What the server keeps for `CalcGrantRCC`. -/
structure State where
  ccDe : Nat
  cwnd : TimeControlWind
  deriving DecidableEq, Repr

/-- A completed READ or WRITE, with what `CalcGrantRCC` reads of the server at that time: the bytes
in progress `iosize`, the result `queued` of `GetQueuedRPCNum()`, and the clock. -/
structure Completed where
  servTime : Nat
  dc : Int
  rcc : Int
  iosize : Nat
  queued : Nat
  now : Nat
  deriving DecidableEq, Repr

/-- The errors that stop `CalcGrantRCC`. -/
inductive Fault where
  /-- a division by zero -/
  | divZero
  deriving DecidableEq, Repr

/-- A floating-point number as an integer. -/
def trunc (x : ℚ) : Int := x.num.tdiv x.den

/-- `ccDe` after `METHOD 5`. -/
def method5 (p : Params) (ccDe : Nat) (a : Completed) : Except Fault Nat :=
  let st : Nat := a.iosize / 1048576 / 300 % 2 ^ 32
  let la := toInt32 (a.servTime / p.timeUnit)
  let st := toWord32 (trunc (4 / 5 * st + 1 / 5 * la))
  if st < toWord32 p.lmax ∧ ccDe < toWord32 p.dmax then .ok ((ccDe + ccDe / 10) % 2 ^ 32)
  else
    (check (st ≠ 0) .divZero).bind fun _ => .ok (toWord32 (trunc (ccDe * (p.lmax / st))))

/-- `CalcGrantRCC(rpc)`, with `rpc->rcc`. -/
def calcGrantRCC (p : Params) (s : State) (a : Completed) : Except Fault (State × Int) :=
  let depth := a.queued % 2 ^ 32
  (method5 p s.ccDe a).bind fun ccDe =>
  let ccDe := min (toWord32 p.dmax) (max ccDe (toWord32 p.clientCount))
  (check (toWord32 p.clientCount ≠ 0) .divZero).bind fun _ =>
  let arc := ccDe / toWord32 p.clientCount
  let rcc :=
    if depth < toWord32 p.dmin then
      let best := toWord32 (max a.dc p.cbest)
      toInt32 (max (min (toWord32 p.dmin - depth) best) (toWord32 a.rcc))
    else if depth > toWord32 p.dmax then p.cmin
    else toInt32 arc
  .ok (⟨ccDe, { s.cwnd with maxDepth := 0, start := a.now }⟩, max (min rcc p.cmax) p.cmin)

/-- A completed RPC. -/
inductive Step (p : Params) : State → Completed → State → Prop where
  | complete {s s' : State} {a : Completed} {rcc : Int} :
      calcGrantRCC p s a = .ok (s', rcc) → Step p s a s'

/-- A server before the first RPC. -/
def start (p : Params) : State := ⟨toWord32 p.dmax, ⟨0, 5000000, 0⟩⟩

end LustreSimulator.GrantRcc
