import LustreSimulator.Ptlrpc

/-!
# `LustreSimulator.PtlrpcSend`: the deadline of a new RPC in machine words (`ptlrpc.cpp`)

`Ptlrpc.clientSend` computes the deadline in numbers that do not wrap. In the words of the code, an
estimate is an `unsigned int`, `at_get` returns an `int`, and times have 64 bits: this is
`sendDeadline` with `Arith.words`.

The estimates of an import change by `at_add` alone: `ptlrpc_at_adj_servtime` and
`ptlrpc_at_adj_net_latency` add the values that come with a reply.
-/

set_option autoImplicit false

namespace LustreSimulator.Ptlrpc

open Lib

/-- The value of `at_min`, from `params.ptlrpc.AtMin` and `at_epmargin`. -/
def atMinOf (atMin epMargin : Nat) : Nat := max atMin (max 30 ((epMargin + 4) % 2 ^ 32))

/-- A call of `at_add` for an import. -/
inductive Update where
  /-- `ptlrpc_at_adj_servtime` -/
  | servtime (val now : Nat)
  /-- `ptlrpc_at_adj_net_latency` -/
  | netLatency (val now : Nat)
  deriving DecidableEq, Repr

/-- The updates. A value is an `unsigned int`. -/
inductive Updates (p : Params) : ImpAt → Update → ImpAt → Prop where
  | servtime {iat : ImpAt} {at' : AdaptiveTimeout} {val now : Nat} : val < 2 ^ 32 →
      iat.serviceEstimate.atAdd p.srv.at_ val now now = .ok at' →
      Updates p iat (.servtime val now) { iat with serviceEstimate := at' }
  | netLatency {iat : ImpAt} {at' : AdaptiveTimeout} {val now : Nat} : val < 2 ^ 32 →
      iat.netLatency.atAdd p.srv.at_ val now now = .ok at' →
      Updates p iat (.netLatency val now) { iat with netLatency := at' }

end LustreSimulator.Ptlrpc
