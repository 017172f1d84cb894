import LustreSimulator.BlockDevice

/-!
# `LustreSimulator.NrsMessage`: the requests that a server schedules (`message.h`, `event.h`)

A message is an address. `NrsMessage` is what the schedulers read of the message there.
-/

set_option autoImplicit false

namespace LustreSimulator

namespace NrsMessage

/-- `struct IO`, the request of a message. -/
structure Io where
  cmd : Cmd
  prio : Int
  /-- `flags & IO_FLG_DEADLINE` -/
  flgDeadline : Bool
  /-- `flags & IO_FLG_DYNAMIC_DEADLINE` -/
  flgDynamicDeadline : Bool
  /-- `flags & IO_FLG_MANDATORY_DEADLINE` -/
  flgMandatoryDeadline : Bool
  /-- `flags & IO_FLG_DEADLINE_1` -/
  flgDeadline1 : Bool
  /-- `flags & IO_FLG_DEADLINE_2` -/
  flgDeadline2 : Bool
  fid : Nat
  off : Nat
  count : Nat
  jobid : String
  deadline : Nat
  deriving DecidableEq, Repr

end NrsMessage

open NrsMessage in
/-- `class Message`, as the schedulers read it. -/
structure NrsMessage where
  req : Io
  cid : Nat
  key : Nat
  /-- the `deadline` of its `RPC` -/
  deadline : Nat
  deriving DecidableEq, Repr

end LustreSimulator
