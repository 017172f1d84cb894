import Mathlib.Tactic.Common

/-!
# `LustreSimulator.BlockDevice`: requests to a block device (`blockdevice.h`, `lustre.h`)

An `Ioreq` is a request that an upper layer submits to a block device. Its links (`next`, `io`
and the callback `completion`) are modelled where they are followed.
-/

set_option autoImplicit false

namespace LustreSimulator

/-- The direction of a request, the macros `READ` and `WRITE`. -/
inductive Cmd where
  | read
  | write
  deriving DecidableEq, Repr

/-- `struct ioreq`. -/
structure Ioreq where
  cmd : Cmd
  ref : Int
  flags : Nat
  off : Nat
  count : Nat
  deriving DecidableEq, Repr

/-- `Disk::AllocBlock(size)`: hand out the next `size` bytes of the disk. The result is their
offset and the new `curoff`. -/
def allocBlock (curoff size : Nat) : Nat × Nat := (curoff, curoff + size)

end LustreSimulator
