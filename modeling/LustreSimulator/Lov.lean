import LustreSimulator.Lib.Check
import LustreSimulator.BlockDevice

/-!
# `LustreSimulator.Lov`: striping over several objects (`lov.cpp`, `event.h`)

`LOV::ReadWrite` cuts a read or a write of a file into sub-IOs of at most `stripe_size` bytes and
hands them to the objects of the file in turn. A sub-IO names its object by the index in
`obj->cobj`, its offset is an offset on that object, and it points to the IO through `parent`.

Offsets, counts and indices are `Nat`: the model describes the code as long as no sum and no
product leaves 64 bits and the stripe count is an `int`, as the number of servers is.
-/

set_option autoImplicit false

namespace LustreSimulator

open Lib

/-- `struct Layout`. `LOV::Setup` leaves neither size at 0. -/
structure Layout where
  stripeSize : Nat
  stripeCount : Nat
  size_pos : 0 < stripeSize
  count_pos : 0 < stripeCount
  deriving DecidableEq, Repr

/-- The part of a `struct IO` that `ReadWrite` reads and writes. -/
structure IoDesc where
  cmd : Cmd
  ref : Nat
  off : Nat
  count : Nat
  deriving DecidableEq, Repr

namespace Lov

/-- The ways `ReadWrite` can abort. -/
inductive Fault where
  /-- a remainder by 0 -/
  | divide
  /-- `assert(lyt->Check(io->count))` -/
  | check
  deriving DecidableEq, Repr

/-- A sub-IO for the object `idx` of the file. -/
structure SubIo where
  cmd : Cmd
  idx : Nat
  off : Nat
  count : Nat
  deriving DecidableEq, Repr

/-- The layout that `LOV::Setup` makes of the parameters and the number of servers. -/
def setup (stripeSize stripeCount num : Nat) : Layout where
  stripeSize := if stripeSize = 0 then 1048576 else stripeSize
  stripeCount :=
    if stripeCount = 0 then (if num - 1 = 0 then 1 else num - 1) else stripeCount
  size_pos := by split <;> omega
  count_pos := by split <;> (try split) <;> omega

/-- `Layout::Check(count)`. -/
def check (lyt : Layout) (count : Nat) : Except Fault Bool :=
  if count = 0 then .error .divide
  else .ok (lyt.stripeSize % count = 0 || count % lyt.stripeSize = 0)

/-- `StripeOffset(lyt, off)`. `do_div` leaves the quotient in `off` and returns the remainder. -/
def stripeOffset (lyt : Layout) (off : Nat) : Nat :=
  let swidth := lyt.stripeSize * lyt.stripeCount
  let stripeOff := off % swidth
  off / swidth * lyt.stripeSize + stripeOff

/-- `OSC::Read` and `OSC::Write` queue the sub-IO for the object's server and return 0. -/
def oscReadWrite (_ : SubIo) : Int := 0

/-- What `ReadWrite` leaves behind: its return code, `io->ref` and the sub-IOs in the order of
their submission. -/
structure Result where
  rc : Int
  ref : Nat
  subs : List SubIo
  deriving DecidableEq, Repr

/-- The loop of `ReadWrite`, from the offset, the bytes left, the object index and `io->ref`. -/
def readWriteLoop (lyt : Layout) (cmd : Cmd) (off left idx ref : Nat) : Result :=
  if left = 0 then ⟨0, ref, []⟩
  else
    let sio : SubIo := ⟨cmd, idx, stripeOffset lyt off, min left lyt.stripeSize⟩
    let rc := oscReadWrite sio
    if rc ≠ 0 then ⟨rc, ref + 1, [sio]⟩
    else
      let rest := readWriteLoop lyt cmd (off + sio.count) (left - sio.count)
        ((idx + 1) % lyt.stripeCount) (ref + 1)
      { rest with subs := sio :: rest.subs }
termination_by left
decreasing_by
  have := lyt.size_pos
  omega

/-- `ReadWrite(io)`. -/
def readWrite (lyt : Layout) (io : IoDesc) : Except Fault Result :=
  (check lyt io.count).bind fun ok =>
  (Lib.check ok .check).bind fun _ =>
  .ok (readWriteLoop lyt io.cmd io.off io.count (io.off / lyt.stripeSize % lyt.stripeCount) io.ref)

/-- The sub-IO that holds the byte `b` of the IO, as its object and the offset on the object: the
sub-IOs hold the bytes of the IO in order. -/
def locate : List SubIo → Nat → Option (Nat × Nat)
  | [], _ => none
  | sio :: rest, b =>
    if b < sio.count then some (sio.idx, sio.off + b) else locate rest (b - sio.count)

/-- Where the file byte `b` of the IO is sent. -/
def sentTo (lyt : Layout) (io : IoDesc) (b : Nat) : Option (Nat × Nat) :=
  (readWrite lyt io).toOption.bind fun r => locate r.subs (b - io.off)

end Lov

end LustreSimulator
