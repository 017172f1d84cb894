import LustreSimulator.Lib.Check
import LustreSimulator.BlockDevice

/-!
# `LustreSimulator.Raid0Device`: striping over several disks (`raid0device.cpp`)

`Raid0Device::SubmitIoreq` cuts a request into one sub-request for each member disk and submits
them. The sub-requests share the request through `next`, count in `req->ref`, and
`Raid0Device::Completion` completes the request with the last of them. A member disk takes a
sub-request into its elevator and completes it in a later event, so no completion runs inside
the loop of `SubmitIoreq`.

Offsets and counts are `Nat`: the model describes the code as long as no sum and no product
leaves 64 bits.
-/

set_option autoImplicit false

namespace LustreSimulator

open Lib

/-- `class Raid0Device`: the number of members and the chunk size. -/
structure Raid0Device where
  devcnt : Nat
  chunk : Nat
  deriving DecidableEq, Repr

namespace Raid0Device

/-- The ways `SubmitIoreq` can abort. -/
inductive Fault where
  /-- `assert(req->ref == 0)` -/
  | ref
  /-- `assert(start != OBD_OBJECT_EOF && count != OBD_OBJECT_EOF)` -/
  | eof
  /-- `assert(rc == 1)` -/
  | rc
  deriving DecidableEq, Repr

/-- A sub-request for the member `stripe`. -/
structure Sub where
  stripe : Nat
  off : Nat
  count : Nat
  deriving DecidableEq, Repr

/-- `OBD_OBJECT_EOF` -/
def obdObjectEof : Nat := 0xffffffffffffffff

/-- `StripeNumber(offset)`: the member that holds the offset. -/
def stripeNumber (d : Raid0Device) (offset : Nat) : Nat :=
  let swidth := d.devcnt * d.chunk
  offset % swidth / d.chunk

/-- `StripeOffset(stripeno, roff, doff)`: where the offset `roff` falls on a member. The result
is -1 before the member's chunk, 1 behind it and 0 inside, with the offset on the member. -/
def stripeOffset (d : Raid0Device) (stripeno roff : Nat) : Int × Nat :=
  let swidth := d.chunk * d.devcnt
  let stripeOff := roff % swidth
  let thisStripe := stripeno * d.chunk
  if stripeOff < thisStripe then (-1, roff / swidth * d.chunk)
  else if stripeOff - thisStripe ≥ d.chunk then (1, roff / swidth * d.chunk + d.chunk)
  else (0, roff / swidth * d.chunk + (stripeOff - thisStripe))

/-- `StripeIntersect(stripeno, start, count, dstart, dcount)`: the part of a range that lies on
a member, as the return code, the offset and the count. -/
def stripeIntersect (d : Raid0Device) (stripeno start count : Nat) :
    Except Fault (Int × Nat × Nat) :=
  (check (start ≠ obdObjectEof ∧ count ≠ obdObjectEof) .eof).bind fun _ =>
  let s := d.stripeOffset stripeno start
  let e := d.stripeOffset stripeno (start + count)
  if s.1 ≠ 0 ∧ e.1 ≠ 0 ∧ s.2 = e.2 then .ok (0, s.2, e.2)
  else .ok (1, s.2, e.2 - s.2)

/-- The loop of `SubmitIoreq`, from `req->ref`, the bytes left and the next member. The result
is `req->ref` at the end and the sub-requests in the order of their submission. The first
statement of a turn asserts that nothing refers to the request, so there is no third turn. -/
def submitLoop (d : Raid0Device) (off count ref left stripe : Nat) :
    Except Fault (Nat × List Sub) :=
  if left = 0 then .ok (ref, [])
  else if ref = 0 then
    (d.stripeIntersect stripe off count).bind fun r =>
    (check (r.1 = 1) .rc).bind fun _ =>
    (submitLoop d off count (ref + 1) (left - r.2.2) ((stripe + 1) % d.devcnt)).bind fun rest =>
    .ok (rest.1, ⟨stripe, r.2.1, r.2.2⟩ :: rest.2)
  else .error .ref
termination_by 1 - ref
decreasing_by omega

/-- `SubmitIoreq(req)`. -/
def submitIoreq (d : Raid0Device) (req : Ioreq) : Except Fault (Nat × List Sub) :=
  d.submitLoop req.off req.count req.ref.toNat req.count (d.stripeNumber req.off)

/-- A request whose sub-requests are with the members: `req->ref`, the sub-requests that are
not completed, and how often the completion of the request was called. -/
structure Active where
  ref : Int
  pending : List Sub
  called : Nat
  deriving DecidableEq, Repr

/-- `Completion` of a sub-request, for a request that has a completion. -/
def Active.completion (a : Active) (sub : Sub) : Active :=
  { ref := a.ref - 1
    pending := a.pending.erase sub
    called := if a.ref - 1 = 0 then a.called + 1 else a.called }

/-- Any member disk can complete its sub-request next. -/
def CompletionStep (a : Active) (sub : Sub) (a' : Active) : Prop :=
  sub ∈ a.pending ∧ a' = a.completion sub

end Raid0Device

end LustreSimulator
