import LustreSimulator.Ldlm

/-!
# `LustreSimulator.LdlmEnqueue`: `ldlm_lock_enqueue` (`ldlm.cpp`)

A lock of a resource of the type `LDLM_EXTENT` is enqueued. The call does what its flags say for a
client, and for a lock that is replayed during recovery, and asks the policy otherwise. So the
waiting queue also gets locks that the policy has never seen: their extents are what the caller has
put into them.

`lr_converting` stands beside the resource here, since no other function puts a lock into it. The
policy asserts that it is empty, and makes one pass, as in `LustreSimulator.Ldlm`.
-/

set_option autoImplicit false

namespace LustreSimulator

open Lib

namespace Ldlm

/-- The flags of a call, with those that the policy does not read. -/
structure EnqueueFlags extends Flags where
  blockConv : Bool
  blockWait : Bool
  replay : Bool
  /-- `LDLM_AST_DISCARD_DATA` -/
  discardData : Bool
  deriving DecidableEq, Repr

/-- A resource with `lr_converting`. -/
structure Queues where
  res : Resource
  converting : List Nat

/-- `-ENOMEM`. -/
def enomem : Int := -12

/-- `ldlm_resource_add_lock(res, &res->lr_converting, lock)` for a lock that is in no list. -/
def addConverting (q : Queues) (l : Nat) : Queues :=
  if (q.res.locks l).destroyed then q else { q with converting := q.converting ++ [l] }

/-- The list that the flags name for the lock, or a grant: what happens to a lock of a client or to
a lock that is replayed. -/
def enqueueAs (q : Queues) (l : Nat) (conv wait : Bool) : Except Fault Queues :=
  if conv then .ok (addConverting q l)
  else if wait then (resourceAddWaiting q.res l).bind fun s => .ok { q with res := s }
  else (grantLock q.res l).bind fun s => .ok { q with res := s }

/-- `ldlm_lock_enqueue(ns, &lock, cookie, flags)` with `ns_is_client(ns)`. The last component is the
result. -/
def lockEnqueue (p : Params) (client : Bool) (now : Nat) (q : Queues) (l : Nat)
    (flags : EnqueueFlags) : Except Fault (Queues × EnqueueFlags × Int) :=
  if client = true ∧ (q.res.locks l).grantedMode = some (q.res.locks l).reqMode then
    -- the lock was granted before the client got here
    .ok (q, { flags with blockGranted := false, blockConv := false, blockWait := false }, 0)
  else
    (resourceUnlinkLock q.res l).bind fun s =>
    let q : Queues := ⟨s, q.converting.erase l⟩
    if (s.locks l).treeNode = none then
      -- the node was allocated with the lock, and this call has none to spare
      .ok ({ q with res := setLock s l { s.locks l with destroyed := true } }, flags, enomem)
    else
      let s := setLock s l
        { s.locks l with discardData := (s.locks l).discardData || flags.discardData }
      let q := { q with res := s }
      if client then
        (enqueueAs q l flags.blockConv (flags.blockWait || flags.blockGranted)).bind fun q =>
        .ok (q, flags, 0)
      else if flags.replay && (flags.blockConv || flags.blockWait || flags.blockGranted) then
        (enqueueAs q l flags.blockConv flags.blockWait).bind fun q => .ok (q, flags, 0)
      else
        -- the first assertion of `ldlm_process_extent_lock`
        (check (q.converting = []) .lassert).bind fun _ =>
        (processExtentLock p now s l flags.toFlags true).bind fun o =>
        .ok ({ q with res := o.res }, { flags with toFlags := o.flags }, o.err)

/-- A call of `ldlm_lock_enqueue`. -/
structure Call where
  l : Nat
  flags : EnqueueFlags
  now : Nat

/-- A call takes the queues to others. -/
def EnqueueStep (p : Params) (client : Bool) (q : Queues) (c : Call) (q' : Queues) : Prop :=
  ∃ r, lockEnqueue p client c.now q c.l c.flags = .ok (q', r)

/-- The call that replays a waiting lock. -/
def Call.replayWaiting (l : Nat) : Call :=
  ⟨l, { Flags.zero with blockConv := false, blockWait := true, replay := true, discardData := false },
    0⟩

end Ldlm

end LustreSimulator
