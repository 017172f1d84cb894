import LustreSimulator.Ldlm
import LustreSimulator.Lib.Ring

/-!
# `LustreSimulator.LdlmSkip`: the skip lists of the granted locks (`ldlm.cpp`)

One resource of the type `LDLM_PLAIN` or `LDLM_IBITS`. Its granted locks stand in three intrusive
lists: `l_res_link` links all of them behind `lr_granted`, `l_sl_mode` those with one mode, and
`l_sl_policy` those with one mode and the same bits. The last two have no head.

A lock is an address, and its three nodes have the address of the lock. In the list of the resource
`none` is `lr_granted` itself. The other lists of the resource and the counts decide nothing here.
-/

set_option autoImplicit false

namespace LustreSimulator

open Lib

namespace LdlmSkip

open Ldlm (Mode Fault)

/-- The values of `lr_type` for which there are skip lists. -/
inductive LrType where
  | plain | ibits
  deriving DecidableEq, Repr

/-- What the skip lists read of `struct ldlm_lock`. -/
structure Lock where
  reqMode : Mode
  /-- `none` is `LCK_MINMODE` -/
  grantedMode : Option Mode
  /-- `l_policy_data.l_inodebits.bits` -/
  bits : Nat
  destroyed : Bool
  deriving DecidableEq, Repr

/-- `struct ldlm_resource` with the pointers of its locks. -/
structure Resource where
  lrType : LrType
  locks : Nat → Lock
  /-- `l_res_link`, with `lr_granted` -/
  resLink : Links (Option Nat)
  slMode : Links Nat
  slPolicy : Links Nat

/-- `struct sl_insert_point`. -/
structure SlInsertPoint where
  resLink : Option Nat
  modeLink : Nat
  policyLink : Nat
  deriving DecidableEq, Repr

variable (s : Resource)

/-- The loop of `search_granted_lock` over the policy groups of a mode group, with `lock`. -/
def searchPolicy (req modeEnd : Nat) : Nat → Nat → Except Fault SlInsertPoint
  | 0, _ => .error .loop
  | k + 1, lock =>
      let policyEnd := s.slPolicy.prev lock
      if (s.locks lock).bits = (s.locks req).bits then
        .ok ⟨some policyEnd, policyEnd, policyEnd⟩
      -- done with the mode group: a new policy group begins behind it
      else if policyEnd = modeEnd then .ok ⟨some modeEnd, modeEnd, req⟩
      else
        match s.resLink.next (some policyEnd) with
        | none => .error .null
        | some lock => searchPolicy req modeEnd k lock

/-- The loop of `search_granted_lock` over the mode groups, with `tmp`. -/
def searchMode (req : Nat) : Nat → Option Nat → Except Fault SlInsertPoint
  | 0, _ => .error .loop
  -- a new mode group begins at the end of the queue
  | _ + 1, none => .ok ⟨s.resLink.prev none, req, req⟩
  | k + 1, some lock =>
      let modeEnd := s.slMode.prev lock
      if (s.locks lock).reqMode ≠ (s.locks req).reqMode then
        searchMode req k (s.resLink.next (some modeEnd))
      else
        match s.lrType with
        | .plain => .ok ⟨some modeEnd, modeEnd, req⟩
        | .ibits => searchPolicy s req modeEnd k lock

/-- `search_granted_lock(&res->lr_granted, req, prev)`. The number bounds the turns of the loops. -/
def searchGrantedLock (turns req : Nat) : Except Fault SlInsertPoint :=
  searchMode s req turns (s.resLink.next none)

/-- `ldlm_granted_list_add_lock(lock, prev)`. -/
def grantedListAddLock (l : Nat) (prev : SlInsertPoint) : Except Fault Resource :=
  -- a destroyed lock is not added, which is no error
  if (s.locks l).destroyed then .ok s
  else
    (check (s.resLink.Empty (some l)) .lassert).bind fun _ =>
    (check (s.slMode.Empty l) .lassert).bind fun _ =>
    (check (s.slPolicy.Empty l) .lassert).bind fun _ =>
    .ok { s with
      resLink := s.resLink.listAdd (some l) prev.resLink
      slMode := s.slMode.listAdd l prev.modeLink
      slPolicy := s.slPolicy.listAdd l prev.policyLink }

/-- `ldlm_grant_lock_with_skiplist(lock)`. -/
def grantLockWithSkiplist (turns l : Nat) : Except Fault Resource :=
  (check (some (s.locks l).reqMode = (s.locks l).grantedMode) .lassert).bind fun _ =>
  (searchGrantedLock s turns l).bind fun prev =>
  grantedListAddLock s l prev

/-- `ldlm_unlink_lock_skiplist(req)`. -/
def unlinkLockSkiplist (req : Nat) : Resource :=
  { s with
    slPolicy := s.slPolicy.listDelInit req
    slMode := s.slMode.listDelInit req }

/-- `ldlm_resource_unlink_lock(lock)`. -/
def resourceUnlinkLock (l : Nat) : Resource :=
  let s := unlinkLockSkiplist s l
  { s with resLink := s.resLink.listDelInit (some l) }

/-- What happens to a resource. -/
inductive Action where
  | grant (l : Nat)
  | unlink (l : Nat)
  | set (l : Nat) (lock : Lock)

/-- A grant takes as many turns as its search needs. Other code may write a lock, though not the
mode and the bits of one that is in the list. -/
inductive Step : Resource → Action → Resource → Prop where
  | grant {s s' : Resource} {turns l : Nat} :
      grantLockWithSkiplist s turns l = .ok s' → Step s (.grant l) s'
  | unlink (s : Resource) (l : Nat) : Step s (.unlink l) (resourceUnlinkLock s l)
  | set {s : Resource} {l : Nat} {lock : Lock} :
      (¬ s.resLink.Empty (some l) →
        lock.reqMode = (s.locks l).reqMode ∧ lock.bits = (s.locks l).bits) →
      Step s (.set l lock) { s with locks := Function.update s.locks l lock }

/-- A resource without granted locks, with every list head initialised. -/
def start (lrType : LrType) (locks : Nat → Lock) : Resource :=
  ⟨lrType, locks, .init, .init, .init⟩

end LdlmSkip

end LustreSimulator
