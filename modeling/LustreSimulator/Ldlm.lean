import LustreSimulator.IntervalTree
import LustreSimulator.Lib.Run
import LustreSimulator.Lib.Word
import Mathlib.Algebra.Group.Int.Defs

/-!
# `LustreSimulator.Ldlm`: the extent locks of a resource (`ldlm.cpp`, `ldlm.h`)

One resource of the type `LDLM_EXTENT`. A lock is an address, and so is an interval node. The
node that is attached to a new lock has the address of the lock. `lr_converting` stays empty, and
the handles, the reference counts, the completion callbacks and `lr_most_restr` decide nothing
here.

`ldlm_process_extent_lock` sends the blocking callbacks with `l_blocking_ast`, which belongs to
the caller. When it asks for a restart the function makes another pass with the same lock. The
model is one pass, and another pass is another call for a lock that has not been granted.
-/

set_option autoImplicit false

namespace LustreSimulator

open Lib

namespace Ldlm

/-- `ldlm_mode_t`, in the order of `lr_itree`. -/
inductive Mode where
  | ex | pw | pr | cw | cr | nl | group
  deriving DecidableEq, Repr

/-- The value of a mode. -/
def Mode.bit : Mode → Nat
  | .ex => 1
  | .pw => 2
  | .pr => 4
  | .cw => 8
  | .cr => 16
  | .nl => 32
  | .group => 64

/-- The modes of `lr_itree[0]` to `lr_itree[LCK_MODE_NUM - 1]`. -/
def modes : List Mode := [.ex, .pw, .pr, .cw, .cr, .nl, .group]

/-- `LCK_COMPAT_EX`. -/
def lckCompatEx : Nat := Mode.nl.bit

/-- `LCK_COMPAT_PW`. -/
def lckCompatPw : Nat := lckCompatEx ||| Mode.cr.bit

/-- `LCK_COMPAT_PR`. -/
def lckCompatPr : Nat := lckCompatPw ||| Mode.pr.bit

/-- `LCK_COMPAT_CW`. -/
def lckCompatCw : Nat := lckCompatPw ||| Mode.cw.bit

/-- `LCK_COMPAT_CR`. -/
def lckCompatCr : Nat := lckCompatCw ||| Mode.pr.bit ||| Mode.pw.bit

/-- `LCK_COMPAT_NL`. -/
def lckCompatNl : Nat := lckCompatCr ||| Mode.ex.bit ||| Mode.group.bit

/-- `LCK_COMPAT_GROUP`. -/
def lckCompatGroup : Nat := Mode.group.bit ||| Mode.nl.bit

/-- `lck_compat_array`. -/
def lckCompatArray : Mode → Nat
  | .ex => lckCompatEx
  | .pw => lckCompatPw
  | .pr => lckCompatPr
  | .cw => lckCompatCw
  | .cr => lckCompatCr
  | .nl => lckCompatNl
  | .group => lckCompatGroup

/-- `lockmode_compat(exist, newmode)`. -/
def lockmodeCompat (exist newmode : Mode) : Bool := lckCompatArray exist &&& newmode.bit ≠ 0

/-- `OBD_OBJECT_EOF`. -/
def obdObjectEof : Nat := 0xffffffffffffffff

/-- `LDLM_MAX_GROWN_EXTENT`. -/
def ldlmMaxGrownExtent : Nat := 32 * 1024 * 1024 - 1

/-- What a lock keeps of the blocking callback. -/
structure Ast where
  /-- `LDLM_FL_AST_SENT` in `l_flags` -/
  sent : Bool
  /-- `l_bl_ast` is in a list -/
  listed : Bool
  blockingLock : Option Nat
  /-- `l_bl_ast_run` -/
  run : Nat
  deriving DecidableEq, Repr

/-- `struct ldlm_lock`. -/
structure Lock where
  reqMode : Mode
  /-- `none` is `LCK_MINMODE` -/
  grantedMode : Option Mode
  /-- `l_export`, and `none` for a lock that the server takes itself -/
  client : Option Nat
  reqExtent : IntervalExtent
  /-- `l_policy_data.l_extent` -/
  extent : IntervalExtent
  /-- `l_policy_data.l_extent.gid` -/
  gid : Nat
  /-- `l_blocking_ast` is set -/
  blockingAst : Bool
  /-- `LDLM_AST_DISCARD_DATA` in `l_flags` -/
  discardData : Bool
  destroyed : Bool
  treeNode : Option Nat
  ast : Ast
  deriving DecidableEq, Repr

/-- The flags of an enqueue. -/
structure Flags where
  blockNowait : Bool
  denyOnContention : Bool
  noTimeout : Bool
  lockChanged : Bool
  blockGranted : Bool
  deriving DecidableEq, Repr

/-- No flags. -/
def Flags.zero : Flags := ⟨false, false, false, false, false⟩

/-- The parameters of the namespace. -/
structure Params where
  nsContendedLocks : Nat
  /-- `cfs_time_seconds(ns_contention_time)` -/
  nsContentionTime : Nat
  nsMaxNolockSize : Nat

/-- The ways the program stops: a failed assertion, a `NULL` pointer, a loop without end. -/
inductive Fault where
  | lassert | null | loop
  deriving DecidableEq, Repr

end Ldlm

open Ldlm in
/-- `struct ldlm_resource` with its locks and their interval nodes. -/
structure Resource where
  locks : Nat → Lock
  /-- `li_group` of an interval node -/
  liGroup : Nat → List Nat
  /-- `in_intree` of an interval node -/
  inIntree : Nat → Bool
  /-- `lr_itree[i].lit_root` -/
  itree : Mode → IntervalTree
  /-- `lr_itree[i].lit_size` -/
  litSize : Mode → Int
  granted : List Nat
  waiting : List Nat
  contentionTime : Nat

namespace Ldlm

open Resource

/-- The resource with another lock at `l`. -/
def setLock (s : Resource) (l : Nat) (lock : Lock) : Resource :=
  { s with locks := fun i => if i = l then lock else s.locks i }

/-! ### The lists -/

/-- `!list_empty(&l->l_res_link)`. -/
def Linked (s : Resource) (l : Nat) : Prop := l ∈ s.granted ∨ l ∈ s.waiting

instance (s : Resource) (l : Nat) : Decidable (Linked s l) :=
  inferInstanceAs (Decidable (l ∈ s.granted ∨ l ∈ s.waiting))

/-- `list_del_init(&l->l_res_link)`. -/
def listDel (s : Resource) (l : Nat) : Resource :=
  { s with granted := s.granted.erase l, waiting := s.waiting.erase l }

/-- `list_add(b, a)`: put `b` behind `a`. -/
def listAdd (a b : Nat) : List Nat → List Nat
  | [] => []
  | x :: xs => if x = a then x :: b :: xs else x :: listAdd a b xs

/-- `ldlm_resource_add_lock(res, &res->lr_granted, lock)`. -/
def resourceAddGranted (s : Resource) (l : Nat) : Except Fault Resource :=
  -- a destroyed lock is not added, which is no error
  if (s.locks l).destroyed then .ok s
  else
    (check (¬ Linked s l) .lassert).bind fun _ =>
    .ok { s with granted := s.granted ++ [l] }

/-- `ldlm_resource_add_lock(res, &res->lr_waiting, lock)`. -/
def resourceAddWaiting (s : Resource) (l : Nat) : Except Fault Resource :=
  if (s.locks l).destroyed then .ok s
  else
    (check (¬ Linked s l) .lassert).bind fun _ =>
    .ok { s with waiting := s.waiting ++ [l] }

/-- `ldlm_resource_insert_lock_after(original, newlock)`. -/
def resourceInsertLockAfter (s : Resource) (original newlock : Nat) : Except Fault Resource :=
  if (s.locks newlock).destroyed then .ok s
  else
    (check (¬ Linked s newlock) .lassert).bind fun _ =>
    .ok { s with
      granted := listAdd original newlock s.granted
      waiting := listAdd original newlock s.waiting }

/-! ### Interval nodes -/

/-- The first lock of `li_group`, whose extent `ldlm_interval_extent(node)` returns. -/
def intervalLock (s : Resource) (node : Nat) : Except Fault Nat :=
  require (s.liGroup node).head? .lassert

/-- `ldlm_interval_attach(n, l)`. -/
def intervalAttach (s : Resource) (n l : Nat) : Except Fault Resource :=
  (check ((s.locks l).treeNode = none) .lassert).bind fun _ =>
  .ok { setLock s l { s.locks l with treeNode := some n } with
    liGroup := fun i => if i = n then s.liGroup n ++ [l] else s.liGroup i }

/-- `ldlm_interval_detach(l)`. The result is the node when it has no lock left. -/
def intervalDetach (s : Resource) (l : Nat) : Except Fault (Resource × Option Nat) :=
  match (s.locks l).treeNode with
  | none => .ok (s, none)
  | some n =>
      (check (s.liGroup n ≠ []) .lassert).bind fun _ =>
      .ok ({ setLock s l { s.locks l with treeNode := none } with
          liGroup := fun i => if i = n then (s.liGroup n).erase l else s.liGroup i },
        if (s.liGroup n).erase l = [] then some n else none)

/-- `interval_erase(&node->li_node, &tree->lit_root)`. -/
def eraseNode (s : Resource) (m : Mode) (n : Nat) : Except Fault Resource :=
  (check (s.inIntree n = true) .lassert).bind fun _ =>
  (require (findPos (fun x => decide (x.addr = n)) (s.itree m) []) .null).bind fun p =>
  (require (IntervalTree.erase p) .null).bind fun t =>
  .ok { s with
    itree := fun i => if i = m then t else s.itree i
    inIntree := fun i => if i = n then false else s.inIntree i }

/-- `ldlm_extent_unlink_lock(lock)`. -/
def extentUnlinkLock (s : Resource) (l : Nat) : Except Fault Resource :=
  match (s.locks l).treeNode with
  | none => .ok s
  | some n =>
      -- a lock that was not granted has a node outside of the trees
      if s.inIntree n then
        (require (s.locks l).grantedMode .lassert).bind fun m =>
        (check (s.itree m ≠ .nil) .lassert).bind fun _ =>
        (intervalDetach
          { s with litSize := fun i => if i = m then s.litSize m - 1 else s.litSize i } l).bind
          fun r =>
        match r.2 with
        -- other locks with the same extent keep the node
        | none => .ok r.1
        | some n => eraseNode r.1 m n
      else .ok s

/-- `ldlm_resource_unlink_lock(lock)`. -/
def resourceUnlinkLock (s : Resource) (l : Nat) : Except Fault Resource :=
  (extentUnlinkLock s l).bind fun s => .ok (listDel s l)

/-- `interval_set(node, start, end)` and `interval_insert(node, root)`: the node of the tree with
the same extent when there is one. -/
def insertNode (s : Resource) (m : Mode) (n : Nat) (ext : IntervalExtent) :
    Except Fault (Option Nat × Resource) :=
  (check (ext.start ≤ ext.end_) .lassert).bind fun _ =>
  (check (s.inIntree n = false) .lassert).bind fun _ =>
  (require (IntervalTree.insert ⟨n, ext, ext.end_⟩ (s.itree m)) .null).bind fun r =>
  -- the tree stays as it is when the extent is there already
  let s' : Resource := { s with itree := fun i => if i = m then r.2 else s.itree i }
  match r.1 with
  | some found => .ok (some found.addr, s')
  | none => .ok (none, { s' with inIntree := fun i => if i = n then true else s.inIntree i })

/-- The lock leaves its own node, which is freed, and joins the group of the node that has been
found. -/
def joinGroup (s : Resource) (l : Nat) : Option Nat → Except Fault Resource
  | none => .ok s
  | some found =>
      (intervalDetach s l).bind fun r =>
      (check (r.2 ≠ none) .lassert).bind fun _ =>
      intervalAttach r.1 found l

/-- `ldlm_extent_add_lock(res, lock)`. -/
def extentAddLock (s : Resource) (l : Nat) : Except Fault Resource :=
  let lock := s.locks l
  (check (lock.grantedMode = some lock.reqMode) .lassert).bind fun _ =>
  (require lock.treeNode .lassert).bind fun n =>
  (insertNode s lock.reqMode n lock.extent).bind fun r =>
  (joinGroup r.2 l r.1).bind fun s =>
  resourceAddGranted
    { s with litSize := fun i =>
        if i = lock.reqMode then s.litSize lock.reqMode + 1 else s.litSize i } l

/-- `ldlm_grant_lock(lock, work_list)`. -/
def grantLock (s : Resource) (l : Nat) : Except Fault Resource :=
  extentAddLock (setLock s l { s.locks l with grantedMode := some (s.locks l).reqMode }) l

/-! ### Blocking callbacks -/

/-- `ldlm_add_ast_work_item(lock, newlock, work_list)` with a `newlock`. -/
def addBlWorkItem (s : Resource) (l newlock : Nat) (workList : List Nat) :
    Except Fault (Resource × List Nat) :=
  let ast := (s.locks l).ast
  -- one callback for a lock is enough
  if ast.sent then .ok (s, workList)
  else
    (check (ast.listed = false ∧ ast.blockingLock = none) .lassert).bind fun _ =>
    .ok (setLock s l { s.locks l with ast := ⟨true, true, some newlock, ast.run⟩ }, l :: workList)

/-- `ldlm_run_bl_ast_work(rpc_list)`. -/
def runBlAstWork : List Nat → Resource → Except Fault Resource
  | [], s => .ok s
  | l :: ls, s =>
      let ast := (s.locks l).ast
      (check (ast.sent = true ∧ ast.run = 0 ∧ ast.blockingLock ≠ none) .lassert).bind fun _ =>
      runBlAstWork ls (setLock s l { s.locks l with ast := ⟨true, false, none, ast.run + 1⟩ })

/-- `discard_bl_list(bl_list)`. -/
def discardBlList : List Nat → Resource → Except Fault Resource
  | [], s => .ok s
  | l :: ls, s =>
      let ast := (s.locks l).ast
      (check (ast.sent = true ∧ ast.run = 0 ∧ ast.blockingLock ≠ none) .lassert).bind fun _ =>
      discardBlList ls (setLock s l { s.locks l with ast := ⟨false, false, none, ast.run⟩ })

/-! ### The search for conflicts -/

/-- The variables of `ldlm_extent_compat_queue` with what it changes. -/
structure Scan where
  res : Resource
  flags : Flags
  /-- `none` is `NULL` -/
  workList : Option (List Nat)
  contendedLocks : Nat
  compat : Int

/-- How a loop of `ldlm_extent_compat_queue` ends: it runs out or breaks, it returns, or it jumps
to `destroylock`. -/
inductive Exit where
  | done
  | ret (rc : Int)
  | destroylock (compat : Int)
  deriving DecidableEq, Repr

/-- `-EWOULDBLOCK`. -/
def ewouldblock : Int := -11

/-- `-EUSERS`. -/
def eusers : Int := -87

/-- The callbacks of the locks that `req` waits for. -/
def addWorkItems (req : Nat) : List Nat → Scan → Except Fault Scan
  | [], sc => .ok sc
  | l :: ls, sc =>
      if (sc.res.locks l).blockingAst then
        (require sc.workList .null).bind fun w =>
        (addBlWorkItem sc.res l req w).bind fun r =>
        addWorkItems req ls { sc with res := r.1, workList := some r.2 }
      else addWorkItems req ls sc

/-- `ldlm_extent_compat_cb(n, data)`. It never stops the iteration. -/
def extentCompatCb (req : Nat) (mode : Mode) (n : IntervalNode) (sc : Scan) :
    Except Fault (Scan × Bool) :=
  let group := sc.res.liGroup n.addr
  (check (group ≠ []) .lassert).bind fun _ =>
  (addWorkItems req group sc).bind fun sc =>
  (intervalLock sc.res n.addr).bind fun l =>
  let extent := (sc.res.locks l).extent
  .ok ({ sc with
    -- conflicting glimpse locks are not counted
    contendedLocks :=
      if mode = .pr ∧ extent.start = 0 ∧ extent.end_ = obdObjectEof then sc.contendedLocks
      else sc.contendedLocks + group.length
    compat := 0 }, false)

/-- The part of the loop over the interval trees for a tree that has not been skipped. -/
def blockedTree (req : Nat) (m : Mode) (sc : Scan) : Except Fault (Scan × Exit) :=
  let tree := sc.res.itree m
  if m = .group then
    -- a `GROUP` lock blocks every other lock, whatever its extent
    if sc.flags.blockNowait then .ok (sc, .destroylock ewouldblock)
    else
      let sc := { sc with flags := { sc.flags with noTimeout := true } }
      match sc.workList with
      | none => .ok (sc, .ret 0)
      | some _ =>
          (IntervalTree.iterate tree (extentCompatCb req m) { sc with compat := 0 }).bind fun sc =>
          .ok (sc, .done)
  else
    let ex := (sc.res.locks req).reqExtent
    match sc.workList with
    | none =>
        -- without a list the first conflict decides
        if IntervalTree.isOverlapped tree ex then .ok (sc, .ret 0) else .ok (sc, .done)
    | some _ =>
        (IntervalTree.search tree ex (extentCompatCb req m) sc).bind fun sc =>
        .ok ({ sc with compat := if sc.workList ≠ some [] ∧ sc.compat ≠ 0 then 0 else sc.compat },
          .done)

/-- One turn of the loop over the interval trees. -/
def compatTree (req : Nat) (m : Mode) (sc : Scan) : Except Fault (Scan × Exit) :=
  match sc.res.itree m with
  | .nil => .ok (sc, .done)
  | .node _ _ root _ =>
      if lockmodeCompat (sc.res.locks req).reqMode m then
        -- compatible modes do not conflict
        if (sc.res.locks req).reqMode ≠ .group then .ok (sc, .done)
        else
          -- a group lock is granted immediately when its `gid` is the one found here
          (intervalLock sc.res root.addr).bind fun l =>
          if (sc.res.locks req).gid = (sc.res.locks l).gid then .ok (sc, .ret 2)
          else blockedTree req m sc
      else blockedTree req m sc

/-- The loop over the interval trees, which search the granted locks. -/
def compatGranted (req : Nat) : List Mode → Scan → Except Fault (Scan × Exit)
  | [], sc => .ok (sc, .done)
  | m :: ms, sc =>
      (compatTree req m sc).bind fun r =>
      match r.2 with
      | .done => compatGranted req ms r.1
      | _ => .ok r

/-- Put `req` in front of `lock`: behind it, and then `lock` again behind `req`. -/
def insertBefore (s : Resource) (lock req : Nat) : Except Fault Resource :=
  -- there is only an operation that inserts behind a lock
  (resourceInsertLockAfter s lock req).bind fun s =>
  resourceInsertLockAfter (listDel s lock) req lock

/-- The place of a `GROUP` lock that has met a waiting lock with which it is not compatible. The
result is `none` where the search for the place goes on. -/
def placeGroup (req lock : Nat) (sc : Scan) : Except Fault (Option Scan) :=
  if (sc.res.locks lock).reqMode ≠ .group then
    (insertBefore sc.res lock req).bind fun s => .ok (some { sc with res := s, compat := 0 })
  else if (sc.res.locks req).gid = (sc.res.locks lock).gid then
    (resourceInsertLockAfter sc.res lock req).bind fun s =>
    .ok (some { sc with res := s, compat := 0 })
  else .ok none

/-- The end of a turn of the loop over the waiting locks: `lock` blocks `req`. -/
def blockedBy (req lock : Nat) (contention : Bool) (sc : Scan) : Except Fault (Scan × Exit) :=
  match sc.workList with
  | none => .ok (sc, .ret 0)
  | some _ =>
      let other := sc.res.locks lock
      let glimpse := other.reqMode = .pr ∧ other.extent.start = 0 ∧
        other.extent.end_ = obdObjectEof
      (addWorkItems req [lock] { sc with
        contendedLocks := sc.contendedLocks + if contention = true ∧ ¬ glimpse then 1 else 0
        compat := 0 }).bind fun sc =>
      .ok (sc, .done)

/-- One turn of the loop over the waiting locks, which has found no place for a `GROUP` lock yet.
The last component tells that the search for the place begins. -/
def compatLock (req lock : Nat) (sc : Scan) : Except Fault (Scan × Exit × Bool) :=
  let mine := sc.res.locks req
  let other := sc.res.locks lock
  let rest : Except Fault (Scan × Exit × Bool) :=
    if mine.reqMode = .group ∧ other.grantedMode ≠ some other.reqMode then
      .ok ({ sc with compat := 0 }, .done, true)
    else if other.reqMode = .group then
      if sc.flags.blockNowait then .ok (sc, .destroylock ewouldblock, false)
      else
        (blockedBy req lock true
          { sc with flags := { sc.flags with noTimeout := true } }).bind fun r =>
        .ok (r.1, r.2, false)
    else if other.extent.end_ < mine.reqExtent.start ∨
        other.extent.start > mine.reqExtent.end_ then .ok (sc, .done, false)
    else
      (blockedBy req lock (¬ (other.reqExtent.end_ < mine.reqExtent.start ∨
        other.reqExtent.start > mine.reqExtent.end_)) sc).bind fun r =>
      .ok (r.1, r.2, false)
  if lockmodeCompat other.reqMode mine.reqMode then
    -- a lock that covers this one waits already, and no callback was sent for it
    if mine.reqMode = .pr ∧ other.extent.start ≤ mine.extent.start ∧
        other.extent.end_ ≥ mine.extent.end_ ∧ other.ast.sent = false then
      .ok (sc, .ret sc.compat, false)
    else if mine.reqMode ≠ .group then .ok (sc, .done, false)
    else if mine.gid = other.gid then
      if other.grantedMode = some other.reqMode then .ok (sc, .ret 2, false)
      else if sc.flags.blockNowait then .ok (sc, .destroylock ewouldblock, false)
      else
        (resourceInsertLockAfter sc.res lock req).bind fun s =>
        .ok ({ sc with res := s }, .ret 0, false)
    else rest
  else rest

/-- The loop over the waiting locks. The flag is `scan`. -/
def compatWaiting (req : Nat) : List Nat → Bool → Scan → Except Fault (Scan × Exit)
  | [], _, sc => .ok (sc, .done)
  | lock :: ls, scan, sc =>
      -- only the locks in front of this one count
      if req = lock then .ok (sc, .done)
      -- the loop goes on only to find a place for a `GROUP` lock
      else if scan then
        (placeGroup req lock sc).bind fun r =>
        match r with
        | some sc => .ok (sc, .done)
        | none => compatWaiting req ls true sc
      else
        (compatLock req lock sc).bind fun r =>
        match r.2.1 with
        | .done =>
            if r.2.2 then
              (placeGroup req lock r.1).bind fun r' =>
              match r' with
              | some sc => .ok (sc, .done)
              | none => compatWaiting req ls true r.1
            else compatWaiting req ls false r.1
        | e => .ok (r.1, e)

/-- The signed reading of a 64-bit time. -/
def signed64 (t : Nat) : Int := if t < 2 ^ 63 then t else (t : Int) - 2 ^ 64

/-- `cfs_time_before(t1, t2)`. -/
def cfsTimeBefore (t₁ t₂ : Nat) : Bool := signed64 t₁ - signed64 t₂ < 0

/-- `ldlm_check_contention(lock, contended_locks)`. -/
def checkContention (p : Params) (now contendedLocks : Nat) (s : Resource) : Resource × Bool :=
  let s := if contendedLocks > p.nsContendedLocks then { s with contentionTime := now } else s
  -- the contention lasts for a while behind its begin
  (s, cfsTimeBefore now (add64 s.contentionTime p.nsContentionTime))

/-- The code at `destroylock`. -/
def destroyLock (req : Nat) (sc : Scan) : Scan :=
  let s := listDel sc.res req
  { sc with res := setLock s req { s.locks req with destroyed := true } }

/-- The end of `ldlm_extent_compat_queue`, with its result. -/
def finishQueue (p : Params) (now req : Nat) (sc : Scan) : Exit → Scan × Int
  | .ret rc => (sc, rc)
  | .destroylock compat => (destroyLock req sc, compat)
  | .done =>
      let r := checkContention p now sc.contendedLocks sc.res
      let lock := sc.res.locks req
      let sc := { sc with res := r.1 }
      if r.2 = true ∧ sc.compat = 0 ∧ sc.flags.denyOnContention = true ∧ lock.reqMode ≠ .group ∧
          lock.reqExtent.end_ - lock.reqExtent.start ≤ p.nsMaxNolockSize then
        (destroyLock req { sc with compat := eusers }, eusers)
      else (sc, sc.compat)

/-- `ldlm_extent_compat_queue(&res->lr_granted, req, ...)`. -/
def extentCompatGranted (p : Params) (now req : Nat) (sc : Scan) : Except Fault (Scan × Int) :=
  (compatGranted req modes { sc with compat := 1 }).bind fun r =>
  .ok (finishQueue p now req r.1 r.2)

/-- `ldlm_extent_compat_queue(&res->lr_waiting, req, ...)`. -/
def extentCompatWaiting (p : Params) (now req : Nat) (sc : Scan) : Except Fault (Scan × Int) :=
  (compatWaiting req sc.res.waiting false { sc with compat := 1 }).bind fun r =>
  .ok (finishQueue p now req r.1 r.2)

/-! ### The extent that is granted -/

/-- The loop that looks for the lowest bit of `req_align` from the bit `mask` on. When no bit is
left in the word it has no end. -/
def alignMask (reqAlign : Nat) : Nat → Nat → Except Fault Nat
  -- the bit has left the word
  | 0, _ => .error .loop
  | k + 1, mask => if reqAlign &&& mask = 0 then alignMask reqAlign k (mask * 2) else .ok mask

/-- `ldlm_extent_internal_policy_fixup(req, new_ex, conflicting)`. -/
def policyFixup (req : Lock) (newEx : IntervalExtent) (conflicting : Int) :
    Except Fault IntervalExtent :=
  let ext := req.reqExtent
  let grown := add64 ext.start ldlmMaxGrownExtent
  let newEx :=
    if conflicting > 32 ∧ (req.reqMode = .pw ∨ req.reqMode = .cw) ∧ ext.end_ < grown then
      { newEx with end_ := min grown newEx.end_ }
    else newEx
  if newEx.start = 0 ∧ newEx.end_ = obdObjectEof then .ok newEx
  else
    let reqAlign := add64 ext.end_ 1 ||| ext.start
    (if reqAlign = 0 then .ok 0x1000 else alignMask reqAlign 52 0x1000).bind fun bit =>
    let mask := bit - 1
    -- the extent only shrinks here
    let start := add64 (sub64 newEx.start 1 ||| mask) 1
    let end_ := sub64 (add64 newEx.end_ 1 &&& (IntervalTree.allOnes - mask)) 1
    (check (start ≤ ext.start ∧ end_ ≥ ext.end_) .lassert).bind fun _ =>
    .ok ⟨start, end_⟩

/-- The loop of `ldlm_extent_internal_policy_granted`, with `limiter` and `conflicting`. -/
def policyGrantedLoop (s : Resource) (req : Lock) :
    List Mode → IntervalExtent → Int → Except Fault (IntervalExtent × Int)
  | [], limiter, conflicting => .ok (limiter, conflicting)
  | m :: ms, limiter, conflicting =>
      if lockmodeCompat m req.reqMode then policyGrantedLoop s req ms limiter conflicting
      else
        let conflicting := conflicting + s.litSize m
        let limiter :=
          if conflicting > 4 then { limiter with start := req.reqExtent.start } else limiter
        -- the gap between the locks of this mode around the request
        (IntervalTree.expand .lassert (s.itree m) req.reqExtent limiter).bind fun ext =>
        let limiter : IntervalExtent :=
          ⟨max limiter.start ext.start, min limiter.end_ ext.end_⟩
        if limiter = req.reqExtent then .ok (limiter, conflicting)
        else policyGrantedLoop s req ms limiter conflicting

/-- `ldlm_extent_internal_policy_granted(req, new_ex)`. -/
def policyGranted (s : Resource) (req : Lock) (newEx : IntervalExtent) :
    Except Fault IntervalExtent :=
  (policyGrantedLoop s req modes newEx 0).bind fun r =>
  (check (r.1.start ≤ req.reqExtent.start ∧ r.1.end_ ≥ req.reqExtent.end_) .lassert).bind fun _ =>
  policyFixup req r.1 r.2

/-- What one waiting lock leaves of `new_ex`. -/
def limitBy (req lock : Lock) (newEx : IntervalExtent) : IntervalExtent :=
  let ext := req.reqExtent
  let newEx :=
    if lock.extent.start < ext.start ∧ newEx.start ≠ ext.start then
      -- the waiting lock starts in front of the request
      if lock.extent.end_ ≥ ext.start then { newEx with start := ext.start }
      else { newEx with start := min (add64 lock.extent.end_ 1) ext.start }
    else newEx
  if lock.extent.end_ > ext.end_ then
    -- it ends behind the request
    if lock.extent.start ≤ ext.end_ then
      { newEx with end_ := max (sub64 lock.reqExtent.start 1) ext.end_ }
    else { newEx with end_ := max (sub64 lock.extent.start 1) ext.end_ }
  else newEx

/-- The loop of `ldlm_extent_internal_policy_waiting`, with `new_ex` and `conflicting`. The result
has no number where the function returns from inside the loop. -/
def policyWaitingLoop (s : Resource) (req : Nat) :
    List Nat → IntervalExtent → Int → IntervalExtent × Option Int
  | [], newEx, conflicting => (newEx, some conflicting)
  | l :: ls, newEx, conflicting =>
      let mine := s.locks req
      let lock := s.locks l
      -- there is nothing left to give up
      if newEx = mine.reqExtent then (newEx, none)
      else if req = l then policyWaitingLoop s req ls newEx conflicting
      else if lockmodeCompat lock.reqMode mine.reqMode ∧ lock.client ≠ mine.client then
        policyWaitingLoop s req ls newEx conflicting
      else
        -- it counts as a conflict, whether it overlaps or not
        let conflicting := conflicting + 1
        let newEx := if conflicting > 4 then { newEx with start := mine.reqExtent.start } else newEx
        if ¬ lock.extent.overlapped newEx then policyWaitingLoop s req ls newEx conflicting
        else if lock.reqExtent.overlapped mine.reqExtent then
          policyWaitingLoop s req ls newEx conflicting
        else policyWaitingLoop s req ls (limitBy mine lock newEx) conflicting

/-- `ldlm_extent_internal_policy_waiting(req, new_ex)`. -/
def policyWaiting (s : Resource) (req : Nat) (newEx : IntervalExtent) :
    Except Fault IntervalExtent :=
  match policyWaitingLoop s req s.waiting newEx 0 with
  | (newEx, none) => .ok newEx
  | (newEx, some conflicting) => policyFixup (s.locks req) newEx conflicting

/-- `ldlm_extent_policy(res, lock, flags)`. -/
def extentPolicy (s : Resource) (l : Nat) (flags : Flags) : Except Fault (Resource × Flags) :=
  let lock := s.locks l
  -- a lock of the server keeps its extent, and so does one of the whole object
  if lock.client = none then .ok (s, flags)
  else if lock.extent.start = 0 ∧ lock.extent.end_ = obdObjectEof then .ok (s, flags)
  else
    (policyGranted s lock ⟨0, obdObjectEof⟩).bind fun newEx =>
    (policyWaiting s l newEx).bind fun newEx =>
    if newEx ≠ lock.extent then
      .ok (setLock s l { lock with extent := newEx }, { flags with lockChanged := true })
    else .ok (s, flags)

/-! ### Processing a lock -/

/-- `LDLM_ITER_CONTINUE`. -/
def ldlmIterContinue : Int := 1

/-- `LDLM_ITER_STOP`. -/
def ldlmIterStop : Int := 2

/-- The result of `ldlm_process_extent_lock`. -/
structure Outcome where
  res : Resource
  flags : Flags
  err : Int
  rc : Int

/-- `ldlm_process_extent_lock(lock, flags, 0, err, work_list)`. -/
def reprocessLock (p : Params) (now : Nat) (s : Resource) (l : Nat) (flags : Flags) :
    Except Fault Outcome :=
  (check (flags = .zero) .lassert).bind fun _ =>
  (extentCompatGranted p now l ⟨s, flags, none, 0, 1⟩).bind fun r =>
  -- the waiting locks are looked at only when no granted one is in the way
  (if r.2 = 1 then extentCompatWaiting p now l r.1 else .ok r).bind fun r =>
  if r.2 = 0 then .ok ⟨r.1.res, r.1.flags, 0, ldlmIterStop⟩
  else
    (resourceUnlinkLock r.1.res l).bind fun s =>
    (extentPolicy s l r.1.flags).bind fun q =>
    (grantLock q.1 l).bind fun s =>
    .ok ⟨s, q.2, 0, ldlmIterContinue⟩

/-- The code at `grant`. -/
def grantFirst (l : Nat) (sc : Scan) : Except Fault Outcome :=
  (extentPolicy sc.res l sc.flags).bind fun q =>
  (resourceUnlinkLock q.1 l).bind fun s =>
  (grantLock s l).bind fun s =>
  .ok ⟨s, q.2, 0, 0⟩

/-- The lock has to wait, and the locks that block it are called. -/
def waitFirst (l : Nat) (sc : Scan) : Except Fault Outcome :=
  (if Linked sc.res l then .ok sc.res else resourceAddWaiting sc.res l).bind fun s =>
  (require sc.workList .null).bind fun w =>
  (runBlAstWork w s).bind fun s =>
  .ok ⟨s, { sc.flags with blockGranted := true, noTimeout := true }, 0, 0⟩

/-- The code at `out`, after the lock has been destroyed. -/
def outFirst (l : Nat) (sc : Scan) (rc : Int) : Except Fault Outcome :=
  (require sc.workList .null).bind fun w =>
  if w = [] then .ok ⟨sc.res, sc.flags, rc, rc⟩
  else
    (check ((sc.res.locks l).discardData = false) .lassert).bind fun _ =>
    (discardBlList w sc.res).bind fun s => .ok ⟨s, sc.flags, rc, rc⟩

/-- A pass of `ldlm_process_extent_lock(lock, flags, 1, err, work_list)`. -/
def enqueueLock (p : Params) (now : Nat) (s : Resource) (l : Nat) (flags : Flags) :
    Except Fault Outcome :=
  (extentCompatGranted p now l ⟨s, flags, some [], 0, 1⟩).bind fun r =>
  if r.2 < 0 then outFirst l r.1 r.2
  -- a `GROUP` lock with the same `gid` is granted already
  else if r.2 = 2 then grantFirst l r.1
  else
    (extentCompatWaiting p now l r.1).bind fun r₂ =>
    if r₂.2 < 0 then outFirst l r₂.1 r₂.2
    -- both searches have found no conflict
    else if r.2 + r₂.2 = 2 then grantFirst l r₂.1
    else waitFirst l r₂.1

/-- `ldlm_process_extent_lock(lock, flags, first_enq, err, work_list)`, with `lr_converting` empty:
only `lockEnqueue` puts a lock there, and it makes the assertion on it. -/
def processExtentLock (p : Params) (now : Nat) (s : Resource) (l : Nat) (flags : Flags)
    (firstEnq : Bool) : Except Fault Outcome :=
  (check (flags.denyOnContention = false ∨ (s.locks l).discardData = false) .lassert).bind fun _ =>
  if firstEnq then enqueueLock p now s l flags else reprocessLock p now s l flags

/-! ### Runs -/

/-- What happens to a resource. -/
inductive Action where
  | enqueue (l : Nat) (flags : Flags) (now : Nat)
  | reprocess (l now : Nat)
  | unlink (l : Nat)

/-- A pass of a first enqueue is for a lock that has been neither granted nor destroyed, and a
waiting lock is reprocessed, with no flags. -/
inductive Step (p : Params) : Resource → Action → Resource → Prop where
  | enqueue {s : Resource} {l now : Nat} {flags : Flags} {o : Outcome} :
      (s.locks l).grantedMode = none → (s.locks l).destroyed = false →
      processExtentLock p now s l flags true = .ok o → Step p s (.enqueue l flags now) o.res
  | reprocess {s : Resource} {l now : Nat} {o : Outcome} :
      l ∈ s.waiting → processExtentLock p now s l .zero false = .ok o →
      Step p s (.reprocess l now) o.res
  | unlink {s s' : Resource} {l : Nat} :
      resourceUnlinkLock s l = .ok s' → Step p s (.unlink l) s'

/-- An extent that is not empty and aligned to pages. -/
structure PageExtent (ext : IntervalExtent) : Prop where
  start_le : ext.start ≤ ext.end_
  end_lt : ext.end_ < 2 ^ 64
  start_page : ext.start % 0x1000 = 0
  end_page : (ext.end_ + 1) % 0x1000 = 0

/-- The lock `l` before its first enqueue. -/
structure Fresh (l : Nat) (lock : Lock) : Prop where
  grantedMode : lock.grantedMode = none
  treeNode : lock.treeNode = some l
  extent : lock.extent = lock.reqExtent
  request : PageExtent lock.reqExtent

/-- A resource without locks. -/
def start (locks : Nat → Lock) : Resource :=
  ⟨locks, fun l => [l], fun _ => false, fun _ => .nil, fun _ => 0, [], [], 0⟩

end Ldlm

end LustreSimulator
