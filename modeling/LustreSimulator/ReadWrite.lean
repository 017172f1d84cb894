import LustreSimulator.FileSystem

/-!
# `LustreSimulator.ReadWrite`: one IO of a file system (`filesystem.cpp`)

`FileSystem::ReadWrite` maps an IO piece by piece and submits an `ioreq` to the disk for each
piece. With `params.fs.AllocateBlockTime` it runs as a state machine on a thread, which waits
between the mapping of a piece and its submission. Otherwise it is a loop. In both cases
`io->ref` counts the pieces in flight and `io->left` the bytes not submitted yet, and
`FileSystem::Completion` notifies the issuer when both are zero.

`Rw` is the state of one IO: the file system, the IO, where the issuing code is, and the pieces
that were submitted. `Rw.issue` is what the issuing code does next. It runs until the thread
waits, or for one turn of the loop. `RwStep` interleaves it with completions of the disk in any
order and with other calls of `Map` on the same file system. A disk takes an `ioreq` into its
elevator and completes it in a later event, so a piece is never completed while it is being
submitted. How long the thread waits is left out: any wait gives some interleaving.
-/

set_option autoImplicit false

namespace LustreSimulator

open Lib

namespace FileSystem

/-- `struct IO`, as far as `ReadWrite` uses it. -/
structure Io where
  cmd : Cmd
  fid : Nat
  off : Nat
  count : Nat
  ref : Int
  left : Nat
  /-- the waiting thread -/
  waiter : Option Nat
  /-- the message to notify when no thread waits -/
  data : Nat
  deriving DecidableEq, Repr

/-- Who is told about the end of an IO. -/
inductive Issuer where
  | waiter (thread : Nat)
  | message (data : Nat)
  deriving DecidableEq, Repr

/-- `if (io->waiter) io->waiter->Signal(); else msg->Notify();` -/
def Io.issuer (io : Io) : Issuer :=
  match io.waiter with
  | some t => .waiter t
  | none => .message io.data

/-- The ways `ReadWrite` can abort. -/
inductive RwFault where
  /-- an assertion of `Map` -/
  | map (fault : Fault)
  /-- `exit(1)`: the mapping failed -/
  | mapFailed
  /-- `assert(io->fid < totFiles)`, `assert(io->fid <= totFiles)` -/
  | fid
  /-- `assert(req->count > 0)` -/
  | count
  /-- `assert(desc->count == 0)` -/
  | finish
  deriving DecidableEq, Repr

/-- Where the issuing code is. -/
inductive RwState where
  /-- `fs_RWStartState` -/
  | start
  /-- `fs_RWSubmitState`, with `desc->req` -/
  | submit (req : Ioreq)
  /-- at the head of the loop of `ReadWrite` -/
  | loop
  /-- `fs_RWFinishState`, or the end of the loop -/
  | finish
  /-- the program has aborted -/
  | aborted
  deriving DecidableEq, Repr

/-- The state of one IO. `off` and `count` are the fields of `rwdesc`, or the locals of the
loop. A submitted piece is its file offset with the `ioreq`. -/
structure Rw where
  fs : FileSystem
  io : Io
  state : RwState
  off : Nat
  count : Nat
  submitted : List (Nat × Ioreq)
  inflight : List (Nat × Ioreq)
  completed : List (Nat × Ioreq)
  notified : List Issuer

/-- The `ioreq` that the issuing code creates for a piece. -/
def Io.newReq (io : Io) (off count : Nat) : Ioreq := ⟨io.cmd, 0, 0, off, count⟩

namespace Rw

/-- Map the piece that begins at `off`, and exit when that fails. -/
def mapPiece (s : Rw) : Except RwFault (Ioreq × FileSystem) :=
  match s.fs.map s.io.fid (s.io.newReq s.off s.count) (s.io.cmd = .write) with
  | .error fault => .error (.map fault)
  | .ok (rc, req, fs) => if rc < 0 then .error .mapFailed else .ok (req, fs)

/-- The body of `fs_RWAllocateBlockState`: map a piece, then wait. -/
def allocateBlock (s : Rw) : Except RwFault Rw :=
  (check (s.count > 0) .count).bind fun _ =>
  s.mapPiece.bind fun r =>
  .ok { s with fs := r.2, state := .submit r.1 }

/-- Submit a piece and account for it. -/
def submitIoreq (s : Rw) (req : Ioreq) : Rw :=
  { s with
    submitted := s.submitted ++ [(s.off, req)]
    inflight := s.inflight ++ [(s.off, req)]
    off := s.off + req.count
    count := s.count - req.count
    io := { s.io with ref := s.io.ref + 1, left := s.count - req.count } }

/-- What the issuing code does next: a turn of `ReadWriteStateMachine`, or of the loop of
`ReadWrite`. -/
def issue (s : Rw) : Except RwFault Rw :=
  match s.state with
  | .start =>
      allocateBlock { s with off := s.io.off, count := s.io.count,
                             io := { s.io with left := s.io.count } }
  | .submit req =>
      let s := s.submitIoreq req
      if s.count > 0 then s.allocateBlock
      else
        (check (s.count = 0) .finish).bind fun _ =>
        .ok { s with state := .finish }
  | .loop =>
      s.mapPiece.bind fun r =>
      let s := { s with fs := r.2 }.submitIoreq r.1
      .ok { s with state := if s.count > 0 then .loop else .finish }
  | .finish => .ok s
  | .aborted => .ok s

/-- The request of the `Map` call that `issue` makes, if it makes one. -/
def nextReq (s : Rw) : Option Ioreq :=
  match s.state with
  | .start => some (s.io.newReq s.io.off s.io.count)
  | .submit req =>
      if s.count - req.count > 0 then
        some (s.io.newReq (s.off + req.count) (s.count - req.count))
      else none
  | .loop => some (s.io.newReq s.off s.count)
  | .finish => none
  | .aborted => none

/-- `issue` with the abort as a state. -/
def issueStep (s : Rw) : Rw :=
  match s.issue with
  | .ok s' => s'
  | .error _ => { s with state := .aborted }

/-- `Completion(req)` for a piece in flight. -/
def completion (s : Rw) (p : Nat × Ioreq) : Rw :=
  let ref := s.io.ref - 1
  { s with
    inflight := s.inflight.erase p
    completed := s.completed ++ [p]
    io := { s.io with ref := ref }
    notified := if ref = 0 ∧ s.io.left = 0 then s.notified ++ [s.io.issuer] else s.notified }

end Rw

/-- What can happen to an IO. -/
inductive RwEvent where
  | issue
  | completion (p : Nat × Ioreq)
  | other (c : MapCall)
  deriving DecidableEq, Repr

/-- The steps of an IO: the issuing code, a completion of the disk, and another call of `Map`
on the same file system. -/
inductive RwStep : Rw → RwEvent → Rw → Prop where
  | issue (s : Rw) : s.state ≠ .finish → s.state ≠ .aborted → RwStep s .issue s.issueStep
  | completion (s : Rw) (p : Nat × Ioreq) : p ∈ s.inflight →
      RwStep s (.completion p) (s.completion p)
  | other (s : Rw) (c : MapCall) (fs : FileSystem) : MapStep s.fs c fs →
      RwStep s (.other c) { s with fs := fs }

/-- `ReadWrite(io)` up to its first turn. An IO of no bytes is done. -/
def readWrite (fs : FileSystem) (totFiles allocateBlockTime : Nat) (io : Io) :
    Except RwFault Rw :=
  if io.count = 0 then .ok ⟨fs, io, .finish, io.off, io.count, [], [], [], []⟩
  else if allocateBlockTime ≠ 0 then
    (check (io.fid < totFiles) .fid).bind fun _ =>
    .ok ⟨fs, io, .start, 0, 0, [], [], [], []⟩
  else
    (check (io.fid ≤ totFiles) .fid).bind fun _ =>
    .ok ⟨fs, io, .loop, io.off, io.count, [], [], [], []⟩

end FileSystem

end LustreSimulator
