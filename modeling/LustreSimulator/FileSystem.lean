import LustreSimulator.Lib.Check
import LustreSimulator.BlockDevice
import LustreSimulator.Rbtree

/-!
# `LustreSimulator.FileSystem`: the block mapping of a file system (`filesystem.cpp`)

`FileSystem::Map` translates a range of a file to a range of the disk. Each file keeps its
extents in a red-black tree. A range that no extent covers yet gets new disk space, either the
next bytes of the disk (`FS_STREAMALLOC`) or through the multi-block allocator
(`FS_MBALLOC`), which keeps preallocated windows for each file.

Offsets and counts are `Nat`: the model describes the code as long as no sum and no left shift
leaves 64 bits. The shifts are those of `mbNormalize`, as `req->off >> (23 - bsbit) << 23`, and they
stay in 64 bits for offsets below `2 ^ 52`. An `assert` or `BUG_ON` that fires, or a `NULL` pointer
that is followed, ends the call with a `Fault`. In `mbUseInodePA` the source subtracts two offsets
without a test. The difference that would wrap is larger than any `free`, so it is the `BUG_ON` of
the next line.

`bsbit` is the constant 12 that the constructor sets for `FS_MBALLOC`. The extent cache, the
flag `used` and the printing do not change what is mapped, and are left out.
-/

set_option autoImplicit false

namespace LustreSimulator

open Lib

/-- The ways a call of `Map` can abort. -/
inductive Fault where
  /-- `assert(req->count > 0)` after a hit -/
  | mapCount
  /-- `assert(pa->lstart <= req->off)` -/
  | paLstart
  /-- `BUG_ON(pa->free < req->count)` -/
  | paFree
  /-- `assert(ac->lstart <= ac->req->off || ac->len > ac->req->count)` -/
  | newPa
  /-- `assert(req->off >= pa_end || req->off < pa->lstart)` -/
  | paHole
  /-- `BUG_ON(pa->lstart <= start && pa_end >= end)` -/
  | paCovers
  /-- `assert(pa_end >= start)` -/
  | paEndStart
  /-- `assert(pa->lstart <= end)` -/
  | paStartEnd
  /-- `BUG_ON(start + size <= req->off && start > req->off)` -/
  | window
  /-- a `NULL` pointer is followed -/
  | nullDeref
  deriving DecidableEq, Repr

namespace FileSystem

/-- `struct extent`: the file bytes from `foff` on lie on the disk from `doff` on. -/
structure Extent where
  foff : Nat
  doff : Nat
  count : Nat
  deriving DecidableEq, Repr

/-- `struct prealloc_space`: the disk space from `pstart` on is set aside for the file bytes
from `lstart` on. -/
structure PreallocSpace where
  deleted : Bool
  lstart : Nat
  pstart : Nat
  len : Nat
  free : Nat
  deriving DecidableEq, Repr

/-- `struct file`, as far as `Map` uses it. -/
structure File where
  size : Nat
  extTree : RbTree Extent
  preallocList : List PreallocSpace
  deriving Repr

/-- The mount option `mntopt`. -/
inductive AllocAlgo where
  | stream
  | mballoc
  deriving DecidableEq, Repr

end FileSystem

open FileSystem in
/-- `class FileSystem` together with `params.fs.ReservePA` and the `curoff` of its disk. -/
structure FileSystem where
  mntopt : AllocAlgo
  reservePA : Bool
  files : Nat → File
  curoff : Nat

namespace FileSystem

/-- The flag of a request that was served from a preallocated window. -/
def reqMapFromPA : Nat := 1

/-- `bsbit`: a block has `2 ^ 12` bytes. -/
def bsbit : Nat := 12

/-- `ExtentCompare(e1, e2)`. -/
def extentCompare (e1 e2 : Extent) : Int :=
  if e1.foff + e1.count < e2.foff then -1
  else if e1.foff ≥ e2.foff + e2.count then 1
  else 0

/-! ### The multi-block allocator -/

/-- The search of `MbUsePreallocation`: the first window that contains `off` and still has
space. The result is the window between the windows before and after it. -/
def mbFind (off : Nat) :
    List PreallocSpace → Option (List PreallocSpace × PreallocSpace × List PreallocSpace)
  | [] => none
  | pa :: rest =>
      if (off < pa.lstart ∨ off ≥ pa.lstart + pa.len) ∨ ¬ (pa.deleted = false ∧ pa.free ≠ 0) then
        (mbFind off rest).map fun r => (pa :: r.1, r.2)
      else some ([], pa, rest)

/-- `MbUseInodePA`: translate the request through the window and take its bytes from `free`. -/
def mbUseInodePA (pa : PreallocSpace) (req : Ioreq) : Except Fault (PreallocSpace × Ioreq) :=
  (check (pa.lstart ≤ req.off) .paLstart).bind fun _ =>
  let off := pa.pstart + (req.off - pa.lstart)
  let stop := min (pa.pstart + pa.len) (off + req.count)
  (check (off ≤ stop ∧ stop - off ≤ pa.free) .paFree).bind fun _ =>
  .ok ({ pa with free := pa.free - (stop - off) }, { req with off := off, count := stop - off })

/-- `MbReleaseContext`: with `params.fs.ReservePA` a used-up window leaves the list. -/
def mbReleaseContext (reservePA : Bool) (before : List PreallocSpace) (pa : PreallocSpace)
    (after : List PreallocSpace) : List PreallocSpace :=
  if reservePA ∧ pa.free = 0 then before ++ after else before ++ pa :: after

/-- The size and the start of the window that `MbAllocBlock` normalizes a request to. There is
none for a request that is too large. -/
def mbNormalize (off count fsize : Nat) : Option (Nat × Nat) :=
  let size := if off + count < fsize then fsize else off + count
  if size ≤ 64 * 1024 then some (0, 64 * 1024)
  else if size ≤ 128 * 1024 then some (0, 128 * 1024)
  else if size ≤ 256 * 1024 then some (0, 256 * 1024)
  else if size ≤ 512 * 1024 then some (0, 512 * 1024)
  else if size ≤ 1024 * 1024 then some (0, 1024 * 1024)
  else if size ≤ 4 * 1024 * 1024 then
    some (off >>> (21 - bsbit) <<< 21 >>> bsbit, 2 * 1024 * 1024)
  else if size ≤ 8 * 1024 * 1024 then
    some (off >>> (22 - bsbit) <<< 22 >>> bsbit, 4 * 1024 * 1024)
  else if count ≤ 8 <<< 20 then
    some (off >>> (23 - bsbit) <<< 23 >>> bsbit, 8 * 1024 * 1024)
  else none

/-- The loop of `MbAllocBlock` over the windows of the file: cut the new window `[start, stop)`
down until it crosses none of them. -/
def mbTrim (off : Nat) : List PreallocSpace → Nat → Nat → Except Fault (Nat × Nat)
  | [], start, stop => .ok (start, stop)
  | pa :: rest, start, stop =>
      if pa.deleted then mbTrim off rest start stop
      else
        let paEnd := pa.lstart + pa.len
        (check (off ≥ paEnd ∨ off < pa.lstart) .paHole).bind fun _ =>
        if pa.lstart ≥ stop then mbTrim off rest start stop
        else if paEnd ≤ start then mbTrim off rest start stop
        else
          (check (¬ (pa.lstart ≤ start ∧ paEnd ≥ stop)) .paCovers).bind fun _ =>
          (check (paEnd ≤ off → paEnd ≥ start) .paEndStart).bind fun _ =>
          (check (pa.lstart > off → pa.lstart ≤ stop) .paStartEnd).bind fun _ =>
          mbTrim off rest (if paEnd ≤ off then paEnd else start)
            (if pa.lstart > off then pa.lstart else stop)

/-- What an allocation leaves behind: its return code, the translated request, the windows of
the file and the `curoff` of the disk. -/
structure Allocation where
  rc : Int
  req : Ioreq
  preallocList : List PreallocSpace
  curoff : Nat
  deriving DecidableEq, Repr

/-- `MbNewPreallocation` and the `MbReleaseContext` that follows it: the window
`[lstart, lstart + len)` on the disk space from `pstart` on joins the list at its head. -/
def mbNewPreallocation (reservePA : Bool) (pas : List PreallocSpace) (req : Ioreq)
    (lstart pstart len curoff : Nat) : Except Fault Allocation :=
  (check (lstart ≤ req.off ∨ len > req.count) .newPa).bind fun _ =>
  (mbUseInodePA ⟨false, lstart, pstart, len, len⟩ req).bind fun r =>
  .ok ⟨0, r.2, mbReleaseContext reservePA [] r.1 pas, curoff⟩

/-- `MbAllocBlock(f, req)`. -/
def mbAllocBlock (reservePA : Bool) (f : File) (curoff : Nat) (req : Ioreq) :
    Except Fault Allocation :=
  match mbFind req.off f.preallocList with
  | some (before, pa, after) =>
      (mbUseInodePA pa req).bind fun r =>
      .ok ⟨0, { r.2 with flags := r.2.flags ||| reqMapFromPA },
        mbReleaseContext reservePA before r.1 after, curoff⟩
  | none =>
      match mbNormalize req.off req.count f.size with
      | none => .ok ⟨1, req, f.preallocList, curoff⟩
      | some (start, size) =>
          (mbTrim req.off f.preallocList start (start + size)).bind fun w =>
          let start := w.1
          let size := w.2 - w.1
          (check (¬ (start + size ≤ req.off ∧ start > req.off)) .window).bind fun _ =>
          let b := allocBlock curoff size
          if reservePA = false ∧ start = req.off ∧ size ≤ req.count then
            .ok ⟨0, { req with off := b.1, count := size }, f.preallocList, b.2⟩
          else mbNewPreallocation reservePA f.preallocList req start b.1 size b.2

/-! ### The mapping -/

/-- The allocation of `Map`: by the mount option, new disk space for the request. -/
def allocate (mntopt : AllocAlgo) (reservePA : Bool) (f : File) (curoff : Nat) (req : Ioreq) :
    Except Fault Allocation :=
  match mntopt with
  | .stream =>
      let b := allocBlock curoff req.count
      .ok ⟨0, { req with off := b.1 }, f.preallocList, b.2⟩
  | .mballoc => mbAllocBlock reservePA f curoff req

/-- The end of `Map`: enter the file bytes from `foff` on with the allocated range. They join
the extent of the last visited node when that ends where they begin, in the file and on the
disk. Otherwise a new node is linked where the descent ended. -/
def insertExtent (foff : Nat) (req : Ioreq) (path : List (Frame Extent)) :
    Option (RbTree Extent) :=
  match path with
  | near :: rest =>
      if foff = near.entry.foff + near.entry.count ∧ req.off = near.entry.doff + near.entry.count
      then some (zip .nil
        ({ near with entry := { near.entry with count := near.entry.count + req.count } } :: rest))
      else Rbtree.rbLink ⟨foff, req.off, req.count⟩ path
  | [] => Rbtree.rbLink ⟨foff, req.off, req.count⟩ []

/-- The clipping of `Map` before it allocates. Only a descent that ended to the left of an
extent (`rc < 0`) clips the request to the start of that extent. -/
def clip (rc : Int) (path : List (Frame Extent)) (req : Ioreq) : Except Fault Ioreq :=
  if rc < 0 then
    match path with
    | [] => .error .nullDeref
    | near :: _ => .ok { req with count := min req.count (near.entry.foff - req.off) }
  else .ok req

/-- Replace one file. -/
def setFile (fs : FileSystem) (fid : Nat) (f : File) : FileSystem :=
  { fs with files := fun i => if i = fid then f else fs.files i }

/-- The descent of `Map` from the root to the offset of the request. -/
def mapDescend (f : File) (off : Nat) : Rbtree.Descent Extent :=
  Rbtree.descend (extentCompare ⟨off, 0, 0⟩) f.extTree [] 1

/-- `Map(f, req, alloc)` for the file `fid`. The result is the return code with the request and
the file system after the call. -/
def map (fs : FileSystem) (fid : Nat) (req : Ioreq) (alloc : Bool) :
    Except Fault (Int × Ioreq × FileSystem) :=
  let f := fs.files fid
  let d := mapDescend f req.off
  if d.rc = 0 then
    match d.focus with
    | .nil => .error .nullDeref
    | .node _ _ near _ =>
        let delta := req.off - near.foff
        let count := min req.count (near.count - delta)
        (check (count > 0) .mapCount).bind fun _ =>
        .ok (0, { req with off := near.doff + delta, count := count }, fs)
  else if alloc = false then .ok (-1, req, fs)
  else
    (clip d.rc d.path req).bind fun clipped =>
    (allocate fs.mntopt fs.reservePA f fs.curoff clipped).bind fun a =>
    if a.rc < 0 then
      .ok (a.rc, a.req, { fs.setFile fid { f with preallocList := a.preallocList } with
        curoff := a.curoff })
    else
      match insertExtent req.off a.req d.path with
      | none => .error .nullDeref
      | some t =>
          .ok (0, a.req, { fs.setFile fid { f with preallocList := a.preallocList, extTree := t }
            with curoff := a.curoff })

/-- A file after `Start`: nothing is mapped. -/
def File.empty : File := ⟨0, .nil, []⟩

/-- The file system after `Start`. -/
def start (mntopt : AllocAlgo) (reservePA : Bool) : FileSystem :=
  ⟨mntopt, reservePA, fun _ => File.empty, 0⟩

/-! ### Sequences of calls -/

/-- One call of `Map` with its results. -/
structure MapCall where
  fid : Nat
  req : Ioreq
  alloc : Bool
  rc : Int
  out : Ioreq
  deriving DecidableEq, Repr

/-- The call `c` takes `fs` to `fs'`. The request is not empty, and the call does not abort. -/
def MapStep (fs : FileSystem) (c : MapCall) (fs' : FileSystem) : Prop :=
  0 < c.req.count ∧ fs.map c.fid c.req c.alloc = .ok (c.rc, c.out, fs')

/-- The call translates the file byte `b` to the disk byte `d`. -/
def MapCall.Translates (c : MapCall) (b d : Nat) : Prop :=
  c.rc = 0 ∧ c.req.off ≤ b ∧ b < c.req.off + c.out.count ∧ d = c.out.off + (b - c.req.off)

end FileSystem

end LustreSimulator
