import LustreSimulator.Lib.Check
import LustreSimulator.Lib.Word

/-!
# `LustreSimulator.Pios`: a parallel I/O benchmark (`pios.cpp`)

A run writes or reads some regions, which lie in a file each or in one file. Its threads share the
regions: `get_work_item` looks for a region with a chunk left, from the shared `next_region` on,
and moves the cursor of that region. A thread does the I/O and asks for the next chunk, until there
is none.

The threads are not preempted, so a turn of a thread is one step: it goes from the end of an I/O to
the begin of the next one. Any thread may take the next turn. The simulated file system and the
times of the I/O are left out, and so are the noises, which the code asserts to be 0. `items` is the
history of the chunks that were handed out.
-/

set_option autoImplicit false

namespace LustreSimulator.Pios

open Lib

/-- What a run reads of `struct run_arg`. -/
structure RunArg where
  threadcount : Nat
  chunksize : Nat
  regioncount : Nat
  regionsize : Nat
  offset : Nat
  fpp : Bool
  verify : Bool
  deriving DecidableEq, Repr

/-- `struct pios_stream`. -/
structure Stream where
  offset : Nat
  maxOffset : Nat
  fid : Nat
  deriving DecidableEq, Repr

/-- `READ` and `WRITE`. -/
inductive Cmd where
  | read
  | write
  deriving DecidableEq, Repr

/-- `regionidx` and `io` of `struct pios_thdata`. -/
structure Item where
  regionidx : Nat
  fid : Nat
  off : Nat
  count : Nat
  cmd : Cmd
  deriving DecidableEq, Repr

/-- `tld->state` of a thread. -/
inductive ThreadState where
  | start
  | rw
  | rwFinish
  | last
  deriving DecidableEq, Repr

/-- A thread with its data. -/
structure Thread where
  state : ThreadState
  ptd : Item
  deriving DecidableEq, Repr

/-- A run in progress. `signalled` says that the thread of `do_one_run` was woken up. -/
structure State where
  streams : List Stream
  nextRegion : Nat
  threads : List Thread
  finicount : Nat
  signalled : Bool
  items : List Item
  deriving DecidableEq, Repr

/-- The assertions and errors that stop the program. -/
inductive Fault where
  /-- an index that is not in its array -/
  | index
  /-- `assert(ptd->regionidx < args->regioncount)` -/
  | regionidx
  deriving DecidableEq, Repr

/-- `args->streams[idx]`, where `idx` is an `int`. -/
def streamAt (streams : List Stream) (idx : Int) : Option Stream :=
  if idx < 0 then none else streams[idx.toNat]?

/-- The loop of `get_work_item`, with `left` turns to go. `i` is the word of an `int`, and it is made
a 64-bit number for `%`. -/
def scan (a : RunArg) (streams : List Stream) : Nat → Nat → Except Fault (Option Int)
  | 0, _ => .ok none
  | left + 1, i =>
      let idx := toInt32 (toWord64 (toInt32 i) % a.regioncount)
      (require (streamAt streams idx) .index).bind fun stream =>
      -- the region is fully written
      if add64 stream.offset a.chunksize > stream.maxOffset then
        scan a streams left ((i + 1) % 2 ^ 32)
      else .ok (some idx)

/-- `get_work_item(args, ptd)`, with the chunk. -/
def getWorkItem (a : RunArg) (s : State) : Except Fault (Option (Item × State)) :=
  (scan a s.streams a.regioncount s.nextRegion).bind fun found =>
  match found with
  | none => .ok none
  | some idx =>
      (require (streamAt s.streams idx) .index).bind fun stream =>
      let item : Item :=
        ⟨idx.toNat, stream.fid, stream.offset, a.chunksize, if a.verify then .read else .write⟩
      let stream := { stream with offset := add64 stream.offset a.chunksize }
      .ok (some (item, { s with
        streams := s.streams.set idx.toNat stream, nextRegion := (s.nextRegion + 1) % 2 ^ 32 }))

/-- `pios_ThreadLastState` of `do_one_thread`. -/
def threadLast (a : RunArg) (s : State) : State :=
  let finicount := (s.finicount + 1) % 2 ^ 32
  { s with
    finicount := finicount, signalled := s.signalled || decide (finicount ≥ a.threadcount) }

/-- `pios_ThreadRWState` of `do_one_thread`, for the thread number `t`. -/
def threadRW (a : RunArg) (s : State) (t : Nat) (thread : Thread) : Except Fault State :=
  (getWorkItem a s).bind fun work =>
  match work with
  | none => .ok (threadLast a { s with
      threads := s.threads.set t { thread with state := .last } })
  | some (item, s) =>
      (check (item.regionidx < a.regioncount) .regionidx).bind fun _ =>
      .ok { s with threads := s.threads.set t ⟨.rwFinish, item⟩, items := s.items ++ [item] }

/-- `do_one_thread(data)` for the thread number `t`. -/
def doOneThread (a : RunArg) (s : State) (t : Nat) : Except Fault State :=
  (require s.threads[t]? .index).bind fun thread =>
  match thread.state with
  | .start => threadRW a s t thread
  | .rw => threadRW a s t thread
  | .rwFinish =>
      (check (thread.ptd.regionidx < a.regioncount) .regionidx).bind fun _ =>
      threadRW a s t { thread with state := .rw }
  | .last => .ok (threadLast a s)

/-- `args->streams[i]` after the loop of `do_one_run`. -/
def setupStream (a : RunArg) (i : Nat) : Stream :=
  if a.fpp then ⟨a.offset, add64 a.offset a.regionsize, i⟩
  else ⟨mul64 a.offset i, add64 (mul64 a.offset i) a.regionsize, 0⟩

/-- `pios_RunOneStartState` of `do_one_run`. -/
def doOneRun (a : RunArg) : State :=
  { streams := (List.range a.regioncount).map (setupStream a), nextRegion := 0
    threads := List.replicate a.threadcount ⟨.start, ⟨0, 0, 0, 0, .write⟩⟩
    finicount := 0, signalled := false, items := [] }

/-- `agvsize` of `print_stats`. -/
def agvsize (a : RunArg) : Nat := mul64 a.regionsize a.regioncount

/-- The turns of the threads. A thread that has finished takes none. -/
inductive Step (a : RunArg) : State → Nat → State → Prop where
  | turn {s s' : State} {t : Nat} {thread : Thread} : s.threads[t]? = some thread →
      thread.state ≠ .last → doOneThread a s t = .ok s' → Step a s t s'

end LustreSimulator.Pios
