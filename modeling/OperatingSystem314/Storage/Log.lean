import OperatingSystem314.Lib.Runs
import OperatingSystem314.Paging.Journal

/-! # The log on the disk (`log.c`)

    The contents that pass through the log: the disk, the buffer cache, and
    the header and the copies that `commit` writes.  Every step does at most
    one write to the disk; between any two steps the machine may crash, also
    while it recovers.  A block is written as a whole or not at all.

    Who waits for whom in `begin_op` is in `Paging/Journal`; that a block
    has one buffer, in `Storage/Bcache`. -/

namespace Storage

open Paging (LOGSIZE)
open Paging.Journal (Log)

/-! ### Blocks and buffers -/

/-- A block, by its 32-bit words. -/
abbrev Block := Nat → UInt32

/-- `struct logheader` on the disk: the count, and then the block numbers. -/
def getHead (x : Block) : List Nat := (List.range (x 0).toNat).map fun i => (x (i + 1)).toNat

def putHead (x : Block) (lh : List Nat) : Block
  | 0 => UInt32.ofNat lh.length
  | i + 1 => (lh[i]?).elim (x (i + 1)) UInt32.ofNat

structure Buf where
  data : Block
  /-- `B_DIRTY` -/
  dirty : Bool

/-- Where the kernel is. -/
inductive Phase where
  /-- before `recover_from_log` -/
  | down
  /-- serving system calls -/
  | up
  /-- `write_log`, at log block `tail` -/
  | writeLog (tail : Nat)
  /-- the first `write_head` of `commit` -/
  | writeHead
  /-- `install_trans`, at log block `tail` -/
  | install (tail : Nat) (recovering : Bool)
  /-- `log.lh.n = 0; write_head()` -/
  | clear (recovering : Bool)
  /-- `commit` has returned to `end_op` -/
  | done
  deriving DecidableEq

/-- The kernel recovers from a crash. -/
def Phase.recovering : Phase → Bool
  | .down => true
  | .install _ r => r
  | .clear r => r
  | _ => false

structure State where
  disk : Nat → Block
  cache : Nat → Option Buf
  log : Log
  phase : Phase

namespace State

variable (s : State) (b : Nat)

/-- What the kernel sees of a block. -/
def view : Block := match s.cache b with
  | some buf => buf.data
  | none => s.disk b

def dirty : Bool := (s.cache b).any Buf.dirty

def bread : Block × State := match s.cache b with
  | some buf => (buf.data, s)
  | none => (s.disk b, { s with cache := Function.update s.cache b (some ⟨s.disk b, false⟩) })

def bwrite (x : Block) : State :=
  { s with disk := Function.update s.disk b x, cache := Function.update s.cache b (some ⟨x, false⟩) }

/-- `bget` takes the buffer for another block; it takes no dirty one. -/
def evict : State :=
  if s.dirty b then s else { s with cache := Function.update s.cache b none }

/-! ### The routines of `log.c` -/

variable (start : Nat)

/-- One round of `write_log`. -/
def writeLog (tail : Nat) : State :=
  let dst := s.bread (start + tail + 1)
  let src := dst.2.bread b
  src.2.bwrite (start + tail + 1) src.1

/-- One round of `install_trans`. -/
def install (tail : Nat) : State :=
  let lbuf := s.bread (start + tail + 1)
  let dbuf := lbuf.2.bread b
  dbuf.2.bwrite b lbuf.1

def writeHead : State :=
  let buf := s.bread start
  buf.2.bwrite start (putHead buf.1 s.log.block)

/-- `log.lh.n = 0; write_head()` -/
def clear : State := ({ s with log := { s.log with block := [] } } : State).writeHead start

/-- `recover_from_log` up to `install_trans`. -/
def readHead : State :=
  let buf := s.bread start
  { buf.2 with log := { s.log with block := getHead buf.1 } }

/-- The kernel goes on with `commit` or with recovery. -/
def go : Option State := match s.phase with
  | .up => none
  | .down =>
    let s := s.readHead start
    some { s with phase := if s.log.block = [] then .clear true else .install 0 true }
  | .writeLog tail =>
    (s.log.block[tail]?).map fun b =>
      { s.writeLog b start tail with
        phase := if tail + 1 < s.log.block.length then .writeLog (tail + 1) else .writeHead }
  | .writeHead => some { s.writeHead start with phase := .install 0 false }
  | .install tail r =>
    (s.log.block[tail]?).map fun b =>
      { s.install b start tail with
        phase := if tail + 1 < s.log.block.length then .install (tail + 1) r else .clear r }
  | .clear r => some { s.clear start with phase := if r then .up else .done }
  | .done => some { s with log := s.log.committed, phase := .up }

/-- What a crash leaves, and the boot after it. -/
def crash : State := ⟨s.disk, fun _ => none, ⟨0, false, [], s.log.size⟩, .down⟩

end State

/-! ### Runs -/

inductive Event where
  | begin_op
  /-- `log_write`, of a buffer with this number and these contents -/
  | log_write (b : Nat) (x : Block)
  | end_op
  /-- the kernel commits or recovers -/
  | go
  | read (b : Nat)
  | evict (b : Nat)
  | crash

def fire (start : Nat) (s : State) : Event → Option State
  | .begin_op => if s.phase = .up then s.log.begin_op.map fun log => { s with log } else none
  | .log_write b x =>
    if s.phase = .up then
      match s.log.log_write b with
      | .ok log => some { s with log, cache := Function.update s.cache b (some ⟨x, true⟩) }
      | .error _ => none
    else none
  | .end_op =>
    if s.phase = .up ∧ 0 < s.log.outstanding then
      match s.log.end_op with
      -- `commit` does nothing when nothing is logged
      | .ok (true, log) => some { s with log, phase := if log.block = [] then .done else .writeLog 0 }
      | .ok (false, log) => some { s with log }
      | .error _ => none
    else none
  | .go => s.go start
  | .read b => some (s.bread b).2
  | .evict b => some (s.evict b)
  | .crash => some s.crash

/-- The blocks of the log. -/
def InLog (start size b : Nat) : Prop := start ≤ b ∧ b < start + size

/-- The file system does not write to the log by itself, and a block number
    has 32 bits. -/
def Allowed (start : Nat) (s : State) : Event → Prop
  | .log_write b _ => b < 2 ^ 32 ∧ ¬ InLog start s.log.size b
  | _ => True

/-- The kernel boots from this disk. -/
def boot (disk : Nat → Block) (size : Nat) : State := ⟨disk, fun _ => none, ⟨0, false, [], size⟩, .down⟩

abbrev Reachable (start : Nat) : State → State → Prop := Runs.Reachable (fire start) (Allowed start)

end Storage
