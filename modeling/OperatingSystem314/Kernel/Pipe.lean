import OperatingSystem314.Lib.CircularQueue
import OperatingSystem314.Lib.Runs

/-! # A pipe and the processes at its ends (`pipe.c`)

    One pipe, from `pipealloc` on, its lock, and any number of processes
    that write, read and close.  Each iteration of a loop is a step, so
    that the processes meet in any order.  `sleep` gives up the lock and
    falls asleep in one step, as nobody can wake it in between (it holds
    `ptable.lock`).

    The files of the two ends have references: a process in a call has one,
    and `pipeclose` comes when the last one is gone. -/

namespace Ipc

open Function (update)

abbrev PIPESIZE : Nat := 512

structure Pipe where
  data : Nat → UInt8
  nread : BitVec 32
  nwrite : BitVec 32
  readopen : Bool
  writeopen : Bool

/-- An end of the pipe, and where the processes at this end sleep: readers
    on `&p->nread`, writers on `&p->nwrite`. -/
inductive End where
  | reading
  | writing
  deriving DecidableEq

/-- What a process has still to do: a writer from byte `i` of `buf` on. -/
inductive Call where
  | pipewrite (buf : List UInt8) (i : Nat)
  | piperead (n : Int)
  | pipeclose (e : End)
  deriving DecidableEq

inductive Pc where
  | idle
  /-- in `acquire`, at first or after `sleep` -/
  | acquiring (c : Call)
  | holding (c : Call)
  /-- in the second loop of `piperead` -/
  | copying (n : Int) (got : List UInt8)
  | sleeping (c : Call)
  /-- before `kfree` -/
  | freeing
  deriving DecidableEq

namespace Pipe

variable (p : Pipe)

def isopen : End → Bool
  | .reading => p.readopen
  | .writing => p.writeopen

/-- `p->data[p->nwrite++ % PIPESIZE] = x` -/
def put (x : UInt8) : Pipe :=
  { p with
    data := update p.data (CircularQueue.place PIPESIZE p.nwrite) x
    nwrite := p.nwrite + 1 }

/-- What has been written and not been read. -/
def contents : List UInt8 := CircularQueue.contents p.data PIPESIZE p.nread p.nwrite

end Pipe

structure State (H : Type) where
  pipe : Pipe
  lock : Option H
  pc : H → Pc
  killed : H → Bool
  /-- the file of this end has references -/
  files : End → Bool
  freed : Bool
  -- what is kept of the run
  /-- all bytes that writers have put in -/
  written : List UInt8
  /-- all bytes that readers have got -/
  taken : List UInt8
  /-- a killed writer has left a call, without the `wakeup` at its end -/
  gaveUp : Bool

namespace Call

def side : Call → End
  | .pipewrite _ _ => .writing
  | .piperead _ => .reading
  | .pipeclose e => e

end Call

/-- What `wakeup` does to a process: it goes back to `acquire`. -/
def Pc.wake (e : End) : Pc → Pc
  | .sleeping c => if c.side = e then .acquiring c else .sleeping c
  | p => p

/-- What `kill` does to it: Wake process from sleep if necessary. -/
def Pc.rouse : Pc → Pc
  | .sleeping c => .acquiring c
  | p => p

variable {H : Type} [DecidableEq H]

namespace State

variable (s : State H) (h : H)

def setPc (p : Pc) : State H := { s with pc := update s.pc h p }

def wakeup (e : End) : State H := { s with pc := fun h => (s.pc h).wake e }

/-- `release`, and on to `p`. -/
def leave (p : Pc) : State H := { s with lock := none, pc := update s.pc h p }

def pipewrite (buf : List UInt8) (i : Nat) : State H :=
  match buf[i]? with
  | some x =>
    if s.pipe.nwrite = s.pipe.nread + BitVec.ofNat 32 PIPESIZE then
      -- pipewrite-full
      if s.pipe.readopen = false ∨ s.killed h = true then
        { s with gaveUp := s.gaveUp || s.pipe.readopen }.leave h .idle
      else (s.wakeup .reading).leave h (.sleeping (.pipewrite buf i))
    else
      { s with pipe := s.pipe.put x, written := s.written ++ [x] }.setPc h (.holding (.pipewrite buf (i + 1)))
  | none => (s.wakeup .reading).leave h .idle

def piperead (n : Int) : State H :=
  if s.pipe.nread = s.pipe.nwrite ∧ s.pipe.writeopen = true then
    -- pipe-empty
    if s.killed h then s.leave h .idle else s.leave h (.sleeping (.piperead n))
  else s.setPc h (.copying n [])

/-- piperead-copy -/
def copy (n : Int) (got : List UInt8) : State H :=
  if got.length < n ∧ s.pipe.nread ≠ s.pipe.nwrite then
    let x := s.pipe.data (CircularQueue.place PIPESIZE s.pipe.nread)
    { s with pipe := { s.pipe with nread := s.pipe.nread + 1 }, taken := s.taken ++ [x] }.setPc h
      (.copying n (got ++ [x]))
  else (s.wakeup .writing).leave h .idle

def pipeclose (e : End) : State H :=
  let s := match e with
    | .writing => { s with pipe := { s.pipe with writeopen := false } }.wakeup .reading
    | .reading => { s with pipe := { s.pipe with readopen := false } }.wakeup .writing
  if s.pipe.readopen = false ∧ s.pipe.writeopen = false then s.leave h .freeing else s.leave h .idle

/-- The next step of a process; `none` where it has to wait. -/
def go : Option (State H) :=
  match s.pc h with
  | .idle => none
  | .sleeping _ => none
  | .acquiring c => if s.lock = none then some { s with lock := some h, pc := update s.pc h (.holding c) } else none
  | .holding (.pipewrite buf i) => some (s.pipewrite h buf i)
  | .holding (.piperead n) => some (s.piperead h n)
  | .holding (.pipeclose e) => some (s.pipeclose h e)
  | .copying n got => some (s.copy h n got)
  | .freeing => some ({ s with freed := true }.setPc h .idle)

end State

inductive Event (H : Type) where
  | write (h : H) (buf : List UInt8)
  | read (h : H) (n : Int)
  | close (h : H) (e : End)
  | kill (h : H)
  | go (h : H)

def step (s : State H) : Event H → Option (State H)
  | .write h buf =>
    if s.pc h = .idle ∧ s.files .writing = true then some (s.setPc h (.acquiring (.pipewrite buf 0))) else none
  | .read h n =>
    if s.pc h = .idle ∧ s.files .reading = true then some (s.setPc h (.acquiring (.piperead n))) else none
  | .close h e =>
    if s.pc h = .idle ∧ s.files e = true then
      some ({ s with files := update s.files e false }.setPc h (.acquiring (.pipeclose e)))
    else none
  | .kill h =>
    some { s with
      killed := update s.killed h true
      pc := update s.pc h (s.pc h).rouse }
  | .go h => s.go h

namespace Pc

/-- In `pipewrite` or `piperead`, with a reference to the file of this end. -/
def inCall (e : End) : Pc → Bool
  | .acquiring (.pipeclose _) | .holding (.pipeclose _) | .sleeping (.pipeclose _) => false
  | .acquiring c | .holding c | .sleeping c => c.side = e
  | .copying _ _ => e = .reading
  | .idle | .freeing => false

end Pc

/-- The last reference is not that of a process in a call. -/
def Allowed (s : State H) : Event H → Prop
  | .close _ e => ∀ h, (s.pc h).inCall e = false
  | _ => True

abbrev Reachable : State H → State H → Prop := Runs.Reachable step Allowed

/-- After `pipealloc`. -/
def pipealloc : State H where
  pipe := ⟨fun _ => 0, 0, 0, true, true⟩
  lock := none
  pc := fun _ => .idle
  killed := fun _ => false
  files := fun _ => true
  freed := false
  written := []
  taken := []
  gaveUp := false

end Ipc
