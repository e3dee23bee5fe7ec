import Mathlib.Data.List.FinRange
import Mathlib.Logic.Function.Basic
import OperatingSystem314.Lib.Runs
import OperatingSystem314.Lib.Sizes

/-! # The process table (`proc.c`)

    Any number of CPUs run processes that fork, exit, wait, sleep, yield
    and kill in any order.  What is done under `ptable.lock` is one step;
    `fork` takes several, and may sleep in between.

    Of a process there is what these routines look at: not its memory, its
    files and its registers. -/

namespace Processes

open Function (update)

abbrev NPROC : Nat := 64

abbrev Slot := Fin NPROC

inductive Procstate where
  | UNUSED
  | EMBRYO
  | SLEEPING
  | RUNNABLE
  | RUNNING
  | ZOMBIE
  deriving DecidableEq

/-- What a process sleeps on: a process (in `wait`), or something else. -/
inductive Chan where
  | proc (p : Slot)
  | other (n : Nat)
  deriving DecidableEq

structure Proc where
  state : Procstate
  pid : BitVec 32
  parent : Option Slot
  chan : Option Chan
  killed : Bool

/-- How far a process is in the routines that take several steps. -/
inductive Pc where
  | user
  /-- in `fork`, with a process from `allocproc` -/
  | claimed (np : Slot)
  /-- after `np->parent = curproc` -/
  | copied (np : Slot)
  /-- in `wait` -/
  | waiting
  deriving DecidableEq

/-- Both for the table and for the CPUs, of type `C`. -/
structure State (C : Type) where
  proc : Slot → Proc
  pc : Slot → Pc
  /-- `c->proc` -/
  cpu : C → Option Slot
  /-- where the loop of this CPU's `scheduler` is -/
  at_ : C → Slot
  nextpid : BitVec 32

/-- `userinit` gets the first slot of the table. -/
def initproc : Slot := 0

variable {C : Type} [DecidableEq C]

namespace State

variable (s : State C) (c : C) (q : Slot)

def modify (p : Slot) (f : Proc → Proc) : State C := { s with proc := update s.proc p (f (s.proc p)) }

def setPc (p : Pc) : State C := { s with pc := update s.pc q p }

/-- `sched`, up to the scheduler of the CPU. -/
def sched : State C := { s with cpu := update s.cpu c none }

/-- Wake up all processes sleeping on chan. -/
def wakeup1 (chan : Chan) : State C :=
  { s with proc := fun p =>
      if (s.proc p).state = .SLEEPING ∧ (s.proc p).chan = some chan then { s.proc p with state := .RUNNABLE }
      else s.proc p }

/-- The critical section of `allocproc`; `fork` fails where there is no slot. -/
def allocproc : State C :=
  match (List.finRange NPROC).find? fun p => (s.proc p).state = .UNUSED with
  | none => s
  | some np =>
    { s with nextpid := s.nextpid + 1 }.modify np (fun x => { x with state := .EMBRYO, pid := s.nextpid })
      |>.setPc q (.claimed np)

/-- Pass abandoned children to init. -/
def passChildren : List Slot → State C → State C
  | [], s => s
  | p :: ps, s =>
    if (s.proc p).parent = some q then
      let s := s.modify p fun x => { x with parent := some initproc }
      passChildren ps (if (s.proc p).state = .ZOMBIE then s.wakeup1 (.proc initproc) else s)
    else passChildren ps s

def exit : State C :=
  -- Parent might be sleeping in wait().
  let s := match (s.proc q).parent with
    | some r => s.wakeup1 (.proc r)
    | none => s
  let s := passChildren q (List.finRange NPROC) s
  (s.modify q fun x => { x with state := .ZOMBIE }).sched c

/-- One scan through the table. -/
def wait : State C :=
  match (List.finRange NPROC).find? fun p => (s.proc p).parent = some q ∧ (s.proc p).state = .ZOMBIE with
  | some p =>
    -- Found one.
    (s.modify p fun x => { x with pid := 0, parent := none, killed := false, state := .UNUSED }).setPc q .user
  | none =>
    if ((List.finRange NPROC).any fun p => (s.proc p).parent = some q) = false ∨ (s.proc q).killed = true then
      s.setPc q .user
    else
      ((s.modify q fun x => { x with chan := some (.proc q), state := .SLEEPING }).setPc q .waiting).sched c

/-- `wait` sleeps on the process itself, everybody else on something else. -/
def sleep (n : Nat) : State C :=
  (s.modify q fun x => { x with chan := some (.other n), state := .SLEEPING }).sched c

def yield : State C := (s.modify q fun x => { x with state := .RUNNABLE }).sched c

/-- One entry of the table, in the loop of `scheduler`.  A process that
    comes out of `sleep` clears `chan` before it gives up the lock. -/
def scheduler : State C :=
  let p := s.at_ c
  let s := { s with at_ := update s.at_ c (p + 1) }
  if (s.proc p).state = .RUNNABLE then
    { s with cpu := update s.cpu c (some p) }.modify p fun x => { x with state := .RUNNING, chan := none }
  else s

def kill (pid : BitVec 32) : State C :=
  match (List.finRange NPROC).find? fun p => (s.proc p).pid = pid with
  | none => s
  | some p =>
    s.modify p fun x => { x with killed := true, state := if x.state = .SLEEPING then .RUNNABLE else x.state }

end State

/-- What the process on a CPU does next. -/
inductive Action where
  | fork
  /-- no kernel stack, or no memory -/
  | forkFails
  | forkCopies
  | forkLaunches
  | exit
  | wait
  | sleep (n : Nat)
  | yield
  deriving DecidableEq

/-- The interrupts are off in `wait`. -/
def State.act (s : State C) (c : C) (q : Slot) : Pc → Action → Option (State C)
  | .user, .fork => some (s.allocproc q)
  | .claimed np, .forkFails => some ((s.modify np fun x => { x with state := .UNUSED }).setPc q .user)
  | .claimed np, .forkCopies => some ((s.modify np fun x => { x with parent := some q }).setPc q (.copied np))
  | .copied np, .forkLaunches => some ((s.modify np fun x => { x with state := .RUNNABLE }).setPc q .user)
  -- init does not exit
  | .user, .exit => if q = initproc then none else some (s.exit c q)
  | .user, .wait => some (s.wait c q)
  | .waiting, .wait => some (s.wait c q)
  | .user, .sleep n => some (s.sleep c q n)
  | .claimed _, .sleep n => some (s.sleep c q n)
  | .copied _, .sleep n => some (s.sleep c q n)
  | .user, .yield => some (s.yield c q)
  | .claimed _, .yield => some (s.yield c q)
  | .copied _, .yield => some (s.yield c q)
  | _, _ => none

inductive Event (C : Type) where
  /-- the loop of `scheduler` on an idle CPU -/
  | scan (c : C)
  | act (c : C) (a : Action)
  /-- by a process or an interrupt -/
  | wakeup (n : Nat)
  | kill (pid : BitVec 32)

def step (s : State C) : Event C → Option (State C)
  | .scan c => if s.cpu c = none then some (s.scheduler c) else none
  | .act c a =>
    match s.cpu c with
    | none => none
    | some q => s.act c q (s.pc q) a
  | .wakeup n => some (s.wakeup1 (.other n))
  | .kill pid => some (s.kill pid)

abbrev Reachable : State C → State C → Prop := Runs.Reachable step fun _ _ => True

/-- After `userinit`. -/
def userinit : State C where
  proc := fun p =>
    if p = initproc then ⟨.RUNNABLE, 1, none, none, false⟩ else ⟨.UNUSED, 0, none, none, false⟩
  pc := fun _ => .user
  cpu := fun _ => none
  at_ := fun _ => 0
  nextpid := 2

end Processes
