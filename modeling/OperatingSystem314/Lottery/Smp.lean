import OperatingSystem314.Lib.Threads
import OperatingSystem314.Lottery.Wakeup

/-! # Several CPUs and their two spinlocks

    `scheduler`, the timer and device interrupts of `trap`, `sys_sleep`,
    `wakeup` and `sys_settickets`, run by any number of CPUs that share the
    process table.

    What a CPU has still to execute is a list of statements, `Op`.  A routine
    is the list of its statements; a call, an interrupt handler or a branch
    puts its statements in front of the rest.  `swtch` exchanges the rest of
    one routine for that of another.

    * `acquire` takes two steps: `pushcli`, and the `xchg` loop (`spin`),
      which waits while the lock is taken.
    * an interrupt is taken in front of any statement while `FL_IF` is set.

    The scheduler takes `tickslock` under `ptable.lock`; the timer interrupt
    and `sleep` on the ticks take `ptable.lock` under `tickslock`.

    * `lockOrder_iff`: two CPUs can wait for each other's lock, as soon as
      there are two.
    * `lone_spin_passes`: a lone CPU never waits for a lock. -/

namespace Lottery

open Threads

/-! ### Statements -/

inductive Lock where
  /-- `ptable.lock` -/
  | ptable
  | tickslock
  deriving DecidableEq

inductive Op where
  | sti
  | acquire (lk : Lock)
  /-- `while(xchg(&lk->locked, 1) != 0);` -/
  | spin (lk : Lock)
  | release (lk : Lock)
  /-- `scheduler`: the first loop -/
  | countTickets
  | draw
  /-- the second loop, up to `p->state = RUNNING` -/
  | pickProc
  | setInitTicks (p : Slot)
  | swtch (p : Slot)
  | addTicks (p : Slot)
  /-- `c->proc = 0; break;` -/
  | endSlice
  /-- `trap`: `ticks++` -/
  | tick
  | wakeup1 (chan : Chan)
  /-- `if(myproc() && myproc()->state == RUNNING) yield();` -/
  | testYield
  | setRunnable
  | sched
  /-- `mycpu()->intena = intena`, after `swtch` in `sched` -/
  | setIntena (intena : Bool)
  | iret
  /-- `sys_sleep`: `ticks0 = ticks` -/
  | readTicks (n : Int)
  /-- `while(ticks - ticks0 < n)` -/
  | testTicks (n : Int) (ticks0 : Nat)
  | setSleeping (chan : Chan)
  | clearChan
  | setTickets (pid tickets : Int)
  /-- a CPU in `panic` -/
  | panicked
  deriving DecidableEq

/-- A round of the loop of `scheduler`. -/
def schedulerCode : List Op :=
  [.sti, .acquire .ptable, .countTickets, .release .ptable,
    .acquire .tickslock, .draw, .release .tickslock,
    .acquire .ptable, .pickProc, .release .ptable]

/-- What `scheduler` does with the process it picked, all of it under
    `ptable.lock`. -/
def sliceCode (p : Slot) : List Op :=
  [.acquire .tickslock, .setInitTicks p, .release .tickslock, .swtch p,
    .acquire .tickslock, .addTicks p, .release .tickslock, .endSlice]

def wakeupCode (chan : Chan) : List Op := [.acquire .ptable, .wakeup1 chan, .release .ptable]

/-- `trap` for the timer: one CPU counts the ticks. -/
def timerCode (cpuid : Nat) : List Op :=
  (if cpuid = 0 then [.acquire .tickslock, .tick] ++ wakeupCode ticksChan ++ [.release .tickslock] else []) ++
    [.testYield, .iret]

/-- `trap` for a device whose handler wakes up who waits on `chan`. -/
def deviceCode (chan : Chan) : List Op := wakeupCode chan ++ [.iret]

def yieldCode : List Op := [.acquire .ptable, .setRunnable, .sched, .release .ptable]

/-- `sleep(&ticks, &tickslock)` -/
def sleepCode : List Op :=
  [.acquire .ptable, .release .tickslock, .setSleeping ticksChan, .sched, .clearChan,
    .release .ptable, .acquire .tickslock]

def sleepCallCode (n : Int) : List Op := [.acquire .tickslock, .readTicks n]

/-- `sys_settickets`, which checks its arguments before it takes the lock. -/
def setticketsCode (pid tickets : Int) : List Op :=
  if pid < 0 ∨ tickets < 0 then [] else [.acquire .ptable, .setTickets pid tickets, .release .ptable]

/-- Where a new process starts (`forkret`): it releases the lock that the
    scheduler took. -/
def forkretCode : List Op := [.release .ptable]

/-! ### CPUs -/

/-- What the CPUs share. -/
structure Machine where
  table : Table
  ticks : Nat
  locked : Lock → Bool
  /-- what a process that does not run has still to execute -/
  context : Slot → List Op

structure Cpu where
  cpuid : Nat
  proc : Option Slot
  code : List Op
  /-- the rest of `scheduler`, while a process runs -/
  scheduler : List Op
  total_tickets : Int
  winning_ticket : Int
  /-- `FL_IF` -/
  iflag : Bool
  ncli : Nat
  intena : Bool
  /-- the locks with `lk->cpu == mycpu()` -/
  held : List Lock

def Machine.modProc (x : Machine) (p : Slot) (f : Proc → Proc) : Machine :=
  { x with table := Function.update x.table p (f (x.table p)) }

namespace Cpu

def pushcli (c : Cpu) : Cpu :=
  { c with
    intena := if c.ncli = 0 then c.iflag else c.intena
    ncli := c.ncli + 1
    iflag := false }

/-- `popcli`, for a CPU that is inside `pushcli`. -/
def popcli (c : Cpu) : Cpu :=
  { c with ncli := c.ncli - 1, iflag := c.iflag || (c.ncli == 1 && c.intena) }

def panic (c : Cpu) : Cpu := { c with code := [.panicked] }

/-- The CPU takes an interrupt: its gate clears `FL_IF`. -/
def interrupt (c : Cpu) (handler : List Op) : Cpu := { c with code := handler ++ c.code, iflag := false }

end Cpu

/-- One statement; `none` when the CPU has to wait. -/
def execOp (x : Machine) (c : Cpu) (rest : List Op) : Op → Option (Machine × Cpu)
  | .sti => some (x, { c with code := rest, iflag := true })
  | .acquire lk =>
    if lk ∈ c.held then some (x, c.panic) else some (x, { c.pushcli with code := .spin lk :: rest })
  | .spin lk =>
    if x.locked lk then none
    else some ({ x with locked := Function.update x.locked lk true },
      { c with code := rest, held := lk :: c.held })
  | .release lk =>
    if lk ∈ c.held then
      some ({ x with locked := Function.update x.locked lk false },
        { c.popcli with code := rest, held := c.held.erase lk })
    else some (x, c.panic)
  | .countTickets => some (x, { c with code := rest, total_tickets := total_tickets x.table })
  | .draw =>
    match winning_ticket c.total_tickets x.ticks with
    | none => some (x, c.panic)
    | some w => some (x, { c with code := rest, winning_ticket := w })
  | .pickProc =>
    match pick x.table c.winning_ticket with
    | none => some (x, { c with code := rest })
    | some p => some (x.modProc p fun y => { y with state := .RUNNING },
        { c with code := sliceCode p ++ rest, proc := some p })
  | .setInitTicks p => some (x.modProc p fun y => { y with init_ticks := toInt x.ticks }, { c with code := rest })
  | .swtch p => some (x, { c with code := x.context p, scheduler := rest })
  | .addTicks p =>
    some (x.modProc p fun y => { y with ticks := addInt y.ticks (x.ticks - y.init_ticks) },
      { c with code := rest })
  | .endSlice => some (x, { c with code := rest, proc := none })
  | .tick => some ({ x with ticks := (x.ticks + 1) % 2 ^ 32 }, { c with code := rest })
  | .wakeup1 chan => some ({ x with table := wakeup1 x.table chan }, { c with code := rest })
  | .testYield =>
    if (c.proc.map fun p => (x.table p).state) = some .RUNNING then
      some (x, { c with code := yieldCode ++ rest })
    else some (x, { c with code := rest })
  | .setRunnable =>
    c.proc.map fun p => (x.modProc p fun y => { y with state := .RUNNABLE }, { c with code := rest })
  | .sched =>
    c.proc.map fun p =>
      if .ptable ∉ c.held ∨ c.ncli ≠ 1 ∨ (x.table p).state = .RUNNING ∨ c.iflag then (x, c.panic)
      else ({ x with context := Function.update x.context p (.setIntena c.intena :: rest) },
        { c with code := c.scheduler })
  | .setIntena intena => some (x, { c with code := rest, intena })
  | .iret => some (x, { c with code := rest, iflag := true })
  | .readTicks n => some (x, { c with code := .testTicks n x.ticks :: rest })
  | .testTicks n ticks0 =>
    if toUint (x.ticks - ticks0) < toUint n then
      some (x, { c with code := sleepCode ++ .testTicks n ticks0 :: rest })
    else some (x, { c with code := .release .tickslock :: rest })
  | .setSleeping chan =>
    c.proc.map fun p =>
      (x.modProc p fun y => { y with state := .SLEEPING, chan := some chan }, { c with code := rest })
  | .clearChan => c.proc.map fun p => (x.modProc p fun y => { y with chan := none }, { c with code := rest })
  | .setTickets pid tickets =>
    some ({ x with table := (sys_settickets x.table pid tickets).2 }, { c with code := rest })
  | .panicked => none

/-- What is left open: whether the CPU goes on or takes an interrupt, and
    what system call a process in user mode makes. -/
inductive Event where
  | go
  | timer
  | device (chan : Chan)
  | sleep (n : Int)
  | wakeup (chan : Chan)
  | settickets (pid tickets : Int)
  deriving DecidableEq

/-- A process in user mode makes a system call. -/
def syscall (x : Machine) (c : Cpu) (body : List Op) : Option (Machine × Cpu) :=
  if c.code = [] ∧ c.proc.isSome then some (x, { c with code := body }) else none

def cpuStep (x : Machine) (c : Cpu) : Event → Option (Machine × Cpu)
  | .go =>
    match c.code with
    | op :: rest => execOp x c rest op
    | [] => if c.proc = none then some (x, { c with code := schedulerCode }) else none
  | .timer => if c.iflag then some (x, c.interrupt (timerCode c.cpuid)) else none
  | .device chan => if c.iflag then some (x, c.interrupt (deviceCode chan)) else none
  | .sleep n => syscall x c (sleepCallCode n)
  | .wakeup chan => syscall x c (wakeupCode chan)
  | .settickets pid tickets => syscall x c (setticketsCode pid tickets)

/-! ### Runs -/

/-- A CPU that enters `scheduler`. -/
def Cpu.boot (cpuid : Nat) : Cpu where
  cpuid := cpuid
  proc := none
  code := []
  scheduler := []
  total_tickets := 0
  winning_ticket := 0
  iflag := false
  ncli := 0
  intena := false
  held := []

/-- `n` CPUs, and the process table they start with. -/
def boot (n : Nat) (t : Table) : State (Fin n) Machine Cpu where
  shared := ⟨t, 0, fun _ => false, fun _ => forkretCode⟩
  pc := fun i => .boot i

/-- The processes of the table have not run yet. -/
def Fresh (t : Table) : Prop := ∀ p, (t p).state = .UNUSED ∨ (t p).state = .RUNNABLE

abbrev Runs {n : Nat} (s s' : State (Fin n) Machine Cpu) : Prop := Reachable cpuStep (fun _ _ => True) s s'

/-- The CPU is in the loop of `acquire`. -/
def Cpu.SpinsOn (c : Cpu) (lk : Lock) : Prop := c.code.head? = some (.spin lk)

/-- One CPU holds `ptable.lock` and spins on `tickslock`, another one holds
    `tickslock` and spins on `ptable.lock`. -/
def Crossed {n : Nat} (s : State (Fin n) Machine Cpu) : Prop :=
  ∃ i j, i ≠ j ∧ .ptable ∈ (s.pc i).held ∧ (s.pc i).SpinsOn .tickslock ∧
    .tickslock ∈ (s.pc j).held ∧ (s.pc j).SpinsOn .ptable

def NCPU : Nat := 8

/-- With `n` CPUs no run leads there. -/
def LockOrder (n : Nat) : Prop := ∀ t, Fresh t → ∀ s, Runs (boot n t) s → ¬ Crossed s

/-! ### Who spins, and who holds a lock -/

/-- No statement of the list is in the loop of an `acquire`. -/
def NoSpin (l : List Op) : Prop := ∀ lk, Op.spin lk ∉ l

theorem NoSpin.append {l l' : List Op} (h : NoSpin l) (h' : NoSpin l') : NoSpin (l ++ l') := by
  intro lk hmem
  rcases List.mem_append.mp hmem with hl | hl'
  · exact h lk hl
  · exact h' lk hl'

theorem NoSpin.cons {op : Op} {l : List Op} (h : NoSpin l) (hop : ∀ lk, op ≠ .spin lk) : NoSpin (op :: l) := by
  intro lk hmem
  rcases List.mem_cons.mp hmem with heq | hl
  · exact hop lk heq.symm
  · exact h lk hl

theorem noSpin_nil : NoSpin [] := fun _ => List.not_mem_nil

theorem noSpin_scheduler : NoSpin schedulerCode := by
  intro lk
  cases lk <;> decide

theorem noSpin_slice (p : Slot) : NoSpin (sliceCode p) := by
  intro lk
  simp [sliceCode]

theorem noSpin_wakeup (chan : Chan) : NoSpin (wakeupCode chan) := by
  intro lk
  simp [wakeupCode]

theorem noSpin_timer (cpuid : Nat) : NoSpin (timerCode cpuid) := by
  intro lk
  unfold timerCode wakeupCode
  split <;> simp

theorem noSpin_device (chan : Chan) : NoSpin (deviceCode chan) := by
  intro lk
  simp [deviceCode, wakeupCode]

theorem noSpin_yield : NoSpin yieldCode := by
  intro lk
  cases lk <;> decide

theorem noSpin_sleep : NoSpin sleepCode := by
  intro lk
  simp [sleepCode]

theorem noSpin_sleepCall (n : Int) : NoSpin (sleepCallCode n) := by
  intro lk
  simp [sleepCallCode]

theorem noSpin_settickets (pid tickets : Int) : NoSpin (setticketsCode pid tickets) := by
  intro lk
  unfold setticketsCode
  split <;> simp

theorem noSpin_forkret : NoSpin forkretCode := by
  intro lk
  cases lk <;> decide

/-- A CPU that spins does not hold the lock, and takes no interrupt. -/
structure CpuInv (c : Cpu) : Prop where
  spins : ∀ lk, c.SpinsOn lk → lk ∉ c.held ∧ c.iflag = false
  ahead : NoSpin c.code.tail
  scheduler : NoSpin c.scheduler

theorem CpuInv.of_noSpin {c : Cpu} (hcode : NoSpin c.code) (hsched : NoSpin c.scheduler) : CpuInv c := by
  refine ⟨?_, ?_, hsched⟩
  · intro lk hspin
    exact absurd (List.mem_of_mem_head? hspin) (hcode lk)
  · intro lk hmem
    exact hcode lk (List.mem_of_mem_tail hmem)

/-- A step changes no lock that it does not take or give back. -/
structure LockStep (x : Machine) (c : Cpu) (x' : Machine) (c' : Cpu) : Prop where
  taken : ∀ lk, x'.locked lk = true → lk ∈ c'.held ∨ (x.locked lk = true ∧ lk ∉ c.held)

theorem LockStep.same {x x' : Machine} {c c' : Cpu} (hlocked : x'.locked = x.locked) (hheld : c'.held = c.held) :
    LockStep x c x' c' := by
  constructor
  intro lk hlk
  rw [hlocked] at hlk
  rw [hheld]
  by_cases hmem : lk ∈ c.held
  · exact .inl hmem
  · exact .inr ⟨hlk, hmem⟩

/-- All that a statement does to the locks and to the code. -/
structure Advances (x : Machine) (c : Cpu) (x' : Machine) (c' : Cpu) : Prop where
  cpu : CpuInv c'
  context : ∀ p, NoSpin (x'.context p)
  locks : LockStep x c x' c'

section advances

variable {x x' : Machine} {c c' : Cpu} {op : Op} {rest : List Op} {e : Event}

theorem execOp_advances (h : execOp x c rest op = some (x', c')) (hrest : NoSpin rest)
    (hsched : NoSpin c.scheduler) (hctx : ∀ p, NoSpin (x.context p)) : Advances x c x' c' := by
  have hpanic : CpuInv c.panic := .of_noSpin (noSpin_nil.cons nofun) hsched
  cases op with
  | acquire lk =>
    simp only [execOp] at h
    split at h
    next =>
      cases h
      exact ⟨hpanic, hctx, .same rfl rfl⟩
    next hfree =>
      cases h
      refine ⟨⟨?_, hrest, hsched⟩, hctx, .same rfl rfl⟩
      intro lk' hspin
      cases hspin
      exact ⟨hfree, rfl⟩
  | spin lk =>
    simp only [execOp] at h
    split at h
    · cases h
    · cases h
      refine ⟨.of_noSpin hrest hsched, hctx, ⟨?_⟩⟩
      intro lk' hlk'
      change Function.update x.locked lk true lk' = true at hlk'
      by_cases heq : lk' = lk
      · left
        rw [heq]
        exact List.mem_cons_self
      · rw [Function.update_of_ne heq] at hlk'
        by_cases hmem : lk' ∈ c.held
        · exact .inl (List.mem_cons_of_mem lk hmem)
        · exact .inr ⟨hlk', hmem⟩
  | release lk =>
    simp only [execOp] at h
    split at h
    next =>
      cases h
      refine ⟨.of_noSpin hrest hsched, hctx, ⟨?_⟩⟩
      intro lk' hlk'
      change Function.update x.locked lk false lk' = true at hlk'
      by_cases heq : lk' = lk
      · rw [heq, Function.update_self] at hlk'
        cases hlk'
      · rw [Function.update_of_ne heq] at hlk'
        by_cases hmem : lk' ∈ c.held
        · exact .inl ((List.mem_erase_of_ne heq).mpr hmem)
        · exact .inr ⟨hlk', hmem⟩
    next =>
      cases h
      exact ⟨hpanic, hctx, .same rfl rfl⟩
  | draw =>
    simp only [execOp] at h
    split at h
    · cases h
      exact ⟨hpanic, hctx, .same rfl rfl⟩
    · cases h
      exact ⟨.of_noSpin hrest hsched, hctx, .same rfl rfl⟩
  | pickProc =>
    simp only [execOp] at h
    split at h
    · cases h
      exact ⟨.of_noSpin hrest hsched, hctx, .same rfl rfl⟩
    next p _ =>
      cases h
      exact ⟨.of_noSpin ((noSpin_slice p).append hrest) hsched, hctx, .same rfl rfl⟩
  | swtch p =>
    cases h
    exact ⟨.of_noSpin (hctx p) hrest, hctx, .same rfl rfl⟩
  | testYield =>
    simp only [execOp] at h
    split at h
    · cases h
      exact ⟨.of_noSpin (noSpin_yield.append hrest) hsched, hctx, .same rfl rfl⟩
    · cases h
      exact ⟨.of_noSpin hrest hsched, hctx, .same rfl rfl⟩
  | setRunnable | setSleeping _ | clearChan =>
    obtain ⟨p, -, h⟩ := Option.map_eq_some_iff.mp h
    cases h
    exact ⟨.of_noSpin hrest hsched, hctx, .same rfl rfl⟩
  | sched =>
    obtain ⟨p, -, h⟩ := Option.map_eq_some_iff.mp h
    split at h
    · cases h
      exact ⟨hpanic, hctx, .same rfl rfl⟩
    · cases h
      refine ⟨.of_noSpin hsched hsched, ?_, .same rfl rfl⟩
      intro q
      by_cases hq : q = p
      · rw [hq]
        show NoSpin (Function.update x.context p _ p)
        rw [Function.update_self]
        exact hrest.cons nofun
      · show NoSpin (Function.update x.context p _ q)
        rw [Function.update_of_ne hq]
        exact hctx q
  | readTicks n =>
    cases h
    exact ⟨.of_noSpin (hrest.cons nofun) hsched, hctx, .same rfl rfl⟩
  | testTicks n ticks0 =>
    simp only [execOp] at h
    split at h
    · cases h
      exact ⟨.of_noSpin (noSpin_sleep.append (hrest.cons nofun)) hsched, hctx, .same rfl rfl⟩
    · cases h
      exact ⟨.of_noSpin (hrest.cons nofun) hsched, hctx, .same rfl rfl⟩
  | panicked => cases h
  | _ =>
    cases h
    exact ⟨.of_noSpin hrest hsched, hctx, .same rfl rfl⟩

theorem syscall_advances {body : List Op} (h : syscall x c body = some (x', c')) (hbody : NoSpin body)
    (hsched : NoSpin c.scheduler) (hctx : ∀ p, NoSpin (x.context p)) : Advances x c x' c' := by
  unfold syscall at h
  split at h
  · cases h
    exact ⟨.of_noSpin hbody hsched, hctx, .same rfl rfl⟩
  · cases h

/-- An interrupt is taken with `FL_IF` set, so not in the loop of `acquire`. -/
theorem CpuInv.noSpin (hc : CpuInv c) (hflag : c.iflag = true) : NoSpin c.code := by
  cases hcode : c.code with
  | nil => exact noSpin_nil
  | cons op rest =>
    have hrest := hc.ahead
    rw [hcode] at hrest
    apply NoSpin.cons hrest
    intro lk heq
    have hoff := (hc.spins lk (by rw [Cpu.SpinsOn, hcode, heq]; rfl)).2
    rw [hflag] at hoff
    cases hoff

theorem cpuStep_advances (hc : CpuInv c) (hctx : ∀ p, NoSpin (x.context p))
    (h : cpuStep x c e = some (x', c')) : Advances x c x' c' := by
  cases e with
  | go =>
    simp only [cpuStep] at h
    split at h
    next op rest hcode =>
      apply execOp_advances h _ hc.scheduler hctx
      have hrest := hc.ahead
      rwa [hcode] at hrest
    next =>
      split at h
      · cases h
        exact ⟨.of_noSpin noSpin_scheduler hc.scheduler, hctx, .same rfl rfl⟩
      · cases h
  | timer | device chan =>
    simp only [cpuStep] at h
    split at h
    next hflag =>
      cases h
      refine ⟨.of_noSpin (NoSpin.append ?_ (hc.noSpin hflag)) hc.scheduler, hctx, .same rfl rfl⟩
      first | exact noSpin_timer _ | exact noSpin_device _
    next => cases h
  | sleep n => exact syscall_advances h (noSpin_sleepCall n) hc.scheduler hctx
  | wakeup chan => exact syscall_advances h (noSpin_wakeup chan) hc.scheduler hctx
  | settickets pid tickets => exact syscall_advances h (noSpin_settickets pid tickets) hc.scheduler hctx

end advances

section runs

variable {n : Nat} {s s' : State (Fin n) Machine Cpu} {t : Table}

structure MachineInv (s : State (Fin n) Machine Cpu) : Prop where
  cpus : ∀ i, CpuInv (s.pc i)
  context : ∀ p, NoSpin (s.shared.context p)
  /-- a lock that is taken is held by a CPU -/
  holder : ∀ lk, s.shared.locked lk = true → ∃ i, lk ∈ (s.pc i).held

theorem machineInv_boot : MachineInv (boot n t) := by
  constructor
  · intro i
    exact .of_noSpin noSpin_nil noSpin_nil
  · intro p
    exact noSpin_forkret
  · intro lk hlk
    cases hlk

theorem MachineInv.next (h : MachineInv s) {i : Fin n} {e : Event} (hnext : next cpuStep s i e = some s') :
    MachineInv s' := by
  obtain ⟨x, c, hstep, rfl⟩ := (next_eq_some cpuStep).mp hnext
  have hadv := cpuStep_advances (h.cpus i) h.context hstep
  refine ⟨?_, hadv.context, ?_⟩
  · intro j
    by_cases hji : j = i
    · simp only [hji, Function.update_self]
      exact hadv.cpu
    · simp only [Function.update_of_ne hji]
      exact h.cpus j
  · intro lk hlk
    rcases hadv.locks.taken lk hlk with hself | ⟨hold, hnot⟩
    · exact ⟨i, by simpa using hself⟩
    · obtain ⟨j, hj⟩ := h.holder lk hold
      have hji : j ≠ i := fun heq => hnot (heq ▸ hj)
      exact ⟨j, by simpa [hji] using hj⟩

theorem MachineInv.of_runs (h : Runs (boot n t) s) : MachineInv s := by
  apply h.invariant machineInv_boot
  intro r r' hr hstep
  obtain ⟨i, e, -, hnext⟩ := hstep
  exact hr.next hnext

/-- On one CPU the loop of `acquire` ends at once. -/
theorem lone_spin_passes {s : State (Fin 1) Machine Cpu} (h : Runs (boot 1 t) s) {lk : Lock}
    (hspin : (s.pc 0).SpinsOn lk) : cpuStep s.shared (s.pc 0) .go ≠ none := by
  have hinv := MachineInv.of_runs h
  have hfree : s.shared.locked lk = false := by
    by_contra htaken
    rw [Bool.not_eq_false] at htaken
    obtain ⟨i, hi⟩ := hinv.holder lk htaken
    rw [Subsingleton.elim i 0] at hi
    exact ((hinv.cpus 0).spins lk hspin).1 hi
  unfold Cpu.SpinsOn at hspin
  cases hcode : (s.pc 0).code with
  | nil =>
    rw [hcode] at hspin
    cases hspin
  | cons op rest =>
    rw [hcode] at hspin
    cases hspin
    simp only [cpuStep, hcode, execOp, hfree]
    nofun

/-! ### The two locks are taken in both orders -/

/-- A table as `userinit` leaves it: the first process is to run. -/
def userinitTable : Table := fun p =>
  if p = 0 then ⟨.RUNNABLE, 1, none, 1, 0, 0⟩ else ⟨.UNUSED, 0, none, 0, 0, 0⟩

theorem userinitTable_fresh : Fresh userinitTable := by
  intro p
  by_cases hp : p = 0
  · exact .inr (by rw [userinitTable, if_pos hp])
  · exact .inl (by rw [userinitTable, if_neg hp])

/-- CPU 0 counts a tick, CPU 1 picks the process and is about to read the
    ticks, and CPU 0 takes the next timer interrupt. -/
def crossing : List (Fin 2 × Event) :=
  List.replicate 2 (0, .go) ++ (0, .timer) :: List.replicate 10 (0, .go) ++
    List.replicate 14 (1, .go) ++ (0, .timer) :: List.replicate 4 (0, .go)

/-- What the run leads to, CPU by CPU. -/
theorem crossing_codes :
    (exec cpuStep crossing (boot 2 userinitTable)).map (fun s =>
      ((s.pc 0).code.head?, (s.pc 0).held, (s.pc 1).code.head?, (s.pc 1).held)) =
    some (some (.spin .ptable), [.tickslock], some (.spin .tickslock), [.ptable]) := by
  decide +kernel

theorem exists_crossed : ∃ s, Runs (boot 2 userinitTable) s ∧ Crossed s := by
  obtain ⟨s, hs, hcodes⟩ := Option.map_eq_some_iff.mp crossing_codes
  simp only [Prod.mk.injEq] at hcodes
  obtain ⟨hspin0, hheld0, hspin1, hheld1⟩ := hcodes
  refine ⟨s, reachable_of_exec hs, 1, 0, by decide, ?_, hspin1, ?_, hspin0⟩
  · rw [hheld1]
    exact List.mem_singleton_self _
  · rw [hheld0]
    exact List.mem_singleton_self _

theorem Crossed.embed {n' : Nat} {r : State (Fin n') Machine Cpu} (h : Crossed s) {f : Fin n → Fin n'}
    (hf : Function.Injective f) (hpc : ∀ i, r.pc (f i) = s.pc i) : Crossed r := by
  obtain ⟨i, j, hij, hrest⟩ := h
  refine ⟨f i, f j, fun heq => hij (hf heq), ?_⟩
  rwa [hpc, hpc]

/-- The lock order is acyclic on one CPU only. -/
theorem lockOrder_iff (n : Nat) : LockOrder n ↔ n ≤ 1 := by
  constructor
  · intro horder
    by_contra htwo
    have hle : 2 ≤ n := by omega
    -- the other CPUs do nothing
    obtain ⟨s, hrun, hcrossed⟩ := exists_crossed
    have hinj : Function.Injective (Fin.castLE hle) := Fin.castLE_injective hle
    obtain ⟨r, hr, -, hpc⟩ := hrun.embed hinj (r := boot n userinitTable) rfl fun _ => rfl
    exact horder userinitTable userinitTable_fresh r hr (hcrossed.embed hinj hpc)
  · intro hone t _ s _ hcrossed
    obtain ⟨i, j, hij, -⟩ := hcrossed
    exact hij (Fin.ext (by omega))

/-- Two CPUs that run the first process of the kernel. -/
theorem lock_order_cyclic : ¬ ∀ n, 1 ≤ n → n ≤ NCPU → LockOrder n := by
  intro hall
  obtain ⟨s, hrun, hcrossed⟩ := exists_crossed
  exact hall 2 (by decide) (by decide) userinitTable userinitTable_fresh s hrun hcrossed

end runs

end Lottery
