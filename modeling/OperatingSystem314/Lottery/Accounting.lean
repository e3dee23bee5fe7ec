import OperatingSystem314.Lib.Runs
import OperatingSystem314.Lottery.Wakeup

/-! # Tick accounting

    The kernel on one CPU: `scheduler` hands out time slices, the timer ends
    them, and processes fork, exit, wait, sleep, and wake up or kill others.
    Sections under `ptable.lock` run with interrupts off, so each of them is
    one event; between two events any interrupt may be taken.

    * `System`: the process table, the `parent` links, and what the CPU does.
    * `Ledger`: what an observer of the run writes down, without the fields
      `init_ticks` and `ticks`: when a slot comes into use its process has
      used no ticks, when a slice ends it has used those of the slice.
    * `ticks_accounted`: `getpinfo` reports what the ledger says, as long as
      no process is put into a slot with ticks from before. -/

namespace Lottery.OneCpu

/-! ### The kernel -/

/-- What the CPU does: a round of `scheduler`, up to the counted tickets,
    the winning ticket, the slice of the process that has it. -/
inductive Phase where
  | counting
  | drawing (total_tickets : Int)
  | picking (winning_ticket : Int)
  | running (p : Slot)
  deriving DecidableEq

structure System where
  kernel : Kernel
  phase : Phase
  nextpid : Int
  parent : Slot → Option Slot
  /-- `np`, for a process that is inside `fork` -/
  np : Slot → Option Slot

inductive Event where
  | interrupt (i : Interrupt)
  | count
  | draw
  | pick
  /-- `fork`, up to the kernel stack of the child -/
  | fork
  /-- there is no page for the stack, or `copyuvm` fails -/
  | forkFails
  | forkReturns
  | exit
  | wait
  | sleep (chan : Chan)
  | wakeup (chan : Chan)
  | kill (pid : Int)
  | settickets (pid tickets : Int)
  deriving DecidableEq

def initproc : Slot := 0

/-- The address of a `struct proc`, which `wait` sleeps on. -/
def procChan (p : Slot) : Chan := p.val + 1

def modProc (t : Table) (p : Slot) (f : Proc → Proc) : Table := Function.update t p (f (t p))

/-- Where `allocproc` finds a slot. -/
def unused (t : Table) : Option Slot := slots.find? fun p => (t p).state = .UNUSED

namespace System

variable (s : System)

def table : Table := s.kernel.table

def setTable (t : Table) : System := { s with kernel := { s.kernel with table := t } }

/-- The process that runs, outside of `fork`. -/
def caller : Option Slot :=
  match s.phase with
  | .running p => if s.np p = none then some p else none
  | _ => none

/-- `sched`: the process gives up the CPU, and `scheduler` adds the ticks of
    the slice. -/
def sched (p : Slot) (state : ProcState) (chan : Option Chan) : System :=
  { s.setTable (modProc s.table p fun x =>
      { x with state, chan, ticks := addInt x.ticks (s.kernel.ticks - x.init_ticks) }) with
    phase := .counting }

/-- A timer interrupt ends the slice it is taken in. -/
def trap (i : Interrupt) : System :=
  let s := { s with kernel := s.kernel.interrupt i }
  match s.phase, i with
  | .running p, .timer => if (s.table p).state = .RUNNING then s.sched p .RUNNABLE (s.table p).chan else s
  | _, _ => s

/-- `scheduler`, from the winning ticket to `swtch`; where the process had
    been asleep, `sleep` clears `chan`. -/
def dispatch (winning_ticket : Int) : System :=
  match Lottery.pick s.table winning_ticket with
  | none => { s with phase := .counting }
  | some p =>
    { s.setTable (modProc s.table p fun x =>
        { x with state := .RUNNING, chan := none, init_ticks := toInt s.kernel.ticks }) with
      phase := .running p }

def allocproc (p : Slot) : System :=
  match Lottery.allocproc s.table s.nextpid true with
  | (none, _) => s
  | (some q, t) =>
    { s.setTable t with nextpid := addInt s.nextpid 1, np := Function.update s.np p (some q) }

/-- The error paths of `fork` and `allocproc`. -/
def forkFails (p q : Slot) : System :=
  { s.setTable (modProc s.table q fun x => { x with state := .UNUSED }) with
    np := Function.update s.np p none }

def forkReturns (p q : Slot) : System :=
  { s.setTable (modProc s.table q fun x => { x with tickets := (s.table p).tickets, state := .RUNNABLE }) with
    parent := Function.update s.parent q (some p)
    np := Function.update s.np p none }

def exit (p : Slot) : System :=
  let t := match s.parent p with
    | none => s.table
    | some q => wakeup1 s.table (procChan q)
  let zombies := slots.any fun q => s.parent q = some p ∧ (t q).state = .ZOMBIE
  let t := if zombies then wakeup1 t (procChan initproc) else t
  ({ s.setTable t with
      parent := fun q => if s.parent q = some p then some initproc else s.parent q }).sched
    p .ZOMBIE (t p).chan

/-- A round of the loop of `wait`. -/
def wait (p : Slot) : System :=
  match slots.find? fun q => s.parent q = some p ∧ (s.table q).state = .ZOMBIE with
  | some q =>
    { s.setTable (modProc s.table q fun x => { x with pid := 0, state := .UNUSED }) with
      parent := Function.update s.parent q none }
  | none => if slots.any fun q => s.parent q = some p then s.sched p .SLEEPING (some (procChan p)) else s

def kill (pid : Int) : System :=
  match slots.find? fun q => (s.table q).pid = pid with
  | none => s
  | some q =>
    s.setTable (modProc s.table q fun x =>
      { x with state := if x.state = .SLEEPING then .RUNNABLE else x.state })

end System

/-- `none` where the event cannot take place: `random` divides by zero, the
    first process exits, or no process makes the call. -/
def step (s : System) : Event → Option System
  | .interrupt i => some (s.trap i)
  | .count =>
    match s.phase with
    | .counting => some { s with phase := .drawing (total_tickets s.table) }
    | _ => none
  | .draw =>
    match s.phase with
    | .drawing total => (winning_ticket total s.kernel.ticks).map fun w => { s with phase := .picking w }
    | _ => none
  | .pick =>
    match s.phase with
    | .picking w => some (s.dispatch w)
    | _ => none
  | .fork => s.caller.map s.allocproc
  | .forkFails =>
    match s.phase with
    | .running p => (s.np p).map (s.forkFails p)
    | _ => none
  | .forkReturns =>
    match s.phase with
    | .running p => (s.np p).map (s.forkReturns p)
    | _ => none
  | .exit => s.caller.bind fun p => if p = initproc then none else some (s.exit p)
  | .wait => s.caller.map s.wait
  | .sleep chan => s.caller.map fun p => s.sched p .SLEEPING (some chan)
  | .wakeup chan => s.caller.map fun _ => s.setTable (wakeup1 s.table chan)
  | .kill pid => s.caller.map fun _ => s.kill pid
  | .settickets pid tickets => s.caller.map fun _ => s.setTable (sys_settickets s.table pid tickets).2

/-- The row of a slot in `struct pstat`. -/
structure Pstat where
  inuse : Bool
  tickets : Int
  pid : Int
  ticks : Int
  deriving DecidableEq

/-- `sys_getpinfo`: `temp` is what the caller's structure holds before. -/
def sys_getpinfo (t : Table) (temp : Slot → Pstat) : Slot → Pstat := fun p =>
  if (t p).state ≠ .UNUSED then ⟨true, (t p).tickets, (t p).pid, (t p).ticks⟩ else temp p

/-- `ptable` before the first process. -/
def bss : Table := fun _ => ⟨.UNUSED, 0, none, 0, 0, 0⟩

/-- The table that `userinit` leaves. -/
def userinit : Table :=
  match Lottery.allocproc bss 1 true with
  | (none, t) => t
  | (some p, t) => modProc t p fun x => { x with state := .RUNNABLE }

def boot : System where
  kernel := ⟨userinit, 0⟩
  phase := .counting
  nextpid := 2
  parent := fun _ => none
  np := fun _ => none

/-! ### The ledger -/

structure Ledger where
  /-- the timer interrupts so far -/
  now : Nat
  /-- how many there were when the slice began -/
  since : Nat
  /-- the ticks of the completed slices of the process in a slot -/
  own : Slot → Nat

def Phase.slot : Phase → Option Slot
  | .running p => some p
  | _ => none

/-- What is written down for a step from `s` to `s'`. -/
def Ledger.record (l : Ledger) (s s' : System) (e : Event) : Ledger :=
  let now := if e = .interrupt .timer then l.now + 1 else l.now
  { now
    since := if s.phase.slot = none ∧ s'.phase.slot ≠ none then now else l.since
    own := fun q =>
      if (s.table q).state = .UNUSED ∧ (s'.table q).state ≠ .UNUSED then 0
      else if s.phase.slot = some q ∧ s'.phase.slot ≠ some q then l.own q + (now - l.since)
      else l.own q }

structure Books where
  system : System
  ledger : Ledger

def Books.next (b : Books) (e : Event) : Option Books :=
  (step b.system e).map fun s => ⟨s, b.ledger.record b.system s e⟩

def Books.boot : Books := ⟨OneCpu.boot, 0, 0, fun _ => 0⟩

/-- The ticks that `getpinfo` reports of a live process are those of the
    completed slices of that process. -/
def Accounted (b : Books) : Prop :=
  ∀ temp p, (b.system.table p).state ≠ .UNUSED → (sys_getpinfo b.system.table temp p).ticks = b.ledger.own p

/-- A step of the run that keeps the accounts: `fork` takes a slot without
    ticks, and the tick that a slice ends with can still be counted. -/
structure Covered (b : Books) (e : Event) : Prop where
  fresh : e = .fork → ∀ q ∈ unused b.system.table, (b.system.table q).ticks = 0
  fits : e = .interrupt .timer → ∀ p ∈ b.system.phase.slot, b.ledger.own p + 1 < 2 ^ 31

instance (b : Books) (e : Event) : Decidable (Covered b e) :=
  decidable_of_iff ((e = .fork → ∀ q ∈ unused b.system.table, (b.system.table q).ticks = 0) ∧
    (e = .interrupt .timer → ∀ p ∈ b.system.phase.slot, b.ledger.own p + 1 < 2 ^ 31))
    ⟨fun h => ⟨h.1, h.2⟩, fun h => ⟨h.fresh, h.fits⟩⟩

/-! ### What a step does to the table -/

/-- No ticks change, and no slot comes into use. -/
structure Keeps (t t' : Table) : Prop where
  ticks : ∀ q, (t' q).ticks = (t q).ticks
  init_ticks : ∀ q, (t' q).init_ticks = (t q).init_ticks
  unused : ∀ q, (t q).state = .UNUSED → (t' q).state = .UNUSED

/-- What is more, who runs or is made in a slot still does or is. -/
structure Quiet (t t' : Table) : Prop extends Keeps t t' where
  busy : ∀ q, (t q).state = .EMBRYO ∨ (t q).state = .RUNNING → (t' q).state = (t q).state

/-- One process changes, in other fields. -/
theorem Keeps.modProc {t : Table} (p : Slot) {f : Proc → Proc} (hticks : (f (t p)).ticks = (t p).ticks)
    (hinit : (f (t p)).init_ticks = (t p).init_ticks)
    (hunused : (t p).state = .UNUSED → (f (t p)).state = .UNUSED) : Keeps t (modProc t p f) := by
  unfold OneCpu.modProc
  constructor
  · intro q
    by_cases hq : q = p
    · rw [hq, Function.update_self, hticks]
    · rw [Function.update_of_ne hq]
  · intro q
    by_cases hq : q = p
    · rw [hq, Function.update_self, hinit]
    · rw [Function.update_of_ne hq]
  · intro q
    by_cases hq : q = p
    · rw [hq, Function.update_self]
      exact hunused
    · rw [Function.update_of_ne hq]
      exact id

namespace Quiet

variable {t t' t'' : Table}

theorem refl (t : Table) : Quiet t t := ⟨⟨fun _ => rfl, fun _ => rfl, fun _ h => h⟩, fun _ _ => rfl⟩

theorem trans (h : Quiet t t') (h' : Quiet t' t'') : Quiet t t'' := by
  refine ⟨⟨?_, ?_, ?_⟩, ?_⟩
  · intro q
    rw [h'.ticks, h.ticks]
  · intro q
    rw [h'.init_ticks, h.init_ticks]
  · intro q hq
    exact h'.unused q (h.unused q hq)
  · intro q hq
    have hsame := h.busy q hq
    rw [h'.busy q (by rwa [hsame]), hsame]

/-- One process changes, in other fields or to a state that it is not made
    or run in. -/
theorem modProc (p : Slot) {f : Proc → Proc} (hticks : (f (t p)).ticks = (t p).ticks)
    (hinit : (f (t p)).init_ticks = (t p).init_ticks)
    (hunused : (t p).state = .UNUSED → (f (t p)).state = .UNUSED)
    (hbusy : (t p).state = .EMBRYO ∨ (t p).state = .RUNNING → (f (t p)).state = (t p).state) :
    Quiet t (modProc t p f) := by
  refine ⟨.modProc p hticks hinit hunused, ?_⟩
  unfold OneCpu.modProc
  intro q
  by_cases hq : q = p
  · rw [hq, Function.update_self]
    exact hbusy
  · rw [Function.update_of_ne hq]
    exact fun _ => rfl

theorem wakeup1 (t : Table) (chan : Chan) : Quiet t (wakeup1 t chan) := by
  unfold Lottery.wakeup1
  refine ⟨⟨?_, ?_, ?_⟩, ?_⟩
  · intro q
    dsimp only
    split <;> rfl
  · intro q
    dsimp only
    split <;> rfl
  · intro q hq
    dsimp only
    rw [if_neg (by rw [hq]; simp), hq]
  · intro q hq
    dsimp only
    rw [if_neg]
    intro hsleep
    rw [hsleep.1] at hq
    simp at hq

theorem sys_settickets (t : Table) (pid tickets : Int) : Quiet t (sys_settickets t pid tickets).2 := by
  unfold Lottery.sys_settickets
  split
  · exact refl t
  · split
    · exact refl t
    · split
      · exact refl t
      next p _ => exact .modProc p (f := fun x => { x with tickets }) rfl rfl id fun _ => rfl

end Quiet

/-- All that a step can do, as far as ticks are concerned. -/
inductive Effect (s s' : System) (e : Event) : Prop where
  | keeps (hslot : s'.phase.slot = s.phase.slot) (htimer : e = .interrupt .timer → s.phase.slot = none)
      (htable : Keeps s.table s'.table)
  | starts (p : Slot) (hslot : s.phase.slot = none) (hslot' : s'.phase.slot = some p)
      (htimer : e ≠ .interrupt .timer) (hstate : (s.table p).state = .RUNNABLE)
      (htable : s'.table = modProc s.table p fun x =>
        { x with state := .RUNNING, chan := none, init_ticks := toInt s.kernel.ticks })
  | creates (p q : Slot) (he : e = .fork) (hslot : s.phase.slot = some p) (hslot' : s'.phase.slot = some p)
      (hq : q ∈ unused s.table)
      (htable : s'.table = modProc s.table q fun x =>
        { x with state := .EMBRYO, pid := s.nextpid, tickets := 1 })
  | finishes (p : Slot) (t : Table) (state : ProcState) (chan : Option Chan)
      (hslot : s.phase.slot = some p) (hslot' : s'.phase.slot = none) (hstate : state ≠ .UNUSED)
      (ht : Keeps s.table t)
      (htable : s'.table = modProc t p fun x =>
        { x with state, chan, ticks := addInt x.ticks (s'.kernel.ticks - x.init_ticks) })

/-- The process of the slice runs, and the children that are being made are
    not in use for anything else. -/
structure Sound (s : System) : Prop where
  running : ∀ p ∈ s.phase.slot, (s.table p).state = .RUNNING
  np : ∀ p, ∀ q ∈ s.np p, (s.table q).state = .EMBRYO
  npInj : ∀ p p' q, q ∈ s.np p → q ∈ s.np p' → p = p'

section step

variable {s s' : System} {e : Event} {p q : Slot}

theorem mem_slot {ph : Phase} : p ∈ ph.slot ↔ ph = .running p := by
  cases ph with
  | running q => simp [Phase.slot]
  | _ => simp [Phase.slot]

theorem mem_caller : p ∈ s.caller ↔ s.phase = .running p ∧ s.np p = none := by
  unfold System.caller
  split
  next q hq =>
    split
    next hnone =>
      simp only [Option.mem_def, Option.some.injEq, hq, Phase.running.injEq]
      constructor
      · intro heq
        subst heq
        exact ⟨rfl, hnone⟩
      · exact fun h => h.1
    next hsome =>
      simp only [Option.mem_def, reduceCtorEq, hq, Phase.running.injEq, false_iff]
      rintro ⟨rfl, hnone⟩
      exact hsome hnone
  next hph =>
    simp only [Option.mem_def, reduceCtorEq, false_iff]
    intro h
    exact hph p h.1

/-- A slot that `allocproc` finds. -/
theorem state_of_unused {t : Table} (h : q ∈ unused t) : (t q).state = .UNUSED := by
  have := List.find?_some h
  simpa using this

theorem allocproc_unused (hq : q ∈ unused s.table) :
    s.allocproc p = { s.setTable (modProc s.table q fun x =>
      { x with state := .EMBRYO, pid := s.nextpid, tickets := 1 }) with
      nextpid := addInt s.nextpid 1, np := Function.update s.np p (some q) } := by
  unfold System.allocproc Lottery.allocproc
  unfold unused at hq
  rw [Option.mem_def] at hq
  rw [hq]
  rfl

theorem allocproc_full (hq : unused s.table = none) : s.allocproc p = s := by
  unfold System.allocproc Lottery.allocproc
  unfold unused at hq
  rw [hq]

/-! ### The steps that keep the ticks -/

@[simp] theorem table_setTable (s : System) (t : Table) : (s.setTable t).table = t := rfl

theorem Sound.setTable (h : Sound s) {t : Table} (ht : Quiet s.table t) : Sound (s.setTable t) := by
  constructor
  · intro p hp
    have hrun := h.running p hp
    show (t p).state = _
    rw [ht.busy p (.inr hrun), hrun]
  · intro p q hq
    have hemb := h.np p q hq
    show (t q).state = _
    rw [ht.busy q (.inl hemb), hemb]
  · exact h.npInj

theorem effect_setTable {t : Table} (ht : Keeps s.table t) (htimer : e ≠ .interrupt .timer) :
    Effect s (s.setTable t) e :=
  .keeps rfl (fun h => absurd h htimer) ht

/-- A child that is made leaves `np` at the end of `fork`. -/
theorem Sound.endFork (h : Sound s) (hq : q ∈ s.np p) {x : Proc → Proc} {parent : Slot → Option Slot} :
    Sound { s.setTable (modProc s.table q x) with parent, np := Function.update s.np p none } := by
  have hemb := h.np p q hq
  constructor
  · intro r hr
    have hrun := h.running r hr
    have hne : r ≠ q := by
      rintro rfl
      rw [hemb] at hrun
      cases hrun
    show (modProc s.table q x r).state = _
    rw [modProc, Function.update_of_ne hne, hrun]
  · intro r r' hr'
    by_cases hrp : r = p
    · rw [hrp] at hr'
      simp at hr'
    · simp only [Function.update_of_ne hrp] at hr'
      have hne : r' ≠ q := by
        rintro rfl
        exact hrp (h.npInj r p r' hr' hq)
      show (modProc s.table q x r').state = _
      rw [modProc, Function.update_of_ne hne]
      exact h.np r r' hr'
  · intro r r' q' hr hr'
    by_cases hrp : r = p
    · rw [hrp] at hr
      simp at hr
    · by_cases hrp' : r' = p
      · rw [hrp'] at hr'
        simp at hr'
      · simp only [Function.update_of_ne hrp] at hr
        simp only [Function.update_of_ne hrp'] at hr'
        exact h.npInj r r' q' hr hr'

/-! ### The ends of a slice -/

theorem table_sched (s : System) (p : Slot) (state : ProcState) (chan : Option Chan) :
    (s.sched p state chan).table = modProc s.table p fun x =>
      { x with state, chan, ticks := addInt x.ticks (s.kernel.ticks - x.init_ticks) } := rfl

theorem effect_sched {s₁ : System} (hslot : s.phase.slot = some p) (ht : Keeps s.table s₁.table)
    {state : ProcState} (hstate : state ≠ .UNUSED) {chan : Option Chan} :
    Effect s (s₁.sched p state chan) e :=
  .finishes p s₁.table state chan hslot rfl hstate ht rfl

theorem Sound.sched (h : Sound s) (hrun : (s.table p).state = .RUNNING) {state : ProcState}
    {chan : Option Chan} : Sound (s.sched p state chan) := by
  constructor
  · intro r hr
    cases hr
  · intro r q hq
    have hemb := h.np r q hq
    have hne : q ≠ p := by
      rintro rfl
      rw [hrun] at hemb
      cases hemb
    rw [table_sched, modProc, Function.update_of_ne hne, hemb]
  · exact h.npInj

theorem Sound.with_parent (h : Sound s) (parent : Slot → Option Slot) : Sound { s with parent } :=
  ⟨h.running, h.np, h.npInj⟩

theorem Sound.with_phase (h : Sound s) {phase : Phase} (hslot : phase.slot = none) : Sound { s with phase } := by
  refine ⟨?_, h.np, h.npInj⟩
  intro p hp
  rw [hslot] at hp
  cases hp

/-! ### Every step -/

/-- The table of `exit`, with the parent and `initproc` woken up. -/
theorem exit_effect (h : Sound s) (hp : s.phase = .running p) : Effect s (s.exit p) e ∧ Sound (s.exit p) := by
  have hslot : p ∈ s.phase.slot := mem_slot.mpr hp
  unfold System.exit
  generalize ht : (match s.parent p with
    | none => s.table
    | some q => wakeup1 s.table (procChan q)) = t
  have hwoken : Quiet s.table t := by
    rw [← ht]
    split
    · exact .refl _
    · exact .wakeup1 _ _
  dsimp only
  generalize ht' : (if slots.any (fun q => s.parent q = some p ∧ (t q).state = .ZOMBIE) then
    wakeup1 t (procChan initproc) else t) = t'
  have hwoken' : Quiet s.table t' := by
    rw [← ht']
    split
    · exact hwoken.trans (.wakeup1 _ _)
    · exact hwoken
  have hsound := (h.setTable hwoken').with_parent fun q =>
    if s.parent q = some p then some initproc else s.parent q
  refine ⟨effect_sched hslot ?_ (by decide), hsound.sched (hsound.running p hslot)⟩
  exact hwoken'.toKeeps

theorem wait_effect (h : Sound s) (hp : s.phase = .running p) (htimer : e ≠ .interrupt .timer) :
    Effect s (s.wait p) e ∧ Sound (s.wait p) := by
  have hslot : p ∈ s.phase.slot := mem_slot.mpr hp
  unfold System.wait
  split
  next q hq =>
    have hzombie : (s.table q).state = .ZOMBIE := by
      have := List.find?_some hq
      simp only [decide_eq_true_eq] at this
      exact this.2
    have hquiet : Quiet s.table (modProc s.table q fun x => { x with pid := 0, state := .UNUSED }) := by
      apply Quiet.modProc
      · rfl
      · rfl
      · exact fun _ => rfl
      · intro hbusy
        rw [hzombie] at hbusy
        simp at hbusy
    exact ⟨.keeps rfl (fun h => absurd h htimer) hquiet.toKeeps, (h.setTable hquiet).with_parent _⟩
  next =>
    split
    · exact ⟨effect_sched hslot (Quiet.refl _).toKeeps (by decide), h.sched (h.running p hslot)⟩
    · exact ⟨.keeps rfl (fun h => absurd h htimer) (Quiet.refl _).toKeeps, h⟩

theorem kill_effect (h : Sound s) (pid : Int) (htimer : e ≠ .interrupt .timer) :
    Effect s (s.kill pid) e ∧ Sound (s.kill pid) := by
  unfold System.kill
  split
  · exact ⟨.keeps rfl (fun h => absurd h htimer) (Quiet.refl _).toKeeps, h⟩
  next q _ =>
    have hquiet : Quiet s.table (modProc s.table q fun x =>
        { x with state := if x.state = .SLEEPING then .RUNNABLE else x.state }) := by
      apply Quiet.modProc q
      · rfl
      · rfl
      · intro hunused
        rw [if_neg (by rw [hunused]; decide)]
        exact hunused
      · intro hbusy
        rw [if_neg]
        intro hsleep
        rw [hsleep] at hbusy
        simp at hbusy
    exact ⟨effect_setTable hquiet.toKeeps htimer, h.setTable hquiet⟩

theorem trap_effect (h : Sound s) (i : Interrupt) :
    Effect s (s.trap i) (.interrupt i) ∧ Sound (s.trap i) := by
  have hquiet : Quiet s.table (s.kernel.interrupt i).table := by
    cases i with
    | timer => exact .wakeup1 _ _
    | device chan => exact .wakeup1 _ _
  have hsound : Sound { s with kernel := s.kernel.interrupt i } := by
    have := h.setTable hquiet
    exact ⟨this.running, this.np, this.npInj⟩
  unfold System.trap
  dsimp only
  split
  next p hph =>
    have hslot : p ∈ s.phase.slot := mem_slot.mpr hph
    have hrun := hsound.running p hslot
    rw [if_pos hrun]
    refine ⟨effect_sched hslot ?_ (by decide), hsound.sched hrun⟩
    exact hquiet.toKeeps
  next hother =>
    refine ⟨.keeps rfl ?_ hquiet.toKeeps, hsound⟩
    intro htimer
    cases htimer
    cases hph : s.phase with
    | running p => exact absurd rfl (hother p hph)
    | _ => rfl

theorem fork_effect (h : Sound s) (hp : s.phase = .running p) :
    Effect s (s.allocproc p) .fork ∧ Sound (s.allocproc p) := by
  have hslot : p ∈ s.phase.slot := mem_slot.mpr hp
  cases hq : unused s.table with
  | none =>
    rw [allocproc_full hq]
    exact ⟨.keeps rfl nofun (Quiet.refl _).toKeeps, h⟩
  | some q =>
    rw [allocproc_unused hq]
    have hunused := state_of_unused hq
    -- nobody runs in the slot or makes a child in it
    have hne : ∀ r, (s.table r).state ≠ .UNUSED → r ≠ q := by
      rintro r hr rfl
      exact hr hunused
    have hother : ∀ r, r ≠ q → (modProc s.table q (fun x =>
        { x with state := .EMBRYO, pid := s.nextpid, tickets := 1 }) r).state = (s.table r).state := by
      intro r hr
      rw [modProc, Function.update_of_ne hr]
    refine ⟨.creates p q rfl hslot hslot hq rfl, ?_, ?_, ?_⟩
    · intro r hr
      have hrun := h.running r hr
      exact (hother r (hne r (by rw [hrun]; decide))).trans hrun
    · intro r r' hr'
      by_cases hrp : r = p
      · rw [hrp] at hr'
        simp only [Function.update_self, Option.mem_def, Option.some.injEq] at hr'
        rw [← hr']
        exact congrArg Proc.state (Function.update_self q _ s.table)
      · simp only [Function.update_of_ne hrp] at hr'
        have hemb := h.np r r' hr'
        exact (hother r' (hne r' (by rw [hemb]; decide))).trans hemb
    · intro r r' q' hr hr'
      have hold : ∀ x, q ∉ s.np x := by
        intro x hx
        exact hne q (by rw [h.np x q hx]; decide) rfl
      by_cases hrp : r = p
      · by_cases hrp' : r' = p
        · rw [hrp, hrp']
        · simp only [hrp, Function.update_self, Option.mem_def, Option.some.injEq] at hr
          simp only [Function.update_of_ne hrp'] at hr'
          rw [← hr] at hr'
          exact absurd hr' (hold r')
      · simp only [Function.update_of_ne hrp] at hr
        by_cases hrp' : r' = p
        · simp only [hrp', Function.update_self, Option.mem_def, Option.some.injEq] at hr'
          rw [← hr'] at hr
          exact absurd hr (hold r)
        · simp only [Function.update_of_ne hrp'] at hr'
          exact h.npInj r r' q' hr hr'

/-- The picking loop stops at a `RUNNABLE` process only. -/
theorem pick_runnable {t : Table} {w : Int} (h : Lottery.pick t w = some p) : (t p).state = .RUNNABLE := by
  have hloop : ∀ (l : List Slot) (n : Int), pickLoop t w l n = some p → (t p).state = .RUNNABLE := by
    intro l
    induction l with
    | nil => nofun
    | cons q l ih =>
      intro n hq
      unfold pickLoop at hq
      split at hq
      next => exact ih n hq
      next hrun =>
        dsimp only at hq
        split at hq
        · exact ih _ hq
        · cases hq
          exact of_not_not hrun
  exact hloop _ 0 h

theorem dispatch_effect (h : Sound s) (hslot : s.phase.slot = none) (w : Int) (htimer : e ≠ .interrupt .timer) :
    Effect s (s.dispatch w) e ∧ Sound (s.dispatch w) := by
  unfold System.dispatch
  split
  next => exact ⟨.keeps hslot.symm (fun h => absurd h htimer) (Quiet.refl _).toKeeps, h.with_phase rfl⟩
  next p hp =>
    have hrun := pick_runnable hp
    refine ⟨.starts p hslot rfl htimer hrun rfl, ?_, ?_, h.npInj⟩
    · intro r hr
      cases hr
      exact congrArg Proc.state (Function.update_self p _ s.table)
    · intro r q hq
      have hemb := h.np r q hq
      have hne : q ≠ p := by
        rintro rfl
        rw [hrun] at hemb
        cases hemb
      exact (congrArg Proc.state (Function.update_of_ne hne _ s.table)).trans hemb

/-- What an event does, and that it leaves a sound state. -/
theorem step_effect (h : Sound s) (hstep : step s e = some s') : Effect s s' e ∧ Sound s' := by
  cases e with
  | interrupt i =>
    cases hstep
    exact trap_effect h i
  | count =>
    simp only [step] at hstep
    split at hstep
    next hph =>
      cases hstep
      exact ⟨.keeps (by rw [hph]; rfl) nofun (Quiet.refl _).toKeeps, h.with_phase rfl⟩
    next => cases hstep
  | draw =>
    simp only [step] at hstep
    split at hstep
    next total hph =>
      obtain ⟨w, -, rfl⟩ := Option.map_eq_some_iff.mp hstep
      exact ⟨.keeps (by rw [hph]; rfl) nofun (Quiet.refl _).toKeeps, h.with_phase rfl⟩
    next => cases hstep
  | pick =>
    simp only [step] at hstep
    split at hstep
    next w hph =>
      cases hstep
      exact dispatch_effect h (by rw [hph]; rfl) w nofun
    next => cases hstep
  | fork =>
    obtain ⟨p, hp, rfl⟩ := Option.map_eq_some_iff.mp hstep
    exact fork_effect h (mem_caller.mp hp).1
  | forkFails =>
    simp only [step] at hstep
    split at hstep
    next p hph =>
      obtain ⟨q, hq, rfl⟩ := Option.map_eq_some_iff.mp hstep
      have hkeeps : Keeps s.table (modProc s.table q fun x => { x with state := .UNUSED }) :=
        .modProc q rfl rfl fun _ => rfl
      exact ⟨.keeps rfl nofun hkeeps, h.endFork hq⟩
    next => cases hstep
  | forkReturns =>
    simp only [step] at hstep
    split at hstep
    next p hph =>
      obtain ⟨q, hq, rfl⟩ := Option.map_eq_some_iff.mp hstep
      have hkeeps : Keeps s.table (modProc s.table q fun x =>
          { x with tickets := (s.table p).tickets, state := .RUNNABLE }) := by
        apply Keeps.modProc q rfl rfl
        intro hunused
        rw [h.np p q hq] at hunused
        cases hunused
      exact ⟨.keeps rfl nofun hkeeps, h.endFork hq⟩
    next => cases hstep
  | exit =>
    obtain ⟨p, hp, hexit⟩ := Option.bind_eq_some_iff.mp hstep
    split at hexit
    · cases hexit
    · cases hexit
      exact exit_effect h (mem_caller.mp hp).1
  | wait =>
    obtain ⟨p, hp, rfl⟩ := Option.map_eq_some_iff.mp hstep
    exact wait_effect h (mem_caller.mp hp).1 nofun
  | sleep chan =>
    obtain ⟨p, hp, rfl⟩ := Option.map_eq_some_iff.mp hstep
    have hslot := mem_slot.mpr (mem_caller.mp hp).1
    exact ⟨effect_sched hslot (Quiet.refl _).toKeeps (by decide), h.sched (h.running p hslot)⟩
  | wakeup chan =>
    obtain ⟨p, -, rfl⟩ := Option.map_eq_some_iff.mp hstep
    exact ⟨effect_setTable (Quiet.wakeup1 _ chan).toKeeps nofun, h.setTable (.wakeup1 _ chan)⟩
  | kill pid =>
    obtain ⟨p, -, rfl⟩ := Option.map_eq_some_iff.mp hstep
    exact kill_effect h pid nofun
  | settickets pid tickets =>
    obtain ⟨p, -, rfl⟩ := Option.map_eq_some_iff.mp hstep
    have hquiet := Quiet.sys_settickets s.table pid tickets
    exact ⟨effect_setTable hquiet.toKeeps nofun, h.setTable hquiet⟩

end step

/-! ### The accounts of a run -/

section clock

variable {s s' : System} {e : Event} (p : Slot)

theorem trap_ticks (s : System) (i : Interrupt) : (s.trap i).kernel.ticks = (s.kernel.interrupt i).ticks := by
  unfold System.trap
  dsimp only
  split
  · split
    · rfl
    · rfl
  · rfl

theorem dispatch_ticks (s : System) (w : Int) : (s.dispatch w).kernel.ticks = s.kernel.ticks := by
  unfold System.dispatch
  split
  · rfl
  · rfl

theorem allocproc_ticks (s : System) : (s.allocproc p).kernel.ticks = s.kernel.ticks := by
  unfold System.allocproc
  split
  · rfl
  · rfl

theorem wait_ticks (s : System) : (s.wait p).kernel.ticks = s.kernel.ticks := by
  unfold System.wait
  split
  · rfl
  · split
    · rfl
    · rfl

theorem kill_ticks (s : System) (pid : Int) : (s.kill pid).kernel.ticks = s.kernel.ticks := by
  unfold System.kill
  split
  · rfl
  · rfl

/-- `ticks` is advanced by the timer only. -/
theorem step_clock (h : step s e = some s') :
    s'.kernel.ticks = if e = .interrupt .timer then (s.kernel.ticks + 1) % 2 ^ 32 else s.kernel.ticks := by
  cases e with
  | interrupt i =>
    cases h
    rw [trap_ticks]
    cases i with
    | timer => rfl
    | device chan => rfl
  | count | draw | pick | forkFails | forkReturns =>
    simp only [step] at h
    split at h
    · first
      | cases h
        first | rfl | exact dispatch_ticks s _
      | obtain ⟨_, -, rfl⟩ := Option.map_eq_some_iff.mp h
        rfl
    · cases h
  | exit =>
    obtain ⟨p, -, hexit⟩ := Option.bind_eq_some_iff.mp h
    split at hexit
    · cases hexit
    · cases hexit
      rfl
  | fork | wait | sleep _ | wakeup _ | kill _ | settickets _ _ =>
    obtain ⟨p, -, rfl⟩ := Option.map_eq_some_iff.mp h
    first
    | rfl
    | exact allocproc_ticks p s
    | exact wait_ticks p s
    | exact kill_ticks s _
end clock
/-- The fields `init_ticks` and `ticks`, beside the ledger. -/
structure Tracked (b : Books) : Prop where
  sound : Sound b.system
  clock : b.system.kernel.ticks = b.ledger.now % 2 ^ 32
  /-- a slice that a tick has not ended yet -/
  slice : ∀ p ∈ b.system.phase.slot, b.ledger.since = b.ledger.now ∧
    (b.system.table p).init_ticks = toInt b.system.kernel.ticks
  own : ∀ p, (b.system.table p).state ≠ .UNUSED →
    (b.system.table p).ticks = b.ledger.own p ∧ b.ledger.own p < 2 ^ 31

/-- What a slice of `n` ticks adds, across an overflow of the clock. -/
theorem addInt_slice {own now n : Nat} (h : own + n < 2 ^ 31) :
    addInt own (((now + n) % 2 ^ 32 : Nat) - toInt (now % 2 ^ 32)) = (own + n : Nat) := by
  have hclock : ∃ k : Int, toInt (now % 2 ^ 32) = now - 2 ^ 32 * k := by
    unfold toInt
    rw [Int.bmod_def]
    norm_num
    split
    · exact ⟨now / 4294967296, by omega⟩
    · exact ⟨now / 4294967296 + 1, by omega⟩
  obtain ⟨k, hk⟩ := hclock
  -- the clock overflows, and so does the difference
  have hsum : (own : Int) + (((now + n) % 2 ^ 32 : Nat) - toInt (now % 2 ^ 32)) =
      (own + n : Nat) + (2 ^ 32 : Nat) * (k - ((now + n) / 2 ^ 32 : Nat)) := by
    omega
  rw [addInt, hsum, Int.add_mul_bmod_self_left]
  exact bmod_of_isInt ⟨by omega, by omega⟩

section run

variable {b b' : Books} {e : Event}

theorem tracked_boot : Tracked .boot where
  sound := ⟨nofun, nofun, nofun⟩
  clock := rfl
  slice := nofun
  own := by decide

/-- A slot that no process is put into and whose slice does not end. -/
theorem own_record {l : Ledger} {s s' : System} {q : Slot}
    (hunused : (s.table q).state = .UNUSED → (s'.table q).state = .UNUSED)
    (hslot : s.phase.slot = some q → s'.phase.slot = some q) : (l.record s s' e).own q = l.own q := by
  unfold Ledger.record
  dsimp only
  rw [if_neg (fun h => h.2 (hunused h.1)), if_neg (fun h => h.2 (hslot h.1))]

theorem since_record {l : Ledger} {s s' : System} {p : Slot} (hslot : s.phase.slot = some p) :
    (l.record s s' e).since = l.since := by
  unfold Ledger.record
  dsimp only
  rw [if_neg]
  intro h
  rw [hslot] at h
  cases h.1

theorem now_record {l : Ledger} {s s' : System} (he : e ≠ .interrupt .timer) :
    (l.record s s' e).now = l.now := if_neg he

theorem Tracked.next (h : Tracked b) (hcov : Covered b e) (hnext : b.next e = some b') : Tracked b' := by
  obtain ⟨s', hs', rfl⟩ := Option.map_eq_some_iff.mp hnext
  obtain ⟨heffect, hsound⟩ := step_effect h.sound hs'
  have hticks := step_clock hs'
  have hclock : s'.kernel.ticks = (b.ledger.record b.system s' e).now % 2 ^ 32 := by
    have hold := h.clock
    by_cases he : e = .interrupt .timer
    · have hnow : (b.ledger.record b.system s' e).now = b.ledger.now + 1 := if_pos he
      rw [if_pos he] at hticks
      omega
    · rw [if_neg he] at hticks
      rw [now_record he]
      omega
  refine ⟨hsound, hclock, ?_, ?_⟩
  · intro p hp
    cases heffect with
    | keeps hslot htimer htable =>
      rw [hslot] at hp
      have he : e ≠ .interrupt .timer := by
        intro he
        rw [htimer he] at hp
        cases hp
      obtain ⟨hsince, hinit⟩ := h.slice p hp
      rw [if_neg he] at hticks
      refine ⟨?_, ?_⟩
      · rw [since_record hp, now_record he, hsince]
      · rw [htable.init_ticks, hinit, hticks]
    | starts p' hslot hslot' he hstate htable =>
      rw [hslot', Option.mem_def, Option.some.injEq] at hp
      subst hp
      rw [if_neg he] at hticks
      constructor
      · exact if_pos ⟨hslot, by rw [hslot']; nofun⟩
      · rw [htable, modProc, Function.update_self, hticks]
    | creates p' q he hslot hslot' hq htable =>
      have hne : e ≠ .interrupt .timer := by
        rw [he]
        nofun
      rw [hslot', ← hslot] at hp
      obtain ⟨hsince, hinit⟩ := h.slice p hp
      rw [if_neg hne] at hticks
      have hpq : p ≠ q := by
        rintro rfl
        have hrun := h.sound.running p hp
        rw [state_of_unused hq] at hrun
        cases hrun
      constructor
      · rw [since_record hp, now_record hne, hsince]
      · rw [htable, modProc, Function.update_of_ne hpq, hinit, hticks]
    | finishes p' t state chan hslot hslot' hstate ht htable =>
      rw [hslot'] at hp
      cases hp
  · intro r hr
    cases heffect with
    | keeps hslot htimer htable =>
      have hused : (b.system.table r).state ≠ .UNUSED := fun hunused => hr (htable.unused r hunused)
      rw [htable.ticks, own_record (htable.unused r) fun h => by rw [hslot, h]]
      exact h.own r hused
    | starts p hslot hslot' he hstate htable =>
      have hkeeps : (b.system.table r).state = .UNUSED → (s'.table r).state = .UNUSED := by
        intro hunused
        have hrp : r ≠ p := by
          rintro rfl
          rw [hstate] at hunused
          cases hunused
        rw [htable, modProc, Function.update_of_ne hrp, hunused]
      have hsame : (s'.table r).ticks = (b.system.table r).ticks := by
        rw [htable, modProc]
        by_cases hrp : r = p
        · rw [hrp, Function.update_self]
        · rw [Function.update_of_ne hrp]
      rw [hsame, own_record hkeeps fun h => by rw [hslot] at h; cases h]
      exact h.own r fun hunused => hr (hkeeps hunused)
    | creates p q he hslot hslot' hq htable =>
      by_cases hrq : r = q
      · have hzero : (b.ledger.record b.system s' e).own r = 0 := by
          refine if_pos ⟨?_, hr⟩
          rw [hrq]
          exact state_of_unused hq
        rw [hzero, htable, hrq, modProc, Function.update_self]
        exact ⟨hcov.fresh he q hq, by norm_num⟩
      · have hsame : s'.table r = b.system.table r := by
          rw [htable, modProc, Function.update_of_ne hrq]
        rw [own_record (by rw [hsame]; exact id) fun h => by rw [hslot', ← hslot, h], hsame]
        rw [hsame] at hr
        exact h.own r hr
    | finishes p t state chan hslot hslot' hstate ht htable =>
      by_cases hrp : r = p
      · subst hrp
        have hrun := h.sound.running r hslot
        have hused : (b.system.table r).state ≠ .UNUSED := by
          rw [hrun]
          decide
        obtain ⟨hsince, hinit⟩ := h.slice r hslot
        obtain ⟨hown, hfits⟩ := h.own r hused
        -- a slice is at most a tick long
        have hlast : ∃ n, (b.ledger.record b.system s' e).now = b.ledger.now + n ∧ b.ledger.own r + n < 2 ^ 31 := by
          by_cases he : e = .interrupt .timer
          · exact ⟨1, if_pos he, hcov.fits he r hslot⟩
          · exact ⟨0, now_record he, hfits⟩
        obtain ⟨n, hnow, hsum⟩ := hlast
        have hrecord : (b.ledger.record b.system s' e).own r = b.ledger.own r + n := by
          have hslice : (b.ledger.record b.system s' e).own r =
              b.ledger.own r + ((b.ledger.record b.system s' e).now - b.ledger.since) := by
            refine (if_neg fun h => hused h.1).trans (if_pos ⟨hslot, ?_⟩)
            rw [hslot']
            nofun
          omega
        have hticks' : (s'.table r).ticks =
            addInt (b.system.table r).ticks (s'.kernel.ticks - (b.system.table r).init_ticks) := by
          rw [htable, modProc, Function.update_self]
          show addInt (t r).ticks _ = _
          rw [ht.ticks, ht.init_ticks]
        rw [hrecord, hticks', hown, hinit, hclock, hnow, h.clock]
        exact ⟨addInt_slice hsum, hsum⟩
      · have hsame : s'.table r = t r := by rw [htable, modProc, Function.update_of_ne hrp]
        have hused : (b.system.table r).state ≠ .UNUSED := by
          intro hunused
          rw [hsame] at hr
          exact hr (ht.unused r hunused)
        rw [hsame, ht.ticks, own_record]
        · exact h.own r hused
        · intro hunused
          exact absurd hunused hused
        · intro h
          rw [hslot, Option.some.injEq] at h
          exact absurd h.symm hrp

theorem Tracked.accounted (h : Tracked b) : Accounted b := by
  intro temp p hp
  unfold sys_getpinfo
  rw [if_pos hp]
  exact (h.own p hp).1

/-- In a run whose steps keep the accounts, `getpinfo` reports of a live
    process the ticks of its completed slices. -/
theorem ticks_accounted (h : Runs.Reachable Books.next Covered .boot b) : Accounted b := by
  have htracked : Tracked b := by
    apply h.invariant tracked_boot
    intro r e r' hr hcov hnext
    exact hr.next hcov hnext
  exact htracked.accounted

end run

/-- The first process forks a child and waits for it; the child runs for two
    ticks. -/
def firstChild : List Event :=
  [.interrupt .timer, .count, .draw, .pick, .fork, .forkReturns, .wait,
    .count, .draw, .pick, .interrupt .timer, .count, .draw, .pick, .interrupt .timer]

theorem firstChild_ticks :
    (Runs.exec Books.next Covered firstChild .boot).map (fun b =>
      ((b.system.table 1).state, b.ledger.own 1)) = some (.RUNNABLE, 2) := by
  decide +kernel

theorem ticks_accounted_child : ∃ b, Runs.Reachable Books.next Covered .boot b ∧ b.ledger.own 1 = 2 ∧ Accounted b := by
  obtain ⟨b, hb, hown⟩ := Option.map_eq_some_iff.mp firstChild_ticks
  simp only [Prod.mk.injEq] at hown
  have hrun := Runs.reachable_of_exec hb
  exact ⟨b, hrun, hown.2, ticks_accounted hrun⟩

/-- The first process forks a child and waits for it; the child runs for a
    tick and exits; the first process forks another child. -/
def reuse : List Event :=
  [.interrupt .timer, .count, .draw, .pick, .fork, .forkReturns, .wait,
    .count, .draw, .pick, .interrupt .timer, .count, .draw, .pick, .exit,
    .count, .draw, .pick, .wait, .fork, .forkReturns]

theorem reuse_ticks :
    (Runs.exec Books.next (fun _ _ => True) reuse .boot).map (fun b =>
      ((b.system.table 1).state, (b.system.table 1).pid, (b.system.table 1).ticks, b.ledger.own 1)) =
    some (.RUNNABLE, 3, 1, 0) := by
  decide +kernel

/-- The second child is charged for the tick of the first one. -/
theorem ticks_inherited : ∃ b, Runs.Reachable Books.next (fun _ _ => True) .boot b ∧ ¬ Accounted b := by
  obtain ⟨b, hb, hchild⟩ := Option.map_eq_some_iff.mp reuse_ticks
  simp only [Prod.mk.injEq] at hchild
  obtain ⟨hstate, -, hticks, hown⟩ := hchild
  have hlive : (b.system.table 1).state ≠ .UNUSED := by
    rw [hstate]
    decide
  refine ⟨b, Runs.reachable_of_exec hb, ?_⟩
  intro hacc
  have hreport := hacc (fun _ => ⟨false, 0, 0, 0⟩) 1 hlive
  unfold sys_getpinfo at hreport
  rw [if_pos hlive, hown] at hreport
  dsimp only at hreport
  rw [hticks] at hreport
  exact absurd hreport (by decide)

end Lottery.OneCpu
