import Mathlib.Algebra.Order.BigOperators.Group.List
import Mathlib.Algebra.Order.Group.Int
import Mathlib.Data.List.FinRange
import Mathlib.Tactic.NormNum
import OperatingSystem314.Lib.Sizes

/-! # Process table of the lottery kernel (offline_3)

    The process table with the fields the lottery adds to `struct proc`,
    and the arithmetic of C's `int` and `uint`.

    An `int` is an integer of the range `-2^31 .. 2^31 - 1`, a `uint` a
    natural number below `2^32`; both wrap around. -/

namespace Lottery

/-! ### Machine integers -/

/-- The bits of an `int`, read as a `uint`. -/
def toUint (x : Int) : Nat := (x % 2 ^ 32).toNat

/-- The bits of a `uint`, read as an `int`. -/
def toInt (n : Nat) : Int := (n : Int).bmod (2 ^ 32)

/-- `int` addition. -/
def addInt (x y : Int) : Int := (x + y).bmod (2 ^ 32)

/-- An integer that an `int` can hold. -/
def IsInt (x : Int) : Prop := -2 ^ 31 ≤ x ∧ x < 2 ^ 31

instance (x : Int) : Decidable (IsInt x) := by
  unfold IsInt; infer_instance

theorem bmod_of_isInt {x : Int} (h : IsInt x) : x.bmod (2 ^ 32) = x := by
  obtain ⟨hlo, hhi⟩ := h
  apply Int.bmod_eq_of_le
  · norm_num
    omega
  · norm_num
    omega

theorem isInt_bmod (x : Int) : IsInt (x.bmod (2 ^ 32)) := by
  have hlo := Int.le_bmod (x := x) (m := 2 ^ 32) (by norm_num)
  have hhi := Int.bmod_lt (x := x) (m := 2 ^ 32) (by norm_num)
  unfold IsInt
  norm_num at *
  omega

theorem addInt_eq {x y : Int} (h : IsInt (x + y)) : addInt x y = x + y := bmod_of_isInt h

theorem addInt_isInt (x y : Int) : IsInt (addInt x y) := isInt_bmod _

theorem toUint_of_nonneg {x : Int} (h : 0 ≤ x) (h' : x < 2 ^ 32) : toUint x = x.toNat := by
  rw [toUint, Int.emod_eq_of_lt h h']

theorem toUint_addInt (x y : Int) : toUint (addInt x y) = ((x + y) % 2 ^ 32).toNat := by
  rw [toUint, addInt]
  have := Int.bmod_emod (x := x + y) (m := 2 ^ 32)
  rw [show (2 : Int) ^ 32 = ((2 ^ 32 : Nat) : Int) by norm_num, this]

theorem toInt_of_lt {n : Nat} (h : n < 2 ^ 31) : toInt n = n :=
  bmod_of_isInt ⟨by omega, by omega⟩

theorem toInt_of_ge {n : Nat} (h : 2 ^ 31 ≤ n) (h' : n < 2 ^ 32) : toInt n = n - 2 ^ 32 := by
  have hmod : (n : Int) % 4294967296 = n := Int.emod_eq_of_lt (by omega) (by omega)
  have hlt : ¬ (n : Int) < 2147483648 := by omega
  unfold toInt
  simp only [Int.bmod_def]
  norm_num [hmod, hlt]

/-! ### The table -/

abbrev NPROC : Nat := 64

inductive ProcState where
  | UNUSED | EMBRYO | SLEEPING | RUNNABLE | RUNNING | ZOMBIE
  deriving DecidableEq, Repr

/-- What a process sleeps on (`chan`), as an address. -/
abbrev Chan : Type := Nat

structure Proc where
  state : ProcState
  pid : Int
  chan : Option Chan
  tickets : Int
  init_ticks : Int
  ticks : Int
  deriving DecidableEq

abbrev Slot : Type := Fin NPROC

/-- `ptable.proc` -/
abbrev Table : Type := Slot → Proc

/-- The order in which `for(p = ptable.proc; p < &ptable.proc[NPROC]; p++)`
    visits the slots. -/
abbrev slots : List Slot := List.finRange NPROC

/-- The slots whose process is `RUNNABLE`, in that order. -/
def runnable (t : Table) : List Slot := slots.filter fun p => (t p).state = .RUNNABLE

@[simp] theorem mem_runnable {t : Table} {p : Slot} : p ∈ runnable t ↔ (t p).state = .RUNNABLE := by
  simp [runnable]

theorem runnable_nodup (t : Table) : (runnable t).Nodup :=
  (List.nodup_finRange NPROC).filter _

/-- The sum of the tickets of the `RUNNABLE` processes. -/
def ticketSum (t : Table) : Int := ((runnable t).map fun p => (t p).tickets).sum

/-! ### Ticket counts -/

/-- Every slot holds a ticket count that `sys_settickets` accepts. -/
def Accepted (t : Table) : Prop := ∀ p, 0 ≤ (t p).tickets ∧ (t p).tickets < 2 ^ 31

/-- `sys_settickets` with its two arguments fetched. -/
def sys_settickets (t : Table) (pid tickets : Int) : Int × Table :=
  if pid < 0 then (-1, t)
  else if tickets < 0 then (-1, t)
  else
    match slots.find? fun p => (t p).pid = pid with
    | none => (-2, t)
    | some p => (0, Function.update t p { t p with tickets })

/-- `allocproc`: `pid` is `nextpid`, `kstack` says whether `kalloc` finds a
    page for the kernel stack.  Without one the slot is given back with the
    pid and the ticket it was given. -/
def allocproc (t : Table) (pid : Int) (kstack : Bool) : Option Slot × Table :=
  match slots.find? fun p => (t p).state = .UNUSED with
  | none => (none, t)
  | some p =>
    let x := { t p with state := .EMBRYO, pid, tickets := 1 }
    if kstack then (some p, Function.update t p x)
    else (none, Function.update t p { x with state := .UNUSED })

/-- `fork`, as far as the table goes: the child inherits the tickets;
    `copied` says whether `copyuvm` finds the memory it needs. -/
def fork (t : Table) (curproc : Slot) (pid : Int) (kstack copied : Bool) : Int × Table :=
  match allocproc t pid kstack with
  | (none, t) => (-1, t)
  | (some np, t) =>
    if copied then
      (pid, Function.update t np { t np with tickets := (t curproc).tickets, state := .RUNNABLE })
    else (-1, Function.update t np { t np with state := .UNUSED })

theorem Accepted.update {t : Table} (h : Accepted t) (p : Slot) {x : Proc} (hx : 0 ≤ x.tickets)
    (hx' : x.tickets < 2 ^ 31) : Accepted (Function.update t p x) := by
  intro q
  by_cases hq : q = p
  · subst hq
    rw [Function.update_self]
    exact ⟨hx, hx'⟩
  · simpa [hq] using h q

theorem Accepted.sys_settickets {t : Table} (h : Accepted t) (pid : Int) {tickets : Int}
    (hint : IsInt tickets) : Accepted (sys_settickets t pid tickets).2 := by
  unfold Lottery.sys_settickets
  split
  · exact h
  · split
    · exact h
    · split
      · exact h
      · exact h.update _ (by simpa using ‹¬ tickets < 0›) hint.2

theorem Accepted.allocproc {t : Table} (h : Accepted t) (pid : Int) (kstack : Bool) :
    Accepted (allocproc t pid kstack).2 := by
  unfold Lottery.allocproc
  split
  · exact h
  next p hp =>
    have hone : (1 : Int) < 2 ^ 31 := by norm_num
    simp only []
    split
    · exact h.update _ Int.one_nonneg hone
    · exact h.update _ Int.one_nonneg hone

theorem Accepted.fork {t : Table} (h : Accepted t) (curproc : Slot) (pid : Int)
    (kstack copied : Bool) : Accepted (fork t curproc pid kstack copied).2 := by
  have halloc := h.allocproc pid kstack
  unfold Lottery.fork
  split
  next t' ht' =>
    rw [ht'] at halloc
    exact halloc
  next np t' ht' =>
    rw [ht'] at halloc
    split
    · exact halloc.update np (halloc curproc).1 (halloc curproc).2
    · exact halloc.update np (halloc np).1 (halloc np).2

/-! ### Ticket sums -/

theorem ticketSum_nonneg {t : Table} (h : ∀ p, 0 ≤ (t p).tickets) : 0 ≤ ticketSum t := by
  apply List.sum_nonneg
  intro x hx
  obtain ⟨p, -, rfl⟩ := List.mem_map.mp hx
  exact h p

end Lottery
