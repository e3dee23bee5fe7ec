import Mathlib.Logic.Function.Basic
import Mathlib.Tactic.Simps.Basic
import OperatingSystem314.Lib.Sizes

/-! # Kernel state of the paging kernel (offline_4/xv6)

    The data model shared by every module of this directory: the
    parameters of `param.h`, `mmu.h`, `memlayout.h` and `fs.h`, page
    tables, `struct proc` with its paging metadata, open files, inodes and
    the physical frames.

    Pointers are modelled by what they point to: a `struct pageInPhyMem *`
    is a `Cell` (a process slot and an index of its array), a `pde_t *` is
    the physical page of the directory, a `struct file *` is an index into
    `ftable`, a `struct inode *` is the inode number.  A null pointer is
    `none`, or page `0` for a directory. -/

namespace Paging

/-! ### Parameters -/

abbrev NPROC : Nat := 64
abbrev NOFILE : Nat := 16
abbrev NFILE : Nat := 100
abbrev NINODE : Nat := 50
abbrev MAXARG : Nat := 32
abbrev MAX_PSYC_PAGES : Nat := 15
abbrev MAX_TOTAL_PAGES : Nat := 30

abbrev PGSIZE : Nat := 4096
abbrev KERNBASE : Nat := 0x80000000
abbrev PHYSTOP : Nat := 0xE000000

abbrev ROOTINO : Nat := 1
abbrev BSIZE : Nat := 512
abbrev NDIRECT : Nat := 12
abbrev NINDIRECT : Nat := 128
abbrev MAXFILE : Nat := NDIRECT + NINDIRECT
abbrev DIRSIZ : Nat := 14
abbrev PIPESIZE : Nat := 512
abbrev INPUT_BUF : Nat := 128

/-- Page tables that map the kernel half in every directory: 56 for
    `KERNBASE .. KERNBASE + PHYSTOP`, 8 for the devices. -/
abbrev NKERNTABLES : Nat := 64

def PTE_ADDR (va : Nat) : Nat := va / PGSIZE * PGSIZE
def PGROUNDUP (sz : Nat) : Nat := (sz + PGSIZE - 1) / PGSIZE * PGSIZE

/-- Addresses are 32 bits, so the mask of the macro keeps every bit. -/
def PDX (va : Nat) : Nat := va / PGSIZE / 1024
def PTX (va : Nat) : Nat := va / PGSIZE % 1024

/-! ### How a kernel routine can fail to return -/

inductive Stop where
  /-- `panic(msg)` -/
  | panic (msg : String)
  /-- a null pointer is followed -/
  | nullDeref
  /-- a loop of the kernel never ends -/
  | hang
  deriving DecidableEq, Repr

abbrev Result (α : Type) := Except Stop α

def panic {α : Type} (msg : String) : Result α := .error (.panic msg)

/-- Following a pointer that may be null. -/
def deref {α : Type} : Option α → Result α
  | some x => .ok x
  | none => .error .nullDeref

section Result

variable {α β : Type} {x : Result α} {f : α → Result β} {a : α} {b : β} {e : Stop} {msg : String}

@[simp] theorem pure_eq_ok : (pure a : Result α) = .ok a := rfl
@[simp] theorem ok_bind : ((.ok a : Result α) >>= f) = f a := rfl
@[simp] theorem error_bind : ((.error e : Result α) >>= f) = .error e := rfl
@[simp] theorem panic_bind : ((panic msg : Result α) >>= f) = panic msg := rfl
@[simp] theorem panic_ne_ok : (panic msg : Result α) ≠ .ok a := nofun
@[simp] theorem deref_some : deref (some a) = .ok a := rfl
@[simp] theorem deref_none : deref (none : Option α) = .error .nullDeref := rfl

/-- A sequence returns when each of its parts does. -/
theorem bind_eq_ok : (x >>= f) = .ok b ↔ ∃ a, x = .ok a ∧ f a = .ok b := by
  cases x with
  | ok a => simp
  | error e => simp

theorem deref_eq_ok {o : Option α} : deref o = .ok a ↔ o = some a := by
  cases o <;> simp

end Result

/-! ### Page tables -/

/-- A page table entry: the physical page number and the flag bits the
    kernel reads. -/
structure Pte where
  ppn : Nat
  p : Bool
  w : Bool
  u : Bool
  pg : Bool
  deriving DecidableEq, Repr

/-- The entry `0`. -/
def Pte.zero : Pte := ⟨0, false, false, false, false⟩

/-- `PTE_W | PTE_U | PTE_PG`: what an evicted page is left with. -/
def Pte.swapped : Pte := ⟨0, false, true, true, true⟩

/-- A page table page: the physical page it lies in and its entries. -/
structure PageTable where
  ppn : Nat
  pte : Nat → Pte

/-- A page directory: the physical pages that hold the tables of the
    kernel half, and the tables of the user half. -/
structure Pgdir where
  kern : List Nat
  pde : Nat → Option PageTable

/-- `walkpgdir(pgdir, va, 0)`, read. -/
def Pgdir.walk (pd : Pgdir) (va : Nat) : Option Pte :=
  (pd.pde (PDX va)).map fun t => t.pte (PTX va)

/-- `*walkpgdir(pgdir, va, 0) = x`. -/
def Pgdir.setPte (pd : Pgdir) (va : Nat) (x : Pte) : Pgdir :=
  match pd.pde (PDX va) with
  | none => pd
  | some t =>
    let t' : PageTable := { t with pte := Function.update t.pte (PTX va) x }
    { pd with pde := Function.update pd.pde (PDX va) (some t') }

/-! ### Processes -/

abbrev ProcId : Type := Fin NPROC

/-- Address of an element of some process's `pagesInPhyMem`. -/
structure Cell where
  owner : ProcId
  slot : Fin MAX_PSYC_PAGES
  deriving DecidableEq

structure PageInPhyMem where
  address : Nat
  next : Option Cell
  in_use : Bool
  deriving DecidableEq

structure PageInSwapFile where
  address : Nat
  in_use : Bool
  deriving DecidableEq

inductive ProcState where
  | UNUSED | EMBRYO | SLEEPING | RUNNABLE | RUNNING | ZOMBIE
  deriving DecidableEq, Repr

/-- The registers of the trap frame that `exec` and `fork` set. -/
structure Trapframe where
  eip : Nat
  esp : Nat
  eax : Nat
  deriving DecidableEq

structure Proc where
  sz : Nat
  pgdir : Nat
  kstack : Nat
  state : ProcState
  pid : Nat
  parent : Option ProcId
  tf : Trapframe
  killed : Bool
  ofile : Fin NOFILE → Option (Fin NFILE)
  cwd : Nat
  swapFile : Option (Fin NFILE)
  nPagesInPhyMemory : Int
  nPagesInSwapFile : Int
  pagesInPhyMem : Fin MAX_PSYC_PAGES → PageInPhyMem
  pagesInSwapFile : Fin MAX_PSYC_PAGES → PageInSwapFile
  head : Option Cell

namespace Proc

@[simps] def setHead (x : Proc) (h : Option Cell) : Proc := { x with head := h }

@[simps] def setCell (x : Proc) (i : Fin MAX_PSYC_PAGES) (c : PageInPhyMem) : Proc :=
  { x with pagesInPhyMem := Function.update x.pagesInPhyMem i c }

@[simps] def setSlot (x : Proc) (i : Fin MAX_PSYC_PAGES) (s : PageInSwapFile) : Proc :=
  { x with pagesInSwapFile := Function.update x.pagesInSwapFile i s }

/-- Adds to the two counters. -/
@[simps] def count (x : Proc) (phy swap : Int) : Proc :=
  { x with
    nPagesInPhyMemory := x.nPagesInPhyMemory + phy
    nPagesInSwapFile := x.nPagesInSwapFile + swap }

variable (x : Proc)

@[simp] theorem setHead_cells (h : Option Cell) : (x.setHead h).pagesInPhyMem = x.pagesInPhyMem := rfl
@[simp] theorem setHead_slots (h : Option Cell) : (x.setHead h).pagesInSwapFile = x.pagesInSwapFile := rfl
@[simp] theorem setCell_slots (i : Fin MAX_PSYC_PAGES) (c : PageInPhyMem) :
    (x.setCell i c).pagesInSwapFile = x.pagesInSwapFile := rfl
@[simp] theorem setSlot_cells (i : Fin MAX_PSYC_PAGES) (s : PageInSwapFile) :
    (x.setSlot i s).pagesInPhyMem = x.pagesInPhyMem := rfl
@[simp] theorem count_cells (phy swap : Int) : (x.count phy swap).pagesInPhyMem = x.pagesInPhyMem := rfl
@[simp] theorem count_slots (phy swap : Int) :
    (x.count phy swap).pagesInSwapFile = x.pagesInSwapFile := rfl

end Proc

/-! ### Files and inodes -/

inductive FdType where
  | FD_NONE | FD_PIPE | FD_INODE
  deriving DecidableEq, Repr

structure File where
  type : FdType
  ref : Nat
  readable : Bool
  writable : Bool
  pipe : Nat
  ip : Nat
  off : Nat
  deriving DecidableEq

/-- `type` of an inode; `0` marks a free one. -/
inductive InodeType where
  | free | T_DIR | T_FILE | T_DEV
  deriving DecidableEq, Repr

structure Dirent where
  inum : Nat
  name : List Char
  deriving DecidableEq

/-- An inode with its content: the bytes of a file, or the entries of a
    directory. -/
structure Inode where
  type : InodeType
  major : Nat
  nlink : Int
  size : Nat
  data : Nat → UInt8
  dents : List Dirent

/-- The file system: inodes, the references and valid bits of the inode
    cache, the file table, and how many data blocks are free. -/
structure Fs where
  ninodes : Nat
  inode : Nat → Inode
  iref : Nat → Nat
  ivalid : Nat → Bool
  ftable : Fin NFILE → File
  freeBlocks : Nat

/-! ### Pipes and the console -/

structure Pipe where
  data : Nat → UInt8
  nread : Nat
  nwrite : Nat
  readopen : Bool
  writeopen : Bool

/-- `input` of `console.c`. -/
structure Input where
  buf : Nat → UInt8
  r : Nat
  w : Nat
  e : Nat

/-- The spinlocks that some kernel code holds while it touches user memory. -/
inductive Lock where
  | cons
  | pipe (id : Nat)
  deriving DecidableEq

/-! ### The machine -/

structure Kernel where
  proc : ProcId → Proc
  curproc : ProcId
  initproc : ProcId
  nextpid : Nat
  /-- first physical page after the kernel image (`end`) -/
  kend : Nat
  /-- `kmem.freelist`, as physical page numbers -/
  freelist : List Nat
  /-- contents of the physical pages -/
  frame : Nat → Nat → UInt8
  /-- page directories, by the physical page they lie in -/
  pgdir : Nat → Pgdir
  fs : Fs
  pipe : Nat → Pipe
  input : Input
  /-- spinlocks this CPU holds -/
  locks : List Lock

namespace Kernel

/-- `*myproc()` -/
def cur (k : Kernel) : Proc := k.proc k.curproc

def setProc (k : Kernel) (p : ProcId) (x : Proc) : Kernel :=
  { k with proc := Function.update k.proc p x }

def setCur (k : Kernel) (x : Proc) : Kernel := k.setProc k.curproc x

/-- Updates `*myproc()`. -/
def modCur (k : Kernel) (f : Proc → Proc) : Kernel := k.setCur (f k.cur)

def cell (k : Kernel) (c : Cell) : PageInPhyMem := (k.proc c.owner).pagesInPhyMem c.slot

def setCell (k : Kernel) (c : Cell) (x : PageInPhyMem) : Kernel :=
  k.setProc c.owner ((k.proc c.owner).setCell c.slot x)

/-- `walkpgdir(pgdir, va, 0)` for the directory in physical page `d`. -/
def walkpgdir (k : Kernel) (d va : Nat) : Option Pte := (k.pgdir d).walk va

def setPte (k : Kernel) (d va : Nat) (x : Pte) : Kernel :=
  { k with pgdir := Function.update k.pgdir d ((k.pgdir d).setPte va x) }

/-- Overwrites a whole physical page. -/
def setFrame (k : Kernel) (f : Nat) (bytes : Nat → UInt8) : Kernel :=
  { k with frame := Function.update k.frame f bytes }

/-- The byte a user address of directory `d` names, if its page is present. -/
def userByte (k : Kernel) (d va : Nat) : Option UInt8 :=
  match k.walkpgdir d va with
  | some pte => if pte.p then some (k.frame pte.ppn (va % PGSIZE)) else none
  | none => none

end Kernel

end Paging
