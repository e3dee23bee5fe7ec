import OperatingSystem314.Paging.Swap

/-! # Creating a process (`allocproc`, `fork`, `copyuvm`, `createSwapFile`)

    `fork` copies in three places: `copyuvm` copies the pages (and panics
    on one that is not present), a loop copies the paging metadata field by
    field (the list head and the links are pointers, and are copied as
    they are), and a second loop copies the swap file. -/

namespace Paging

/-! ### The swap file -/

/-- `itoa` of a number that is not negative. -/
def itoa (i : Nat) : List Char := Nat.toDigits 10 i

/-- The name of the swap file, without the slash. -/
def swapName (pid : Nat) : List Char := ['.', 's', 'w', 'a', 'p'] ++ itoa pid

def swapPath (pid : Nat) : List Char := '/' :: swapName pid

/-- `createSwapFile`.  `create` may return a null pointer, which `iunlock`
    refuses, and so may `filealloc`. -/
def createSwapFile (k : Kernel) (p : ProcId) : Result Kernel := do
  let (r, fs) ← k.fs.create k.cur.cwd (swapPath (k.proc p).pid) .T_FILE 0
  let fs ← fs.iunlock r
  let ip ← deref r
  match fs.filealloc with
  | (none, _) => panic "no slot for files on /store"
  | (some f, fs) =>
    -- O_WRONLY is 1 and O_RDWR is 2: neither flag is null
    let fs := fs.setFile f
      { fs.ftable f with type := .FD_INODE, ip, off := 0, readable := true, writable := true }
    return { k with fs }.setProc p { k.proc p with swapFile := some f }

/-! ### `allocproc` -/

/-- The metadata as `allocproc` and `exec` initialize it. -/
def Proc.resetPaging (x : Proc) : Proc :=
  { x with
    nPagesInPhyMemory := 0
    nPagesInSwapFile := 0
    head := none
    pagesInPhyMem := fun _ => ⟨0, none, false⟩
    pagesInSwapFile := fun _ => ⟨0, false⟩ }

/-- The first `UNUSED` entry of the process table. -/
def freeProc (k : Kernel) : Option ProcId :=
  (List.finRange NPROC).find? fun p => (k.proc p).state = .UNUSED

/-- The swap file and the metadata, for every process but the first two. -/
def initPaging (k : Kernel) (p : ProcId) : Result Kernel :=
  if (k.proc p).pid ≠ 1 ∧ (k.proc p).pid ≠ 2 then do
    let k ← createSwapFile k p
    cprintf k
    let k := k.setProc p (k.proc p).resetPaging
    cprintf k
    return k
  else .ok k

def allocproc (k : Kernel) : Result (Option ProcId × Kernel) :=
  match freeProc k with
  | none => .ok (none, k)
  | some p =>
    let k := { k with nextpid := k.nextpid + 1 }.setProc p
      { k.proc p with state := .EMBRYO, pid := k.nextpid }
    match kalloc k with
    | (none, k) => .ok (none, k.setProc p { k.proc p with kstack := 0, state := .UNUSED })
    | (some stack, k) => do
      let k ← initPaging (k.setProc p { k.proc p with kstack := stack }) p
      return (some p, k)

/-! ### `copyuvm` -/

/-- One round of `copyuvm`; `false` when memory runs out. -/
def copyPage (d pgdir : Nat) (k : Kernel) (i : Nat) : Result (Bool × Kernel) :=
  match k.walkpgdir pgdir i with
  | none => panic "copyuvm: pte should exist"
  | some pte =>
    if ¬ pte.p then panic "copyuvm: page not present"
    else
      match kalloc k with
      | (none, k) => .ok (false, k)
      | (some mem, k) => do
        let k := k.setFrame mem (k.frame pte.ppn)
        let (r, k) ← mappages k d i { pte with ppn := mem }
        if r < 0 then
          let k ← kfree k mem
          return (false, k)
        else return (true, k)

def copyLoop (d pgdir : Nat) : List Nat → Kernel → Result (Option Nat × Kernel)
  | [], k => .ok (some d, k)
  | i :: rest, k => do
    let (copied, k) ← copyPage d pgdir k i
    if copied then copyLoop d pgdir rest k
    else
      let k ← freevm k d
      return (none, k)

/-- The new directory, or `none` when memory runs out. -/
def copyuvm (k : Kernel) (pgdir sz : Nat) : Result (Option Nat × Kernel) := do
  let (d, k) ← setupkvm k
  match d with
  | none => return (none, k)
  | some d => copyLoop d pgdir (pageRange 0 sz) k

/-! ### `fork` -/

/-- `filedup` of each open descriptor. -/
def dupFiles (ofile : Fin NOFILE → Option (Fin NFILE)) (fs : Fs) : Result Fs :=
  (List.finRange NOFILE).foldlM (fun fs i => (ofile i).elim (.ok fs) fs.filedup) fs

/-- The child before its metadata is copied: what `fork` sets in `np`. -/
def Proc.childOf (np x : Proc) (p : ProcId) (d : Nat) : Proc :=
  { np with
    pgdir := d
    sz := x.sz
    parent := some p
    tf := { x.tf with eax := 0 }
    ofile := fun i => (x.ofile i).or (np.ofile i)
    cwd := x.cwd }

/-- The metadata loop: every field as it is, the pointers included. -/
def Proc.copyPaging (np x : Proc) : Proc :=
  { np with
    nPagesInPhyMemory := x.nPagesInPhyMemory
    nPagesInSwapFile := x.nPagesInSwapFile
    head := x.head
    pagesInPhyMem := x.pagesInPhyMem
    pagesInSwapFile := x.pagesInSwapFile }

/-- More rounds than this mean that the copy of the swap file does not end. -/
abbrev MAXROUNDS : Nat := MAXFILE * BSIZE + 2

/-- `(uint)offset` -/
def toUint (offset : Int) : Nat := (offset % 2 ^ 32).toNat

/-- The loop that copies the swap file, after a read of `bytes_read` bytes
    into `buffer`. -/
def copySwapLoop (np : ProcId) :
    (fuel : Nat) → (offset bytes_read : Int) → (buffer : Nat → UInt8) → Kernel → Result Kernel
  | 0, _, _, _, _ => .error .hang
  | fuel + 1, offset, bytes_read, buffer, k =>
    if bytes_read = 0 then .ok k
    else do
      let (_, k) ← writeToSwapFile k np buffer (toUint offset) bytes_read
      let offset := offset + bytes_read
      let (bytes_read, bytes, k) ← readFromSwapFile k k.curproc (toUint offset) 1024
      cprintf k
      copySwapLoop np fuel offset bytes_read
        (fun j => if (j : Int) < bytes_read then bytes j else buffer j) k

def copySwapFile (k : Kernel) (np : ProcId) : Result Kernel := do
  let (bytes_read, bytes, k) ← readFromSwapFile k k.curproc 0 1024
  let k ← copySwapLoop np MAXROUNDS 0 bytes_read
    (fun j => if (j : Int) < bytes_read then bytes j else 0) k
  cprintf k
  return k

/-- `np->pgdir = copyuvm(...)` succeeded with `d`: the rest of `fork`. -/
def forkChild (k : Kernel) (np : ProcId) (d : Nat) : Result (Int × Kernel) := do
  let k := k.setProc np ((k.proc np).childOf k.cur k.curproc d)
  let fs ← dupFiles k.cur.ofile k.fs
  let k := { k with fs := fs.idup k.cur.cwd }
  let pid := (k.proc np).pid
  let k ← if k.cur.pid ≠ 1 ∧ k.cur.pid ≠ 2 then
      copySwapFile (k.setProc np ((k.proc np).copyPaging k.cur)) np
    else pure k
  return (pid, k.setProc np { k.proc np with state := .RUNNABLE })

/-- The child's pid, or `-1`. -/
def fork (k : Kernel) : Result (Int × Kernel) := do
  let (np, k) ← allocproc k
  match np with
  | none => return (-1, k)
  | some np =>
    let (d, k) ← copyuvm k k.cur.pgdir k.cur.sz
    match d with
    | none =>
      let k ← kfree k (k.proc np).kstack
      return (-1, k.setProc np { k.proc np with pgdir := 0, kstack := 0, state := .UNUSED })
    | some d => forkChild k np d

end Paging
