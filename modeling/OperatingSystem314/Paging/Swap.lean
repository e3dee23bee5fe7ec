import OperatingSystem314.Paging.Fifo
import OperatingSystem314.Paging.Fs
import OperatingSystem314.Paging.PageTable

/-! # Swapping (`vm.c`, `trap.c`)

    `moveToSwapFile`, `swapPageOut`, `swapPageIn`, the page fault case of
    `trap`, and the accesses to user memory that cause page faults.

    A fault evicts twice: `trap` calls `swapPageOut`, which takes the head
    of the list to a free slot of the swap file, and then `swapPageIn`,
    which takes the next one and exchanges it with the page that faulted. -/

namespace Paging

/-! ### The swap file -/

/-- `writeToSwapFile`.  The chunks are committed by `end_op`, and the disk
    write sleeps: `sched` panics when a spinlock is held. -/
def writeToSwapFile (k : Kernel) (p : ProcId) (src : Nat → UInt8) (placeOnFile : Nat) (size : Int) :
    Result (Int × Kernel) := do
  let f ← deref (k.proc p).swapFile
  let fs := k.fs.setFile f { k.fs.ftable f with off := placeOnFile }
  if 0 < size ∧ k.locks ≠ [] then panic "sched locks"
  else
    let (r, fs) ← fs.filewrite f src size
    return (r, { k with fs })

/-- `readFromSwapFile`: how many bytes, and the bytes. -/
def readFromSwapFile (k : Kernel) (p : ProcId) (placeOnFile size : Nat) :
    Result (Int × (Nat → UInt8) × Kernel) := do
  let f ← deref (k.proc p).swapFile
  let fs := k.fs.setFile f { k.fs.ftable f with off := placeOnFile }
  let (r, fs) ← fs.fileread f size
  let x := fs.inode (fs.ftable f).ip
  return (r, fun j => x.byte (placeOnFile + j), { k with fs })

/-! ### Eviction -/

/-- The first slot of `pagesInSwapFile` with `in_use == 0`. -/
def freeSlot (x : Proc) : Option (Fin MAX_PSYC_PAGES) :=
  (List.finRange MAX_PSYC_PAGES).find? fun i => (x.pagesInSwapFile i).in_use = false

/-- The first slot with the given address, whether or not it is in use. -/
def slotOf (x : Proc) (addr : Nat) : Option (Fin MAX_PSYC_PAGES) :=
  (List.finRange MAX_PSYC_PAGES).find? fun i => (x.pagesInSwapFile i).address = addr

/-- The loop of `moveToSwapFile`: without a free slot nothing is written. -/
def recordPage (k : Kernel) (addr : Nat) (pte : Pte) : Result Kernel :=
  match freeSlot k.cur with
  | none => .ok k
  | some i => do
    let k := k.modCur fun x => x.setSlot i { address := addr, in_use := true }
    let (bytes_written, k) ← writeToSwapFile k k.curproc (k.frame pte.ppn) (i * PGSIZE) PGSIZE
    if bytes_written = 0 then panic "moveToSwapFile::Swap File Writing Error\n"
    else
      cprintf k
      return k

def moveToSwapFile (k : Kernel) (addr : Nat) : Result Kernel := do
  let pte ← deref (k.walkpgdir k.cur.pgdir addr)
  if pte = .zero then panic "moveToSwapFile::Dequeued address not in page table\n"
  else
    let k ← recordPage k addr pte
    let va := PTE_ADDR addr
    let temp ← deref (k.walkpgdir k.cur.pgdir va)
    if temp = .zero then panic "moveToSwapFile::Page Table Entry Not Found\n"
    else
      let k ← if temp.p then do
          let k ← kfree k temp.ppn
          pure (k.setPte k.cur.pgdir va .swapped)
        else pure k
      return k.modCur fun x => x.count (-1) 1

def swapPageOut (k : Kernel) : Result Kernel := do
  let (addr, k) ← dequeueFIFO k
  moveToSwapFile k addr

/-- Brings the page at `fault_addr` in, in exchange for the oldest
    resident page.  Returns silently when no slot has the address. -/
def swapPageIn (k : Kernel) (fault_addr : Nat) : Result Kernel :=
  match slotOf k.cur (PTE_ADDR fault_addr) with
  | none => .ok k
  | some i => do
    let (addr_to_replace, k) ← dequeueFIFO k
    let d := k.cur.pgdir
    let pte_fault_page ← deref (k.walkpgdir d fault_addr)
    if pte_fault_page = .zero then panic "swapPageIn::Fault Page Entry not found\n"
    else
      let pte_page_to_replace ← deref (k.walkpgdir d addr_to_replace)
      if pte_page_to_replace = .zero then panic "swapPageIn::Dequeue Page Entry not found\n"
      else
        let k := k.modCur fun x =>
          x.setSlot i { x.pagesInSwapFile i with address := addr_to_replace }
        let k := k.setPte d fault_addr ⟨pte_page_to_replace.ppn, true, true, true, false⟩
        let (r, bytes, k) ← readFromSwapFile k k.curproc (i * PGSIZE) PGSIZE
        let buffer := fun j : Nat => if (j : Int) < r then bytes j else 0
        let (_, k) ← writeToSwapFile k k.curproc (k.frame pte_page_to_replace.ppn) (i * PGSIZE) PGSIZE
        -- memmove to the user address: its entry is present by now
        let k := k.setFrame pte_page_to_replace.ppn buffer
        let k := k.setPte d addr_to_replace .swapped
        let k ← enqueueFIFO k fault_addr
        cprintf k
        return k

/-! ### Page faults -/

/-- How `trap` ends for a page fault. -/
inductive FaultEnd where
  /-- back to the faulting instruction -/
  | resumed
  /-- the process was killed and exits -/
  | killed
  deriving DecidableEq, Repr

/-- `trap` for `T_PGFLT` at `va`; `user` says whether the fault was taken
    in user mode. -/
def trapPgflt (user : Bool) (k : Kernel) (va : Nat) : Result (FaultEnd × Kernel) := do
  cprintf k
  let pg := match k.walkpgdir k.cur.pgdir va with
    | some pte => pte.pg
    | none => false
  if pg then
    let k ← swapPageOut k
    let k ← swapPageIn k (PTE_ADDR va)
    return (.resumed, k)
  else if user then
    return (.killed, k.modCur fun x => { x with killed := true })
  else panic "trap"

/-- More faults than this at one address mean that the list is cyclic. -/
abbrev MAXFAULTS : Nat := NCELLS + 2

/-- An access to a user address: the frame it reaches, after as many page
    faults as it takes, or `none` if the process is killed.  User mode
    needs `PTE_U`, and `PTE_W` to store. -/
def touch (user store : Bool) : (fuel : Nat) → Kernel → (va : Nat) → Result (Option Nat × Kernel)
  | 0, _, _ => .error .hang
  | fuel + 1, k, va =>
    let ok := fun pte : Pte => pte.p && (!user || pte.u) && (!store || pte.w)
    match (k.walkpgdir k.cur.pgdir va).filter ok with
    | some pte => .ok (some pte.ppn, k)
    | none => do
      let (fin, k) ← trapPgflt user k va
      match fin with
      | .resumed => touch user store fuel k va
      | .killed => return (none, k)

/-- A load by the process itself. -/
def userLoad (k : Kernel) (va : Nat) : Result (Option UInt8 × Kernel) := do
  let (f, k) ← touch true false MAXFAULTS k va
  return (f.map fun f => k.frame f (va % PGSIZE), k)

/-- Stores one byte in a frame. -/
def Kernel.setByte (k : Kernel) (f off : Nat) (b : UInt8) : Kernel :=
  k.setFrame f (Function.update (k.frame f) off b)

/-- A store by the process itself; `false` if it was killed. -/
def userStore (k : Kernel) (va : Nat) (b : UInt8) : Result (Bool × Kernel) := do
  let (f, k) ← touch true true MAXFAULTS k va
  match f with
  | none => return (false, k)
  | some f => return (true, k.setByte f (va % PGSIZE) b)

/-- A byte of user memory read by the kernel on behalf of the process. -/
def kernelLoad (k : Kernel) (va : Nat) : Result (UInt8 × Kernel) := do
  let (f, k) ← touch false false MAXFAULTS k va
  let f ← deref f
  return (k.frame f (va % PGSIZE), k)

/-- A byte of user memory written by the kernel. -/
def kernelStore (k : Kernel) (va : Nat) (b : UInt8) : Result Kernel := do
  let (f, k) ← touch false true MAXFAULTS k va
  let f ← deref f
  return k.setByte f (va % PGSIZE) b

end Paging
