import Mathlib.Logic.Relation
import OperatingSystem314.Paging.Swap

/-! # Copying from and to a user buffer (`console.c`, `pipe.c`)

    `read` and `write` reach the user's buffer in one of a few loops.  Those
    of the console and of the pipes hold a spinlock while they touch it,
    those of the block layer hold sleep locks only.

    A loop goes from one point (`Pc`) to the next; in between, other
    processes and the keyboard do what the locks let them do (`Others`).
    The counters of the two ring buffers are not cut off at 32 bits: only
    their differences and their residues are used. -/

namespace Paging

namespace Kernel

def setInput (k : Kernel) (x : Input) : Kernel := { k with input := x }

def setPipe (k : Kernel) (p : Nat) (x : Pipe) : Kernel := { k with pipe := Function.update k.pipe p x }

end Kernel

namespace UserBuffer

/-! ### Spinlocks -/

def acquire (k : Kernel) (l : Lock) : Result Kernel :=
  if l ∈ k.locks then panic "acquire" else .ok { k with locks := l :: k.locks }

def release (k : Kernel) (l : Lock) : Result Kernel :=
  if l ∈ k.locks then .ok { k with locks := k.locks.erase l } else panic "release"

/-- `sleep(chan, l)` up to the switch to another process, for which `sched`
    wants this CPU to hold `ptable.lock` only. -/
def sleep (k : Kernel) (l : Lock) : Result Kernel := do
  let k ← release k l
  if k.locks ≠ [] then panic "sched locks" else return k

/-! ### The loops -/

/-- `C('D')`, `C('H')`, `C('P')` and `C('U')` -/
abbrev CTRL_D : UInt8 := 4
abbrev CTRL_H : UInt8 := 8
abbrev CTRL_P : UInt8 := 16
abbrev CTRL_U : UInt8 := 21

/-- Where a loop is, with `i` bytes copied. -/
inductive Pc where
  /-- about to take the lock, for the first time or after a sleep -/
  | outside (i : Nat)
  /-- at the top of the loop -/
  | loop (i : Nat)
  /-- about to touch byte `i` of the buffer, to store `b` there if it is
      that kind of loop -/
  | copy (i : Nat) (b : UInt8)
  | ret (r : Int)

/-- `lim` bytes are to be copied before the loop is left. -/
structure State where
  k : Kernel
  pc : Pc
  lim : Nat

/-- The lock is given back, and the call returns `r`. -/
def leave (s : State) (l : Lock) (r : Int) : Result State := do
  let k ← release s.k l
  return { s with k, pc := .ret r }

def consoleread (addr : Nat) (s : State) : Result State :=
  match s.pc with
  | .outside i => do
    let k ← acquire s.k .cons
    return { s with k, pc := .loop i }
  | .loop i =>
    if i < s.lim then
      let x := s.k.input
      if x.r = x.w then
        if s.k.cur.killed then leave s .cons (-1)
        else do
          let k ← sleep s.k .cons
          return { s with k, pc := .outside i }
      else
        let c := x.buf (x.r % INPUT_BUF)
        let k := s.k.setInput { x with r := x.r + 1 }
        if c = CTRL_D then
          -- saved for the next call, unless this one read nothing
          leave { s with k := if 0 < i then s.k else k } .cons i
        else return { s with k, pc := .copy i c }
    else leave s .cons i
  | .copy i c => do
    let k ← kernelStore s.k (addr + i) c
    if c = 10 then leave { s with k } .cons (i + 1)
    else return { s with k, pc := .loop (i + 1) }
  | .ret _ => .ok s

/-- `consolewrite`, for one part after the other of what `filewrite` was
    called with. -/
def consolewrite (addr n : Nat) (s : State) : Result State :=
  match s.pc with
  | .outside i =>
    if i < n then do
      let k ← acquire s.k .cons
      return { k, pc := .loop i, lim := i + min (n - i) Fs.MAXWRITE }
    else return { s with pc := .ret n }
  | .loop i =>
    if i < s.lim then return { s with pc := .copy i 0 }
    else do
      let k ← release s.k .cons
      return { s with k, pc := .outside i }
  | .copy i _ => do
    -- the byte goes to the screen
    let (_, k) ← kernelLoad s.k (addr + i)
    return { s with k, pc := .loop (i + 1) }
  | .ret _ => .ok s

def pipewrite (p addr : Nat) (s : State) : Result State :=
  match s.pc with
  | .outside i => do
    let k ← acquire s.k (.pipe p)
    return { s with k, pc := .loop i }
  | .loop i =>
    if i < s.lim then
      let x := s.k.pipe p
      if x.nwrite = x.nread + PIPESIZE then
        if !x.readopen || s.k.cur.killed then leave s (.pipe p) (-1)
        else do
          let k ← sleep s.k (.pipe p)
          return { s with k, pc := .outside i }
      else return { s with pc := .copy i 0 }
    else leave s (.pipe p) i
  | .copy i _ => do
    let (b, k) ← kernelLoad s.k (addr + i)
    let x := k.pipe p
    let x := { x with data := Function.update x.data (x.nwrite % PIPESIZE) b, nwrite := x.nwrite + 1 }
    return { s with k := k.setPipe p x, pc := .loop (i + 1) }
  | .ret _ => .ok s

def piperead (p addr : Nat) (s : State) : Result State :=
  match s.pc with
  | .outside i => do
    let k ← acquire s.k (.pipe p)
    let x := k.pipe p
    if x.nread = x.nwrite ∧ x.writeopen then
      if k.cur.killed then leave { s with k } (.pipe p) (-1)
      else
        let k ← sleep k (.pipe p)
        return { s with k, pc := .outside i }
    else return { s with k, pc := .loop i }
  | .loop i =>
    let x := s.k.pipe p
    if i < s.lim then
      if x.nread = x.nwrite then leave s (.pipe p) i
      else
        let k := s.k.setPipe p { x with nread := x.nread + 1 }
        return { s with k, pc := .copy i (x.data (x.nread % PIPESIZE)) }
    else leave s (.pipe p) i
  | .copy i b => do
    let k ← kernelStore s.k (addr + i) b
    return { s with k, pc := .loop (i + 1) }
  | .ret _ => .ok s

/-- The loops of `readi` and `writei` over the blocks of a file.  What they
    copy to, or from, is the buffer of a block. -/
def blocks (store : Bool) (addr : Nat) (s : State) : Result State :=
  match s.pc with
  | .outside i => .ok { s with pc := .loop i }
  | .loop i => .ok { s with pc := .ret i }
  | .copy i b => do
    let k ← if store then kernelStore s.k (addr + i) b else Prod.snd <$> kernelLoad s.k (addr + i)
    return { s with k, pc := .loop (i + 1) }
  | .ret _ => .ok s

/-! ### The calls -/

inductive Loop where
  | consoleread
  | consolewrite
  | pipewrite (p : Nat)
  | piperead (p : Nat)
  | readi
  | writei

/-- The major number of the console. -/
abbrev CONSOLE : Nat := 1

/-- The loop that `fileread` leads to, for the open file `f`. -/
def filereadLoop (fs : Fs) (f : File) : Option Loop :=
  if f.readable = false then none
  else match f.type with
    | .FD_PIPE => some (.piperead f.pipe)
    | .FD_INODE =>
      if (fs.inode f.ip).type ≠ .T_DEV then some .readi
      else if (fs.inode f.ip).major = CONSOLE then some .consoleread else none
    | .FD_NONE => none

/-- The loop that `filewrite` leads to. -/
def filewriteLoop (fs : Fs) (f : File) : Option Loop :=
  if f.writable = false then none
  else match f.type with
    | .FD_PIPE => some (.pipewrite f.pipe)
    | .FD_INODE =>
      if (fs.inode f.ip).type ≠ .T_DEV then some .writei
      else if (fs.inode f.ip).major = CONSOLE then some .consolewrite else none
    | .FD_NONE => none

/-- A loop over the buffer of `n` bytes at `addr`. -/
structure Call where
  loop : Loop
  addr : Nat
  n : Nat

/-- `sys_read` and `sys_write`, once their arguments are fetched. -/
def sysRead (k : Kernel) (f : Fin NFILE) (addr n : Nat) : Option Call :=
  (filereadLoop k.fs (k.fs.ftable f)).map fun loop => ⟨loop, addr, n⟩

def sysWrite (k : Kernel) (f : Fin NFILE) (addr n : Nat) : Option Call :=
  (filewriteLoop k.fs (k.fs.ftable f)).map fun loop => ⟨loop, addr, n⟩

namespace Call

/-- The buffer is stored to, not read. -/
def store (c : Call) : Bool :=
  match c.loop with
  | .consoleread | .piperead _ | .readi => true
  | .consolewrite | .pipewrite _ | .writei => false

def next (c : Call) (s : State) : Result State :=
  match c.loop with
  | .consoleread => consoleread c.addr s
  | .consolewrite => consolewrite c.addr c.n s
  | .pipewrite p => pipewrite p c.addr s
  | .piperead p => piperead p c.addr s
  | .readi => blocks true c.addr s
  | .writei => blocks false c.addr s

def start (c : Call) (k : Kernel) : State := ⟨k, .outside 0, c.n⟩

end Call

/-! ### Everybody else -/

/-- The loop of `C('U')`, with `m` characters behind `w`. -/
def killLine : (m : Nat) → Input → Input
  | 0, x => x
  | m + 1, x =>
    if x.e ≠ x.w ∧ x.buf ((x.e - 1) % INPUT_BUF) ≠ 10 then killLine m { x with e := x.e - 1 } else x

/-- `consoleintr`, for one character. -/
def consoleintr (c : UInt8) (x : Input) : Input :=
  if c = CTRL_P then x
  else if c = CTRL_U then killLine (x.e - x.w) x
  else if c = CTRL_H ∨ c = 127 then
    if x.e ≠ x.w then { x with e := x.e - 1 } else x
  else if c ≠ 0 ∧ x.e - x.r < INPUT_BUF then
    let c := if c = 13 then 10 else c
    let x := { x with buf := Function.update x.buf (x.e % INPUT_BUF) c, e := x.e + 1 }
    if c = 10 ∨ c = CTRL_D ∨ x.e = x.r + INPUT_BUF then { x with w := x.e } else x
  else x

/-- What other processes and the keyboard do meanwhile. -/
inductive Others : Kernel → Kernel → Prop
  | typed (k : Kernel) (c : UInt8) : .cons ∉ k.locks → Others k (k.setInput (consoleintr c k.input))
  /-- another process reads a character -/
  | taken (k : Kernel) : .cons ∉ k.locks → k.input.r ≠ k.input.w →
      Others k (k.setInput { k.input with r := k.input.r + 1 })
  /-- another process writes a byte into a pipe -/
  | put (k : Kernel) (p : Nat) (b : UInt8) : .pipe p ∉ k.locks → (k.pipe p).writeopen →
      (k.pipe p).nwrite ≠ (k.pipe p).nread + PIPESIZE →
      Others k (k.setPipe p { k.pipe p with
        data := Function.update (k.pipe p).data ((k.pipe p).nwrite % PIPESIZE) b
        nwrite := (k.pipe p).nwrite + 1 })
  /-- another process reads a byte from a pipe -/
  | got (k : Kernel) (p : Nat) : .pipe p ∉ k.locks → (k.pipe p).readopen →
      (k.pipe p).nread ≠ (k.pipe p).nwrite →
      Others k (k.setPipe p { k.pipe p with nread := (k.pipe p).nread + 1 })
  | readclose (k : Kernel) (p : Nat) : .pipe p ∉ k.locks → Others k (k.setPipe p { k.pipe p with readopen := false })
  | writeclose (k : Kernel) (p : Nat) : .pipe p ∉ k.locks →
      Others k (k.setPipe p { k.pipe p with writeopen := false })
  | kill (k : Kernel) : Others k (k.modCur fun x => { x with killed := true })
  /-- the rest of the kernel, but for this process and its page table -/
  | elsewhere (k k' : Kernel) : k'.curproc = k.curproc → k'.cur = k.cur →
      k'.pgdir k.cur.pgdir = k.pgdir k.cur.pgdir → k'.locks = k.locks → k'.pipe = k.pipe →
      k'.input = k.input → Others k k'

inductive Step (c : Call) : State → State → Prop
  | own {s s' : State} : c.next s = .ok s' → Step c s s'
  /-- one more byte of a block -/
  | block {s : State} {i : Nat} (b : UInt8) : (c.loop = .readi ∨ c.loop = .writei) → s.pc = .loop i → i < c.n →
      Step c s { s with pc := .copy i b }
  | others {s : State} {k : Kernel} : Others s.k k → Step c s { s with k }

abbrev Run (c : Call) : State → State → Prop := Relation.ReflTransGen (Step c)

/-! ### What is asked of the calls -/

/-- Touching the address takes no page fault in kernel mode. -/
def Accessible (store : Bool) (k : Kernel) (va : Nat) : Prop :=
  ∃ x, k.walkpgdir k.cur.pgdir va = some x ∧ x.p = true ∧ (store = true → x.w = true)

/-- The next step takes a page fault on the buffer. -/
def Faults (c : Call) (s : State) : Prop := ∃ i b, s.pc = .copy i b ∧ ¬ Accessible c.store s.k (c.addr + i)

/-- The next step takes no page fault under a spinlock, and does not panic
    over one. -/
structure Safe (c : Call) (s : State) : Prop where
  fault : Faults c s → s.k.locks = []
  acquire : c.next s ≠ panic "acquire"
  sched : c.next s ≠ panic "sched locks"

/-- What holds when a call reaches its loop: `trap` lets no killed process
    call, and the counters are those of ring buffers. -/
structure AtCall (k : Kernel) : Prop where
  locks : k.locks = []
  killed : k.cur.killed = false
  pipes : ∀ p, (k.pipe p).nread ≤ (k.pipe p).nwrite ∧ (k.pipe p).nwrite ≤ (k.pipe p).nread + PIPESIZE
  input : k.input.r ≤ k.input.w ∧ k.input.w ≤ k.input.e ∧ k.input.e ≤ k.input.r + INPUT_BUF

/-- How many bytes of its buffer a call can come to touch with a spinlock
    held, in the state it starts in. -/
def Call.reach (c : Call) (k : Kernel) : Nat :=
  match c.loop with
  | .consoleread | .consolewrite => c.n
  | .pipewrite p =>
    -- nobody makes room in a pipe without readers
    let x := k.pipe p
    if x.readopen then c.n else min c.n (x.nread + PIPESIZE - x.nwrite)
  | .piperead p =>
    let x := k.pipe p
    min c.n (if x.writeopen then PIPESIZE else x.nwrite - x.nread)
  | .readi | .writei => 0

end UserBuffer

end Paging
