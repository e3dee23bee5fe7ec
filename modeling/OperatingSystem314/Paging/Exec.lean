import OperatingSystem314.Paging.Fork
import OperatingSystem314.Paging.Grow

/-! # Loading a program (`exec.c`, `loaduvm`, `clearpteu` and `copyout` of `vm.c`)

    `exec` builds the new page table beside the old one and commits to it
    at the end.  The paging metadata are reset right after the new
    directory has been made, long before that.

    `path` and the elements of `argv` are user addresses: their bytes are
    read through the old page table, and reading them can fault.  `namei`
    reads the path while it walks it; here the path is read first. -/

namespace Paging

/-! ### The executable file -/

abbrev ELF_MAGIC : Nat := 0x464C457F
abbrev ELF_PROG_LOAD : Nat := 1

/-- `sizeof(struct elfhdr)` and `sizeof(struct proghdr)` -/
abbrev ELFHDR : Nat := 52
abbrev PROGHDR : Nat := 32

def ushortAt (b : Nat → UInt8) (o : Nat) : Nat := (b o).toNat + 256 * (b (o + 1)).toNat
def uintAt (b : Nat → UInt8) (o : Nat) : Nat := ushortAt b o + 65536 * ushortAt b (o + 2)

/-- The fields of the file header that `exec` uses. -/
structure Elfhdr where
  magic : Nat
  entry : Nat
  phoff : Nat
  phnum : Nat

def elfhdr (b : Nat → UInt8) : Elfhdr where
  magic := uintAt b 0
  entry := uintAt b 24
  phoff := uintAt b 28
  phnum := ushortAt b 44

/-- The fields of a program header that `exec` uses. -/
structure Proghdr where
  type : Nat
  off : Nat
  vaddr : Nat
  filesz : Nat
  memsz : Nat

def proghdr (b : Nat → UInt8) : Proghdr where
  type := uintAt b 0
  off := uintAt b 4
  vaddr := uintAt b 8
  filesz := uintAt b 16
  memsz := uintAt b 20

/-- The bytes `readi` finds from offset `off` on. -/
def Fs.bytes (fs : Fs) (ip off : Nat) : Nat → UInt8 := fun j => (fs.inode ip).byte (off + j)

/-! ### Segments -/

/-- The rounds of `loaduvm` over the pages of a segment: page `a` of the
    segment gets the bytes at `i` of its part of the file; `-1` on a short
    read. -/
def loadPages (d ip vaddr offset sz : Nat) : List Nat → Kernel → Result (Int × Kernel)
  | [], k => .ok (0, k)
  | i :: rest, k =>
    match k.walkpgdir d (vaddr + i) with
    | none => panic "loaduvm: address should exist"
    | some pte =>
      let n := min (sz - i) PGSIZE
      let off := (offset + i) % 2 ^ 32
      let r := k.fs.readi ip off n
      let bytes := k.fs.bytes ip off
      let old := k.frame pte.ppn
      let k := k.setFrame pte.ppn fun j => if (j : Int) < r then bytes j else old j
      if r ≠ n then .ok (-1, k) else loadPages d ip vaddr offset sz rest k

def loaduvm (k : Kernel) (d vaddr ip offset sz : Nat) : Result (Int × Kernel) :=
  if vaddr % PGSIZE ≠ 0 then panic "loaduvm: addr must be page aligned"
  else loadPages d ip vaddr offset sz (pageRange 0 sz) k

/-- One round of the loop over the program headers, at offset `off` of the
    file, with `sz` bytes allocated so far; `none` is `goto bad`. -/
def loadSegment (d ip off sz : Nat) (k : Kernel) : Result (Option Nat × Kernel) :=
  if k.fs.readi ip off PROGHDR ≠ PROGHDR then .ok (none, k)
  else
    let ph := proghdr (k.fs.bytes ip off)
    if ph.type ≠ ELF_PROG_LOAD then .ok (some sz, k)
    else if ph.memsz < ph.filesz then .ok (none, k)
    else if 2 ^ 32 ≤ ph.vaddr + ph.memsz then .ok (none, k)
    else do
      let (sz, k) ← allocuvm k d sz (ph.vaddr + ph.memsz)
      if sz = 0 then return (none, k)
      else if ph.vaddr % PGSIZE ≠ 0 then return (none, k)
      else
        let (r, k) ← loaduvm k d ph.vaddr ip ph.off ph.filesz
        if r < 0 then return (none, k) else return (some sz, k)

/-- The loop over `n` program headers from offset `off` on. -/
def loadSegments (d ip : Nat) : (n off sz : Nat) → Kernel → Result (Option Nat × Kernel)
  | 0, _, sz, k => .ok (some sz, k)
  | n + 1, off, sz, k => do
    let (r, k) ← loadSegment d ip off sz k
    match r with
    | none => return (none, k)
    | some sz => loadSegments d ip n ((off + PROGHDR) % 2 ^ 32) sz k

/-! ### The stack -/

def clearpteu (k : Kernel) (d va : Nat) : Result Kernel :=
  match k.walkpgdir d va with
  | none => panic "clearpteu"
  | some pte => .ok (k.setPte d va { pte with u := false })

/-- The kernel half has entries for the physical memory and for the
    devices, and none in between. -/
def kernelMapped (va : Nat) : Bool :=
  KERNBASE ≤ va && (va < KERNBASE + PHYSTOP || 0xFE000000 ≤ va)

/-- The frame behind a user address; `none` is the null pointer. -/
def uva2ka (k : Kernel) (d uva : Nat) : Result (Option Nat) :=
  -- the entries of the kernel half are present, without PTE_U
  if kernelMapped uva then .ok none
  else do
    let pte ← deref (k.walkpgdir d uva)
    if !pte.p || !pte.u then return none else return some pte.ppn

/-- `memmove` of `n` bytes into frame `f`, the next of them being byte `i`
    of the source, which is read one byte after the other. -/
def copyBytes (src : Nat → Kernel → Result (UInt8 × Kernel)) (f : Nat) :
    (n off i : Nat) → Kernel → Result Kernel
  | 0, _, _, k => .ok k
  | n + 1, off, i, k => do
    let (b, k) ← src i k
    copyBytes src f n (off + 1) (i + 1) (k.setByte f off b)

/-- The loop of `copyout` with `len` bytes left, the next of them being
    byte `i` of the source; each round copies at least one. -/
def copyoutLoop (d : Nat) (src : Nat → Kernel → Result (UInt8 × Kernel)) :
    (fuel va i len : Nat) → Kernel → Result (Int × Kernel)
  | 0, _, _, _, k => .ok (0, k)
  | fuel + 1, va, i, len, k =>
    if len = 0 then .ok (0, k)
    else do
      let va0 := PTE_ADDR va
      let f ← uva2ka k d va0
      match f with
      | none => return (-1, k)
      | some f =>
        let n := min (PGSIZE - (va - va0)) len
        let k ← copyBytes src f n (va - va0) i k
        copyoutLoop d src fuel ((va0 + PGSIZE) % 2 ^ 32) (i + n) (len - n) k

def copyout (k : Kernel) (d va : Nat) (src : Nat → Kernel → Result (UInt8 × Kernel)) (len : Nat) :
    Result (Int × Kernel) :=
  copyoutLoop d src len va 0 len k

/-- The bytes of a string in user memory, up to the null byte; `fuel`
    bounds their number. -/
def kernelString : (fuel : Nat) → Kernel → (va : Nat) → Result (List UInt8 × Kernel)
  | 0, _, _ => .error .hang
  | fuel + 1, k, va => do
    let (b, k) ← kernelLoad k va
    if b = 0 then return ([], k)
    else
      let (bs, k) ← kernelString fuel k (va + 1)
      return (b :: bs, k)

/-- No string of user memory is longer. -/
abbrev MAXSTR : Nat := KERNBASE

/-- `strlen` of a string in user memory. -/
def strlen (k : Kernel) (va : Nat) : Result (Nat × Kernel) := do
  let (bs, k) ← kernelString MAXSTR k va
  return (bs.length, k)

/-- `(sp - n) & ~3`, of `uint`s -/
def pushDown (sp n : Nat) : Nat := ((sp + 2 ^ 32 - n) % 2 ^ 32) / 4 * 4

/-- The loop that pushes the argument strings: the stack pointer, and the
    addresses pushed so far. -/
def pushArgs (d : Nat) : List Nat → (sp : Nat) → (ustack : List Nat) → Kernel →
    Result (Option (Nat × List Nat) × Kernel)
  | [], sp, ustack, k => .ok (some (sp, ustack), k)
  | arg :: rest, sp, ustack, k =>
    if MAXARG ≤ ustack.length then .ok (none, k)
    else do
      let (len, k) ← strlen k arg
      let sp := pushDown sp (len + 1)
      let (len, k) ← strlen k arg
      let (r, k) ← copyout k d sp (fun i k => kernelLoad k (arg + i)) (len + 1)
      if r < 0 then return (none, k) else pushArgs d rest sp (ustack ++ [sp]) k

/-- The words of `ustack`, given the addresses of the arguments. -/
def ustackWords (sp : Nat) (args : List Nat) : List Nat :=
  let argc := args.length
  [0xffffffff, argc, (sp + 2 ^ 32 - (argc + 1) * 4) % 2 ^ 32] ++ args ++ [0]

/-- Byte `j` of an array of words. -/
def wordByte (ws : List Nat) (j : Nat) : UInt8 :=
  UInt8.ofNat (((ws[j / 4]?).getD 0) / 256 ^ (j % 4))

/-- The two pages of the stack, with the arguments on the second one: the
    size and the stack pointer. -/
def execStack (d sz : Nat) (argv : List Nat) (k : Kernel) : Result (Option (Nat × Nat) × Kernel) := do
  let base := PGROUNDUP sz
  let (sz, k) ← allocuvm k d base (base + 2 * PGSIZE)
  if sz = 0 then return (none, k)
  else
    let k ← clearpteu k d (sz - 2 * PGSIZE)
    let (r, k) ← pushArgs d argv sz [] k
    match r with
    | none => return (none, k)
    | some (sp, args) =>
      let ws := ustackWords sp args
      let sp := (sp + 2 ^ 32 - (3 + args.length + 1) * 4) % 2 ^ 32
      let (r, k) ← copyout k d sp (fun i k => .ok (wordByte ws i, k)) ((3 + args.length + 1) * 4)
      if r < 0 then return (none, k) else return (some (sz, sp), k)

/-! ### `exec` -/

/-- What `exec` commits to. -/
structure Image where
  pgdir : Nat
  sz : Nat
  sp : Nat
  entry : Nat

/-- The label `bad`: the new directory, if there is one, is freed, and the
    inode, if it is still held, is put. -/
def execBad (k : Kernel) (d ip : Option Nat) : Result Kernel := do
  let k ← d.elim (.ok k) fun d => freevm k d
  let fs ← ip.elim (.ok k.fs) fun ip => k.fs.iunlockput ip
  return { k with fs }

/-- The header of `ip` is read, and it is that of an executable. -/
def isElf (fs : Fs) (ip : Nat) : Bool :=
  fs.readi ip 0 ELFHDR = ELFHDR && (elfhdr (fs.bytes ip 0)).magic = ELF_MAGIC

/-- The program and its stack are loaded into the new directory `d`; `none`
    after `bad`. -/
def execLoad (k : Kernel) (d ip : Nat) (argv : List Nat) : Result (Option Image × Kernel) := do
  let elf := elfhdr (k.fs.bytes ip 0)
  let k := k.modCur Proc.resetPaging
  let (r, k) ← loadSegments d ip elf.phnum elf.phoff 0 k
  match r with
  | none =>
    let k ← execBad k (some d) (some ip)
    return (none, k)
  | some sz =>
    let fs ← k.fs.iunlockput ip
    let (r, k) ← execStack d sz argv { k with fs }
    match r with
    | none =>
      let k ← execBad k (some d) none
      return (none, k)
    | some (sz, sp) => return (some ⟨d, sz, sp, elf.entry⟩, k)

/-- The inode that `path` names, locked. -/
def execInode (k : Kernel) (path : Nat) : Result (Option Nat × Kernel) := do
  let (name, k) ← kernelString MAXSTR k path
  let (r, fs) ← k.fs.namei k.cur.cwd (name.map fun b => Char.ofNat b.toNat)
  match r with
  | none => return (none, { k with fs })
  | some ip =>
    let fs ← fs.ilock ip
    return (some ip, { k with fs })

/-- `exec` up to the commit. -/
def execImage (k : Kernel) (path : Nat) (argv : List Nat) : Result (Option Image × Kernel) := do
  let (r, k) ← execInode k path
  match r with
  | none =>
    cprintf k
    return (none, k)
  | some ip =>
    if isElf k.fs ip = false then
      let k ← execBad k none (some ip)
      return (none, k)
    else
      let (d, k) ← setupkvm k
      match d with
      | none =>
        let k ← execBad k none (some ip)
        return (none, k)
      | some d => execLoad k d ip argv

/-- Commit to the user image. -/
def execCommit (k : Kernel) (img : Image) (path : Nat) : Result Kernel := do
  -- the name for debugging: `path` is read once more
  let (_, k) ← kernelString MAXSTR k path
  let oldpgdir := k.cur.pgdir
  let k := k.modCur fun x =>
    { x with pgdir := img.pgdir, sz := img.sz, tf := { x.tf with eip := img.entry, esp := img.sp } }
  freevm k oldpgdir

def exec (k : Kernel) (path : Nat) (argv : List Nat) : Result (Int × Kernel) := do
  let (img, k) ← execImage k path argv
  match img with
  | none => return (-1, k)
  | some img =>
    let k ← execCommit k img path
    return (0, k)

end Paging
