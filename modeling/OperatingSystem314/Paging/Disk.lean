import OperatingSystem314.Lib.Effects
import OperatingSystem314.Paging.Fork

/-! # Transactions of the file system, block by block (`fs.c`, `log.c`)

    The routines under the swap file calls, with the number of every block
    that they pass to `log_write`.  `Fs` is about what files contain; here
    the blocks have numbers, the bitmap says which are in use, and an inode
    lists its blocks.

    The copy of an inode in memory and the one on disk are one: whoever
    changes an inode calls `iupdate` before it is unlocked.  What a block
    contains is kept with the inode whose block it is (`a` is the indirect
    block), so a block has no content of its own.  The sleep locks are left
    out, as in `Fs`, and so is the minor number. -/

namespace Paging

open Effects (state modify fail when)

/-! ### Layout of the disk -/

abbrev FSSIZE : Nat := 1000
abbrev MAXOPBLOCKS : Nat := 10
abbrev LOGSIZE : Nat := MAXOPBLOCKS * 3
abbrev BPB : Nat := BSIZE * 8
/-- `BSIZE / sizeof(struct dinode)` -/
abbrev IPB : Nat := 8

structure Superblock where
  size : Nat
  ninodes : Nat
  inodestart : Nat
  bmapstart : Nat

namespace Superblock

variable (sb : Superblock)

/-- Block containing inode `i`. -/
def IBLOCK (i : Nat) : Nat := i / IPB + sb.inodestart

/-- Block of free map containing the bit for block `b`. -/
def BBLOCK (b : Nat) : Nat := b / BPB + sb.bmapstart

end Superblock

structure DiskInode where
  type : InodeType
  major : Nat
  nlink : Int
  size : Nat
  addrs : Fin (NDIRECT + 1) → Nat
  /-- the words of block `addrs[NDIRECT]` -/
  a : Fin NINDIRECT → Nat
  data : Nat → UInt8

namespace DiskInode

variable (x : DiskInode)

def setAddr (n : Fin (NDIRECT + 1)) (addr : Nat) : DiskInode :=
  { x with addrs := Function.update x.addrs n addr }

def setWord (n : Fin NINDIRECT) (addr : Nat) : DiskInode := { x with a := Function.update x.a n addr }

/-- Block `bn` of the file is filled with zeros. -/
def zeroed (bn : Nat) : DiskInode := { x with data := fun j => if j / BSIZE = bn then 0 else x.data j }

/-- The `struct dirent` at an offset. -/
def dirent (off : Nat) : Dirent where
  inum := (x.data off).toNat + 256 * (x.data (off + 1)).toNat
  name := (((List.range DIRSIZ).map fun j => x.data (off + 2 + j)).takeWhile (· ≠ 0)).map
    fun b => Char.ofNat b.toNat

end DiskInode

structure Disk where
  inode : Nat → DiskInode
  iref : Nat → Nat
  ivalid : Nat → Bool
  /-- the free map: blocks in use -/
  bitmap : Nat → Bool
  ftable : Fin NFILE → File
  /-- transactions that are open -/
  outstanding : Nat
  /-- what has been passed to `log_write` since `begin_op`, the last block first -/
  txn : List Nat
  /-- the same for the transactions that have ended -/
  done : List (List Nat)

/-- A routine of the file system. -/
abbrev Op (α : Type) : Type := Effects.Prog Disk Stop α

namespace Disk

def setInode (s : Disk) (n : Nat) (x : DiskInode) : Disk := { s with inode := Function.update s.inode n x }

def modInode (s : Disk) (n : Nat) (f : DiskInode → DiskInode) : Disk := s.setInode n (f (s.inode n))

def setRef (s : Disk) (n r : Nat) : Disk := { s with iref := Function.update s.iref n r }

def setValid (s : Disk) (n : Nat) (v : Bool) : Disk := { s with ivalid := Function.update s.ivalid n v }

def setFile (s : Disk) (f : Fin NFILE) (x : File) : Disk := { s with ftable := Function.update s.ftable f x }

def setBit (s : Disk) (b : Nat) (v : Bool) : Disk := { s with bitmap := Function.update s.bitmap b v }

def logged (s : Disk) (b : Nat) : Disk := { s with txn := b :: s.txn }

/-! ### The log -/

def begin_op : Op Unit := modify fun s => { s with outstanding := s.outstanding + 1, txn := [] }

def end_op : Op Unit := modify fun s =>
  { s with outstanding := s.outstanding - 1, txn := [], done := s.txn :: s.done }

/-- The blocks of the log header after `log_write`: a block that is in the log
    is absorbed. -/
def absorb (b : Nat) (lh : List Nat) : List Nat := if b ∈ lh then lh else lh ++ [b]

/-- `log_write` of the buffer of block `b`.  Whether the log has room for it
    depends on all the transactions that are open. -/
def log_write (b : Nat) : Op Unit := do
  let s ← state
  if s.outstanding < 1 then fail (.panic "log_write outside of trans")
  else modify fun s => s.logged b

variable (sb : Superblock)

/-! ### Blocks -/

/-- The content of the block is zeroed by whoever it is for. -/
def bzero (bno : Nat) : Op Unit := log_write bno

def balloc : Op Nat := do
  let s ← state
  match (List.range sb.size).find? fun b => s.bitmap b = false with
  | some b => do
    modify fun s => s.setBit b true
    log_write (sb.BBLOCK b)
    bzero b
    return b
  | none => fail (.panic "balloc: out of blocks")

def bfree (b : Nat) : Op Unit := do
  let s ← state
  if s.bitmap b = false then fail (.panic "freeing free block")
  else do
    modify fun s => s.setBit b false
    log_write (sb.BBLOCK b)

/-! ### Inodes -/

def iupdate (ip : Nat) : Op Unit := log_write (sb.IBLOCK ip)

def iget (inum : Nat) : Op Unit := do
  let s ← state
  if 0 < s.iref inum then modify fun s => s.setRef inum (s.iref inum + 1)
  else if NINODE ≤ (List.range sb.ninodes).countP fun n => 0 < s.iref n then fail (.panic "iget: no inodes")
  else modify fun s => (s.setRef inum 1).setValid inum false

def idup (inum : Nat) : Op Unit := modify fun s => s.setRef inum (s.iref inum + 1)

def ialloc (type : InodeType) : Op Nat := do
  let s ← state
  match (List.range sb.ninodes).find? fun n => n ≠ 0 ∧ (s.inode n).type = .free with
  | some inum => do
    modify fun s => s.setInode inum
      { type, major := 0, nlink := 0, size := 0, addrs := fun _ => 0, a := fun _ => 0, data := fun _ => 0 }
    log_write (sb.IBLOCK inum)
    iget sb inum
    return inum
  | none => fail (.panic "ialloc: no inodes")

def ilock (ip : Nat) : Op Unit := do
  let s ← state
  if s.iref ip < 1 then fail (.panic "ilock")
  else if s.ivalid ip then return
  else if (s.inode ip).type = .free then fail (.panic "ilock: no type")
  else modify fun s => s.setValid ip true

/-- `iunlock`, which panics on a null pointer. -/
def iunlock (ip : Option Nat) : Op Unit := do
  let s ← state
  match ip with
  | none => fail (.panic "iunlock")
  | some ip => if s.iref ip < 1 then fail (.panic "iunlock") else return

/-- `if(addr) bfree(addr)` -/
def bfreeIf (addr : Nat) : Op Unit := when (addr ≠ 0) (bfree sb addr)

def itrunc (ip : Nat) : Op Unit := do
  (List.finRange NDIRECT).forM fun i => do
    let s ← state
    bfreeIf sb ((s.inode ip).addrs i.castSucc)
    modify fun s => s.modInode ip fun x => x.setAddr i.castSucc 0
  let s ← state
  let addr := (s.inode ip).addrs (Fin.last NDIRECT)
  when (addr ≠ 0) do
    (List.finRange NINDIRECT).forM fun j => do
      let s ← state
      bfreeIf sb ((s.inode ip).a j)
    bfree sb addr
    modify fun s => s.modInode ip fun x => x.setAddr (Fin.last NDIRECT) 0
  modify fun s => s.modInode ip fun x => { x with size := 0 }
  iupdate sb ip

def iput (ip : Nat) : Op Unit := do
  let s ← state
  when (s.ivalid ip ∧ (s.inode ip).nlink = 0 ∧ s.iref ip = 1) do
    itrunc sb ip
    modify fun s => s.modInode ip fun x => { x with type := .free }
    iupdate sb ip
    modify fun s => s.setValid ip false
  modify fun s => s.setRef ip (s.iref ip - 1)

def iunlockput (ip : Nat) : Op Unit := do
  iunlock (some ip)
  iput sb ip

/-! ### Inode content -/

/-- In `bmap`: the indirect block, allocated if necessary. -/
def indirect (ip : Nat) : Op Nat := do
  let s ← state
  if (s.inode ip).addrs (Fin.last NDIRECT) = 0 then do
    let addr ← balloc sb
    modify fun s => s.modInode ip fun x => { x.setAddr (Fin.last NDIRECT) addr with a := fun _ => 0 }
    return addr
  else return (s.inode ip).addrs (Fin.last NDIRECT)

def bmap (ip bn : Nat) : Op Nat := do
  if h : bn < NDIRECT then do
    let n : Fin (NDIRECT + 1) := ⟨bn, by omega⟩
    let s ← state
    if (s.inode ip).addrs n = 0 then do
      let addr ← balloc sb
      modify fun s => s.modInode ip fun x => (x.setAddr n addr).zeroed bn
      return addr
    else return (s.inode ip).addrs n
  else if h : bn - NDIRECT < NINDIRECT then do
    let n : Fin NINDIRECT := ⟨bn - NDIRECT, h⟩
    let bp ← indirect sb ip
    let s ← state
    if (s.inode ip).a n = 0 then do
      let addr ← balloc sb
      modify fun s => s.modInode ip fun x => (x.setWord n addr).zeroed bn
      log_write bp
      return addr
    else return (s.inode ip).a n
  else fail (.panic "bmap: out of range")

/-- The loop of `readi`, with `rest` bytes to read at `off`. -/
def readiLoop (ip off rest : Nat) : Op Unit :=
  if rest = 0 then return
  else do
    let _ ← bmap sb ip (off / BSIZE)
    let m := min rest (BSIZE - off % BSIZE)
    readiLoop ip (off + m) (rest - m)
termination_by rest
decreasing_by
  have := Nat.mod_lt off (show 0 < BSIZE by decide)
  omega

/-- `readi`: how many bytes; they are `data (off + j)`.  Only directories are
    read here, so what reads a device is left out. -/
def readi (ip off n : Nat) : Op Int := do
  let s ← state
  let x := s.inode ip
  if x.type = .T_DEV then return -1
  else if off > x.size ∨ off + n ≥ 2 ^ 32 then return -1
  else do
    let n := min n (x.size - off)
    readiLoop sb ip off n
    return n

/-- One round of the loop of `writei`: `m` bytes of one block. -/
def writeBlock (ip : Nat) (src : Nat → UInt8) (off m : Nat) : Op Unit := do
  let addr ← bmap sb ip (off / BSIZE)
  modify fun s => s.modInode ip fun x =>
    { x with data := fun j => if off ≤ j ∧ j < off + m then src (j - off) else x.data j }
  log_write addr

/-- The loop of `writei`, with `rest` bytes to write at `off`; the final `off`. -/
def writeiLoop (ip : Nat) (src : Nat → UInt8) (off rest : Nat) : Op Nat :=
  if rest = 0 then return off
  else do
    let m := min rest (BSIZE - off % BSIZE)
    writeBlock sb ip src off m
    writeiLoop ip (fun j => src (m + j)) (off + m) (rest - m)
termination_by rest
decreasing_by
  have := Nat.mod_lt off (show 0 < BSIZE by decide)
  omega

/-- The console, the one device there is, takes every byte. -/
abbrev CONSOLE : Nat := 1

def writei (ip : Nat) (src : Nat → UInt8) (off n : Nat) : Op Int := do
  let s ← state
  let x := s.inode ip
  if x.type = .T_DEV then return if x.major = CONSOLE then n else -1
  else if off > x.size ∨ off + n ≥ 2 ^ 32 then return -1
  else if off + n > MAXFILE * BSIZE then return -1
  else do
    let off ← writeiLoop sb ip src off n
    let s ← state
    when (0 < n ∧ off > (s.inode ip).size) do
      modify fun s => s.modInode ip fun x => { x with size := off }
      iupdate sb ip
    return n

/-! ### Directories -/

/-- The offsets that `for(off = 0; off < size; off += sizeof(de))` visits. -/
def offsets (size : Nat) : List Nat := (List.range ((size + 15) / 16)).map (16 * ·)

/-- The loop of `dirlookup`: the inode number and the offset of the entry. -/
def lookupLoop (dp : Nat) (name : List Char) : List Nat → Op (Option (Nat × Nat))
  | [] => return none
  | off :: rest => do
    let r ← readi sb dp off 16
    if r ≠ 16 then fail (.panic "dirlookup read")
    else do
      let s ← state
      let de := (s.inode dp).dirent off
      if de.inum ≠ 0 ∧ de.name = name then return some (de.inum, off)
      else lookupLoop dp name rest

def dirlookup (dp : Nat) (name : List Char) : Op (Option (Nat × Nat)) := do
  let s ← state
  if (s.inode dp).type ≠ .T_DIR then fail (.panic "dirlookup not DIR")
  else do
    match ← lookupLoop sb dp name (offsets (s.inode dp).size) with
    | none => return none
    | some (inum, off) => do
      iget sb inum
      return some (inum, off)

/-- The loop of `dirlink`: the first offset without an entry, `off` at the end. -/
def emptyLoop (dp off : Nat) : List Nat → Op Nat
  | [] => return off
  | off' :: rest => do
    let r ← readi sb dp off' 16
    if r ≠ 16 then fail (.panic "dirlink read")
    else do
      let s ← state
      if ((s.inode dp).dirent off').inum = 0 then return off'
      else emptyLoop dp (off' + 16) rest

def dirlink (dp : Nat) (name : List Char) (inum : Nat) : Op Int := do
  match ← dirlookup sb dp name with
  | some (ip, _) => do
    iput sb ip
    return -1
  | none => do
    let s ← state
    let off ← emptyLoop sb dp 0 (offsets (s.inode dp).size)
    let de : Dirent := { inum, name := name.take DIRSIZ }
    let r ← writei sb dp (Inode.entryByte de) off 16
    if r ≠ 16 then fail (.panic "dirlink") else return 0

/-- The loop of `isdirempty`. -/
def emptyDirLoop (dp : Nat) : List Nat → Op Bool
  | [] => return true
  | off :: rest => do
    let r ← readi sb dp off 16
    if r ≠ 16 then fail (.panic "isdirempty: readi")
    else do
      let s ← state
      if ((s.inode dp).dirent off).inum ≠ 0 then return false
      else emptyDirLoop dp rest

/-- Is the directory empty except for its first two entries? -/
def isdirempty (dp : Nat) : Op Bool := do
  let s ← state
  emptyDirLoop sb dp ((offsets (s.inode dp).size).drop 2)

/-! ### Paths -/

theorem length_of_skipelem {path name rest : List Char} (h : Fs.skipelem path = some (name, rest)) :
    rest.length < path.length := by
  unfold Fs.skipelem at h
  dsimp only at h
  split_ifs at h with hnil
  cases h
  have hdrop : (path.dropWhile (· = '/')).length ≤ path.length := (List.dropWhile_sublist _).length_le
  cases hs : path.dropWhile (· = '/') with
  | nil => exact absurd hs hnil
  | cons c s =>
    rw [hs] at hdrop
    have hc : c ≠ '/' := by
      have := List.head?_dropWhile_not (· = '/') path
      simpa [hs] using this
    -- the element has a first character
    have hrest : ((List.dropWhile (· ≠ '/') (c :: s)).dropWhile (· = '/')).length ≤ s.length := by
      rw [List.dropWhile_cons_of_pos (by simpa using hc)]
      exact ((List.dropWhile_sublist _).trans (List.dropWhile_sublist _)).length_le
    exact Nat.lt_of_le_of_lt hrest hdrop

/-- The loop of `namex` for the parent, at inode `ip` with `path` to walk. -/
def nameiparentLoop (ip : Nat) (path : List Char) : Op (Option (Nat × List Char)) :=
  match _h : Fs.skipelem path with
  | none => do
    iput sb ip
    return none
  | some (name, rest) => do
    ilock ip
    let s ← state
    if (s.inode ip).type ≠ .T_DIR then do
      iunlockput sb ip
      return none
    else if rest = [] then do
      -- Stop one level early.
      iunlock (some ip)
      return some (ip, name)
    else do
      let found ← dirlookup sb ip name
      iunlockput sb ip
      match found with
      | none => return none
      | some (next, _) => nameiparentLoop next rest
termination_by path.length
decreasing_by exact length_of_skipelem ‹_›

def nameiparent (cwd : Nat) (path : List Char) : Op (Option (Nat × List Char)) := do
  if path.head? = some '/' then do
    iget sb ROOTINO
    nameiparentLoop sb ROOTINO path
  else do
    idup cwd
    nameiparentLoop sb cwd path

/-! ### `create` -/

/-- In `create`: the entries `.` and `..` of a new directory. -/
def mkdots (dp ip : Nat) : Op Unit := do
  modify fun s => s.modInode dp fun x => { x with nlink := x.nlink + 1 }
  iupdate sb dp
  let r ← dirlink sb ip ['.'] ip
  if r < 0 then fail (.panic "create dots")
  else do
    let r ← dirlink sb ip ['.', '.'] dp
    if r < 0 then fail (.panic "create dots") else return

def create (cwd : Nat) (path : List Char) (type : InodeType) (major : Nat) : Op (Option Nat) := do
  match ← nameiparent sb cwd path with
  | none => return none
  | some (dp, name) => do
    ilock dp
    match ← dirlookup sb dp name with
    | some (ip, _) => do
      iunlockput sb dp
      ilock ip
      let s ← state
      if type = .T_FILE ∧ (s.inode ip).type = .T_FILE then return some ip
      else do
        iunlockput sb ip
        return none
    | none => do
      let ip ← ialloc sb type
      ilock ip
      modify fun s => s.modInode ip fun x => { x with major, nlink := 1 }
      iupdate sb ip
      when (type = .T_DIR) (mkdots sb dp ip)
      let r ← dirlink sb dp name ip
      if r < 0 then fail (.panic "create: dirlink")
      else do
        iunlockput sb dp
        return some ip

/-! ### Open files -/

/-- The first free entry of `ftable`, taken. -/
def filealloc : Op (Option (Fin NFILE)) := do
  let s ← state
  match (List.finRange NFILE).find? fun f => (s.ftable f).ref = 0 with
  | none => return none
  | some f => do
    modify fun s => s.setFile f { s.ftable f with ref := 1 }
    return some f

/-- `fileclose`; what becomes of a pipe is left out. -/
def fileclose (f : Fin NFILE) : Op Unit := do
  let s ← state
  let ff := s.ftable f
  if ff.ref < 1 then fail (.panic "fileclose")
  else if ff.ref - 1 > 0 then modify fun s => s.setFile f { ff with ref := ff.ref - 1 }
  else do
    modify fun s => s.setFile f { ff with ref := 0, type := .FD_NONE }
    when (ff.type = .FD_INODE) do
      begin_op
      iput sb ff.ip
      end_op

/-- One chunk of `filewrite`: a transaction. -/
def writeChunk (f : Fin NFILE) (src : Nat → UInt8) (n1 : Nat) : Op Int := do
  begin_op
  let s ← state
  let x := s.ftable f
  ilock x.ip
  let r ← writei sb x.ip src x.off n1
  when (0 < r) (modify fun s => s.setFile f { x with off := x.off + r.toNat })
  iunlock (some x.ip)
  end_op
  return r

/-- The chunk loop of `filewrite`, with `i` bytes written so far; the final `i`. -/
def filewriteLoop (f : Fin NFILE) (src : Nat → UInt8) (n : Int) (i : Nat) : Op Nat :=
  if (i : Int) < n then do
    let n1 := min (n.toNat - i) Fs.MAXWRITE
    let r ← writeChunk sb f (fun j => src (i + j)) n1
    if r < 0 then return i
    else if r ≠ n1 then fail (.panic "short filewrite")
    else filewriteLoop f src n (i + r.toNat)
  else return i
termination_by n.toNat - i
decreasing_by
  have hmax : 0 < Fs.MAXWRITE := by decide
  omega

/-- `filewrite` of an inode. -/
def filewrite (f : Fin NFILE) (src : Nat → UInt8) (n : Int) : Op Int := do
  let s ← state
  let x := s.ftable f
  if x.writable = false then return -1
  else if x.type ≠ .FD_INODE then fail (.panic "filewrite")
  else do
    let i ← filewriteLoop sb f src n 0
    return if (i : Int) = n then n else -1

/-! ### The swap file of a process -/

/-- `createSwapFile` of the process `pid`: the file that `p->swapFile` becomes. -/
def createSwapFile (cwd pid : Nat) : Op (Fin NFILE) := do
  begin_op
  let ip ← create sb cwd (swapPath pid) .T_FILE 0
  iunlock ip
  match ← filealloc with
  | none => fail (.panic "no slot for files on /store")
  | some f => do
    modify fun s => s.setFile f
      { s.ftable f with type := .FD_INODE, ip := ip.getD 0, off := 0, readable := true, writable := true }
    end_op
    return f

/-- Not `ip->type == T_DIR && !isdirempty(ip)`. -/
def removable (ip : Nat) : Op Bool := do
  let s ← state
  if (s.inode ip).type = .T_DIR then isdirempty sb ip else return true

/-- `removeSwapFile`, after `fileclose`: the directory entry goes, and the
    inode loses its last link. -/
def unlinkSwapFile (cwd pid : Nat) : Op Int := do
  begin_op
  match ← nameiparent sb cwd (swapPath pid) with
  | none => do
    end_op
    return -1
  | some (dp, name) => do
    let bad : Op Int := do
      iunlockput sb dp
      end_op
      return -1
    ilock dp
    -- Cannot unlink "." or "..".
    if name = ['.'] ∨ name = ['.', '.'] then bad
    else
      match ← dirlookup sb dp name with
      | none => bad
      | some (ip, off) => do
        ilock ip
        let s ← state
        if (s.inode ip).nlink < 1 then fail (.panic "unlink: nlink < 1")
        else do
          let empty ← removable sb ip
          if empty = false then do
            iunlockput sb ip
            bad
          else do
            let r ← writei sb dp (fun _ => 0) off 16
            if r ≠ 16 then fail (.panic "unlink: writei")
            else do
              when ((s.inode ip).type = .T_DIR) do
                modify fun s => s.modInode dp fun x => { x with nlink := x.nlink - 1 }
                iupdate sb dp
              iunlockput sb dp
              modify fun s => s.modInode ip fun x => { x with nlink := x.nlink - 1 }
              iupdate sb ip
              iunlockput sb ip
              end_op
              return 0

def removeSwapFile (cwd pid : Nat) (swapFile : Option (Fin NFILE)) : Op Int := do
  match swapFile with
  | none => return -1
  | some f => do
    fileclose sb f
    unlinkSwapFile sb cwd pid

/-- `writeToSwapFile`; a null pointer is followed. -/
def writeToSwapFile (swapFile : Option (Fin NFILE)) (buffer : Nat → UInt8) (placeOnFile : Nat) (size : Int) :
    Op Int := do
  match swapFile with
  | none => fail .nullDeref
  | some f => do
    modify fun s => s.setFile f { s.ftable f with off := placeOnFile }
    filewrite sb f buffer size

end Disk

end Paging
