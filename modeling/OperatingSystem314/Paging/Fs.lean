import Mathlib.Algebra.Group.Nat.Defs
import Mathlib.Data.List.Basic
import OperatingSystem314.Paging.State

/-! # The inode layer (`fs.c`, and the file layer above it in `file.c`)

    Reference counts of cached inodes, directory lookup and linking, path
    walking, file contents, and the file table.

    A data block is counted but not named: an inode of `size` bytes holds
    `nblocks size` blocks (a file is never written past its end, so it has
    no holes), and `freeBlocks` is what `balloc` can still hand out.  The
    sleep locks of inodes and the log are left out here: the routines of
    this directory run one at a time. -/

namespace Paging

/-! ### Blocks -/

/-- Blocks that hold `size` bytes, with the indirect block when there is one. -/
def nblocks (size : Nat) : Nat :=
  let n := (size + BSIZE - 1) / BSIZE
  if n ≤ NDIRECT then n else n + 1

namespace Inode

/-- `ip->size`; for a directory, sixteen bytes an entry. -/
def length (x : Inode) : Nat :=
  match x.type with
  | .T_DIR => 16 * x.dents.length
  | _ => x.size

/-- The bytes of a directory entry as `struct dirent` lays them out. -/
def entryByte (de : Dirent) (j : Nat) : UInt8 :=
  match j with
  | 0 => UInt8.ofNat de.inum
  | 1 => UInt8.ofNat (de.inum / 256)
  | j + 2 => UInt8.ofNat ((de.name[j]?).elim 0 Char.toNat)

/-- The byte at an offset below `length`. -/
def byte (x : Inode) (off : Nat) : UInt8 :=
  match x.type with
  | .T_DIR => (x.dents[off / 16]?).elim 0 fun de => entryByte de (off % 16)
  | _ => x.data off

end Inode

namespace Fs

def setInode (fs : Fs) (n : Nat) (x : Inode) : Fs :=
  { fs with inode := Function.update fs.inode n x }

def setRef (fs : Fs) (n r : Nat) : Fs := { fs with iref := Function.update fs.iref n r }

def setValid (fs : Fs) (n : Nat) (v : Bool) : Fs :=
  { fs with ivalid := Function.update fs.ivalid n v }

def setFile (fs : Fs) (f : Fin NFILE) (x : File) : Fs :=
  { fs with ftable := Function.update fs.ftable f x }

/-- Entries of `icache` in use. -/
def cached (fs : Fs) : Nat := (List.range fs.ninodes).countP fun n => 0 < fs.iref n

/-- `balloc`, as often as a file growing from `old` to `new` bytes needs it. -/
def balloc (fs : Fs) (old new : Nat) : Result Fs :=
  if fs.freeBlocks < nblocks new - nblocks old then panic "balloc: out of blocks"
  else .ok { fs with freeBlocks := fs.freeBlocks - (nblocks new - nblocks old) }

/-! ### Inode references -/

def iget (fs : Fs) (inum : Nat) : Result Fs :=
  if 0 < fs.iref inum then .ok (fs.setRef inum (fs.iref inum + 1))
  else if NINODE ≤ fs.cached then panic "iget: no inodes"
  else .ok ((fs.setRef inum 1).setValid inum false)

def idup (fs : Fs) (inum : Nat) : Fs := fs.setRef inum (fs.iref inum + 1)

def ilock (fs : Fs) (inum : Nat) : Result Fs :=
  if fs.iref inum < 1 then panic "ilock"
  else if fs.ivalid inum then .ok fs
  else if (fs.inode inum).type = .free then panic "ilock: no type"
  else .ok (fs.setValid inum true)

/-- `iunlock`, which panics on a null pointer. -/
def iunlock (fs : Fs) : Option Nat → Result Fs
  | none => panic "iunlock"
  | some inum => if fs.iref inum < 1 then panic "iunlock" else .ok fs

/-- `itrunc`, and the inode marked free. -/
def ifree (fs : Fs) (inum : Nat) : Fs :=
  let x := fs.inode inum
  let fs := { fs with freeBlocks := fs.freeBlocks + nblocks x.length }
  (fs.setInode inum { x with type := .free, size := 0, dents := [] }).setValid inum false

def iput (fs : Fs) (inum : Nat) : Fs :=
  let fs := if fs.ivalid inum ∧ (fs.inode inum).nlink = 0 ∧ fs.iref inum = 1
    then fs.ifree inum else fs
  fs.setRef inum (fs.iref inum - 1)

def iunlockput (fs : Fs) (inum : Nat) : Result Fs := do
  let fs ← fs.iunlock (some inum)
  return fs.iput inum

/-- The first free inode of the disk. -/
def ialloc (fs : Fs) (type : InodeType) : Result (Nat × Fs) :=
  match (List.range fs.ninodes).find? fun n => n ≠ 0 ∧ (fs.inode n).type = .free with
  | none => panic "ialloc: no inodes"
  | some n => do
    let fs := fs.setInode n
      { type, major := 0, nlink := 0, size := 0, data := fun _ => 0, dents := [] }
    let fs ← fs.iget n
    return (n, fs)

/-! ### Inode content -/

/-- How many bytes `readi` reads; byte `j` of them is `(fs.inode inum).byte (off + j)`. -/
def readi (fs : Fs) (inum off n : Nat) : Int :=
  let x := fs.inode inum
  if x.type = .T_DEV then -1
  else if off > x.length ∨ off + n ≥ 2 ^ 32 then -1
  else if off + n > x.length then x.length - off
  else n

def writei (fs : Fs) (inum : Nat) (src : Nat → UInt8) (off n : Nat) : Result (Int × Fs) :=
  let x := fs.inode inum
  if x.type = .T_DEV then .ok (-1, fs)
  else if off > x.size ∨ off + n ≥ 2 ^ 32 then .ok (-1, fs)
  else if off + n > MAXFILE * BSIZE then .ok (-1, fs)
  else do
    let fs ← fs.balloc x.size (max x.size (off + n))
    let data := fun j => if off ≤ j ∧ j < off + n then src (j - off) else x.data j
    return (n, fs.setInode inum { x with data, size := max x.size (off + n) })

/-! ### Directories -/

/-- The entry of directory `dp` for `name`: its inode and its position. -/
def findEntry (x : Inode) (name : List Char) : Option (Nat × Nat) :=
  let isName := fun de : Dirent => de.inum ≠ 0 ∧ de.name = name
  match x.dents.findIdx? (fun de => isName de) with
  | none => none
  | some i => (x.dents[i]?).map fun de => (de.inum, i)

def dirlookup (fs : Fs) (dp : Nat) (name : List Char) : Result (Option (Nat × Nat) × Fs) :=
  if (fs.inode dp).type ≠ .T_DIR then panic "dirlookup not DIR"
  else
    match findEntry (fs.inode dp) name with
    | none => .ok (none, fs)
    | some (inum, i) => do
      let fs ← fs.iget inum
      return (some (inum, i), fs)

/-- Writes the directory entry at position `i`, which may be the end. -/
def writeEntry (fs : Fs) (dp i : Nat) (de : Dirent) : Result Fs :=
  let x := fs.inode dp
  if i < x.dents.length then .ok (fs.setInode dp { x with dents := x.dents.set i de })
  else if 16 * (x.dents.length + 1) > MAXFILE * BSIZE then panic "dirlink"
  else do
    let fs ← fs.balloc (16 * x.dents.length) (16 * (x.dents.length + 1))
    return fs.setInode dp { x with dents := x.dents ++ [de] }

def dirlink (fs : Fs) (dp : Nat) (name : List Char) (inum : Nat) : Result (Int × Fs) := do
  let (found, fs) ← fs.dirlookup dp name
  match found with
  | some (ip, _) => return (-1, fs.iput ip)
  | none =>
    let dents := (fs.inode dp).dents
    let i := (dents.findIdx? fun de => de.inum = 0).getD dents.length
    let fs ← fs.writeEntry dp i { inum, name := name.take DIRSIZ }
    return (0, fs)

/-- Is the directory empty except for its first two entries? -/
def isdirempty (x : Inode) : Bool := (x.dents.drop 2).all fun de => de.inum = 0

/-! ### Paths -/

/-- The next path element, cut to `DIRSIZ`, and what follows it. -/
def skipelem (path : List Char) : Option (List Char × List Char) :=
  let s := path.dropWhile (· = '/')
  if s = [] then none
  else
    let rest := (s.dropWhile (· ≠ '/')).dropWhile (· = '/')
    some ((s.takeWhile (· ≠ '/')).take DIRSIZ, rest)

/-- The loop of `namex`, at inode `ip` with `path` still to walk; `fuel`
    bounds the number of path elements. -/
def namexLoop (parent : Bool) :
    (fuel : Nat) → (ip : Nat) → (path name : List Char) → Fs → Result (Option (Nat × List Char) × Fs)
  | 0, _, _, _, _ => .error .hang
  | fuel + 1, ip, path, name, fs =>
    match skipelem path with
    | none => if parent then .ok (none, fs.iput ip) else .ok (some (ip, name), fs)
    | some (name, rest) => do
      let fs ← fs.ilock ip
      if (fs.inode ip).type ≠ .T_DIR then
        let fs ← fs.iunlockput ip
        return (none, fs)
      else if parent ∧ rest = [] then
        -- Stop one level early.
        let fs ← fs.iunlock (some ip)
        return (some (ip, name), fs)
      else
        let (found, fs) ← fs.dirlookup ip name
        let fs ← fs.iunlockput ip
        match found with
        | none => return (none, fs)
        | some (next, _) => namexLoop parent fuel next rest name fs

def namex (fs : Fs) (cwd : Nat) (path : List Char) (parent : Bool) :
    Result (Option (Nat × List Char) × Fs) := do
  let ip := if path.head? = some '/' then ROOTINO else cwd
  let fs ← if path.head? = some '/' then fs.iget ip else pure (fs.idup ip)
  namexLoop parent (path.length + 1) ip path [] fs

def namei (fs : Fs) (cwd : Nat) (path : List Char) : Result (Option Nat × Fs) := do
  let (r, fs) ← fs.namex cwd path false
  return (r.map Prod.fst, fs)

def nameiparent (fs : Fs) (cwd : Nat) (path : List Char) :
    Result (Option (Nat × List Char) × Fs) :=
  fs.namex cwd path true

/-- The entries `.` and `..` of a new directory. -/
def mkdots (fs : Fs) (dp ip : Nat) : Result Fs := do
  let fs := fs.setInode dp { fs.inode dp with nlink := (fs.inode dp).nlink + 1 }
  let (r, fs) ← fs.dirlink ip ['.'] ip
  if r < 0 then panic "create dots"
  else
    let (r, fs) ← fs.dirlink ip ['.', '.'] dp
    if r < 0 then panic "create dots" else return fs

/-- `create` of `sysfile.c`. -/
def create (fs : Fs) (cwd : Nat) (path : List Char) (type : InodeType) (major : Nat) :
    Result (Option Nat × Fs) := do
  let (r, fs) ← fs.nameiparent cwd path
  match r with
  | none => return (none, fs)
  | some (dp, name) =>
    let fs ← fs.ilock dp
    let (found, fs) ← fs.dirlookup dp name
    match found with
    | some (ip, _) =>
      let fs ← fs.iunlockput dp
      let fs ← fs.ilock ip
      if type = .T_FILE ∧ (fs.inode ip).type = .T_FILE then return (some ip, fs)
      else
        let fs ← fs.iunlockput ip
        return (none, fs)
    | none =>
      let (ip, fs) ← fs.ialloc type
      let fs ← fs.ilock ip
      let fs := fs.setInode ip { fs.inode ip with major, nlink := 1 }
      let fs ← if type = .T_DIR then fs.mkdots dp ip else pure fs
      let (r, fs) ← fs.dirlink dp name ip
      if r < 0 then panic "create: dirlink"
      else
        let fs ← fs.iunlockput dp
        return (some ip, fs)

/-! ### Open files -/

/-- The first free entry of `ftable`, taken. -/
def filealloc (fs : Fs) : Option (Fin NFILE) × Fs :=
  match (List.finRange NFILE).find? fun f => (fs.ftable f).ref = 0 with
  | none => (none, fs)
  | some f => (some f, fs.setFile f { fs.ftable f with ref := 1 })

def filedup (fs : Fs) (f : Fin NFILE) : Result Fs :=
  if (fs.ftable f).ref < 1 then panic "filedup"
  else .ok (fs.setFile f { fs.ftable f with ref := (fs.ftable f).ref + 1 })

/-- `fileread` of an inode into a kernel buffer: how many bytes, and the
    offset they were read at. -/
def fileread (fs : Fs) (f : Fin NFILE) (n : Nat) : Result (Int × Fs) :=
  let x := fs.ftable f
  if x.readable = false then .ok (-1, fs)
  else if x.type ≠ .FD_INODE then panic "fileread"
  else
    let r := fs.readi x.ip x.off n
    .ok (r, if 0 < r then fs.setFile f { x with off := x.off + r.toNat } else fs)

/-- `((MAXOPBLOCKS-1-1-2) / 2) * 512` -/
abbrev MAXWRITE : Nat := 1536

/-- The chunk loop of `filewrite`, with `i` bytes written so far; returns the final `i`. -/
def filewriteLoop (f : Fin NFILE) (src : Nat → UInt8) (n : Int) :
    (fuel : Nat) → (i : Nat) → Fs → Result (Nat × Fs)
  | 0, _, _ => .error .hang
  | fuel + 1, i, fs =>
    if (i : Int) < n then do
      let n1 := min (n.toNat - i) MAXWRITE
      let x := fs.ftable f
      let (r, fs) ← fs.writei x.ip (fun j => src (i + j)) x.off n1
      let fs := if 0 < r then fs.setFile f { x with off := x.off + r.toNat } else fs
      if r < 0 then return (i, fs)
      else if r ≠ n1 then panic "short filewrite"
      else filewriteLoop f src n fuel (i + r.toNat) fs
    else .ok (i, fs)

/-- `filewrite` of an inode from a kernel buffer. -/
def filewrite (fs : Fs) (f : Fin NFILE) (src : Nat → UInt8) (n : Int) : Result (Int × Fs) :=
  let x := fs.ftable f
  if x.writable = false then .ok (-1, fs)
  else if x.type ≠ .FD_INODE then panic "filewrite"
  else do
    let (i, fs) ← filewriteLoop f src n (n.toNat + 1) 0 fs
    return (if (i : Int) = n then n else -1, fs)

end Fs

end Paging
