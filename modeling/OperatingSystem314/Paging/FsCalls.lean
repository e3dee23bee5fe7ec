import OperatingSystem314.Paging.UserBuffer

/-! # The system calls on files (`sysfile.c`, `fileclose`)

    The calls that work on paths and descriptors, after their arguments
    have been fetched: a path is a list of characters, and a buffer is the
    bytes in it.  Reading and writing pipes and reading the console
    (`UserBuffer`) leave the file system alone and are left out.

    `chan p` is what process `p` sleeps on. -/

namespace Paging

abbrev O_RDONLY : Nat := 0x000
abbrev O_WRONLY : Nat := 0x001
abbrev O_RDWR : Nat := 0x002
abbrev O_CREATE : Nat := 0x200

/-! ### Inodes and directories -/

namespace Fs

def modInode (fs : Fs) (n : Nat) (f : Inode → Inode) : Fs := fs.setInode n (f (fs.inode n))

/-- What `sys_unlink` does when it has found the inode `ip` at position `off`
    of the directory `dp`. -/
def unlinkEntry (fs : Fs) (dp ip off : Nat) : Result (Int × Fs) := do
  let fs ← fs.ilock ip
  let x := fs.inode ip
  if x.nlink < 1 then panic "unlink: nlink < 1"
  else if x.type = .T_DIR ∧ isdirempty x = false then
    let fs ← fs.iunlockput ip
    let fs ← fs.iunlockput dp
    return (-1, fs)
  else
    let fs ← fs.writeEntry dp off { inum := 0, name := [] }
    let fs := if x.type = .T_DIR then fs.modInode dp fun y => { y with nlink := y.nlink - 1 } else fs
    let fs ← fs.iunlockput dp
    let fs := fs.modInode ip fun y => { y with nlink := y.nlink - 1 }
    let fs ← fs.iunlockput ip
    return (0, fs)

/-- `sys_unlink`; `removeSwapFile` has the same code. -/
def unlink (fs : Fs) (cwd : Nat) (path : List Char) : Result (Int × Fs) := do
  let (r, fs) ← fs.nameiparent cwd path
  match r with
  | none => return (-1, fs)
  | some (dp, name) =>
    let fs ← fs.ilock dp
    -- Cannot unlink "." or "..".
    if name = ['.'] ∨ name = ['.', '.'] then
      let fs ← fs.iunlockput dp
      return (-1, fs)
    else
      let (found, fs) ← fs.dirlookup dp name
      match found with
      | none =>
        let fs ← fs.iunlockput dp
        return (-1, fs)
      | some (ip, off) => fs.unlinkEntry dp ip off

/-- In `sys_link`: the link count of `ip` is set back. -/
def unlinkBad (fs : Fs) (ip : Nat) : Result (Int × Fs) := do
  let fs ← fs.ilock ip
  let fs := fs.modInode ip fun x => { x with nlink := x.nlink - 1 }
  let fs ← fs.iunlockput ip
  return (-1, fs)

/-- `sys_link`.  There is one device. -/
def link (fs : Fs) (cwd : Nat) (old new : List Char) : Result (Int × Fs) := do
  let (r, fs) ← fs.namei cwd old
  match r with
  | none => return (-1, fs)
  | some ip =>
    let fs ← fs.ilock ip
    if (fs.inode ip).type = .T_DIR then
      let fs ← fs.iunlockput ip
      return (-1, fs)
    else
      let fs := fs.modInode ip fun x => { x with nlink := x.nlink + 1 }
      let fs ← fs.iunlock (some ip)
      let (r, fs) ← fs.nameiparent cwd new
      match r with
      | none => fs.unlinkBad ip
      | some (dp, name) =>
        let fs ← fs.ilock dp
        let (r, fs) ← fs.dirlink dp name ip
        let fs ← fs.iunlockput dp
        if r < 0 then fs.unlinkBad ip else return (0, fs.iput ip)

/-- In `sys_open`: the inode of the path, locked. -/
def openInode (fs : Fs) (cwd : Nat) (path : List Char) (omode : Nat) : Result (Option Nat × Fs) :=
  if omode &&& O_CREATE ≠ 0 then fs.create cwd path .T_FILE 0
  else do
    let (r, fs) ← fs.namei cwd path
    match r with
    | none => return (none, fs)
    | some ip =>
      let fs ← fs.ilock ip
      if (fs.inode ip).type = .T_DIR ∧ omode ≠ O_RDONLY then
        let fs ← fs.iunlockput ip
        return (none, fs)
      else return (some ip, fs)

/-- `sys_mkdir` and `sys_mknod`. -/
def make (fs : Fs) (cwd : Nat) (path : List Char) (type : InodeType) (major : Nat) : Result (Int × Fs) := do
  let (r, fs) ← fs.create cwd path type major
  match r with
  | none => return (-1, fs)
  | some ip =>
    let fs ← fs.iunlockput ip
    return (0, fs)

/-- `sys_chdir`: the new directory of a process that was in `cwd`. -/
def chdir (fs : Fs) (cwd : Nat) (path : List Char) : Result (Option Nat × Fs) := do
  let (r, fs) ← fs.namei cwd path
  match r with
  | none => return (none, fs)
  | some ip =>
    let fs ← fs.ilock ip
    if (fs.inode ip).type ≠ .T_DIR then
      let fs ← fs.iunlockput ip
      return (none, fs)
    else
      let fs ← fs.iunlock (some ip)
      return (some ip, fs.iput cwd)

end Fs

/-! ### Wakeups -/

/-- What these routines wake processes up from. -/
inductive Chan where
  | proc (p : ProcId)
  | nread (pipe : Nat)
  | nwrite (pipe : Nat)
  | other
  deriving DecidableEq

/-- Wake up all processes sleeping on a channel. -/
def wakeup1 (chan : ProcId → Chan) (k : Kernel) (c : Chan) : Kernel :=
  { k with proc := fun p =>
      if (k.proc p).state = .SLEEPING ∧ chan p = c then { k.proc p with state := .RUNNABLE } else k.proc p }

/-! ### Open files -/

section Descriptors

variable (chan : ProcId → Chan) (k : Kernel)

/-- A pipe with one end closed. -/
def Pipe.close (x : Pipe) (writable : Bool) : Pipe :=
  if writable then { x with writeopen := false } else { x with readopen := false }

/-- `pipeclose`; a pipe is named by the page that it lies in. -/
def pipeclose (p : Nat) (writable : Bool) : Result Kernel :=
  let x := (k.pipe p).close writable
  let k := wakeup1 chan (k.setPipe p x) (if writable then .nread p else .nwrite p)
  if x.readopen = false ∧ x.writeopen = false then kfree k p else .ok k

def fileclose (f : Fin NFILE) : Result Kernel :=
  let ff := k.fs.ftable f
  if ff.ref < 1 then panic "fileclose"
  else if 0 < ff.ref - 1 then .ok { k with fs := k.fs.setFile f { ff with ref := ff.ref - 1 } }
  else
    let k : Kernel := { k with fs := k.fs.setFile f { ff with ref := 0, type := .FD_NONE } }
    match ff.type with
    | .FD_PIPE => pipeclose chan k ff.pipe ff.writable
    | .FD_INODE => .ok { k with fs := k.fs.iput ff.ip }
    | .FD_NONE => .ok k

/-- The descriptor and the open file. -/
def argfd (fd : Int) : Option (Fin NOFILE × Fin NFILE) :=
  if h : 0 ≤ fd ∧ fd < NOFILE then
    let i : Fin NOFILE := ⟨fd.toNat, by omega⟩
    (k.cur.ofile i).map fun f => (i, f)
  else none

/-- The descriptor that `fdalloc` takes. -/
def freeFd : Option (Fin NOFILE) := (List.finRange NOFILE).find? fun fd => k.cur.ofile fd = none

def setFd (fd : Fin NOFILE) (f : Option (Fin NFILE)) : Kernel :=
  k.modCur fun x => { x with ofile := Function.update x.ofile fd f }

def sys_open (path : List Char) (omode : Nat) : Result (Int × Kernel) := do
  let (r, fs) ← k.fs.openInode k.cur.cwd path omode
  match r with
  | none => return (-1, { k with fs })
  | some ip =>
    match fs.filealloc with
    | (none, fs) =>
      let fs ← fs.iunlockput ip
      return (-1, { k with fs })
    | (some f, fs) =>
      match freeFd k with
      | none =>
        let k ← fileclose chan { k with fs } f
        let fs ← k.fs.iunlockput ip
        return (-1, { k with fs })
      | some fd =>
        let fs ← fs.iunlock (some ip)
        let readable := decide (omode &&& O_WRONLY = 0)
        let writable := decide (omode &&& O_WRONLY ≠ 0 ∨ omode &&& O_RDWR ≠ 0)
        let x : File := { fs.ftable f with type := .FD_INODE, ip, off := 0, readable, writable }
        return (fd.val, setFd { k with fs := fs.setFile f x } fd (some f))

def sys_close (fd : Int) : Result (Int × Kernel) :=
  match argfd k fd with
  | none => .ok (-1, k)
  | some (i, f) => do
    let k ← fileclose chan (setFd k i none) f
    return (0, k)

def sys_dup (fd : Int) : Result (Int × Kernel) :=
  match argfd k fd with
  | none => .ok (-1, k)
  | some (_, f) =>
    match freeFd k with
    | none => .ok (-1, k)
    | some new => do
      let fs ← k.fs.filedup f
      return (new.val, setFd { k with fs } new (some f))

/-- How many bytes; they are the bytes of the inode at the offset. -/
def sys_read (fd : Int) (n : Nat) : Result (Int × Kernel) :=
  match argfd k fd with
  | none => .ok (-1, k)
  | some (_, f) => do
    let (r, fs) ← k.fs.fileread f n
    return (r, { k with fs })

def sys_write (fd : Int) (src : Nat → UInt8) (n : Nat) : Result (Int × Kernel) :=
  match argfd k fd with
  | none => .ok (-1, k)
  | some (_, f) =>
    let x := k.fs.ftable f
    -- `consolewrite` takes every byte
    if x.writable = true ∧ x.type = .FD_INODE ∧ (k.fs.inode x.ip).type = .T_DEV ∧
      (k.fs.inode x.ip).major = UserBuffer.CONSOLE then .ok (n, k)
    else do
      let (r, fs) ← k.fs.filewrite f src n
      return (r, { k with fs })

end Descriptors

/-! ### The calls -/

inductive FsCall where
  | open (path : List Char) (omode : Nat)
  | close (fd : Int)
  | dup (fd : Int)
  | read (fd : Int) (n : Nat)
  | write (fd : Int) (src : Nat → UInt8) (n : Nat)
  | link (old new : List Char)
  | unlink (path : List Char)
  | mkdir (path : List Char)
  | mknod (path : List Char) (major : Nat)
  | chdir (path : List Char)

/-- A routine of the file system, for the current process. -/
def withFs (k : Kernel) (r : Result (Int × Fs)) : Result (Int × Kernel) :=
  r.map fun q => (q.1, { k with fs := q.2 })

/-- What the call of the current process returns, and the kernel afterwards. -/
def FsCall.run (chan : ProcId → Chan) (k : Kernel) : FsCall → Result (Int × Kernel)
  | .open path omode => sys_open chan k path omode
  | .close fd => sys_close chan k fd
  | .dup fd => sys_dup k fd
  | .read fd n => sys_read k fd n
  | .write fd src n => sys_write k fd src n
  | .link old new => withFs k (k.fs.link k.cur.cwd old new)
  | .unlink path => withFs k (k.fs.unlink k.cur.cwd path)
  | .mkdir path => withFs k (k.fs.make k.cur.cwd path .T_DIR 0)
  | .mknod path major => withFs k (k.fs.make k.cur.cwd path .T_DEV major)
  | .chdir path => do
    let (r, fs) ← k.fs.chdir k.cur.cwd path
    match r with
    | none => return (-1, { k with fs })
    | some cwd => return (0, ({ k with fs } : Kernel).modCur fun x => { x with cwd })

end Paging
