import OperatingSystem314.Paging.OpenRuns
import OperatingSystem314.Paging.SwapNames

/-! # When a process can exit (`exit`, `removeSwapFile`)

    `exit` closes the files of the process, removes its swap file and gives
    up when that fails.  Whether it fails depends on how the process was
    created and on what any process did to the root directory.

    * `Closing`: what closing the files leaves alone.
    * `unlink_swapPath_iff`: when the name of the swap file can be removed.
    * `exit_clean_iff`: when `exit` gets to the end, after any calls. -/

namespace Paging

open Threads (count_update)

/-! ### The code -/

section exit

variable (chan : ProcId → Chan)

def removeSwapFile (k : Kernel) (p : ProcId) : Result (Int × Kernel) :=
  let path := swapPath (k.proc p).pid
  match (k.proc p).swapFile with
  | none => .ok (-1, k)
  | some f => do
    let k ← fileclose chan k f
    let (r, fs) ← k.fs.unlink k.cur.cwd path
    return (r, { k with fs })

/-- Close all open files. -/
def closeFiles : List (Fin NOFILE) → Kernel → Result Kernel
  | [], k => .ok k
  | fd :: rest, k =>
    match k.cur.ofile fd with
    | none => closeFiles rest k
    | some f => do
      let k ← fileclose chan k f
      closeFiles rest (setFd k fd none)

/-- Pass abandoned children to init. -/
def passChildren : List ProcId → Kernel → Kernel
  | [], k => k
  | p :: rest, k =>
    let x := k.proc p
    if x.parent = some k.curproc then
      let k := k.setProc p { x with parent := some k.initproc }
      passChildren rest (if x.state = .ZOMBIE then wakeup1 chan k (.proc k.initproc) else k)
    else passChildren rest k

/-- `exit`, up to the call of `sched`. -/
def exit (k : Kernel) : Result Kernel :=
  if k.curproc = k.initproc then panic "init exiting"
  else do
    let k ← closeFiles chan (List.finRange NOFILE) k
    let (r, k) ← removeSwapFile chan k k.curproc
    if r ≠ 0 then panic "Swap File Remove Failed\n"
    else
      cprintf k
      let k : Kernel := { k with fs := k.fs.iput k.cur.cwd }
      let k := k.modCur fun x => { x with cwd := 0 }
      -- Parent might be sleeping in wait().
      let k := k.cur.parent.elim k fun q => wakeup1 chan k (.proc q)
      let k := passChildren chan (List.finRange NPROC) k
      return k.modCur fun x => { x with state := .ZOMBIE }

/-- `exit` reaches the state `ZOMBIE`, and the swap file of the process, if
    it has one, has no entry in the root directory any more. -/
def ExitsClean (k : Kernel) : Prop :=
  ∃ k', exit chan k = .ok k' ∧ k'.cur.state = .ZOMBIE ∧
    (k.cur.swapFile ≠ none → Fs.findEntry (k'.fs.inode ROOTINO) (swapEntry k.cur.pid) = none)

end exit

/-! ### The references that are left -/

namespace Fs

variable (h : Fin NFILE → Nat) (fs : Fs)

/-- Files open on inode `n` whose references are all among `h`. -/
def lastOf (n : Nat) : Nat :=
  Threads.count (fun q : Nat × File => decide (0 < q.1 ∧ q.1 = q.2.ref ∧ q.2.type = .FD_INODE ∧ q.2.ip = n))
    fun f => (h f, fs.ftable f)

/-- The references to inode `n` when the references `h` have been closed. -/
def irefLeft (n : Nat) : Nat := fs.iref n - fs.lastOf h n

/-- The entries of `icache` that are then in use. -/
def cachedLeft : Nat := (List.range fs.ninodes).countP fun n => 0 < fs.irefLeft h n

end Fs

/-- The process has a swap file, and the root directory has an entry with
    its name, for an inode that can be cached once the files of the process
    are closed, that has a link, and that is not a directory in use. -/
def SwapFileRemovable (k : Kernel) : Prop :=
  k.cur.swapFile ≠ none ∧ ∃ n i, Fs.findEntry (k.fs.inode ROOTINO) (swapEntry k.cur.pid) = some (n, i) ∧
    (0 < k.fs.irefLeft k.cur.holds n ∨ k.fs.cachedLeft k.cur.holds < NINODE) ∧
    (k.fs.inode n).type ≠ .free ∧ 1 ≤ (k.fs.inode n).nlink ∧
    ((k.fs.inode n).type = .T_DIR → Fs.isdirempty (k.fs.inode n) = true)

namespace Fs

variable {h h' : Fin NFILE → Nat} {fs : Fs} {f : Fin NFILE}

theorem iput_iref (fs : Fs) (m n : Nat) : (fs.iput m).iref n = fs.iref n - if m = n then 1 else 0 := by
  have href : ∀ fs1 : Fs, fs1.iref = fs.iref →
      (fs1.setRef m (fs1.iref m - 1)).iref n = fs.iref n - if m = n then 1 else 0 := by
    intro fs1 hsame
    unfold setRef
    by_cases hn : m = n
    · subst hn
      simp [hsame]
    · simp [hsame, hn, Ne.symm hn]
  unfold iput
  simp only []
  split
  · exact href _ rfl
  · exact href _ rfl

/-- What `iput` frees had no links left. -/
theorem iput_inode (fs : Fs) (m n : Nat) : (fs.iput m).inode n = fs.inode n ∨
    ((fs.inode n).nlink = 0 ∧ ((fs.iput m).inode n).type = .free) := by
  unfold iput
  simp only []
  split
  next hlast =>
    by_cases hn : n = m
    · subst hn
      refine .inr ⟨hlast.2.1, ?_⟩
      simp [ifree, setInode, setValid, setRef]
    · left
      simp [ifree, setInode, setValid, setRef, hn]
  · exact .inl rfl

theorem iput_ninodes (fs : Fs) (m : Nat) : (fs.iput m).ninodes = fs.ninodes := by
  unfold iput
  simp only []
  split
  · rfl
  · rfl

theorem closeFile_inode (fs : Fs) (f : Fin NFILE) (n : Nat) : (fs.closeFile f).inode n = fs.inode n ∨
    ((fs.inode n).nlink = 0 ∧ ((fs.closeFile f).inode n).type = .free) := by
  unfold closeFile
  simp only []
  split
  · exact .inl rfl
  · split
    · exact iput_inode _ _ n
    · exact .inl rfl

theorem closeFile_ninodes (fs : Fs) (f : Fin NFILE) : (fs.closeFile f).ninodes = fs.ninodes := by
  unfold closeFile
  simp only []
  split
  · rfl
  · split
    · exact iput_ninodes _ _
    · rfl

/-- Closing one of the references leaves the same references in the end. -/
theorem closeFile_left (hf : 0 < h f) (href : h f ≤ (fs.ftable f).ref) (hone : h' f + 1 = h f)
    (hothers : ∀ g, g ≠ f → h' g = h g) (n : Nat) : (fs.closeFile f).irefLeft h' n = fs.irefLeft h n := by
  have hlast : ∀ x : File, (fs.setFile f x).lastOf h' n +
      (decide (0 < h f ∧ h f = (fs.ftable f).ref ∧ (fs.ftable f).type = .FD_INODE ∧ (fs.ftable f).ip = n)).toNat =
      fs.lastOf h n + (decide (0 < h' f ∧ h' f = x.ref ∧ x.type = .FD_INODE ∧ x.ip = n)).toNat := by
    intro x
    have hpair : (fun g => (h' g, (fs.setFile f x).ftable g)) =
        Function.update (fun g => (h g, fs.ftable g)) f (h' f, x) := by
      funext g
      by_cases hg : g = f
      · subst hg
        simp [setFile]
      · simp [setFile, hg, hothers g hg]
    unfold lastOf
    rw [hpair]
    exact count_update
      (fun q : Nat × File => decide (0 < q.1 ∧ q.1 = q.2.ref ∧ q.2.type = .FD_INODE ∧ q.2.ip = n)) _ f (h' f, x)
  unfold irefLeft closeFile
  simp only []
  split
  next hmore =>
    have heq := hlast { fs.ftable f with ref := (fs.ftable f).ref - 1 }
    have hsame : (0 < h' f ∧ h' f = (fs.ftable f).ref - 1) ↔ (0 < h f ∧ h f = (fs.ftable f).ref) := by omega
    simp only [← and_assoc, hsame] at heq
    have hcount := Nat.add_right_cancel heq
    show fs.iref n - _ = _
    rw [hcount]
  next hno =>
    have hzero : h' f = 0 := by omega
    have hrefone : h f = (fs.ftable f).ref := by omega
    have heq := hlast { fs.ftable f with ref := 0, type := .FD_NONE }
    simp only [hzero, Nat.lt_irrefl, false_and, decide_false, Bool.toNat_false, Nat.add_zero] at heq
    split
    next htype =>
      have hlastOf : ∀ fs1 : Fs, (fs1.iput (fs.ftable f).ip).lastOf h' n = fs1.lastOf h' n := by
        intro fs1
        have hftable : (fs1.iput (fs.ftable f).ip).ftable = fs1.ftable := by
          unfold iput
          simp only []
          split
          · rfl
          · rfl
        unfold lastOf
        rw [hftable]
      rw [hlastOf, iput_iref]
      show fs.iref n - _ - _ = _
      simp only [hrefone, htype, true_and, Bool.toNat, Bool.cond_decide] at heq
      rw [← hrefone] at heq
      simp only [hf, true_and] at heq
      omega
    next htype =>
      simp only [htype, false_and, and_false, decide_false, Bool.toNat_false, Nat.add_zero] at heq
      show fs.iref n - _ = _
      rw [heq]

end Fs

/-! ### Closing the files -/

/-- From `k` to `k'` the process has closed files. -/
structure Closing (k k' : Kernel) : Prop where
  ok : FilesOk k'
  curproc : k'.curproc = k.curproc
  initproc : k'.initproc = k.initproc
  locks : k'.locks = k.locks
  pid : k'.cur.pid = k.cur.pid
  swapFile : k'.cur.swapFile = k.cur.swapFile
  ninodes : k'.fs.ninodes = k.fs.ninodes
  left : ∀ n, k'.fs.irefLeft k'.cur.holds n = k.fs.irefLeft k.cur.holds n
  inode : ∀ n, k'.fs.inode n = k.fs.inode n ∨
    ((k.fs.inode n).nlink = 0 ∧ (k'.fs.inode n).type = .free)

namespace Closing

variable {k k' k'' : Kernel}

theorem refl (h : FilesOk k) : Closing k k :=
  ⟨h, rfl, rfl, rfl, rfl, rfl, rfl, fun _ => rfl, fun _ => .inl rfl⟩

/-- Links of an inode that has not been freed are as they were. -/
theorem trans_inode {x y z : Inode} (h : y = x ∨ (x.nlink = 0 ∧ y.type = .free))
    (h' : z = y ∨ (y.nlink = 0 ∧ z.type = .free)) : z = x ∨ (x.nlink = 0 ∧ z.type = .free) := by
  rcases h with rfl | ⟨hlink, hfree⟩
  · exact h'
  · rcases h' with rfl | ⟨-, hfree'⟩
    · exact .inr ⟨hlink, hfree⟩
    · exact .inr ⟨hlink, hfree'⟩

theorem trans (h : Closing k k') (h' : Closing k' k'') : Closing k k'' :=
  ⟨h'.ok, h'.curproc.trans h.curproc, h'.initproc.trans h.initproc, h'.locks.trans h.locks, h'.pid.trans h.pid,
    h'.swapFile.trans h.swapFile, h'.ninodes.trans h.ninodes, fun n => (h'.left n).trans (h.left n),
    fun n => trans_inode (h.inode n) (h'.inode n)⟩

theorem setFd_cur (k : Kernel) (fd : Fin NOFILE) (o : Option (Fin NFILE)) :
    (setFd k fd o).cur = { k.cur with ofile := Function.update k.cur.ofile fd o } := Kernel.modCur_cur k _

/-- What a process itself holds of a file is part of what all hold. -/
theorem holds_le (k : Kernel) (f : Fin NFILE) : k.cur.holds f ≤ k.holders f :=
  Finset.single_le_sum (f := fun q => (k.proc q).holds f) (fun _ _ => Nat.zero_le _) (Finset.mem_univ k.curproc)

theorem setFd_holds (x : Proc) (fd : Fin NOFILE) (f : Fin NFILE) :
    Proc.holds { x with ofile := Function.update x.ofile fd none } f + (if x.ofile fd = some f then 1 else 0) =
      x.holds f := by
  have hcount := count_update (fun o : Option (Fin NFILE) => decide (o = some f)) x.ofile fd none
  simp only [Bool.toNat, Bool.cond_decide, reduceCtorEq, if_false, Nat.add_zero] at hcount
  unfold Proc.holds
  simp only []
  omega

theorem holds_congr {x y : Proc} (hofile : y.ofile = x.ofile) (hswap : y.swapFile = x.swapFile) : y.holds = x.holds := by
  funext f
  unfold Proc.holds
  rw [hofile, hswap]

/-- One file is closed. -/
theorem close (chan : ProcId → Chan) (h : FilesOk k) {fd : Fin NOFILE} {f : Fin NFILE} (hfd : k.cur.ofile fd = some f) :
    ∃ k1, fileclose chan k f = .ok k1 ∧ Closing k (setFd k1 fd none) ∧
      ∀ i, (setFd k1 fd none).cur.ofile i = if i = fd then none else k.cur.ofile i := by
  have hpos : 0 < k.cur.holds f := by
    have := setFd_holds k.cur fd f
    rw [if_pos hfd] at this
    omega
  have hle := holds_le k f
  have href := h.counts.refs f
  obtain ⟨k1, hclose⟩ := fileclose_returns chan (k := k) (f := f) (by omega) (h.pipes f (by omega))
  obtain ⟨-, hfs, honly⟩ := fileclose_ok hclose
  have hcur : k1.cur = { k.cur with state := k1.cur.state } := by
    have := honly.procs k.curproc
    unfold Kernel.cur
    rw [honly.curproc]
    exact this
  have hofile : k1.cur.ofile = k.cur.ofile := by rw [hcur]
  have hswap : k1.cur.swapFile = k.cur.swapFile := by rw [hcur]
  have hheld : ∀ g, (setFd k1 fd none).cur.holds g + (if k.cur.ofile fd = some g then 1 else 0) = k.cur.holds g := by
    intro g
    have hcount := setFd_holds k1.cur fd g
    rw [holds_congr hofile hswap, hofile] at hcount
    rw [setFd_cur, hofile]
    exact hcount
  have hone := hheld f
  rw [if_pos hfd] at hone
  have hothers : ∀ g, g ≠ f → (setFd k1 fd none).cur.holds g = k.cur.holds g := by
    intro g hg
    have hsame := hheld g
    rwa [hfd, if_neg fun heq => hg (Option.some.inj heq).symm, Nat.add_zero] at hsame
  refine ⟨k1, hclose, ?_, ?_⟩
  · refine ⟨?_, honly.curproc, honly.initproc, honly.locks, ?_, ?_, ?_, fun n => ?_, fun n => ?_⟩
    · have hmore : ∀ g, (setFd k1 fd none).holders g + (if k.cur.ofile fd = some g then 1 else 0) = k.holders g := by
        intro g
        have hcount := setFd_holders k1 fd none g
        simp only [reduceCtorEq, if_false, Nat.add_zero] at hcount
        rwa [hofile, honly.holders] at hcount
      refine ⟨?_, ?_, fun g hg htype => ?_⟩
      · show FsOk [] (setFd k1 fd none).holders (setFd k1 fd none).cwds k1.fs
        rw [setFd_cwds, honly.cwds, hfs]
        refine h.counts.closeFile (fun g hg => ?_) ?_
        · have := hmore g
          omega
        · have := hmore f
          rw [if_pos hfd] at this
          omega
      · refine (setFd_cwd k1 fd none k1.initproc).trans ?_
        rw [honly.initproc, honly.procs]
        exact h.init
      · replace hg : 0 < (k1.fs.ftable g).ref := hg
        replace htype : (k1.fs.ftable g).type = .FD_PIPE := htype
        show k1.FrameOk (k1.fs.ftable g).pipe
        rw [hfs] at hg htype ⊢
        obtain ⟨hg, htype, hpipe⟩ := FilesOk.closeFile_pipe hg htype
        rw [hpipe, honly.frameOk]
        exact h.pipes g hg htype
    · rw [setFd_cur, hcur]
    · rw [setFd_cur]
      exact hswap
    · show k1.fs.ninodes = _
      rw [hfs, Fs.closeFile_ninodes]
    · show k1.fs.irefLeft _ n = _
      rw [hfs]
      exact Fs.closeFile_left hpos (Nat.le_trans hle href) hone hothers n
    · show k1.fs.inode n = _ ∨ (_ ∧ (k1.fs.inode n).type = .free)
      rw [hfs]
      exact Fs.closeFile_inode _ _ n
  · intro i
    rw [setFd_cur, hofile]
    by_cases hi : i = fd
    · rw [if_pos hi, hi]
      exact Function.update_self _ _ _
    · rw [if_neg hi]
      exact Function.update_of_ne hi _ _

/-- The loop closes the files one after the other, by induction on the
    descriptors that are left. -/
theorem closeFiles (chan : ProcId → Chan) (h : FilesOk k) (fds : List (Fin NOFILE)) : ∃ k1, Paging.closeFiles chan fds k = .ok k1 ∧
    Closing k k1 ∧ ∀ i, k1.cur.ofile i = if i ∈ fds then none else k.cur.ofile i := by
  induction fds generalizing k with
  | nil => exact ⟨k, rfl, refl h, fun i => by simp⟩
  | cons fd rest ih =>
    unfold Paging.closeFiles
    cases hfd : k.cur.ofile fd with
    | none =>
      obtain ⟨k1, hok, hclosing, hofile⟩ := ih h
      refine ⟨k1, hok, hclosing, fun i => ?_⟩
      rw [hofile]
      by_cases hi : i = fd
      · simp [hi, hfd]
      · simp [hi]
    | some f =>
      obtain ⟨k1, hclose, hclosing, hofile⟩ := close chan h hfd
      obtain ⟨k2, hok, hclosing', hofile'⟩ := ih hclosing.ok
      refine ⟨k2, ?_, hclosing.trans hclosing', fun i => ?_⟩
      · simp only [hclose, ok_bind]
        exact hok
      · rw [hofile', hofile]
        by_cases hi : i = fd
        · simp [hi]
        · simp [hi]

end Closing

/-! ### Removing the entry -/

theorem swapEntry_ne_dots (pid : Nat) : ¬ (swapEntry pid = ['.'] ∨ swapEntry pid = ['.', '.']) := by
  unfold swapEntry swapName
  simp only [List.cons_append, DIRSIZ, List.take_succ_cons]
  rintro (h | h)
  · cases h
  · cases h

namespace Fs

/-- The entry is found, and its inode can be unlinked. -/
structure Removable (fs : Fs) (n : Nat) : Prop where
  used : (fs.inode n).type ≠ .free
  linked : 1 ≤ (fs.inode n).nlink
  empty : (fs.inode n).type = .T_DIR → isdirempty (fs.inode n) = true

theorem iunlockput_eq {fs : Fs} {n : Nat} (h : 0 < fs.iref n) : fs.iunlockput n = .ok (fs.iput n) := by
  have hpos : ¬ fs.iref n < 1 := by omega
  simp only [iunlockput, iunlock, hpos, if_false, ok_bind, pure_eq_ok]

/-- The entries of an inode, whatever its link count. -/
theorem lasting_dents (fs : Fs) {n m : Nat} {d : List Dirent} {held : List Nat} {f : Int → Int} :
    Spares n (fun x => x.dents = d) held fs held (fs.modInode m fun x => { x with nlink := f x.nlink }) := by
  apply Spares.setInode
  · exact id
  · rintro rfl hx
    exact hx

/-- `sys_unlink` clears the entry, once the inode is locked. -/
theorem unlinkEntry_eq {fs : Fs} {dp ip off : Nat} (hrefs : ∀ m, [ip, dp].count m ≤ fs.iref m)
    (hdp : [ip, dp].count dp < fs.iref dp) (h : fs.Removable ip) (hoff : off < (fs.inode dp).dents.length) :
    ∃ fs', fs.unlinkEntry dp ip off = .ok (0, fs') ∧
      (fs'.inode dp).dents = (fs.inode dp).dents.set off ⟨0, []⟩ := by
  have hip : 0 < fs.iref ip := by
    have := hrefs ip
    rw [List.count_cons_self] at this
    omega
  obtain ⟨fs1, hlock⟩ : ∃ fs1, fs.ilock ip = .ok fs1 := ⟨_, ilock_eq hip h.used⟩
  obtain ⟨-, ivalid, rfl⟩ := ilock_ok hlock
  have hlink : ¬ (fs.inode ip).nlink < 1 := by
    have := h.linked
    omega
  have hempty : ¬ ((fs.inode ip).type = .T_DIR ∧ isdirempty (fs.inode ip) = false) := by
    rintro ⟨hdir, hfalse⟩
    rw [h.empty hdir] at hfalse
    cases hfalse
  obtain ⟨fs2, hfs2⟩ : ∃ fs2 : Fs, fs2 = ({ fs with ivalid } : Fs).setInode dp
      { fs.inode dp with dents := (fs.inode dp).dents.set off ⟨0, []⟩ } := ⟨_, rfl⟩
  have hwrite : ({ fs with ivalid } : Fs).writeEntry dp off ⟨0, []⟩ = .ok fs2 := by
    unfold writeEntry
    simp only []
    rw [if_pos hoff, hfs2]
  have hdents : (fs2.inode dp).dents = (fs.inode dp).dents.set off ⟨0, []⟩ := by
    rw [hfs2]
    simp [setInode]
  have href2 : fs2.iref = fs.iref := by
    rw [hfs2]
    rfl
  -- the count of the directory goes down with a directory
  obtain ⟨fs3, hfs3⟩ : ∃ fs3 : Fs, fs3 = if (fs.inode ip).type = .T_DIR then
      fs2.modInode dp (fun y => { y with nlink := y.nlink - 1 }) else fs2 := ⟨_, rfl⟩
  have h3 : Spares dp (fun x => x.dents = (fs.inode dp).dents.set off ⟨0, []⟩) [dp, ip] fs2 [dp, ip] fs3 := by
    rw [hfs3]
    split
    · exact lasting_dents fs2 (f := fun l => l - 1)
    · exact .refl _ _
  have href3 : fs3.iref = fs2.iref := by
    rw [hfs3]
    split
    · rfl
    · rfl
  have hcount : ∀ m, [dp, ip].count m = [ip, dp].count m := fun m => (List.Perm.swap ip dp []).count_eq m
  have hput3 : fs3.iunlockput dp = .ok (fs3.iput dp) := by
    apply iunlockput_eq
    rw [href3, href2]
    omega
  have h4 := h3.trans (.iunlockput hput3)
  have h5 := h4.trans (lasting_dents (fs3.iput dp) (m := ip) (f := fun l => l - 1))
  have hput5 : ((fs3.iput dp).modInode ip fun y => { y with nlink := y.nlink - 1 }).iunlockput ip =
      .ok (((fs3.iput dp).modInode ip fun y => { y with nlink := y.nlink - 1 }).iput ip) := by
    apply iunlockput_eq
    show 0 < (fs3.iput dp).iref ip
    rw [iput_iref, href3, href2]
    have := hrefs ip
    simp only [List.count_cons, List.count_nil, beq_self_eq_true, beq_iff_eq, if_true] at this
    omega
  have h6 := h5.trans (.iunlockput hput5)
  refine ⟨_, ?_, h6.kept ?_ hdents⟩
  · unfold unlinkEntry
    simp only [hlock, ok_bind]
    rw [if_neg hlink, if_neg hempty, hwrite, ok_bind, ← hfs3, hput3, ok_bind, hput5, ok_bind]
    rfl
  · rw [href2, hcount]
    exact hdp

/-- It does so in no other case. -/
theorem removable_of_unlinkEntry {fs fs' : Fs} {dp ip off : Nat}
    (hused : ∀ m, fs.ivalid m = true → (fs.inode m).type ≠ .free) (hok : fs.unlinkEntry dp ip off = .ok (0, fs')) :
    fs.Removable ip := by
  simp only [unlinkEntry, bind_eq_ok] at hok
  obtain ⟨fs1, hlock, hok⟩ := hok
  have hfree : (fs.inode ip).type ≠ .free := by
    unfold ilock at hlock
    split at hlock
    · cases hlock
    split at hlock
    next hvalid => exact hused ip hvalid
    split at hlock
    · cases hlock
    next htype => exact htype
  obtain ⟨-, ivalid, rfl⟩ := ilock_ok hlock
  split at hok
  · cases hok
  next hlink =>
    split at hok
    · simp only [bind_eq_ok] at hok
      obtain ⟨fs2, -, fs3, -, hok⟩ := hok
      cases hok
    next hempty =>
      replace hlink : ¬ (fs.inode ip).nlink < 1 := hlink
      replace hempty : ¬ ((fs.inode ip).type = .T_DIR ∧ isdirempty (fs.inode ip) = false) := hempty
      refine ⟨hfree, by omega, fun hdir => ?_⟩
      cases hfalse : isdirempty (fs.inode ip) with
      | true => rfl
      | false => exact absurd ⟨hdir, hfalse⟩ hempty

/-- The call gets as far as the entry. -/
theorem unlink_swapPath {fs : Fs} (h : fs.RootOk) (cwd pid : Nat) : fs.unlink cwd (swapPath pid) =
    match findEntry (fs.inode ROOTINO) (swapEntry pid) with
    | none => (fs.held ROOTINO).iunlockput ROOTINO >>= fun fs => .ok (-1, fs)
    | some (n, i) => (fs.held ROOTINO).iget n >>= fun fs => fs.unlinkEntry ROOTINO n i := by
  have hlock : (fs.held ROOTINO).ilock ROOTINO = .ok (fs.held ROOTINO) :=
    ilock_valid ((held_ref h.ref _).mpr h.ref) h.valid
  unfold unlink
  rw [nameiparent_swapPath h, ok_bind]
  simp only [hlock, ok_bind, swapEntry_ne_dots, if_false]
  unfold dirlookup
  rw [show (fs.held ROOTINO).inode ROOTINO = fs.inode ROOTINO from rfl, if_neg (fun hne => hne h.isDir)]
  cases hfind : findEntry (fs.inode ROOTINO) (swapEntry pid) with
  | none => rfl
  | some e => simp only [bind_assoc, pure_eq_ok, ok_bind]

/-- The reference that `dirlookup` takes comes on top of the others. -/
theorem unlinkEntry_root {fs fs1 : Fs} {name : List Char} {n i : Nat} (h : fs.RootOk)
    (hget : (fs.held ROOTINO).iget n = .ok fs1) (hfind : findEntry (fs.inode ROOTINO) name = some (n, i))
    (hremovable : fs.Removable n) : ∃ fs', fs1.unlinkEntry ROOTINO n i = .ok (0, fs') ∧
      (fs'.inode ROOTINO).dents = (fs.inode ROOTINO).dents.set i ⟨0, []⟩ := by
  have hstep : FsStep [] (fs.held ROOTINO) [n] fs1 := .iget hget
  have hrefs := hstep.refs
  have hheld : ∀ m, (fs.held ROOTINO).iref m = fs.iref m + if ROOTINO = m then 1 else 0 := by
    intro m
    unfold held setRef
    by_cases hm : ROOTINO = m
    · subst hm
      simp
    · simp [hm, Ne.symm hm]
  have hle : ∀ m, fs.iref m + [n, ROOTINO].count m ≤ fs1.iref m := by
    intro m
    have h1 := hrefs m
    rw [hheld] at h1
    simp only [List.count_cons, List.count_nil, beq_iff_eq] at h1 ⊢
    omega
  obtain ⟨-, -, -, iref, ivalid, heq⟩ := iget_ok hget
  have hinode : fs1.inode = fs.inode := by
    rw [heq]
    rfl
  obtain ⟨de, hde, -⟩ := findEntry_some hfind
  have hlt : i < (fs1.inode ROOTINO).dents.length := by
    rw [hinode]
    exact (List.getElem?_eq_some_iff.mp hde).1
  have hroot := h.ref
  have hremovable1 : fs1.Removable n := by
    have hsame : fs1.inode n = fs.inode n := by rw [hinode]
    exact ⟨by rw [hsame]; exact hremovable.used, by rw [hsame]; exact hremovable.linked,
      by rw [hsame]; exact hremovable.empty⟩
  obtain ⟨fs', hok, hdents⟩ := unlinkEntry_eq (fun m => by have := hle m; omega)
    (by have := hle ROOTINO; omega) hremovable1 hlt
  exact ⟨fs', hok, by rw [hdents, hinode]⟩

theorem unlink_swapPath_iff {fs : Fs} (h : fs.RootOk) (hused : ∀ m, fs.ivalid m = true → (fs.inode m).type ≠ .free)
    (cwd pid : Nat) : (∃ fs', fs.unlink cwd (swapPath pid) = .ok (0, fs')) ↔
      ∃ n i, findEntry (fs.inode ROOTINO) (swapEntry pid) = some (n, i) ∧ fs.CanIget n ∧ fs.Removable n := by
  rw [unlink_swapPath h]
  cases hfind : findEntry (fs.inode ROOTINO) (swapEntry pid) with
  | none =>
    constructor
    · rintro ⟨fs', hok⟩
      simp only [bind_eq_ok] at hok
      obtain ⟨fs1, -, hok⟩ := hok
      cases hok
    · rintro ⟨n, i, hsome, -⟩
      cases hsome
  | some e =>
    obtain ⟨n, i⟩ := e
    constructor
    · rintro ⟨fs', hok⟩
      simp only [bind_eq_ok] at hok
      obtain ⟨fs1, hget, hok⟩ := hok
      have h1 : Spares n (fun _ => True) [] (fs.held ROOTINO) [n] fs1 := .iget hget
      have hremovable := removable_of_unlinkEntry (h1.used hused) hok
      obtain ⟨-, -, -, iref, ivalid, rfl⟩ := iget_ok hget
      exact ⟨n, i, rfl, (held_canIget h.ref).mp (iget_returns.mp ⟨_, hget⟩),
        hremovable.used, hremovable.linked, hremovable.empty⟩
    · rintro ⟨n', i', heq, hget, hremovable⟩
      cases heq
      obtain ⟨fs1, hfs1⟩ := iget_returns.mpr ((held_canIget h.ref).mpr hget)
      obtain ⟨fs', hok, -⟩ := unlinkEntry_root h hfs1 hfind hremovable
      exact ⟨fs', by simp only [hfs1, ok_bind]; exact hok⟩

/-- Without its entry the name is not found. -/
theorem findEntry_cleared {x y : Inode} {name : List Char} {n i : Nat} (h : NamesOnce x)
    (hfind : findEntry x name = some (n, i)) (hy : y.dents = x.dents.set i ⟨0, []⟩) : findEntry y name = none := by
  obtain ⟨de, hde, -, hused, hname⟩ := findEntry_some hfind
  cases hfind' : findEntry y name with
  | none => rfl
  | some e =>
    obtain ⟨n', j⟩ := e
    obtain ⟨de', hde', -, hused', hname'⟩ := findEntry_some hfind'
    rw [hy, List.getElem?_set] at hde'
    split at hde'
    next hij =>
      split at hde'
      · cases hde'
        exact absurd rfl hused'
      · cases hde'
    next hij => exact absurd (h i j de de' hde hde' hused hused' (hname.trans hname'.symm)) hij

theorem unlink_swapPath_gone {fs fs' : Fs} (h : fs.RootOk) (hnames : NamesOnce (fs.inode ROOTINO))
    (hused : ∀ m, fs.ivalid m = true → (fs.inode m).type ≠ .free) {cwd pid : Nat}
    (hok : fs.unlink cwd (swapPath pid) = .ok (0, fs')) : findEntry (fs'.inode ROOTINO) (swapEntry pid) = none := by
  obtain ⟨n, i, hfind, hget, hremovable⟩ := (unlink_swapPath_iff h hused cwd pid).mp ⟨fs', hok⟩
  obtain ⟨fs1, hfs1⟩ := iget_returns.mpr ((held_canIget h.ref).mpr hget)
  obtain ⟨fs2, hok2, hdents⟩ := unlinkEntry_root h hfs1 hfind hremovable
  rw [unlink_swapPath h, hfind] at hok
  simp only [hfs1, ok_bind, hok2] at hok
  cases hok
  exact findEntry_cleared hnames hfind hdents

theorem irefLeft_zero (fs : Fs) (n : Nat) : fs.irefLeft (fun _ => 0) n = fs.iref n := by
  have hzero : fs.lastOf (fun _ => 0) n = 0 := by
    unfold lastOf Threads.count
    refine Finset.sum_eq_zero fun f _ => ?_
    simp only [Nat.lt_irrefl, false_and, decide_false, Bool.toNat_false]
  unfold irefLeft
  rw [hzero, Nat.sub_zero]

end Fs

/-! ### The whole of `exit` -/

theorem FsOk.rootOk {H : Fin NFILE → Nat} {C : Nat → Nat} {fs : Fs} (h : FsOk [] H C fs) : fs.RootOk := by
  refine ⟨?_, h.rootValid, h.root.1⟩
  have h1 := h.irefs ROOTINO
  have h2 := h.rootRef
  omega

/-- The swap file is closed last. -/
theorem Closing.swapFile_closed (chan : ProcId → Chan) {k k1 : Kernel} {f : Fin NFILE} (h : Closing k k1)
    (hofile : ∀ i, k1.cur.ofile i = none) (hf : k1.cur.swapFile = some f) :
    ∃ k2 H, fileclose chan k1 f = .ok k2 ∧ FilesOnly k1 k2 ∧ FsOk [] H k1.cwds k2.fs ∧
      k2.fs.inode ROOTINO = k.fs.inode ROOTINO ∧ ∀ n, (k2.fs.CanIget n ↔
        0 < k.fs.irefLeft k.cur.holds n ∨ k.fs.cachedLeft k.cur.holds < NINODE) ∧
      (k2.fs.Removable n ↔ k.fs.Removable n) := by
  have hholds : ∀ g, k1.cur.holds g = if f = g then 1 else 0 := by
    intro g
    unfold Proc.holds
    rw [hf]
    have hzero : Threads.count (fun o : Option (Fin NFILE) => decide (o = some g)) k1.cur.ofile = 0 := by
      refine Finset.sum_eq_zero fun i _ => ?_
      rw [hofile i]
      rfl
    rw [hzero, Nat.zero_add]
    simp only [Option.some.injEq]
  have hone : k1.cur.holds f = 1 := by rw [hholds, if_pos rfl]
  have hle := Closing.holds_le k1 f
  have href := h.ok.counts.refs f
  obtain ⟨k2, hclose⟩ := fileclose_returns chan (k := k1) (f := f) (by omega) (h.ok.pipes f (by omega))
  obtain ⟨-, hfs, honly⟩ := fileclose_ok hclose
  have hcounts : FsOk [] (fun g => k1.holders g - if f = g then 1 else 0) k1.cwds k2.fs := by
    rw [hfs]
    refine h.ok.counts.closeFile (fun g _ => Nat.sub_le _ _) ?_
    rw [if_pos rfl]
    omega
  have hinode : ∀ n, k2.fs.inode n = k.fs.inode n ∨
      ((k.fs.inode n).nlink = 0 ∧ (k2.fs.inode n).type = .free) := by
    intro n
    rw [hfs]
    exact Closing.trans_inode (h.inode n) (Fs.closeFile_inode k1.fs f n)
  have hleft : ∀ n, k2.fs.iref n = k.fs.irefLeft k.cur.holds n := by
    intro n
    rw [← h.left n, ← Fs.irefLeft_zero k2.fs n, hfs]
    refine Fs.closeFile_left (by omega) (Nat.le_trans hle href) (by omega) (fun g hg => ?_) n
    rw [hholds, if_neg (Ne.symm hg)]
  refine ⟨k2, _, hclose, honly, hcounts, ?_, fun n => ⟨?_, ?_⟩⟩
  · rcases hinode ROOTINO with hsame | ⟨-, hfree⟩
    · exact hsame
    · have hdir := hcounts.root.1
      rw [hfree] at hdir
      cases hdir
  · have hcached : k2.fs.cached = k.fs.cachedLeft k.cur.holds := by
      unfold Fs.cached Fs.cachedLeft
      rw [hfs, Fs.closeFile_ninodes, h.ninodes, ← hfs]
      exact List.countP_congr fun n _ => by rw [hleft]
    unfold Fs.CanIget
    rw [hleft, hcached]
  · rcases hinode n with hsame | ⟨hlink, hfree⟩
    · constructor
      · rintro ⟨h1, h2, h3⟩
        rw [hsame] at h1 h2 h3
        exact ⟨h1, h2, h3⟩
      · rintro ⟨h1, h2, h3⟩
        exact ⟨by rwa [hsame], by rwa [hsame], by rwa [hsame]⟩
    · constructor
      · intro hrem
        exact absurd hfree hrem.used
      · intro hrem
        have := hrem.linked
        omega

theorem passChildren_ok (chan : ProcId → Chan) (ps : List ProcId) (k : Kernel) :
    (passChildren chan ps k).curproc = k.curproc ∧ (passChildren chan ps k).fs = k.fs := by
  induction ps generalizing k with
  | nil => exact ⟨rfl, rfl⟩
  | cons p rest ih =>
    unfold passChildren
    simp only []
    split
    · split
      · exact ih _
      · exact ih _
    · exact ih k

/-- `exit` gets to the end just when the swap file can be removed. -/
theorem exitsClean_iff {chan : ProcId → Chan} {k : Kernel} (h : FilesOk k) (hlocks : .cons ∉ k.locks)
    (hother : k.curproc ≠ k.initproc) : ExitsClean chan k ↔ SwapFileRemovable k := by
  obtain ⟨k1, hclose, hclosing, hofile⟩ := Closing.closeFiles chan h (List.finRange NOFILE)
  replace hofile : ∀ i, k1.cur.ofile i = none := by
    intro i
    rw [hofile, if_pos (List.mem_finRange i)]
  unfold ExitsClean SwapFileRemovable exit
  rw [if_neg hother]
  simp only [hclose, ok_bind]
  unfold removeSwapFile
  cases hf : k.cur.swapFile with
  | none =>
    rw [show (k1.proc k1.curproc).swapFile = none from hclosing.swapFile.trans hf]
    constructor
    · rintro ⟨k', hok, -⟩
      cases hok
    · rintro ⟨hne, -⟩
      exact absurd rfl hne
  | some f =>
    have hf1 : k1.cur.swapFile = some f := hclosing.swapFile.trans hf
    rw [show (k1.proc k1.curproc).swapFile = some f from hf1]
    obtain ⟨k2, H, hclose2, honly, hcounts, hroot, hcond⟩ :=
      hclosing.swapFile_closed chan hofile hf1
    have hpid : (k1.proc k1.curproc).pid = k.cur.pid := hclosing.pid
    simp only [hclose2, ok_bind, hpid]
    have hiff := Fs.unlink_swapPath_iff hcounts.rootOk hcounts.used k2.cur.cwd k.cur.pid
    simp only [hroot, hcond] at hiff
    have hswap : (some f ≠ none) = True := by simp
    rw [hswap, true_and]
    constructor
    · rintro ⟨k', hok, -⟩
      simp only [bind_eq_ok] at hok
      obtain ⟨⟨r, k3⟩, ⟨⟨r', fs⟩, hunlink, heq⟩, hok⟩ := hok
      cases heq
      split at hok
      · cases hok
      next hr =>
        obtain rfl : r' = 0 := not_not.mp hr
        obtain ⟨n, i, hfind, hget, hrem⟩ := hiff.mp ⟨fs, hunlink⟩
        exact ⟨n, i, hfind, hget, hrem.used, hrem.linked, hrem.empty⟩
    · rintro ⟨n, i, hfind, hget, hused, hlinked, hempty⟩
      obtain ⟨fs, hunlink⟩ := hiff.mpr ⟨n, i, hfind, hget, hused, hlinked, hempty⟩
      have hgone := Fs.unlink_swapPath_gone hcounts.rootOk hcounts.root.2 hcounts.used hunlink
      have hprint : cprintf ({ k2 with fs } : Kernel) = .ok () := by
        unfold cprintf
        rw [if_neg]
        show .cons ∉ k2.locks
        rwa [honly.locks, hclosing.locks]
      simp only [hunlink, ok_bind, pure_eq_ok, ne_eq, not_true_eq_false, if_false, hprint]
      refine ⟨_, rfl, ?_, fun _ => ?_⟩
      · rw [Kernel.modCur_cur]
      · -- the current directory, which is given up now, is not the last reference to the root
        show Fs.findEntry ((passChildren chan _ _).fs.inode ROOTINO) _ = none
        rw [(passChildren_ok chan _ _).2]
        have hfs : ∀ (K : Kernel) (o : Option ProcId), (o.elim K fun q => wakeup1 chan K (.proc q)).fs = K.fs := by
          intro K o
          cases o with
          | none => rfl
          | some q => rfl
        rw [hfs]
        show Fs.findEntry ((fs.iput k2.cur.cwd).inode ROOTINO) (swapEntry k.cur.pid) = none
        have hcwd : k2.cur.cwd = k1.cur.cwd := by
          unfold Kernel.cur
          rw [honly.curproc, honly.procs]
        have hcounts' := hcounts.spared fun _ _ hI _ => Spares.unlink hI [] hunlink
        have hrefs := hcounts'.irefs ROOTINO
        have hmore := hclosing.ok.cwd_root (by rwa [hclosing.curproc, hclosing.initproc])
        have hput : Spares ROOTINO (fun x => Fs.findEntry x (swapEntry k.cur.pid) = none) [k1.cur.cwd] fs []
            (fs.iput k1.cur.cwd) := .iput
        rw [hcwd]
        exact hput.kept (by omega) hgone

/-- The shell has unlinked the swap file of process 3. -/
def unlinked : Kernel :=
  { threePages with fs := ((threePages.fs.unlink ROOTINO (swapPath 3)).toOption.get (by decide +kernel)).2 }

example : exit (fun _ => .other) { threePages with curproc := 1 } = panic "Swap File Remove Failed\n" := rfl

end Paging
