import OperatingSystem314.Lib.Threads
import OperatingSystem314.Paging.Spared

/-! # Reference counts of files and inodes

    Every descriptor counts in `ref` of its open file, and every open file
    and current directory in `ref` of its inode.  No system call on files,
    of whatever process, frees an inode that is open or the current
    directory of a process.

    * `FsOk held H C fs`: the counts cover `H f` descriptors of file `f`,
      the open files, `C n` current directories and the references `held`.
    * `FilesOk`: the same for the descriptors and directories of all
      processes.
    * `FilesOk.call`: every call keeps it. -/

namespace Paging

open Threads (count_update sum_update)

/-! ### What is counted -/

/-- The file is open on inode `n`. -/
def File.opens (n : Nat) (x : File) : Bool := decide (0 < x.ref ∧ x.type = .FD_INODE ∧ x.ip = n)

namespace Fs

/-- How many files are open on inode `n`. -/
def openOn (fs : Fs) (n : Nat) : Nat := Threads.count (File.opens n) fs.ftable

/-- No two entries in use have the same name. -/
def NamesOnce (x : Inode) : Prop :=
  ∀ (i j : Nat) (a b : Dirent), x.dents[i]? = some a → x.dents[j]? = some b → a.inum ≠ 0 → b.inum ≠ 0 →
    a.name = b.name → i = j

end Fs

/-- What `fileclose` does to the file system. -/
def Fs.closeFile (fs : Fs) (f : Fin NFILE) : Fs :=
  let ff := fs.ftable f
  if 0 < ff.ref - 1 then fs.setFile f { ff with ref := ff.ref - 1 }
  else
    let fs := fs.setFile f { ff with ref := 0, type := .FD_NONE }
    if ff.type = .FD_INODE then fs.iput ff.ip else fs

/-- How often a process refers to the open file `f`. -/
def Proc.holds (x : Proc) (f : Fin NFILE) : Nat :=
  Threads.count (fun o => decide (o = some f)) x.ofile + if x.swapFile = some f then 1 else 0

namespace Kernel

variable (k : Kernel)

def holders (f : Fin NFILE) : Nat := ∑ p, (k.proc p).holds f

/-- How many processes have the current directory `n`; a process that has
    exited has none. -/
def cwds (n : Nat) : Nat := if n = 0 then 0 else Threads.count (fun x : Proc => decide (x.cwd = n)) k.proc

end Kernel

/-! ### The counts of the file system -/

structure FsOk (held : List Nat) (H : Fin NFILE → Nat) (C : Nat → Nat) (fs : Fs) : Prop where
  refs : ∀ f, H f ≤ (fs.ftable f).ref
  irefs : ∀ n, fs.openOn n + C n + held.count n ≤ fs.iref n
  /-- a file that is not open is on no pipe and no inode -/
  idle : ∀ f, (fs.ftable f).ref = 0 → (fs.ftable f).type = .FD_NONE
  used : ∀ n, fs.ivalid n = true → (fs.inode n).type ≠ .free
  alive : ∀ n, 0 < fs.openOn n + C n → (fs.inode n).type ≠ .free
  rootRef : 0 < C ROOTINO
  rootValid : fs.ivalid ROOTINO = true
  root : (fs.inode ROOTINO).type = .T_DIR ∧ Fs.NamesOnce (fs.inode ROOTINO)

theorem getElem?_putEntry (dents : List Dirent) (i j : Nat) (de : Dirent) :
    (putEntry dents i de)[j]? = if j = min i dents.length then some de else dents[j]? := by
  unfold putEntry
  by_cases hi : i < dents.length
  · rw [if_pos hi, Nat.min_eq_left (Nat.le_of_lt hi), List.getElem?_set]
    by_cases hij : i = j
    · rw [if_pos hij, if_pos hi, if_pos hij.symm]
    · rw [if_neg hij, if_neg (Ne.symm hij)]
  · rw [if_neg hi, Nat.min_eq_right (Nat.le_of_not_lt hi)]
    rcases Nat.lt_trichotomy j dents.length with hlt | heq | hgt
    · rw [List.getElem?_append_left hlt, if_neg (by omega)]
    · rw [if_pos heq, heq]
      simp
    · rw [if_neg (by omega), List.getElem?_eq_none (by simp; omega), List.getElem?_eq_none (by omega)]

/-- A name that is not found is the name of no entry in use. -/
theorem Fs.findEntry_none {x : Inode} {name : List Char} (h : Fs.findEntry x name = none) :
    ∀ de ∈ x.dents, de.inum ≠ 0 → de.name ≠ name := by
  intro de hmem hinum hname
  unfold Fs.findEntry at h
  simp only [] at h
  split at h
  next hnone =>
    have hfalse := List.findIdx?_eq_none_iff.mp hnone de hmem
    simp [hinum, hname] at hfalse
  next i hi =>
    obtain ⟨hlt, -⟩ := List.findIdx?_eq_some_iff_findIdx_eq.mp hi
    rw [List.getElem?_eq_getElem hlt] at h
    cases h

/-- The entry that is found is in use and has the name. -/
theorem Fs.findEntry_some {x : Inode} {name : List Char} {n i : Nat} (h : Fs.findEntry x name = some (n, i)) :
    ∃ de, x.dents[i]? = some de ∧ de.inum = n ∧ de.inum ≠ 0 ∧ de.name = name := by
  unfold Fs.findEntry at h
  simp only [] at h
  split at h
  · cases h
  next j hj =>
    obtain ⟨hlt, hget, -⟩ := List.findIdx?_eq_some_iff_getElem.mp hj
    rw [List.getElem?_eq_getElem hlt] at h
    cases h
    simp only [decide_eq_true_eq] at hget
    exact ⟨_, List.getElem?_eq_getElem hlt, rfl, hget.1, hget.2⟩

theorem lasting_root : Lasting fun x => x.type = .T_DIR ∧ Fs.NamesOnce x := by
  -- a new entry has a name that no other entry in use has
  have hput : ∀ {x : Inode} (i : Nat) (de : Dirent), Fs.NamesOnce x →
      (de.inum ≠ 0 → ∀ e ∈ x.dents, e.inum ≠ 0 → e.name ≠ de.name) →
      Fs.NamesOnce { x with dents := putEntry x.dents i de } := by
    intro x i de hx hnew a b u v ha hb hu hv huv
    simp only [] at ha hb
    rw [getElem?_putEntry] at ha hb
    split at ha
    next ha0 =>
      cases ha
      split at hb
      next hb0 => omega
      next hb0 => exact absurd huv.symm (hnew hu v (List.mem_of_getElem? hb) hv)
    next ha0 =>
      split at hb
      next hb0 =>
        cases hb
        exact absurd huv (hnew hv u (List.mem_of_getElem? ha) hu)
      next hb0 => exact hx a b u v ha hb hu hv huv
  constructor
  · rintro x ⟨hdir, -⟩ hfree
    rw [hfree] at hdir
    cases hdir
  · rintro x - - h
    exact h
  · rintro x i ⟨hdir, hx⟩
    exact ⟨hdir, hput i _ hx fun hne => absurd rfl hne⟩
  · rintro x i de ⟨hdir, hx⟩ - hnone
    exact ⟨hdir, hput i _ hx fun _ => Fs.findEntry_none hnone⟩

theorem lasting_used : Lasting fun x => x.type ≠ .free :=
  ⟨id, fun _ _ => id, fun _ => id, fun _ _ h _ _ => h⟩

namespace FsOk

variable {held held' : List Nat} {H H' : Fin NFILE → Nat} {C C' : Nat → Nat} {fs fs' : Fs}

theorem others (h : FsOk held H C fs) {n : Nat} (hn : 0 < fs.openOn n + C n) : held.count n < fs.iref n := by
  have := h.irefs n
  omega

/-- A routine that spares every inode that others refer to. -/
theorem spared (h : FsOk held H C fs)
    (hs : ∀ n I, Lasting I → (∀ m, Writes n I m) → Spares n I held fs held' fs') : FsOk held' H C fs' := by
  have hused := hs ROOTINO _ lasting_used fun _ _ _ _ _ => id
  have hroot := hs ROOTINO _ lasting_root fun _ _ _ _ _ => id
  have hopen : ∀ n, fs'.openOn n = fs.openOn n := by
    intro n
    unfold Fs.openOn Threads.count
    refine Finset.sum_congr rfl fun f _ => ?_
    rw [hused.files f]
    rfl
  have hothers : held.count ROOTINO < fs.iref ROOTINO := h.others (Nat.lt_of_lt_of_le h.rootRef (Nat.le_add_left _ _))
  refine ⟨fun f => ?_, fun n => ?_, fun f hf => ?_, hused.used h.used, fun n hn => ?_, h.rootRef,
    hused.valid hothers h.rootValid, hroot.kept hothers h.root⟩
  · rw [hused.files f]
    exact h.refs f
  · have h1 := h.irefs n
    have h2 := hused.refs n
    rw [hopen]
    omega
  · rw [hused.files f] at hf ⊢
    exact h.idle f hf
  · rw [hopen] at hn
    exact (hs n _ lasting_used fun _ _ _ _ _ => id).kept (h.others hn) (h.alive n hn)

/-- A file table entry changes, and references change hands. -/
theorem setFile {f : Fin NFILE} {x : File} (h : FsOk held H C fs) (hH : ∀ g, g ≠ f → H' g ≤ H g)
    (hf : H' f ≤ x.ref) (hidle : x.ref = 0 → x.type = .FD_NONE)
    (hopens : ∀ n, (x.opens n).toNat + held'.count n ≤ ((fs.ftable f).opens n).toNat + held.count n)
    (halive : ∀ n, x.opens n = true → (fs.inode n).type ≠ .free) : FsOk held' H' C (fs.setFile f x) := by
  have hopen : ∀ n, (fs.setFile f x).openOn n + ((fs.ftable f).opens n).toNat = fs.openOn n + (x.opens n).toNat :=
    fun n => count_update (File.opens n) fs.ftable f x
  have hother : ∀ g, g ≠ f → (fs.setFile f x).ftable g = fs.ftable g := by
    intro g hg
    simp [Fs.setFile, hg]
  have hself : (fs.setFile f x).ftable f = x := by simp [Fs.setFile]
  refine ⟨fun g => ?_, fun n => ?_, fun g hg => ?_, h.used, fun n hn => ?_, h.rootRef, h.rootValid, h.root⟩
  · by_cases hg : g = f
    · rw [hg, hself]
      exact hf
    · rw [hother g hg]
      exact Nat.le_trans (hH g hg) (h.refs g)
  · have h1 := h.irefs n
    have h2 := hopen n
    have h3 := hopens n
    show (fs.setFile f x).openOn n + C n + _ ≤ fs.iref n
    omega
  · by_cases hgf : g = f
    · rw [hgf, hself] at hg ⊢
      exact hidle hg
    · rw [hother g hgf] at hg ⊢
      exact h.idle g hg
  · show (fs.inode n).type ≠ .free
    by_cases hn0 : 0 < fs.openOn n + C n
    · exact h.alive n hn0
    · -- nothing else referred to it, so it is this file that does
      have h2 := hopen n
      cases hx : x.opens n with
      | true => exact halive n hx
      | false =>
        rw [hx, Bool.toNat_false] at h2
        omega

/-- References that become current directories, or were. -/
theorem recount (h : FsOk held H C fs) (hC : ∀ n, C' n + held'.count n ≤ C n + held.count n)
    (halive : ∀ n, 0 < C' n → (fs.inode n).type ≠ .free) (hroot : 0 < C' ROOTINO) : FsOk held' H C' fs := by
  refine ⟨h.refs, fun n => ?_, h.idle, h.used, fun n hn => ?_, hroot, h.rootValid, h.root⟩
  · have h1 := h.irefs n
    have h2 := hC n
    omega
  · by_cases hopen : 0 < fs.openOn n
    · exact h.alive n (by omega)
    · exact halive n (by omega)

theorem opens_eq {x y : File} (href : 0 < y.ref ↔ 0 < x.ref) (htype : y.type = x.type) (hip : y.ip = x.ip)
    (n : Nat) : y.opens n = x.opens n := by
  unfold File.opens
  rw [htype, hip]
  simp only [href]

/-- One reference to a file is given back. -/
theorem closeFile {f : Fin NFILE} (h : FsOk held H C fs) (hH : ∀ g, g ≠ f → H' g ≤ H g)
    (hf : H' f + 1 ≤ (fs.ftable f).ref) : FsOk held H' C (fs.closeFile f) := by
  unfold Fs.closeFile
  simp only []
  split
  next hmore =>
    have hsame : ∀ n, ({ fs.ftable f with ref := (fs.ftable f).ref - 1 } : File).opens n = (fs.ftable f).opens n :=
      opens_eq (by simp only []; omega) rfl rfl
    refine h.setFile hH ?_ ?_ ?_ ?_
    · show H' f ≤ (fs.ftable f).ref - 1
      omega
    · intro hzero
      simp only [] at hzero
      omega
    · intro n
      rw [hsame n]
    · intro n hn
      rw [hsame n] at hn
      have hcount := Threads.one_le_count (P := File.opens n) (i := f) hn
      exact h.alive n (Nat.lt_of_lt_of_le hcount (Nat.le_add_right _ _))
  next hlast =>
    have hone : (fs.ftable f).ref = 1 := by omega
    have hclosed : ∀ n, ({ fs.ftable f with ref := 0, type := .FD_NONE } : File).opens n = false := by
      intro n
      simp [File.opens]
    split
    next htype =>
      -- the reference of the open file is now that of `iput`
      have h1 : FsOk ((fs.ftable f).ip :: held) H' C
          (fs.setFile f { fs.ftable f with ref := 0, type := .FD_NONE }) := by
        refine h.setFile hH ?_ (fun _ => rfl) ?_ ?_
        · show H' f ≤ 0
          omega
        · intro n
          rw [hclosed n, List.count_cons]
          unfold File.opens
          by_cases hip : (fs.ftable f).ip = n
          · simp [hone, htype, hip, Nat.add_comm]
          · simp [hip]
        · intro n hn
          rw [hclosed n] at hn
          cases hn
      exact h1.spared fun _ _ _ _ => .iput
    next htype =>
      refine h.setFile hH ?_ (fun _ => rfl) ?_ ?_
      · show H' f ≤ 0
        omega
      · intro n
        rw [hclosed n]
        simp
      · intro n hn
        rw [hclosed n] at hn
        cases hn

/-- The inode that `sys_open` has found is in use. -/
theorem openInode {cwd omode ip : Nat} {path : List Char} (h : FsOk held H C fs)
    (hok : fs.openInode cwd path omode = .ok (some ip, fs')) :
    FsOk (ip :: held) H C fs' ∧ (fs'.inode ip).type ≠ .free := by
  have h' : FsOk (ip :: held) H C fs' := h.spared fun _ _ hI _ => Spares.openInode hI held hok
  refine ⟨h', ?_⟩
  unfold Fs.openInode at hok
  split at hok
  · rw [(FsStep.create held hok).2 ip rfl]
    exact nofun
  · rw [bind_eq_ok] at hok
    obtain ⟨⟨q, fs1⟩, -, hok⟩ := hok
    cases q with
    | none => cases hok
    | some ip' =>
      simp only [bind_eq_ok] at hok
      obtain ⟨fs2, hlock, hok⟩ := hok
      split at hok
      · rw [bind_eq_ok] at hok
        obtain ⟨fs3, -, hok⟩ := hok
        cases hok
      · cases hok
        -- a locked inode has been read from the disk
        refine h'.used _ ?_
        unfold Fs.ilock at hlock
        split at hlock
        · cases hlock
        split at hlock
        next hvalid =>
          cases hlock
          exact hvalid
        split at hlock
        · cases hlock
        · cases hlock
          simp [Fs.setValid]

/-- A new file is open on the inode. -/
theorem openFile {f : Fin NFILE} {ip : Nat} {x : File} (h : FsOk (ip :: held) H C fs)
    (hip : (fs.inode ip).type ≠ .free) (hfree : (fs.ftable f).ref = 0) (hH : ∀ g, g ≠ f → H' g ≤ H g)
    (hx : x.ref = 1) (hxip : x.ip = ip) (hf : H' f ≤ 1) : FsOk held H' C (fs.setFile f x) := by
  refine h.setFile hH ?_ ?_ ?_ ?_
  · rwa [hx]
  · intro hzero
    omega
  · intro n
    rw [List.count_cons]
    unfold File.opens
    rw [hfree, hx, hxip]
    by_cases hn : ip = n
    · simp only [hn, beq_self_eq_true, if_true, Nat.lt_irrefl, false_and, decide_false, Bool.toNat_false]
      have := Bool.toNat_le (decide (0 < 1 ∧ x.type = .FD_INODE ∧ True))
      omega
    · simp [hn]
  · intro n hn
    unfold File.opens at hn
    simp only [decide_eq_true_eq] at hn
    rw [← hn.2.2, hxip]
    exact hip

/-- The reference of the new directory takes the place of that of the old one. -/
theorem chdir {cwd ip : Nat} {path : List Char} (h : FsOk [] H C fs) (hcwd : 0 < C cwd)
    (hroot : [cwd].count ROOTINO < C ROOTINO) (hroot' : 0 < C' ROOTINO)
    (hC : ∀ n, C' n + [cwd].count n ≤ C n + [ip].count n)
    (hok : fs.chdir cwd path = .ok (some ip, fs')) : FsOk [] H C' fs' := by
  have hmine : ∀ n, [cwd].count n ≤ C n := by
    intro n
    by_cases hn : cwd = n
    · subst hn
      rw [List.count_singleton_self]
      exact hcwd
    · rw [List.count_singleton]
      simp [hn]
  have h0 : FsOk [cwd] H (fun n => C n - [cwd].count n) fs := by
    refine h.recount (fun n => ?_) (fun n hn => ?_) (Nat.sub_pos_of_lt hroot)
    · have := hmine n
      rw [List.count_nil]
      omega
    · refine h.alive n ?_
      omega
  simp only [Fs.chdir, bind_eq_ok] at hok
  obtain ⟨⟨q, fs1⟩, hnamei, hok⟩ := hok
  cases q with
  | none => cases hok
  | some ip' =>
    simp only [bind_eq_ok] at hok
    obtain ⟨fs2, hlock, hok⟩ := hok
    have h2 : FsOk (ip' :: [cwd]) H _ fs2 := h0.spared fun _ _ _ _ => (Spares.namei hnamei).trans (.ilock hlock)
    split at hok
    · rw [bind_eq_ok] at hok
      obtain ⟨fs3, -, hok⟩ := hok
      cases hok
    next hdir =>
      rw [bind_eq_ok] at hok
      obtain ⟨fs3, hunlock, hok⟩ := hok
      cases hok
      rw [Fs.iunlock_ok hunlock]
      have h3 : FsOk [cwd] H C' fs2 := by
        refine h2.recount (fun n => ?_) (fun n hn => ?_) hroot'
        · have h1 := hC n
          have h2 := hmine n
          simp only [List.count_cons, List.count_nil] at h1 h2 ⊢
          omega
        · by_cases hip : ip = n
          · rw [← hip, not_not.mp hdir]
            decide
          · refine h2.alive n ?_
            have h1 := hC n
            rw [List.count_singleton (b := ip)] at h1
            simp only [beq_iff_eq, hip, if_false] at h1
            omega
      exact h3.spared fun _ _ _ _ => .iput

end FsOk

/-! ### The counts of the processes -/

/-- What a process has open, its current directory and its place are as
    they were; it may have been woken up. -/
def Proc.SameFiles (x y : Proc) : Prop := y = { x with state := y.state }

structure FilesOk (k : Kernel) : Prop where
  counts : FsOk [] k.holders k.cwds k.fs
  /-- the first process stays in the root directory -/
  init : (k.proc k.initproc).cwd = ROOTINO
  pipes : ∀ f, 0 < (k.fs.ftable f).ref → (k.fs.ftable f).type = .FD_PIPE → k.FrameOk (k.fs.ftable f).pipe

/-- Nothing else changes than the file system, and pipes that are closed. -/
structure FilesOnly (k k' : Kernel) : Prop where
  procs : ∀ p, (k.proc p).SameFiles (k'.proc p)
  curproc : k'.curproc = k.curproc
  initproc : k'.initproc = k.initproc
  kend : k'.kend = k.kend
  locks : k'.locks = k.locks

namespace FilesOnly

variable {k k' : Kernel}

theorem holders (h : FilesOnly k k') : k'.holders = k.holders := by
  funext f
  unfold Kernel.holders
  refine Finset.sum_congr rfl fun p _ => ?_
  rw [h.procs p]
  rfl

theorem cwds (h : FilesOnly k k') : k'.cwds = k.cwds := by
  funext n
  unfold Kernel.cwds Threads.count
  split
  · rfl
  · refine Finset.sum_congr rfl fun p _ => ?_
    rw [h.procs p]

theorem frameOk (h : FilesOnly k k') {f : Nat} : k'.FrameOk f ↔ k.FrameOk f := by
  unfold Kernel.FrameOk
  rw [h.kend]

end FilesOnly

theorem wakeup1_sameFiles (chan : ProcId → Chan) (k : Kernel) (c : Chan) (p : ProcId) :
    (k.proc p).SameFiles ((wakeup1 chan k c).proc p) := by
  unfold wakeup1 Proc.SameFiles
  simp only []
  split
  · rfl
  · rfl

theorem pipeclose_ok {chan : ProcId → Chan} {k k' : Kernel} {p : Nat} {writable : Bool}
    (hok : pipeclose chan k p writable = .ok k') : k'.fs = k.fs ∧ FilesOnly k k' := by
  unfold pipeclose at hok
  simp only [] at hok
  generalize (k.pipe p).close writable = x at hok
  generalize (if writable then Chan.nread p else Chan.nwrite p) = c at hok
  have hsame : ∀ q, (k.proc q).SameFiles ((wakeup1 chan (k.setPipe p x) c).proc q) :=
    fun q => wakeup1_sameFiles chan (k.setPipe p x) c q
  split at hok
  · unfold kfree at hok
    split at hok
    · cases hok
      exact ⟨rfl, hsame, rfl, rfl, rfl, rfl⟩
    · cases hok
  · cases hok
    exact ⟨rfl, hsame, rfl, rfl, rfl, rfl⟩

theorem pipeclose_returns (chan : ProcId → Chan) {k : Kernel} {p : Nat} (writable : Bool) (h : k.FrameOk p) :
    ∃ k', pipeclose chan k p writable = .ok k' := by
  unfold pipeclose
  simp only []
  generalize (k.pipe p).close writable = x
  generalize (if writable then Chan.nread p else Chan.nwrite p) = c
  split
  · exact ⟨_, if_pos h⟩
  · exact ⟨_, rfl⟩

/-- `fileclose`, seen from the file system. -/
theorem fileclose_ok {chan : ProcId → Chan} {k k' : Kernel} {f : Fin NFILE} (hok : fileclose chan k f = .ok k') :
    0 < (k.fs.ftable f).ref ∧ k'.fs = k.fs.closeFile f ∧ FilesOnly k k' := by
  have hsame : ∀ fs : Fs, FilesOnly k { k with fs } := fun fs => ⟨fun _ => rfl, rfl, rfl, rfl, rfl⟩
  unfold fileclose at hok
  unfold Fs.closeFile
  simp only [] at hok ⊢
  split at hok
  · cases hok
  next href =>
    refine ⟨by omega, ?_⟩
    split at hok
    next hmore =>
      cases hok
      rw [if_pos hmore]
      exact ⟨rfl, hsame _⟩
    next hlast =>
      rw [if_neg hlast]
      cases htype : (k.fs.ftable f).type with
      | FD_NONE =>
        rw [htype] at hok
        cases hok
        rw [if_neg nofun]
        exact ⟨rfl, hsame _⟩
      | FD_INODE =>
        rw [htype] at hok
        cases hok
        rw [if_pos rfl]
        exact ⟨rfl, hsame _⟩
      | FD_PIPE =>
        rw [htype] at hok
        rw [if_neg nofun]
        simp only [] at hok
        obtain ⟨hfs, honly⟩ := pipeclose_ok hok
        exact ⟨hfs, honly.procs, honly.curproc, honly.initproc, honly.kend, honly.locks⟩

/-- A file that is open can be closed. -/
theorem fileclose_returns (chan : ProcId → Chan) {k : Kernel} {f : Fin NFILE} (href : 0 < (k.fs.ftable f).ref)
    (hpipe : (k.fs.ftable f).type = .FD_PIPE → k.FrameOk (k.fs.ftable f).pipe) :
    ∃ k', fileclose chan k f = .ok k' := by
  unfold fileclose
  simp only []
  rw [if_neg (by omega)]
  split
  · exact ⟨_, rfl⟩
  · split
    next htype => exact pipeclose_returns chan _ (hpipe htype)
    · exact ⟨_, rfl⟩
    · exact ⟨_, rfl⟩

section setFd

variable {k : Kernel} {fd : Fin NOFILE} {o : Option (Fin NFILE)}

theorem setFd_proc (k : Kernel) (fd : Fin NOFILE) (o : Option (Fin NFILE)) : (setFd k fd o).proc =
    Function.update k.proc k.curproc { k.cur with ofile := Function.update k.cur.ofile fd o } := rfl

theorem setFd_holders (k : Kernel) (fd : Fin NOFILE) (o : Option (Fin NFILE)) (f : Fin NFILE) : (setFd k fd o).holders f + (if k.cur.ofile fd = some f then 1 else 0) =
    k.holders f + (if o = some f then 1 else 0) := by
  obtain ⟨x, hx⟩ : ∃ x : Proc, x = { k.cur with ofile := Function.update k.cur.ofile fd o } := ⟨_, rfl⟩
  have hproc : ∀ p, ((setFd k fd o).proc p).holds f =
      Function.update (fun q => (k.proc q).holds f) k.curproc (x.holds f) p := by
    intro p
    rw [setFd_proc, ← hx]
    by_cases hp : p = k.curproc
    · subst hp
      rw [Function.update_self, Function.update_self]
    · rw [Function.update_of_ne hp, Function.update_of_ne hp]
  have hsum := sum_update (fun q => (k.proc q).holds f) k.curproc (x.holds f)
  have hself := count_update (fun o : Option (Fin NFILE) => decide (o = some f)) k.cur.ofile fd o
  simp only [Bool.toNat, Bool.cond_decide] at hself
  have hcur : (k.proc k.curproc).holds f =
      Threads.count (fun o : Option (Fin NFILE) => decide (o = some f)) k.cur.ofile +
        if k.cur.swapFile = some f then 1 else 0 := rfl
  have hnew : x.holds f =
      Threads.count (fun o : Option (Fin NFILE) => decide (o = some f)) (Function.update k.cur.ofile fd o) +
        if k.cur.swapFile = some f then 1 else 0 := by
    rw [hx]
    rfl
  have hholds : (setFd k fd o).holders f =
      ∑ p, Function.update (fun q => (k.proc q).holds f) k.curproc (x.holds f) p :=
    Finset.sum_congr rfl fun p _ => hproc p
  rw [hholds]
  unfold Kernel.holders
  omega

theorem setFd_cwd (k : Kernel) (fd : Fin NOFILE) (o : Option (Fin NFILE)) (p : ProcId) :
    ((setFd k fd o).proc p).cwd = (k.proc p).cwd := by
  rw [setFd_proc]
  by_cases hp : p = k.curproc
  · subst hp
    rw [Function.update_self]
    rfl
  · rw [Function.update_of_ne hp]

theorem setFd_cwds : (setFd k fd o).cwds = k.cwds := by
  funext n
  unfold Kernel.cwds Threads.count
  split
  · rfl
  · refine Finset.sum_congr rfl fun p _ => ?_
    simp only [setFd_cwd]

theorem setFd_holders_ne {o : Option (Fin NFILE)} {f g : Fin NFILE} (hfd : k.cur.ofile fd = none ∨ k.cur.ofile fd = some f)
    (ho : o = none ∨ o = some f) (hg : g ≠ f) : (setFd k fd o).holders g = k.holders g := by
  have h := setFd_holders k fd o g
  have hne : ∀ {r : Option (Fin NFILE)}, r = none ∨ r = some f → r ≠ some g := by
    rintro r (rfl | rfl) heq
    · cases heq
    · exact hg (Option.some.inj heq).symm
  rwa [if_neg (hne hfd), if_neg (hne ho), Nat.add_zero, Nat.add_zero] at h

end setFd

section update

variable {k k' : Kernel} {p : ProcId} {x : Proc}

theorem cwds_eq (k : Kernel) {n : Nat} (hn : n ≠ 0) :
    k.cwds n = Threads.count (fun x : Proc => decide (x.cwd = n)) k.proc := if_neg hn

/-- Processes that are in a directory are counted. -/
theorem cwds_pos {n : Nat} (hn : n ≠ 0) (hp : (k.proc p).cwd = n) : 0 < k.cwds n := by
  rw [cwds_eq k hn]
  exact Threads.one_le_count (P := fun x : Proc => decide (x.cwd = n)) (i := p) (decide_eq_true hp)

theorem cwds_update (h : k'.proc = Function.update k.proc p x) {n : Nat} (hn : n ≠ 0) :
    k'.cwds n + (if (k.proc p).cwd = n then 1 else 0) = k.cwds n + if x.cwd = n then 1 else 0 := by
  have hcount := count_update (fun x : Proc => decide (x.cwd = n)) k.proc p x
  simp only [Bool.toNat, Bool.cond_decide] at hcount
  rw [cwds_eq k' hn, cwds_eq k hn, h]
  exact hcount

theorem holders_update (h : k'.proc = Function.update k.proc p x)
    (hholds : ∀ f, x.holds f = (k.proc p).holds f) : k'.holders = k.holders := by
  funext f
  unfold Kernel.holders
  refine Finset.sum_congr rfl fun q _ => ?_
  rw [h]
  by_cases hq : q = p
  · subst hq
    rw [Function.update_self]
    exact hholds f
  · rw [Function.update_of_ne hq]

end update

/-! ### The calls -/

namespace FilesOk

variable {chan : ProcId → Chan} {k k' : Kernel} {fs : Fs} {r : Int}

/-- A call that works on inodes only. -/
theorem withFs (h : FilesOk k)
    (hs : ∀ n I, Lasting I → (∀ m, Writes n I m) → Spares n I [] k.fs [] fs) : FilesOk { k with fs } := by
  refine ⟨h.counts.spared hs, h.init, fun f hf htype => ?_⟩
  have hfile := (hs ROOTINO _ lasting_used fun _ _ _ _ _ => id).files f
  replace hf : 0 < (fs.ftable f).ref := hf
  replace htype : (fs.ftable f).type = .FD_PIPE := htype
  show k.FrameOk (fs.ftable f).pipe
  rw [hfile] at hf htype ⊢
  exact h.pipes f hf htype

theorem closeFile_pipe {fs : Fs} {f g : Fin NFILE} (hg : 0 < ((fs.closeFile f).ftable g).ref)
    (htype : ((fs.closeFile f).ftable g).type = .FD_PIPE) :
    0 < (fs.ftable g).ref ∧ (fs.ftable g).type = .FD_PIPE ∧ ((fs.closeFile f).ftable g).pipe = (fs.ftable g).pipe := by
  have hiput : ∀ (fs : Fs) (n : Nat), (fs.iput n).ftable = fs.ftable := by
    intro fs n
    unfold Fs.iput
    simp only []
    split
    · rfl
    · rfl
  have hset : ∀ x : File, (fs.setFile f x).ftable g = if g = f then x else fs.ftable g := by
    intro x
    by_cases hgf : g = f
    · subst hgf
      simp [Fs.setFile]
    · simp [Fs.setFile, hgf]
  unfold Fs.closeFile at hg htype ⊢
  simp only [] at hg htype ⊢
  split at hg
  next hmore =>
    rw [if_pos hmore] at htype ⊢
    rw [hset] at hg htype ⊢
    by_cases hgf : g = f
    · subst hgf
      rw [if_pos rfl] at hg htype ⊢
      exact ⟨by omega, htype, rfl⟩
    · rw [if_neg hgf] at hg htype ⊢
      exact ⟨hg, htype, rfl⟩
  next hlast =>
    rw [if_neg hlast] at htype ⊢
    have hftable : ∀ c : Prop, [Decidable c] → ∀ (fs : Fs) (n : Nat), (if c then fs.iput n else fs).ftable = fs.ftable := by
      intro c _ fs n
      split
      · exact hiput fs n
      · rfl
    rw [hftable] at hg htype ⊢
    rw [hset] at hg htype ⊢
    by_cases hgf : g = f
    · rw [if_pos hgf] at hg
      exact absurd hg (Nat.lt_irrefl 0)
    · rw [if_neg hgf] at hg htype ⊢
      exact ⟨hg, htype, rfl⟩

/-- `fileclose` of a reference that nobody counts any more. -/
theorem fileclose {k1 : Kernel} {f : Fin NFILE} (h : FilesOk k) (hok : Paging.fileclose chan k1 f = .ok k')
    (hfs : k1.fs = k.fs) (hcwds : k1.cwds = k.cwds) (hinit : (k1.proc k1.initproc).cwd = ROOTINO)
    (hkend : k1.kend = k.kend) (hothers : ∀ g, g ≠ f → k1.holders g ≤ k.holders g)
    (hone : k1.holders f + 1 ≤ (k.fs.ftable f).ref) : FilesOk k' := by
  obtain ⟨-, hfs', honly⟩ := fileclose_ok hok
  rw [hfs] at hfs'
  refine ⟨?_, ?_, fun g hg htype => ?_⟩
  · rw [honly.holders, honly.cwds, hcwds, hfs']
    exact h.counts.closeFile hothers hone
  · rw [honly.initproc, honly.procs]
    exact hinit
  · rw [hfs'] at hg htype ⊢
    obtain ⟨hg, htype, hpipe⟩ := closeFile_pipe hg htype
    rw [hpipe]
    have hframe := h.pipes g hg htype
    unfold Kernel.FrameOk at hframe ⊢
    rw [honly.kend, hkend]
    exact hframe

theorem setFd_init (h : FilesOk k) {fd : Fin NOFILE} {o : Option (Fin NFILE)} :
    ((setFd k fd o).proc (setFd k fd o).initproc).cwd = ROOTINO :=
  (setFd_cwd k fd o k.initproc).trans h.init

theorem argfd_some {fd : Int} {i : Fin NOFILE} {f : Fin NFILE} (h : argfd k fd = some (i, f)) :
    k.cur.ofile i = some f := by
  unfold argfd at h
  split at h
  · simp only [Option.map_eq_some_iff] at h
    obtain ⟨g, hg, heq⟩ := h
    cases heq
    exact hg
  · cases h

theorem freeFd_some {fd : Fin NOFILE} (h : freeFd k = some fd) : k.cur.ofile fd = none := by
  have := List.find?_some h
  simpa using this

/-- A descriptor that a process has is counted. -/
theorem holders_pos {p : ProcId} {fd : Fin NOFILE} {f : Fin NFILE} (hfd : (k.proc p).ofile fd = some f) :
    0 < k.holders f := by
  have hone : 1 ≤ (k.proc p).holds f := by
    refine Nat.le_trans ?_ (Nat.le_add_right _ _)
    refine Threads.one_le_count (P := fun o : Option (Fin NFILE) => decide (o = some f)) (i := fd) ?_
    rw [hfd]
    exact decide_eq_true rfl
  refine Nat.lt_of_lt_of_le hone ?_
  exact Finset.single_le_sum (f := fun q => (k.proc q).holds f) (fun _ _ => Nat.zero_le _) (Finset.mem_univ p)

theorem sys_close (h : FilesOk k) {fd : Int} (hok : Paging.sys_close chan k fd = .ok (r, k')) : FilesOk k' := by
  unfold Paging.sys_close at hok
  split at hok
  · cases hok
    exact h
  next i f hfd =>
    rw [bind_eq_ok] at hok
    obtain ⟨k2, hclose, hok⟩ := hok
    cases hok
    have hof := argfd_some hfd
    refine h.fileclose hclose rfl setFd_cwds h.setFd_init rfl ?_ ?_
    · intro g hg
      have hsame : (setFd k i none).holders g = k.holders g := setFd_holders_ne (.inr hof) (.inl rfl) hg
      exact Nat.le_of_eq hsame
    · have hcount := setFd_holders k i none f
      simp only [hof, if_true, reduceCtorEq, if_false] at hcount
      have href := h.counts.refs f
      omega

theorem sys_dup (h : FilesOk k) {fd : Int} (hok : Paging.sys_dup k fd = .ok (r, k')) : FilesOk k' := by
  unfold Paging.sys_dup at hok
  split at hok
  · cases hok
    exact h
  next i f hfd =>
    split at hok
    · cases hok
      exact h
    next new hnew =>
      rw [bind_eq_ok] at hok
      obtain ⟨fs, hdup, hok⟩ := hok
      cases hok
      have hnone := freeFd_some hnew
      unfold Fs.filedup at hdup
      split at hdup
      · cases hdup
      next href =>
        cases hdup
        have hsame : ∀ n, ({ k.fs.ftable f with ref := (k.fs.ftable f).ref + 1 } : File).opens n =
            (k.fs.ftable f).opens n := FsOk.opens_eq (by simp only []; omega) rfl rfl
        refine ⟨?_, h.setFd_init, fun g hg htype => ?_⟩
        · show FsOk [] (setFd k new (some f)).holders (setFd k new (some f)).cwds _
          rw [setFd_cwds]
          refine h.counts.setFile ?_ ?_ ?_ ?_ ?_
          · intro g hg
            have hsame : (setFd k new (some f)).holders g = k.holders g := setFd_holders_ne (.inl hnone) (.inr rfl) hg
            exact Nat.le_of_eq hsame
          · have hcount := setFd_holders k new (some f) f
            simp only [hnone, if_true, reduceCtorEq, if_false] at hcount
            have := h.counts.refs f
            show _ ≤ (k.fs.ftable f).ref + 1
            omega
          · intro hzero
            simp only [] at hzero
            omega
          · intro n
            rw [hsame n]
          · intro n hn
            rw [hsame n] at hn
            have hcount := Threads.one_le_count (P := File.opens n) (i := f) hn
            exact h.counts.alive n (Nat.lt_of_lt_of_le hcount (Nat.le_add_right _ _))
        · replace hg : 0 < ((k.fs.setFile f { k.fs.ftable f with ref := (k.fs.ftable f).ref + 1 }).ftable g).ref := hg
          replace htype : ((k.fs.setFile f { k.fs.ftable f with ref := (k.fs.ftable f).ref + 1 }).ftable g).type = .FD_PIPE :=
            htype
          show k.FrameOk ((k.fs.setFile f { k.fs.ftable f with ref := (k.fs.ftable f).ref + 1 }).ftable g).pipe
          by_cases hgf : g = f
          · subst hgf
            simp only [Fs.setFile, Function.update_self] at htype ⊢
            exact h.pipes g (by omega) htype
          · simp only [Fs.setFile, Function.update_of_ne hgf] at hg htype ⊢
            exact h.pipes g hg htype

theorem filealloc_cases (fs : Fs) : fs.filealloc = (none, fs) ∨
    ∃ f, (fs.ftable f).ref = 0 ∧ fs.filealloc = (some f, fs.setFile f { fs.ftable f with ref := 1 }) := by
  unfold Fs.filealloc
  cases hfind : (List.finRange NFILE).find? fun f => (fs.ftable f).ref = 0 with
  | none => exact .inl rfl
  | some f => exact .inr ⟨f, by simpa using List.find?_some hfind, rfl⟩

theorem setFile_setFile (fs : Fs) (f : Fin NFILE) (x y : File) : (fs.setFile f x).setFile f y = fs.setFile f y := by
  unfold Fs.setFile
  rw [Function.update_idem]

theorem setFile_self {fs : Fs} {f : Fin NFILE} {x : File} (h : x = fs.ftable f) : fs.setFile f x = fs := by
  rw [h]
  unfold Fs.setFile
  rw [Function.update_eq_self]

theorem sys_open (h : FilesOk k) {path : List Char} {omode : Nat}
    (hok : Paging.sys_open chan k path omode = .ok (r, k')) : FilesOk k' := by
  unfold Paging.sys_open at hok
  rw [bind_eq_ok] at hok
  obtain ⟨⟨q, fs1⟩, hopen, hok⟩ := hok
  have hspares : ∀ n I, Lasting I → Spares n I [] k.fs (q.elim [] fun ip => [ip]) fs1 :=
    fun _ _ hI => Spares.openInode hI [] hopen
  cases q with
  | none =>
    cases hok
    exact h.withFs fun n I hI _ => hspares n I hI
  | some ip =>
    obtain ⟨h1, hip⟩ := h.counts.openInode hopen
    rcases filealloc_cases fs1 with hnone | ⟨f, hfree, hsome⟩
    · simp only [hnone, bind_eq_ok] at hok
      obtain ⟨fs2, hput, hok⟩ := hok
      cases hok
      exact h.withFs fun n I hI _ => (hspares n I hI).trans (.iunlockput hput)
    simp only [hsome] at hok
    split at hok
    · -- there is no descriptor left: the file is closed again
      simp only [bind_eq_ok] at hok
      obtain ⟨k3, hclose, fs4, hput, hok⟩ := hok
      cases hok
      obtain ⟨-, hfs3, honly⟩ := fileclose_ok hclose
      have hsame : (fs1.setFile f { fs1.ftable f with ref := 1 }).closeFile f = fs1 := by
        have hidle := h1.idle f hfree
        have hget : (fs1.setFile f { fs1.ftable f with ref := 1 }).ftable f = { fs1.ftable f with ref := 1 } := by
          simp [Fs.setFile]
        have htype : ¬ (fs1.ftable f).type = .FD_INODE := by
          rw [hidle]
          decide
        unfold Fs.closeFile
        simp only [hget, Nat.sub_self, Nat.lt_irrefl, if_false, htype]
        have hset := setFile_setFile fs1 f { fs1.ftable f with ref := 1 }
          { fs1.ftable f with ref := 0, type := .FD_NONE }
        refine hset.trans (setFile_self ?_)
        rw [← hfree, ← hidle]
      replace hfs3 : k3.fs = fs1 := hfs3.trans hsame
      rw [hfs3] at hput
      have h4 := h.withFs fun n I hI _ => (hspares n I hI).trans (.iunlockput hput)
      have honly4 : FilesOnly ({ k with fs := fs4 } : Kernel) { k3 with fs := fs4 } :=
        ⟨honly.procs, honly.curproc, honly.initproc, honly.kend, honly.locks⟩
      refine ⟨?_, ?_, fun g hg htype => ?_⟩
      · rw [honly4.holders, honly4.cwds]
        exact h4.counts
      · rw [honly4.initproc, honly4.procs]
        exact h4.init
      · rw [honly4.frameOk]
        exact h4.pipes g hg htype
    next fd hfd =>
      rw [bind_eq_ok] at hok
      obtain ⟨fs2, hunlock, hok⟩ := hok
      cases hok
      have hnone := freeFd_some hfd
      rw [Fs.iunlock_ok hunlock]
      obtain ⟨x, hx, hxref, hxip, hxtype⟩ : ∃ x : File, x = { (fs1.setFile f { fs1.ftable f with ref := 1 }).ftable f with
          type := .FD_INODE, ip, off := 0, readable := decide (omode &&& O_WRONLY = 0),
          writable := decide (omode &&& O_WRONLY ≠ 0 ∨ omode &&& O_RDWR ≠ 0) } ∧
          x.ref = 1 ∧ x.ip = ip ∧ x.type = .FD_INODE := ⟨_, rfl, by simp [Fs.setFile], rfl, rfl⟩
      rw [← hx, setFile_setFile]
      have hholders : (setFd k fd (some f)).holders f ≤ 1 := by
        have hcount := setFd_holders k fd (some f) f
        simp only [hnone, if_true, reduceCtorEq, if_false] at hcount
        have := h1.refs f
        omega
      have hothers : ∀ g, g ≠ f → (setFd k fd (some f)).holders g ≤ k.holders g := by
        intro g hg
        exact Nat.le_of_eq (setFd_holders_ne (.inl hnone) (.inr rfl) hg)
      refine ⟨?_, h.setFd_init, fun g hg htype => ?_⟩
      · show FsOk [] (setFd k fd (some f)).holders (setFd k fd (some f)).cwds _
        rw [setFd_cwds]
        exact h1.openFile hip hfree hothers hxref hxip hholders
      · replace hg : 0 < ((fs1.setFile f x).ftable g).ref := hg
        replace htype : ((fs1.setFile f x).ftable g).type = .FD_PIPE := htype
        show k.FrameOk ((fs1.setFile f x).ftable g).pipe
        by_cases hgf : g = f
        · subst hgf
          simp only [Fs.setFile, Function.update_self, hxtype] at htype
          cases htype
        · simp only [Fs.setFile, Function.update_of_ne hgf] at hg htype ⊢
          have hfile := (hspares ROOTINO _ lasting_used).files g
          rw [hfile] at hg htype ⊢
          exact h.pipes g hg htype

/-- Another process than the first one is not all that keeps the root directory. -/
theorem cwd_root (h : FilesOk k) (hother : k.curproc ≠ k.initproc) : [k.cur.cwd].count ROOTINO < k.cwds ROOTINO := by
  rw [List.count_singleton]
  by_cases hcur : k.cur.cwd = ROOTINO
  · simp only [hcur, beq_self_eq_true, if_true]
    rw [cwds_eq k (by decide)]
    exact Threads.two_le_count (P := fun x : Proc => decide (x.cwd = ROOTINO)) hother (decide_eq_true hcur)
      (decide_eq_true h.init)
  · simp only [beq_iff_eq, hcur, if_false]
    exact h.counts.rootRef

theorem chdir (h : FilesOk k) {path : List Char} (hlive : k.cur.cwd ≠ 0) (hother : k.curproc ≠ k.initproc)
    (hok : FsCall.run chan k (.chdir path) = .ok (r, k')) : FilesOk k' := by
  unfold FsCall.run at hok
  simp only [bind_eq_ok] at hok
  obtain ⟨⟨q, fs1⟩, hchdir, hok⟩ := hok
  cases q with
  | none =>
    cases hok
    refine h.withFs fun n I hI _ => ?_
    simp only [Fs.chdir, bind_eq_ok] at hchdir
    obtain ⟨⟨q, fs2⟩, hnamei, hchdir⟩ := hchdir
    have h1 : Spares n I [] k.fs _ fs2 := .namei hnamei
    cases q with
    | none =>
      cases hchdir
      exact h1
    | some ip =>
      simp only [bind_eq_ok] at hchdir
      obtain ⟨fs3, hlock, hchdir⟩ := hchdir
      split at hchdir
      · rw [bind_eq_ok] at hchdir
        obtain ⟨fs4, hput, hchdir⟩ := hchdir
        cases hchdir
        exact (h1.trans (.ilock hlock)).trans (.iunlockput hput)
      · rw [bind_eq_ok] at hchdir
        obtain ⟨fs4, -, hchdir⟩ := hchdir
        cases hchdir
  | some ip =>
    cases hok
    obtain ⟨k1, hk1, hproc, hinitproc⟩ : ∃ k1 : Kernel, k1 = ({ k with fs := fs1 } : Kernel).modCur (fun x =>
        { x with cwd := ip }) ∧ k1.proc = Function.update k.proc k.curproc { k.cur with cwd := ip } ∧
        k1.initproc = k.initproc := ⟨_, rfl, rfl, rfl⟩
    have hinit : k1.proc k.initproc = k.proc k.initproc := by
      rw [hproc, Function.update_of_ne (Ne.symm hother)]
    have hroot' : 0 < k1.cwds ROOTINO := cwds_pos (by decide) (by rw [hinit, h.init])
    have hcwd : 0 < k.cwds k.cur.cwd := cwds_pos hlive rfl
    have hC : ∀ n, k1.cwds n + [k.cur.cwd].count n ≤ k.cwds n + [ip].count n := by
      intro n
      rw [List.count_singleton, List.count_singleton]
      simp only [beq_iff_eq]
      by_cases hn : n = 0
      · subst hn
        rw [if_neg hlive]
        exact Nat.zero_le _
      · exact Nat.le_of_eq (cwds_update hproc hn)
    have hcounts := h.counts.chdir hcwd (h.cwd_root hother) hroot' hC hchdir
    have hfs : k1.fs = fs1 := by
      rw [hk1]
      rfl
    have hkend : k1.kend = k.kend := by
      rw [hk1]
      rfl
    rw [← hk1]
    refine ⟨?_, ?_, fun g hg htype => ?_⟩
    · rw [holders_update hproc fun _ => rfl, hfs]
      exact hcounts
    · rw [hinitproc, hinit]
      exact h.init
    · -- the open files are the same
      have hfile := (Spares.chdir (n := ROOTINO) (I := fun x => x.type ≠ .free) [] hchdir).1.files g
      rw [hfs] at hg htype ⊢
      rw [hfile] at hg htype ⊢
      have hframe := h.pipes g hg htype
      unfold Kernel.FrameOk at hframe ⊢
      rw [hkend]
      exact hframe

/-- Every call of a process that has not exited keeps the counts; the first
    process does not leave the root directory. -/
theorem call (h : FilesOk k) {c : FsCall} (hlive : k.cur.cwd ≠ 0)
    (hinit : ∀ path, c = .chdir path → k.curproc ≠ k.initproc) (hok : c.run chan k = .ok (r, k')) : FilesOk k' := by
  have hwith : ∀ {q : Result (Int × Fs)}, Paging.withFs k q = .ok (r, k') → ∃ fs, q = .ok (r, fs) ∧ k' = { k with fs } := by
    intro q hq
    cases q with
    | error e => cases hq
    | ok q =>
      cases hq
      exact ⟨q.2, rfl, rfl⟩
  cases c with
  | «open» path omode => exact h.sys_open hok
  | close fd => exact h.sys_close hok
  | dup fd => exact h.sys_dup hok
  | read fd n =>
    unfold FsCall.run sys_read at hok
    simp only [] at hok
    split at hok
    · cases hok
      exact h
    · rw [bind_eq_ok] at hok
      obtain ⟨⟨r, fs⟩, hread, hok⟩ := hok
      cases hok
      exact h.withFs fun _ _ _ _ => .fileread hread
  | write fd src n =>
    unfold FsCall.run sys_write at hok
    simp only [] at hok
    split at hok
    · cases hok
      exact h
    · split at hok
      · cases hok
        exact h
      · rw [bind_eq_ok] at hok
        obtain ⟨⟨r, fs⟩, hwrite, hok⟩ := hok
        cases hok
        exact h.withFs fun _ _ _ hw => .filewrite (hw _) hwrite
  | link old new =>
    obtain ⟨fs, hlink, rfl⟩ := hwith hok
    exact h.withFs fun _ _ hI _ => .link hI [] hlink
  | unlink path =>
    obtain ⟨fs, hunlink, rfl⟩ := hwith hok
    exact h.withFs fun _ _ hI _ => .unlink hI [] hunlink
  | mkdir path =>
    obtain ⟨fs, hmake, rfl⟩ := hwith hok
    exact h.withFs fun _ _ hI _ => .make hI [] (by decide) hmake
  | mknod path major =>
    obtain ⟨fs, hmake, rfl⟩ := hwith hok
    exact h.withFs fun _ _ hI _ => .make hI [] (by decide) hmake
  | chdir path => exact h.chdir hlive (hinit path rfl) hok

end FilesOk

end Paging
