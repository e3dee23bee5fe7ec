import OperatingSystem314.Paging.CopyMemory
import OperatingSystem314.Paging.Layout
import OperatingSystem314.Paging.SwapCopy
import OperatingSystem314.Paging.SwapCreate

/-! # When does `fork` return?

    `ForkState` collects what holds of the kernel whenever a process calls
    `fork`; `ForkSafe` is the condition under which the call returns (a
    new pid or `-1`).  The stages of `fork` are taken one by one: the swap
    file of the child, the pages, the open files, the copy of the swap
    file. -/

namespace Paging

/-! ### The kernel in which `fork` is called -/

structure ForkState (k : Kernel) : Prop where
  locks : k.locks = []
  live : k.cur.state ≠ .UNUSED
  pid : 0 < k.cur.pid ∧ k.cur.pid < k.nextpid
  free : FreeList k
  root : k.fs.RootOk
  dir : k.cur.pgdir ∉ k.freelist
  /-- no page of the process lies in a free frame -/
  taken : ∀ va x, k.walkpgdir k.cur.pgdir va = some x → x.p = true → x.ppn ∉ k.freelist
  ofile : ∀ i f, k.cur.ofile i = some f → 0 < (k.fs.ftable f).ref
  swapFile : k.cur.pid ≠ 1 ∧ k.cur.pid ≠ 2 → ∃ f, k.cur.swapFile = some f ∧ 0 < (k.fs.ftable f).ref ∧
    (k.fs.ftable f).type = .FD_INODE ∧ (k.fs.ftable f).readable = true ∧
    (k.fs.inode (k.fs.ftable f).ip).type = .T_FILE ∧
    (k.fs.inode (k.fs.ftable f).ip).size ≤ MAXFILE * BSIZE

/-! ### The condition -/

/-- Frames for the kernel stack, the directory, and the first `n` pages with their tables. -/
def childFrames (n : Nat) : Nat := 1 + KVMPAGES + framesFor n

/-- Every page is present, unless memory runs out before `copyuvm` gets to it. -/
def PagesCopyable (k : Kernel) : Prop :=
  ∀ j < npages k.cur.sz, (∀ i < j, PresentAt k k.cur.pgdir i) →
    PresentAt k k.cur.pgdir j ∨ k.freelist.length < childFrames j

/-- Size of the file `/.swap<pid>` when it exists already. -/
def oldSwapSize (fs : Fs) (pid : Nat) : Nat :=
  (Fs.findEntry (fs.inode ROOTINO) (swapEntry pid)).elim 0 fun e => (fs.inode e.1).size

/-- Blocks left after the swap file of process `pid` was created. -/
def blocksLeft (fs : Fs) (pid : Nat) : Nat :=
  fs.freeBlocks - (Fs.findEntry (fs.inode ROOTINO) (swapEntry pid)).elim
    (Fs.entryBlocks (fs.inode ROOTINO)) fun _ => 0

/-- There are blocks for a copy of the parent's swap file. -/
def SwapFileCopyable (k : Kernel) : Prop :=
  ∀ f, k.cur.swapFile = some f →
    let size := (k.fs.inode (k.fs.ftable f).ip).size
    nblocks (max (oldSwapSize k.fs k.nextpid) size) ≤
      nblocks (oldSwapSize k.fs k.nextpid) + blocksLeft k.fs k.nextpid

/-- `fork` fails at once, or each of its stages returns. -/
def ForkSafe (k : Kernel) : Prop :=
  freeProc k = none ∨ k.freelist = [] ∨
    (k.nextpid ≠ 1 ∧ k.nextpid ≠ 2 → SwapFileCreatable k.fs k.nextpid) ∧ PagesCopyable k ∧
    (childFrames (npages k.cur.sz) ≤ k.freelist.length → k.cur.pid ≠ 1 ∧ k.cur.pid ≠ 2 →
      SwapFileCopyable k)

/-! ### `allocproc` -/

/-- What `allocproc` leaves when it has found entry `np` and a stack. -/
structure Allocated (k k' : Kernel) (np : ProcId) (stack : Nat) (rest : List Nat) : Prop where
  only : OnlyProc np k k'
  freelist : k'.freelist = rest
  frame : k'.frame = k.frame
  pgdir : k'.pgdir = k.pgdir
  kend : k'.kend = k.kend
  kstack : (k'.proc np).kstack = stack
  pid : (k'.proc np).pid = k.nextpid
  files : (k.nextpid = 1 ∨ k.nextpid = 2) ∧ k'.fs = k.fs ∨
    ∃ f, (k'.proc np).swapFile = some f ∧ SwapFileCreated k.fs k'.fs k.nextpid f

/-- The kernel when `allocproc` has the entry and the stack. -/
def Kernel.claimed (k : Kernel) (np : ProcId) (stack : Nat) (rest : List Nat) : Kernel :=
  { k with nextpid := k.nextpid + 1, freelist := rest }.setProc np
    { k.proc np with state := .EMBRYO, pid := k.nextpid, kstack := stack }

theorem allocproc_eq {k : Kernel} {np : ProcId} {stack : Nat} {rest : List Nat}
    (hnp : freeProc k = some np) (hfree : k.freelist = stack :: rest) :
    allocproc k = (do
      let k ← initPaging (k.claimed np stack rest) np
      return (some np, k)) := by
  unfold allocproc
  simp only [hnp, kalloc, show ({ k with nextpid := k.nextpid + 1 }.setProc np
    { k.proc np with state := .EMBRYO, pid := k.nextpid }).freelist = stack :: rest from hfree]
  congr 2
  unfold Kernel.claimed Kernel.setProc
  simp

theorem allocproc_allocated {k : Kernel} {np : ProcId} {stack : Nat} {rest : List Nat}
    (hlocks : k.locks = []) (hroot : k.fs.RootOk) (hnp : freeProc k = some np)
    (hfree : k.freelist = stack :: rest)
    (hc : k.nextpid ≠ 1 ∧ k.nextpid ≠ 2 → SwapFileCreatable k.fs k.nextpid) :
    ∃ k', allocproc k = .ok (some np, k') ∧ Allocated k k' np stack rest := by
  rw [allocproc_eq hnp hfree]
  set k1 := k.claimed np stack rest with hk1
  have hnp1 : k1.proc np = { k.proc np with state := .EMBRYO, pid := k.nextpid, kstack := stack } :=
    Kernel.setProc_self _ _ _
  have honly : OnlyProc np k k1 := by
    refine ⟨rfl, rfl, fun p hp => ?_⟩
    exact Kernel.setProc_ne _ _ hp
  unfold initPaging
  by_cases hpid : k.nextpid ≠ 1 ∧ k.nextpid ≠ 2
  · rw [if_pos (by rwa [hnp1])]
    obtain ⟨fs', f, hok, hcreated⟩ := createSwapFile_eq (k := k1) (p := np) hroot (by rw [hnp1]; exact hc hpid)
    rw [hnp1] at hcreated
    simp only [hok, ok_bind]
    rw [cprintf_ok (by exact hlocks), ok_bind, cprintf_ok (by exact hlocks), ok_bind, pure_eq_ok, ok_bind]
    refine ⟨_, rfl, ?_, rfl, rfl, rfl, rfl, ?_, ?_, .inr ⟨f, ?_, hcreated⟩⟩
    · exact ((honly.trans (.of_fs rfl)).trans (.setProc _ _)).trans (.setProc _ _)
    · simp [Proc.resetPaging, hnp1]
    · simp [Proc.resetPaging, hnp1]
    · simp [Proc.resetPaging]
  · rw [if_neg (by rwa [hnp1]), ok_bind]
    refine ⟨_, rfl, honly, rfl, rfl, rfl, rfl, ?_, ?_, .inl ⟨by omega, rfl⟩⟩
    · rw [hnp1]
    · rw [hnp1]

/-- Without room for the swap file `allocproc` does not return. -/
theorem allocproc_panics {k : Kernel} {np : ProcId} {stack : Nat} {rest : List Nat}
    (hroot : k.fs.RootOk) (hnp : freeProc k = some np) (hfree : k.freelist = stack :: rest)
    (hpid : k.nextpid ≠ 1 ∧ k.nextpid ≠ 2) (hc : ¬ SwapFileCreatable k.fs k.nextpid)
    (r : Option ProcId × Kernel) : allocproc k ≠ .ok r := by
  rw [allocproc_eq hnp hfree]
  set k1 := k.claimed np stack rest with hk1
  have hnp1 : (k1.proc np).pid = k.nextpid := by
    rw [hk1, Kernel.claimed, Kernel.setProc_self]
  intro hok
  unfold initPaging at hok
  rw [if_pos (by rwa [hnp1])] at hok
  simp only [bind_eq_ok] at hok
  obtain ⟨k2, ⟨k3, hcreate, -⟩, -⟩ := hok
  have hroom := (createSwapFile_returns (k := k1) (p := np) hroot).mp ⟨k3, hcreate⟩
  rw [hnp1] at hroom
  exact hc hroom

/-! ### `copyuvm` -/

/-- The pages of directory `d` are those of `pg`, in frames of their own. -/
def CopiedPages (k k' : Kernel) (d pg n : Nat) : Prop :=
  ∀ i < n, ∃ x f, k.walkpgdir pg (i * PGSIZE) = some x ∧ x.p = true ∧
    k'.walkpgdir d (i * PGSIZE) = some { x with ppn := f } ∧ k'.frame f = k.frame x.ppn

theorem framesFor_mono {a b : Nat} (h : a ≤ b) : framesFor a ≤ framesFor b := by
  unfold framesFor tablesFor
  omega

/-- `copyuvm` succeeds, runs out of memory, or comes to a page that is not present. -/
theorem copyuvm_cases {k : Kernel} (hf : FreeList k) {pg : Nat} (hpg : pg ∉ k.freelist)
    (htaken : ∀ va x, k.walkpgdir pg va = some x → x.p = true → x.ppn ∉ k.freelist) (sz : Nat) :
    (∃ d k', copyuvm k pg sz = .ok (some d, k') ∧ KVMPAGES + framesFor (npages sz) ≤ k.freelist.length ∧
        (∀ i < npages sz, PresentAt k pg i) ∧ CopiedPages k k' d pg (npages sz)) ∨
    (∃ k', copyuvm k pg sz = .ok (none, k') ∧ k.freelist.length < KVMPAGES + framesFor (npages sz) ∧
        ∀ j < npages sz, (∀ i < j, PresentAt k pg i) →
          PresentAt k pg j ∨ k.freelist.length < KVMPAGES + framesFor j) ∨
    (∃ j < npages sz, ¬ PresentAt k pg j ∧ (∀ i < j, PresentAt k pg i) ∧
        KVMPAGES + framesFor j ≤ k.freelist.length ∧ ∀ r, copyuvm k pg sz ≠ .ok r) := by
  by_cases hlen : k.freelist.length < KVMPAGES
  · right
    left
    obtain ⟨k', hk'⟩ := setupkvm_short hf hlen
    refine ⟨k', ?_, by omega, fun j _ _ => .inr (by omega)⟩
    unfold copyuvm
    rw [hk', ok_bind]
    rfl
  · obtain ⟨d, rest, hfree, hsetup⟩ := setupkvm_eq (Nat.le_of_not_lt hlen)
    set k0 : Kernel := { k with
      freelist := rest.drop NKERNTABLES
      pgdir := Function.update k.pgdir d { kern := rest.take NKERNTABLES, pde := fun _ => none } } with hk0
    have hd : d ∈ k.freelist := by simp [hfree]
    have hne : pg ≠ d := by
      rintro rfl
      exact hpg hd
    have hwalk : ∀ va, k0.walkpgdir pg va = k.walkpgdir pg va := by
      intro va
      simp [hk0, Kernel.walkpgdir, hne]
    have hpresent : ∀ i, PresentAt k0 pg i ↔ PresentAt k pg i := by
      intro i
      unfold PresentAt
      rw [hwalk]
    have hsub : ∀ f, f ∈ k0.freelist → f ∈ k.freelist := by
      intro f hfin
      rw [hfree]
      exact List.mem_cons_of_mem _ (List.mem_of_mem_drop hfin)
    have hfree0 : k0.freelist = k.freelist.drop KVMPAGES := by
      rw [hfree, KVMPAGES, Nat.add_comm, List.drop_succ_cons]
    have hlen0 : k0.freelist.length = k.freelist.length - KVMPAGES := by
      rw [hfree0, List.length_drop]
    have hstart : CopyStart k0 d pg := by
      refine ⟨hf.of_drop ⟨_, _, _, rfl⟩ hfree0, hf.frames d hd, hne, ?_, ?_, ?_⟩
      · intro f hfin
        simp only [hk0, Function.update_self] at hfin
        apply hf.frames
        rw [hfree]
        exact List.mem_cons_of_mem _ (List.mem_of_mem_take hfin)
      · intro i
        simp [hk0]
      · intro va x hx hp hmem
        rw [hwalk] at hx
        exact htaken va x hx hp (hsub _ hmem)
    have hrun : copyuvm k pg sz = copyLoop d pg (pagesFrom 0 (npages sz)) k0 := by
      unfold copyuvm
      rw [hsetup, ok_bind]
      simp only [pageRange_zero]
    rw [hrun]
    have h0 := hstart.copying
    rcases h0.copyLoop (m := npages sz) hstart (Nat.zero_le _) with
      ⟨k', hk', hcopied, hfit⟩ | ⟨j, k', -, hj, hshort, hall, hk'⟩ | ⟨j, -, hj, hbad, hfit, hall, hk'⟩
    · left
      rw [Nat.zero_add] at hcopied hfit
      refine ⟨d, k', hk', by omega, ?_, ?_⟩
      · intro i hi
        obtain ⟨x, f, hx, hp, -⟩ := hcopied.copied i hi
        exact (hpresent i).mp ⟨x, hx, hp⟩
      · intro i hi
        obtain ⟨x, f, hx, hp, hwalk', -, -, hframe⟩ := hcopied.copied i hi
        exact ⟨x, f, by rwa [← hwalk], hp, hwalk', hframe⟩
    · right
      left
      refine ⟨k', hk', ?_, ?_⟩
      · have := framesFor_mono (show j + 1 ≤ npages sz by omega)
        omega
      · intro i hi hprev
        by_cases hij : i ≤ j
        · exact .inl ((hpresent i).mp (hall i (Nat.zero_le i) hij))
        · right
          have := framesFor_mono (show j + 1 ≤ i by omega)
          omega
    · right
      right
      refine ⟨j, by omega, fun hp => hbad ((hpresent j).mpr hp), ?_, by omega, hk'⟩
      intro i hi
      exact (hpresent i).mp (hall i (Nat.zero_le i) hi)

/-! ### The open files -/

/-- The file system with other reference counts of open files. -/
def Fs.withRefs (fs : Fs) (ref : Fin NFILE → Nat) : Fs :=
  { fs with ftable := fun g => { fs.ftable g with ref := ref g } }

/-- More references to the same open files. -/
def MoreRefs (fs fs' : Fs) : Prop :=
  ∃ ref : Fin NFILE → Nat, fs' = fs.withRefs ref ∧ ∀ g, (fs.ftable g).ref ≤ ref g

theorem filedup_more {fs fs1 : Fs} {f : Fin NFILE} (h : MoreRefs fs fs1) (hf : 0 < (fs.ftable f).ref) :
    ∃ fs2, fs1.filedup f = .ok fs2 ∧ MoreRefs fs fs2 := by
  obtain ⟨ref, rfl, hle⟩ := h
  have hpos := hle f
  have href : ((fs.withRefs ref).ftable f).ref = ref f := rfl
  unfold Fs.filedup
  rw [if_neg (by omega)]
  refine ⟨_, rfl, Function.update ref f (ref f + 1), ?_, ?_⟩
  · simp only [Fs.withRefs, Fs.setFile, Fs.mk.injEq, true_and, and_true]
    funext g
    by_cases hg : g = f
    · subst hg
      simp
    · simp [hg]
  · intro g
    by_cases hg : g = f
    · subst hg
      simp only [Function.update_self]
      omega
    · rw [Function.update_of_ne hg]
      exact hle g

/-- `filedup` of the open descriptors changes reference counts only. -/
theorem dupFiles_returns {fs : Fs} {ofile : Fin NOFILE → Option (Fin NFILE)}
    (h : ∀ i f, ofile i = some f → 0 < (fs.ftable f).ref) :
    ∃ fs', dupFiles ofile fs = .ok fs' ∧ MoreRefs fs fs' := by
  unfold dupFiles
  apply foldlM_returns
  · intro fs1 i _ h1
    cases hi : ofile i with
    | none => exact ⟨fs1, rfl, h1⟩
    | some f => exact filedup_more h1 (h i f hi)
  · exact ⟨fun g => (fs.ftable g).ref, rfl, fun _ => Nat.le_refl _⟩

/-! ### The child -/

/-- The open files of the parent are still open when the child is made. -/
theorem Allocated.ofile {k k1 : Kernel} {np : ProcId} {stack : Nat} {rest : List Nat}
    (ha : Allocated k k1 np stack rest) {f : Fin NFILE} (hf : 0 < (k.fs.ftable f).ref) :
    k1.fs.ftable f = k.fs.ftable f := by
  rcases ha.files with ⟨-, hfs⟩ | ⟨g, -, hcreated⟩
  · rw [hfs]
  · apply hcreated.others
    rintro rfl
    rw [hcreated.unused] at hf
    exact absurd hf (by decide)

/-- The two swap files, when `fork` comes to copy one to the other. -/
theorem Allocated.copyFiles {k k1 : Kernel} {np : ProcId} {stack : Nat} {rest : List Nat} {fs : Fs}
    {f g : Fin NFILE} (ha : Allocated k k1 np stack rest) (hcreated : SwapFileCreated k.fs k1.fs k.nextpid g)
    (hmore : MoreRefs k1.fs fs) (href : 0 < (k.fs.ftable f).ref)
    (htype : (k.fs.ftable f).type = .FD_INODE) (hread : (k.fs.ftable f).readable = true)
    (hfile : (k.fs.inode (k.fs.ftable f).ip).type = .T_FILE)
    (hfits : (k.fs.inode (k.fs.ftable f).ip).size ≤ MAXFILE * BSIZE) (cwd : Nat) :
    CopyFiles (fs.idup cwd) f g (k.fs.inode (k.fs.ftable f).ip).size 0 ∧
      (CopyRoom (fs.idup cwd) g (k.fs.inode (k.fs.ftable f).ip).size ↔
        nblocks (max (oldSwapSize k.fs k.nextpid) (k.fs.inode (k.fs.ftable f).ip).size) ≤
          nblocks (oldSwapSize k.fs k.nextpid) + blocksLeft k.fs k.nextpid) := by
  obtain ⟨ref, rfl, -⟩ := hmore
  have hf1 := ha.ofile href
  have hf : ((k1.fs.withRefs ref).idup cwd).ftable f = { k.fs.ftable f with ref := ref f } := by
    show ({ k1.fs.ftable f with ref := ref f } : File) = _
    rw [hf1]
  have hg : ((k1.fs.withRefs ref).idup cwd).ftable g = { k1.fs.ftable g with ref := ref g } := rfl
  have hinode : ∀ n, ((k1.fs.withRefs ref).idup cwd).inode n = k1.fs.inode n := fun _ => rfl
  have hkeep := hcreated.keeps _ hfile
  refine ⟨⟨?_, ?_, ?_, ?_, ?_, hfits, ?_, ?_, ?_, Nat.zero_le _, Nat.zero_le _⟩, ?_⟩
  · rintro rfl
    rw [hcreated.unused] at href
    exact absurd href (by decide)
  · rw [hf]; exact htype
  · rw [hf]; exact hread
  · rw [hf, hinode, hkeep]; exact hfile
  · rw [hf, hinode, hkeep]
  · rw [hg]; exact hcreated.isInode
  · rw [hg]; exact hcreated.writable
  · rw [hg]; exact hcreated.isFile
  · unfold CopyRoom
    rw [hg, hinode, hcreated.size]
    show _ ≤ _ + k1.fs.freeBlocks ↔ _
    rw [hcreated.blocks]
    exact Iff.rfl

theorem forkChild_returns {k k1 k2 : Kernel} {np : ProcId} {stack : Nat} {rest : List Nat}
    (h : ForkState k) (hne : k.curproc ≠ np) (ha : Allocated k k1 np stack rest) (hm : OnlyMem k1 k2)
    (d : Nat) : (∃ r k', forkChild k2 np d = .ok (r, k')) ↔
      (k.cur.pid ≠ 1 ∧ k.cur.pid ≠ 2 → SwapFileCopyable k) := by
  have hcur2 : k2.cur = k.cur := by rw [hm.cur, ha.only.cur hne]
  have hlocks2 : k2.locks = [] := by rw [hm.locks, ha.only.locks, h.locks]
  have hproc2 : k2.proc np = k1.proc np := by rw [hm.proc]
  have hopen : ∀ i f, k.cur.ofile i = some f → 0 < (k1.fs.ftable f).ref := by
    intro i f hi
    rw [ha.ofile (h.ofile i f hi)]
    exact h.ofile i f hi
  obtain ⟨fs, hdup, hmore⟩ := dupFiles_returns hopen
  unfold forkChild
  set k3 := k2.setProc np ((k2.proc np).childOf k2.cur k2.curproc d) with hk3
  have h3 : OnlyProc np k2 k3 := .setProc _ _
  have hne2 : k2.curproc ≠ np := by rwa [hm.curproc, ha.only.curproc]
  have hcur3 : k3.cur = k.cur := by rw [h3.cur hne2, hcur2]
  have hfs3 : k3.fs = k1.fs := hm.fs
  simp only [hcur3, hfs3, hdup, ok_bind]
  set k4 : Kernel := { k3 with fs := fs.idup k.cur.cwd } with hk4
  have hcur4 : k4.cur = k.cur := hcur3
  rw [hcur4]
  by_cases hpid : k.cur.pid ≠ 1 ∧ k.cur.pid ≠ 2
  · rw [if_pos hpid]
    obtain ⟨f, hf, href, htype, hread, hfile, hfits⟩ := h.swapFile hpid
    have hpos := h.pid
    rcases ha.files with ⟨hearly, -⟩ | ⟨g, hg, hcreated⟩
    · omega
    obtain ⟨hcopy, hroom⟩ := ha.copyFiles hcreated hmore href htype hread hfile hfits k.cur.cwd
    set k5 := k4.setProc np ((k4.proc np).copyPaging k.cur) with hk5
    have h5 : OnlyProc np k4 k5 := .setProc _ _
    have hcur5 : k5.cur = k.cur := by
      rw [h5.cur (show k4.curproc ≠ np from hne2), hcur4]
    have hg5 : (k5.proc np).swapFile = some g := by
      rw [hk5, Kernel.setProc_self]
      show (k4.proc np).swapFile = some g
      rw [show k4.proc np = (k2.proc np).childOf k2.cur k2.curproc d from Kernel.setProc_self _ _ _, hproc2]
      exact hg
    have hreturns := copySwapFile_returns (k := k5) hlocks2 (by rw [hcur5]; exact hf) hg5 hcopy
    constructor
    · rintro ⟨r, k', hok⟩ _ f' hf'
      rw [hf] at hf'
      cases hf'
      simp only [bind_eq_ok] at hok
      obtain ⟨k6, hk6, -⟩ := hok
      exact hroom.mp (hreturns.mp ⟨k6, hk6⟩)
    · intro hall
      obtain ⟨k6, hk6⟩ := hreturns.mpr (hroom.mpr (hall hpid f hf))
      rw [hk6]
      exact ⟨_, _, rfl⟩
  · rw [if_neg hpid]
    constructor
    · intro _ habs
      exact absurd habs hpid
    · intro _
      exact ⟨_, _, rfl⟩

/-! ### `fork` -/

/-- `forkChild` returns the pid of the child. -/
theorem forkChild_pid {k k' : Kernel} {np : ProcId} {d : Nat} {r : Int}
    (h : forkChild k np d = .ok (r, k')) : r = (k.proc np).pid := by
  simp only [forkChild, bind_eq_ok] at h
  obtain ⟨fs, -, h⟩ := h
  split at h
  all_goals
    rw [bind_eq_ok] at h
    obtain ⟨k1, -, h⟩ := h
    cases h
    simp [Proc.childOf]

/-- The kernel in which `copyuvm` is called. -/
theorem Allocated.copyuvm_cases {k k1 : Kernel} {np : ProcId} {stack : Nat} {rest : List Nat}
    (h : ForkState k) (ha : Allocated k k1 np stack rest) (hfree : k.freelist = stack :: rest) :
    (∃ d k2, copyuvm k1 k.cur.pgdir k.cur.sz = .ok (some d, k2) ∧
        childFrames (npages k.cur.sz) ≤ k.freelist.length ∧
        (∀ i < npages k.cur.sz, PresentAt k k.cur.pgdir i) ∧
        CopiedPages k k2 d k.cur.pgdir (npages k.cur.sz)) ∨
    (∃ k2, copyuvm k1 k.cur.pgdir k.cur.sz = .ok (none, k2) ∧
        k.freelist.length < childFrames (npages k.cur.sz) ∧ PagesCopyable k) ∨
    (¬ PagesCopyable k ∧ ∀ r, copyuvm k1 k.cur.pgdir k.cur.sz ≠ .ok r) := by
  have hlen : k.freelist.length = rest.length + 1 := by rw [hfree, List.length_cons]
  have hsub : ∀ f, f ∈ k1.freelist → f ∈ k.freelist := by
    intro f hf
    rw [ha.freelist] at hf
    rw [hfree]
    exact List.mem_cons_of_mem _ hf
  have hwalk : ∀ d va, k1.walkpgdir d va = k.walkpgdir d va := by
    intro d va
    unfold Kernel.walkpgdir
    rw [ha.pgdir]
  have hpresent : ∀ i, PresentAt k1 k.cur.pgdir i ↔ PresentAt k k.cur.pgdir i := by
    intro i
    unfold PresentAt
    rw [hwalk]
  have hf1 : FreeList k1 := by
    refine ⟨?_, ?_, ?_⟩
    · rw [ha.kend]
      exact h.free.pos
    · intro f hf
      unfold Kernel.FrameOk
      rw [ha.kend]
      exact h.free.frames f (hsub f hf)
    · have hnd := h.free.nodup
      rw [hfree] at hnd
      rw [ha.freelist]
      exact (List.nodup_cons.mp hnd).2
  have htaken : ∀ va x, k1.walkpgdir k.cur.pgdir va = some x → x.p = true → x.ppn ∉ k1.freelist := by
    intro va x hx hp hmem
    rw [hwalk] at hx
    exact h.taken va x hx hp (hsub _ hmem)
  have hcases := Paging.copyuvm_cases hf1 (fun hmem => h.dir (hsub _ hmem)) htaken k.cur.sz
  rw [ha.freelist] at hcases
  simp only [hpresent] at hcases
  rcases hcases with ⟨d, k2, hok, hfit, hall, hcopied⟩ | ⟨k2, hok, hshort, hpages⟩ | ⟨j, hj, hbad, hall, hfit, hno⟩
  · left
    refine ⟨d, k2, hok, ?_, hall, ?_⟩
    · unfold childFrames
      omega
    · intro i hi
      obtain ⟨x, f, hx, hp, hwalk2, hframe⟩ := hcopied i hi
      exact ⟨x, f, by rwa [← hwalk], hp, hwalk2, by rw [hframe, ha.frame]⟩
  · right
    left
    refine ⟨k2, hok, ?_, ?_⟩
    · unfold childFrames
      omega
    · intro i hi hprev
      rcases hpages i hi hprev with hp | hlt
      · exact .inl hp
      · right
        unfold childFrames
        omega
  · right
    right
    refine ⟨?_, hno⟩
    intro hpages
    rcases hpages j hj hall with hp | hlt
    · exact hbad hp
    · unfold childFrames at hlt
      omega

/-- `fork` returns a new pid or `-1` just when it is safe. -/
theorem fork_returns_iff {k : Kernel} (h : ForkState k) :
    (∃ r k', fork k = .ok (r, k') ∧ (r = -1 ∨ r = k.nextpid)) ↔ ForkSafe k := by
  unfold ForkSafe
  cases hnp : freeProc k with
  | none =>
    have hok : fork k = .ok (-1, k) := by
      unfold fork allocproc
      simp only [hnp, ok_bind]
      rfl
    simp only [true_or, iff_true]
    exact ⟨-1, k, hok, .inl rfl⟩
  | some np =>
    have hne : k.curproc ≠ np := by
      intro heq
      have hunused := freeProc_unused hnp
      rw [← heq] at hunused
      exact h.live hunused
    cases hfree : k.freelist with
    | nil =>
      simp only [true_or, or_true, iff_true]
      have hok : ∃ k', allocproc k = .ok (none, k') := by
        unfold allocproc
        simp only [hnp, kalloc, show ({ k with nextpid := k.nextpid + 1 }.setProc np
          { k.proc np with state := .EMBRYO, pid := k.nextpid }).freelist = [] from hfree]
        exact ⟨_, rfl⟩
      obtain ⟨k', hok⟩ := hok
      refine ⟨-1, k', ?_, .inl rfl⟩
      unfold fork
      rw [hok]
      rfl
    | cons stack rest =>
      simp only [reduceCtorEq, false_or]
      by_cases hc : k.nextpid ≠ 1 ∧ k.nextpid ≠ 2 → SwapFileCreatable k.fs k.nextpid
      · obtain ⟨k1, halloc, ha⟩ := allocproc_allocated h.locks h.root hnp hfree hc
        have hcur1 : k1.cur = k.cur := ha.only.cur hne
        unfold fork
        rw [halloc, ok_bind]
        simp only [hcur1]
        rw [← hfree]
        rcases ha.copyuvm_cases h hfree with
          ⟨d, k2, hcopy, hfit, hall, -⟩ | ⟨k2, hcopy, hshort, hpages⟩ | ⟨hbad, hno⟩
        · -- every page is copied: what is left is the swap file
          have hm := copyuvm_mem hcopy
          have hpages : PagesCopyable k := fun j hj _ => .inl (hall j hj)
          have hchild := forkChild_returns h hne ha hm d
          rw [hcopy, ok_bind]
          constructor
          · rintro ⟨r, k', hok, -⟩
            exact ⟨hc, hpages, fun _ => hchild.mp ⟨r, k', hok⟩⟩
          · rintro ⟨-, -, hswap⟩
            obtain ⟨r, k', hok⟩ := hchild.mpr (hswap hfit)
            refine ⟨r, k', hok, .inr ?_⟩
            rw [forkChild_pid hok, hm.proc, ha.pid]
        · -- memory runs out: the stack is given back
          have hm := copyuvm_mem hcopy
          have hstack : k2.FrameOk (k2.proc np).kstack := by
            rw [hm.proc, ha.kstack, hm.frameOk]
            unfold Kernel.FrameOk
            rw [ha.kend]
            exact h.free.frames stack (by simp [hfree])
          rw [hcopy, ok_bind]
          simp only [kfree_eq hstack, ok_bind]
          constructor
          · intro _
            exact ⟨hc, hpages, fun hfit => by omega⟩
          · intro _
            exact ⟨_, _, rfl, .inl rfl⟩
        · constructor
          · rintro ⟨r, k', hok, -⟩
            rw [bind_eq_ok] at hok
            obtain ⟨r', hr', -⟩ := hok
            exact absurd hr' (hno r')
          · rintro ⟨-, hpages, -⟩
            exact absurd hpages hbad
      · constructor
        · rintro ⟨r, k', hok, -⟩
          unfold fork at hok
          rw [bind_eq_ok] at hok
          obtain ⟨r', hr', -⟩ := hok
          have hpid : k.nextpid ≠ 1 ∧ k.nextpid ≠ 2 := by
            by_contra hn
            exact hc fun habs => absurd habs hn
          have hno : ¬ SwapFileCreatable k.fs k.nextpid := fun hcre => hc fun _ => hcre
          exact absurd hr' (allocproc_panics h.root hnp hfree hpid hno r')
        · rintro ⟨hcre, -⟩
          exact absurd hcre hc

/-! ### Concrete kernels -/

/-- A frame that a page lies in is not free. -/
theorem Mem.taken {g : Nat} {v : MemView} {lim : Nat} {q s : List Nat} {m : Nat → UInt8}
    (h : Mem g v lim q s m) {va : Nat} {x : Pte} (hx : v.walk va = some x) (hp : x.p = true) :
    x.ppn ∉ v.freelist := by
  rw [← MemView.walk_PTE_ADDR] at hx
  by_cases hlim : PTE_ADDR va < lim
  · have hmem := (h.pages _).mpr ⟨PTE_ADDR_aligned va, hlim⟩
    rcases List.mem_append.mp hmem with hq | hs
    · obtain ⟨y, hy⟩ := h.resident _ hq
      rw [hy.walk] at hx
      cases hx
      exact hy.taken
    · rw [h.swapped _ hs] at hx
      cases hx
      cases hp
  · rcases h.unmapped _ (PTE_ADDR_aligned va) (Nat.le_of_not_lt hlim) with hnone | hzero
    · rw [hnone] at hx
      cases hx
    · rw [hzero] at hx
      cases hx
      cases hp

open Layout

section layout

variable {g : Nat} {q s : List Nat} {m : Nat → UInt8}

/-- A process of a layout may call `fork`. -/
theorem layout_forkState (h : Paged g (layout g q s m) ((q ++ s).length * PGSIZE) q s m) :
    ForkState (layout g q s m) where
  locks := rfl
  live := nofun
  pid := ⟨show 0 < 3 by decide, show 3 < 4 by decide⟩
  free := ⟨show 0 < DIR by decide, h.mem.freeOk, h.mem.free⟩
  root := ⟨show 0 < 3 by decide, rfl, rfl⟩
  dir := by
    intro hmem
    have hle : FREE ≤ DIR := (mem_freeFrames.mp hmem).1
    exact absurd hle (by decide)
  taken := fun va x hx hp => h.mem.taken hx hp
  ofile := nofun
  swapFile := by
    intro _
    refine ⟨0, rfl, show 0 < 1 by decide, rfl, rfl, rfl, ?_⟩
    show s.length * PGSIZE ≤ MAXFILE * BSIZE
    exact (Nat.mul_le_mul_right PGSIZE h.slots.1).trans (by decide)

set_option maxRecDepth 4000 in
/-- Only the root and the swap file are cached. -/
theorem layout_cached : (layout g q s m).fs.cached = 2 := by
  unfold Fs.cached
  show (List.range 200).countP (fun n => 0 < if n = ROOTINO then 3 else if n = SWAPINO then 1 else 0) = 2
  decide

/-- The fourth entry of the root directory fits into its block. -/
theorem layout_entryBlocks : Fs.entryBlocks ((layout g q s m).fs.inode ROOTINO) = 0 := by
  unfold Fs.entryBlocks
  rw [show Fs.freeEntry ((layout g q s m).fs.inode ROOTINO) = 3 from rfl,
    show ((layout g q s m).fs.inode ROOTINO).dents.length = 3 from rfl]
  decide

theorem layout_creatable : SwapFileCreatable (layout g q s m).fs 4 := by
  have hfind : Fs.findEntry ((layout g q s m).fs.inode ROOTINO) (swapEntry 4) = none := rfl
  have hfree : (layout g q s m).fs.freeInode = some 2 := rfl
  refine ⟨?_, 1, rfl⟩
  unfold Fs.Creatable
  rw [hfind]
  refine ⟨⟨2, hfree, .inr ?_⟩, .inr ⟨?_, ?_⟩⟩
  · rw [layout_cached]
    decide
  · show 16 * 4 ≤ MAXFILE * BSIZE
    decide
  · rw [layout_entryBlocks]
    exact Nat.zero_le _

end layout

theorem fork_returns_threePages :
    (∃ r k', fork threePages = .ok (r, k') ∧ (r = -1 ∨ r = threePages.nextpid)) ↔ ForkSafe threePages :=
  fork_returns_iff (layout_forkState threePages_paged)

/-- Someone has made a directory with the name of the next swap file. -/
def nameTaken : Kernel :=
  { threePages with fs := { threePages.fs with
    inode := fun n =>
      if n = ROOTINO then { threePages.fs.inode ROOTINO with
        dents := (threePages.fs.inode ROOTINO).dents ++ [⟨6, swapEntry 4⟩] }
      else if n = 6 then
        { type := .T_DIR, major := 0, nlink := 1, size := 0, data := fun _ => 0
          dents := [⟨6, ['.']⟩, ⟨1, ['.', '.']⟩] }
      else threePages.fs.inode n } }

theorem nameTaken_forkState : ForkState nameTaken := by
  obtain ⟨hlocks, hlive, hpid, hfree, -, hdir, htaken, hofile, -⟩ := layout_forkState threePages_paged
  refine ⟨hlocks, hlive, hpid, ⟨hfree.pos, hfree.frames, hfree.nodup⟩, ⟨by decide, rfl, rfl⟩, hdir, htaken,
    hofile, fun _ => ⟨0, rfl, by decide, rfl, rfl, rfl, Nat.zero_le _⟩⟩

/-- `create` returns a null pointer, and `iunlock` panics. -/
theorem fork_not_returns : ¬ ∀ k : Kernel, ForkState k →
    ∃ r k', fork k = .ok (r, k') ∧ (r = -1 ∨ r = k.nextpid) := by
  intro hall
  obtain ⟨r, k', hok, -⟩ := hall nameTaken nameTaken_forkState
  have hlen : 0 < nameTaken.freelist.length := by
    show 0 < freeFrames.length
    simp [freeFrames]
  obtain ⟨stack, rest, hfree⟩ := List.exists_cons_of_length_pos hlen
  have hnp : freeProc nameTaken = some 3 := rfl
  have hfind : Fs.findEntry (nameTaken.fs.inode ROOTINO) (swapEntry 4) = some (6, 3) := rfl
  have hno : ¬ SwapFileCreatable nameTaken.fs 4 := by
    rintro ⟨hc, -⟩
    unfold Fs.Creatable at hc
    rw [hfind] at hc
    cases hc.2
  unfold fork at hok
  rw [bind_eq_ok] at hok
  obtain ⟨r', hr', -⟩ := hok
  exact absurd hr' (allocproc_panics nameTaken_forkState.root hnp hfree (by decide) hno r')

end Paging
