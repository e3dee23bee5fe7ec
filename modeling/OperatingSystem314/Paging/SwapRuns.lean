import OperatingSystem314.Paging.Calls
import OperatingSystem314.Paging.SwapWrites

/-! # Swap files along every run

    `SwapInv` says of a kernel that every process has a swap file that
    covers its slots.  The first two processes have none.  The steps that
    keep it are evictions, exchanges, resets of the metadata, `fork`, and
    whatever leaves the swap files alone.

    * `SwapStep`: these steps.
    * `SwapInv.fork`, `exec_steps`, `sbrk_steps`, `fault_steps`: the calls.
    * `swap_writes_fit`: along every run the next write fits. -/

namespace Paging

open Relation (ReflTransGen)

/-- Only `init` and the first shell go without a swap file. -/
def OwnSwapFile (x : Proc) : Prop := x.state ≠ .UNUSED ∧ x.pid ≠ 1 ∧ x.pid ≠ 2

/-- The routines in progress hold the references `held`. -/
structure SwapInv (held : List Nat) (k : Kernel) : Prop where
  locks : k.locks = []
  sizes : SizesOk k.fs
  refs : ∀ n, held.count n ≤ k.fs.iref n
  live : k.cur.state ≠ .UNUSED
  covered : ∀ p, OwnSwapFile (k.proc p) → Covered held k.fs (k.proc p)

/-! ### The swap file of a new process -/

/-- The references of the routines in progress are counted. -/
theorem FsStep.count_le {held held' : List Nat} {fs fs' : Fs} (h : FsStep held fs held' fs')
    (hheld : ∀ n, held.count n ≤ fs.iref n) (n : Nat) : held'.count n ≤ fs'.iref n := by
  have hrefs := h.refs n
  have := hheld n
  omega

section create

variable {held : List Nat} {k k' : Kernel} {p : ProcId}

/-- The new file is open, and its entry of the file table was free. -/
theorem createSwapFile_openSwap (hheld : ∀ n, held.count n ≤ k.fs.iref n) (h : createSwapFile k p = .ok k') :
    FsStep held k.fs held k'.fs ∧
      ∃ f, (k'.proc p).swapFile = some f ∧ (k.fs.ftable f).ref = 0 ∧ OpenSwap held k'.fs f 0 := by
  simp only [createSwapFile, bind_eq_ok, deref_eq_ok] at h
  obtain ⟨⟨r, fs1⟩, hcreate, fs2, hunlock, ip, hr, h⟩ := h
  obtain rfl : r = some ip := hr
  obtain ⟨hstep, hfile⟩ := FsStep.create held hcreate
  obtain rfl := Fs.iunlock_ok hunlock
  split at h
  · cases h
  next f fs3 halloc =>
    cases h
    have hfree := filealloc_some halloc
    have hfs3 : fs3 = fs2.setFile f { fs2.ftable f with ref := 1 } := by
      unfold Fs.filealloc at halloc
      split at halloc
      · cases halloc
      · obtain ⟨hf, rfl⟩ := Prod.mk.inj halloc
        rw [Option.some.inj hf]
    have hinode : fs3.inode = fs2.inode := by
      rw [hfs3]
      rfl
    have href : (fs3.ftable f).ref = 1 := by
      rw [hfs3]
      simp [Fs.setFile]
    obtain ⟨fs4, hfs4⟩ : ∃ fs4, fs4 = fs3.setFile f
        { fs3.ftable f with type := .FD_INODE, ip, off := 0, readable := true, writable := true } := ⟨_, rfl⟩
    have hentry : fs4.ftable f =
        { fs3.ftable f with type := .FD_INODE, ip, off := 0, readable := true, writable := true } := by
      rw [hfs4]
      simp [Fs.setFile]
    -- the entry of the file table keeps the reference
    have hall : FsStep held k.fs (ip :: held) fs4 := by
      have hboth : fs4 = fs2.setFile f
          { fs3.ftable f with type := .FD_INODE, ip, off := 0, readable := true, writable := true } := by
        rw [hfs4, hfs3]
        simp [Fs.setFile]
      rw [hboth]
      exact hstep.trans (.openFile hfree)
    have hcount := hall.count_le hheld ip
    simp only [List.count_cons_self] at hcount
    rw [← hfs4]
    refine ⟨hall.trans (.leave ip held _), f, ?_, ?_, ?_, ?_, ?_, ?_, ?_, ?_, Nat.zero_le _⟩
    · rw [Kernel.setProc_self]
    · by_contra hpos
      obtain ⟨r, o, hr, heq⟩ := hstep.opened f (by omega)
      rw [heq] at hfree
      simp only [] at hfree
      omega
    all_goals rw [show (({ k with fs := fs4 } : Kernel).setProc p { k.proc p with swapFile := some f }).fs = fs4 from rfl,
      hentry]
    · show 0 < (fs3.ftable f).ref
      omega
    · show (fs4.inode ip).type = _
      rw [hfs4]
      show (fs3.inode ip).type = _
      rw [hinode]
      exact hfile ip rfl
    · exact hcount

theorem initPaging_openSwap (hheld : ∀ n, held.count n ≤ k.fs.iref n) (h : initPaging k p = .ok k') :
    FsStep held k.fs held k'.fs ∧ ((k.proc p).pid ≠ 1 ∧ (k.proc p).pid ≠ 2 →
      ∃ f, (k'.proc p).swapFile = some f ∧ (k.fs.ftable f).ref = 0 ∧ OpenSwap held k'.fs f 0 ∧
        UsedBelow (k'.proc p) 0) := by
  unfold initPaging at h
  split at h
  · simp only [bind_eq_ok] at h
    obtain ⟨k1, hcreate, -, -, -, -, h⟩ := h
    cases h
    obtain ⟨hstep, f, hf, hfree, hopen⟩ := createSwapFile_openSwap hheld hcreate
    refine ⟨hstep, fun _ => ⟨f, ?_, hfree, hopen, fun i _ => ?_⟩⟩
    · rw [Kernel.setProc_self]
      exact hf
    · rw [Kernel.setProc_self]
      rfl
  next hpid =>
    cases h
    exact ⟨.refl held _, fun hne => absurd hne hpid⟩

/-- What `allocproc` does to swap files. -/
theorem allocproc_openSwap {np : Option ProcId} (hheld : ∀ n, held.count n ≤ k.fs.iref n)
    (h : allocproc k = .ok (np, k')) : FsStep held k.fs held k'.fs ∧ k'.locks = k.locks ∧ k'.curproc = k.curproc ∧
      ∀ p, np = some p → (k'.proc p).pid ≠ 1 ∧ (k'.proc p).pid ≠ 2 →
        ∃ f, (k'.proc p).swapFile = some f ∧ (k.fs.ftable f).ref = 0 ∧ OpenSwap held k'.fs f 0 ∧
          UsedBelow (k'.proc p) 0 := by
  unfold allocproc at h
  split at h
  · cases h
    exact ⟨.refl held _, rfl, rfl, nofun⟩
  next p hfree =>
    simp only [] at h
    split at h
    next k1 hk1 =>
      cases h
      have h1 := kalloc_mem hk1
      refine ⟨?_, h1.locks, h1.curproc, nofun⟩
      show FsStep held k.fs held k1.fs
      rw [h1.fs]
      exact .refl held _
    next stack k1 hk1 =>
      rw [bind_eq_ok] at h
      obtain ⟨k2, hinit, h⟩ := h
      cases h
      have h1 := kalloc_mem hk1
      have hfs1 : k1.fs = k.fs := h1.fs
      obtain ⟨honly, hpid, -⟩ := initPaging_ok hinit
      have hheld1 : ∀ n, held.count n ≤ (k1.setProc p { k1.proc p with kstack := stack }).fs.iref n := by
        intro n
        show _ ≤ k1.fs.iref n
        rw [hfs1]
        exact hheld n
      obtain ⟨hstep, hopens⟩ := initPaging_openSwap hheld1 hinit
      replace hstep : FsStep held k1.fs held k'.fs := hstep
      rw [hfs1] at hstep
      refine ⟨hstep, honly.locks.trans h1.locks, honly.curproc.trans h1.curproc, ?_⟩
      intro p' hp' hne
      obtain rfl := Option.some.inj hp'
      rw [hpid] at hne
      obtain ⟨f, hf, hunused, hopen⟩ := hopens hne
      replace hunused : (k1.fs.ftable f).ref = 0 := hunused
      rw [hfs1] at hunused
      exact ⟨f, hf, hunused, hopen⟩

end create

/-! ### `fork` -/

section fork

variable {held : List Nat} {k k' : Kernel} {np : ProcId}

theorem dupFiles_step {fs fs' : Fs} {ofile : Fin NOFILE → Option (Fin NFILE)} (h : dupFiles ofile fs = .ok fs') :
    FsStep held fs held fs' := by
  refine foldlM_ok (R := fun fs fs' => FsStep held fs held fs') (.refl held) .trans ?_ h
  intro fs1 i fs2 hdup
  cases hi : ofile i with
  | none =>
    rw [hi] at hdup
    cases hdup
    exact .refl held _
  | some f =>
    rw [hi] at hdup
    exact .filedup hdup

theorem copySwapLoop_step {fuel : Nat} {offset r : Int} {buffer : Nat → UInt8}
    (h : copySwapLoop np fuel offset r buffer k = .ok k') : FsStep held k.fs held k'.fs := by
  induction fuel generalizing offset r buffer k with
  | zero => cases h
  | succ fuel ih =>
    unfold copySwapLoop at h
    split at h
    · cases h
      exact .refl held _
    · simp only [bind_eq_ok] at h
      obtain ⟨⟨n, k1⟩, hwrite, ⟨r', bytes, k2⟩, hread, -, -, h⟩ := h
      exact ((writeToSwapFile_step hwrite).trans (readFromSwapFile_step hread)).trans (ih h)

theorem copySwapFile_step (h : copySwapFile k np = .ok k') : FsStep held k.fs held k'.fs := by
  simp only [copySwapFile, bind_eq_ok] at h
  obtain ⟨⟨r, bytes, k1⟩, hread, k2, hloop, -, -, h⟩ := h
  cases h
  exact (readFromSwapFile_step hread).trans (copySwapLoop_step hloop)

/-- The copy of a swap file is as long as the file. -/
theorem copySwapFile_covers {f g : Fin NFILE} {size : Nat} (hlocks : k.locks = []) (hf : k.cur.swapFile = some f)
    (hg : (k.proc np).swapFile = some g) (hne : f ≠ g) (hopen : OpenSwap held k.fs f size)
    (hopen' : OpenSwap held k.fs g 0) (hsizes : SizesOk k.fs) (h : copySwapFile k np = .ok k') :
    OpenSwap held k'.fs g size := by
  have hfiles : CopyFiles k.fs f g (k.fs.inode (k.fs.ftable f).ip).size 0 :=
    ⟨hne, hopen.isInode, hopen.readable, hopen.isFile, rfl, hsizes _ hopen.isFile, hopen'.isInode, hopen'.writable,
      hopen'.isFile, Nat.zero_le _, Nat.zero_le _⟩
  obtain ⟨hends, -⟩ := SwapCopyInv.ends hlocks hf hg hfiles h
  have hstep := hopen'.step (copySwapFile_step h)
  refine ⟨hstep.ref, hstep.isInode, hstep.readable, hstep.writable, hstep.isFile, hstep.others, ?_⟩
  exact Nat.le_trans hopen.filled hends.reached

/-- The entry of a child whose pages are copied. -/
theorem forkChild_covered {d : Nat} {r : Int} (hne : k.curproc ≠ np) (hlocks : k.locks = []) (hsizes : SizesOk k.fs)
    (hparent : k.cur.pid ≠ 1 ∧ k.cur.pid ≠ 2 → Covered held k.fs k.cur)
    (hchild : (k.proc np).pid ≠ 1 ∧ (k.proc np).pid ≠ 2 → ∃ g, (k.proc np).swapFile = some g ∧
      (k.cur.pid ≠ 1 ∧ k.cur.pid ≠ 2 → k.cur.swapFile ≠ some g) ∧ OpenSwap held k.fs g 0 ∧ UsedBelow (k.proc np) 0)
    (h : forkChild k np d = .ok (r, k')) : FsStep held k.fs held k'.fs ∧
      (k'.proc np).pid = (k.proc np).pid ∧
        ((k.proc np).pid ≠ 1 ∧ (k.proc np).pid ≠ 2 → Covered held k'.fs (k'.proc np)) := by
  simp only [forkChild, bind_eq_ok] at h
  obtain ⟨fs, hdup, h⟩ := h
  set k1 : Kernel := { k.setProc np ((k.proc np).childOf k.cur k.curproc d) with
    fs := fs.idup (k.setProc np ((k.proc np).childOf k.cur k.curproc d)).cur.cwd } with hk1
  have hnp1 : k1.proc np = (k.proc np).childOf k.cur k.curproc d := Kernel.setProc_self _ _ _
  have hcur1 : k1.cur = k.cur := (OnlyProc.setProc k _).cur hne
  have h1 : FsStep held k.fs held k1.fs := (dupFiles_step hdup).trans (FsStep.idup.trans (.leave _ held _))
  split at h
  next hpid =>
    rw [bind_eq_ok] at h
    obtain ⟨k2, hcopy, h⟩ := h
    cases h
    set kc := k1.setProc np ((k1.proc np).copyPaging k1.cur) with hkc
    have hnpc : kc.proc np = (k1.proc np).copyPaging k1.cur := Kernel.setProc_self _ _ _
    have hcurc : kc.cur = k.cur := by
      rw [(OnlyProc.setProc k1 _).cur hne]
      exact hcur1
    have hfs2 := copySwapFile_ok hcopy
    have hnp2 : k2.proc np = kc.proc np := by rw [hfs2]
    have h2 : FsStep held kc.fs held k2.fs := copySwapFile_step hcopy
    refine ⟨h1.trans h2, ?_, fun hpid' => ?_⟩
    · rw [Kernel.setProc_self]
      show (k2.proc np).pid = _
      rw [hnp2, hnpc, hnp1]
      rfl
    · rw [Kernel.setProc_self]
      rw [hcur1] at hpid
      obtain ⟨f, c, hf, hc, hopen, hused⟩ := hparent hpid
      obtain ⟨g, hg, hfg, hopen', -⟩ := hchild hpid'
      have hgc : (kc.proc np).swapFile = some g := by
        rw [hnpc, hnp1]
        exact hg
      refine ⟨g, c, ?_, hc, ?_, fun i hi => ?_⟩
      · show (k2.proc np).swapFile = _
        rw [hnp2]
        exact hgc
      · show OpenSwap held k2.fs g _
        refine copySwapFile_covers (k := kc) (f := f) hlocks ?_ hgc ?_ (hopen.step h1) (hopen'.step h1)
          (h1.sizes hsizes) hcopy
        · rw [hcurc]
          exact hf
        · rintro rfl
          exact hfg hpid hf
      · show (k2.proc np).pagesInSwapFile i = _
        rw [hnp2, hnpc, hcur1]
        exact hused i hi
  next hpid =>
    obtain ⟨-, hk'⟩ := Prod.mk.inj (Except.ok.inj h)
    have hlast : k'.proc np = { (k.proc np).childOf k.cur k.curproc d with state := .RUNNABLE } := by
      rw [← hk', ← hnp1]
      exact Kernel.setProc_self _ _ _
    have hfs' : k'.fs = k1.fs := by
      rw [← hk']
      rfl
    rw [hfs', hlast]
    refine ⟨h1, rfl, fun hpid' => ?_⟩
    obtain ⟨g, hg, -, hopen', hused⟩ := hchild hpid'
    refine ⟨g, 0, hg, Nat.zero_le _, ?_, hused⟩
    rw [Nat.zero_mul]
    exact hopen'.step h1

end fork

/-- A step keeps the invariant if each process that swaps has a swap file
    that covers its slots, or did so before and nothing was changed. -/
theorem SwapInv.step {held held' : List Nat} {k k' : Kernel} (h : SwapInv held k)
    (hstep : FsStep held k.fs held' k'.fs) (hlocks : k'.locks = k.locks) (hlive : k'.cur.state ≠ .UNUSED)
    (hprocs : ∀ p, OwnSwapFile (k'.proc p) → Covered held' k'.fs (k'.proc p) ∨ (OwnSwapFile (k.proc p) ∧
      (k'.proc p).swapFile = (k.proc p).swapFile ∧ (k'.proc p).pagesInSwapFile = (k.proc p).pagesInSwapFile)) :
    SwapInv held' k' := by
  refine ⟨hlocks.trans h.locks, hstep.sizes h.sizes, hstep.count_le h.refs, hlive, fun p hp => ?_⟩
  rcases hprocs p hp with hcovered | ⟨hswap, hfile, hslots⟩
  · exact hcovered
  · exact (h.covered p hswap).step hstep hfile hslots

/-- The current process is not the one that is made. -/
theorem SwapInv.curproc_ne {held : List Nat} {k : Kernel} {np : ProcId} (h : SwapInv held k)
    (hfree : freeProc k = some np) : k.curproc ≠ np := by
  intro heq
  have hunused := freeProc_unused hfree
  rw [← heq] at hunused
  exact h.live hunused

/-- It is enough to look at the entry that changes. -/
theorem SwapInv.others {held : List Nat} {k k' : Kernel} {np : ProcId} (h : SwapInv held k) (hne : k.curproc ≠ np)
    (honly : OnlyProc np k k') (hstep : FsStep held k.fs held k'.fs)
    (hnp : OwnSwapFile (k'.proc np) → Covered held k'.fs (k'.proc np)) : SwapInv held k' := by
  refine h.step hstep honly.locks ?_ fun p hp => ?_
  · rw [honly.cur hne]
    exact h.live
  · by_cases hpnp : p = np
    · subst hpnp
      exact .inl (hnp hp)
    · right
      rw [honly.others p hpnp] at hp ⊢
      exact ⟨hp, rfl, rfl⟩

theorem SwapInv.fork {held : List Nat} {k k' : Kernel} {r : Int} (h : SwapInv held k)
    (hok : Paging.fork k = .ok (r, k')) : SwapInv held k' := by
  simp only [Paging.fork, bind_eq_ok] at hok
  obtain ⟨⟨np, k1⟩, halloc, hok⟩ := hok
  obtain ⟨hstep1, hlocks1, hcurproc1, hopens⟩ := allocproc_openSwap h.refs halloc
  cases np with
  | none =>
    obtain ⟨-, rfl⟩ := Prod.mk.inj (Except.ok.inj hok)
    rcases allocproc_none halloc with rfl | ⟨np, hfree, honly, hunused⟩
    · exact h
    · have hne := h.curproc_ne hfree
      exact h.others hne honly hstep1 fun hp => absurd hunused hp.1
  | some np =>
    obtain ⟨hfree, honly1, -⟩ := allocproc_ok halloc
    have hne := h.curproc_ne hfree
    simp only [bind_eq_ok] at hok
    obtain ⟨⟨d, k2⟩, hcopy, hok⟩ := hok
    have hmem := copyuvm_mem hcopy
    have honly2 : OnlyProc np k k2 := honly1.trans (.of_mem hmem)
    have hcur2 : k2.cur = k.cur := honly2.cur hne
    have hstep2 : FsStep held k.fs held k2.fs := by
      rw [hmem.fs]
      exact hstep1
    cases d with
    | none =>
      simp only [bind_eq_ok] at hok
      obtain ⟨k3, hkfree, hok⟩ := hok
      obtain ⟨-, rfl⟩ := Prod.mk.inj (Except.ok.inj hok)
      have hmem3 := kfree_mem hkfree
      refine h.others hne ((honly2.trans (.of_mem hmem3)).trans (.setProc k3 _)) ?_ ?_
      · show FsStep held k.fs held k3.fs
        rw [hmem3.fs]
        exact hstep2
      · intro hp
        exact absurd (by rw [Kernel.setProc_self]) hp.1
    | some d =>
      have hnp2 : k2.proc np = k1.proc np := by rw [hmem.proc]
      have hne2 : k2.curproc ≠ np := by rwa [honly2.curproc]
      have hchild : (k2.proc np).pid ≠ 1 ∧ (k2.proc np).pid ≠ 2 → ∃ g, (k2.proc np).swapFile = some g ∧
          (k2.cur.pid ≠ 1 ∧ k2.cur.pid ≠ 2 → k2.cur.swapFile ≠ some g) ∧ OpenSwap held k2.fs g 0 ∧
            UsedBelow (k2.proc np) 0 := by
        rw [hnp2, hmem.fs]
        intro hpid
        obtain ⟨g, hg, hunused, hopen, hused⟩ := hopens np rfl hpid
        refine ⟨g, hg, fun hpid2 hg2 => ?_, hopen, hused⟩
        rw [hcur2] at hpid2 hg2
        obtain ⟨f, c, hf, -, hopen0, -⟩ := h.covered k.curproc ⟨h.live, hpid2⟩
        obtain rfl := Option.some.inj (hf.symm.trans hg2)
        exact absurd hopen0.ref (by omega)
      have hparent : k2.cur.pid ≠ 1 ∧ k2.cur.pid ≠ 2 → Covered held k2.fs k2.cur := by
        rw [hcur2]
        intro hpid
        exact (h.covered k.curproc ⟨h.live, hpid⟩).step hstep2 rfl rfl
      obtain ⟨hstep3, hpid3, hcovered⟩ :=
        forkChild_covered hne2 (honly2.locks.trans h.locks) (hstep2.sizes h.sizes) hparent hchild hok
      refine h.others hne (honly2.trans (forkChild_dir hok).1) (hstep2.trans hstep3) fun hp => hcovered ?_
      rw [← hpid3]
      exact hp.2

/-! ### Steps -/

/-- What the swapping of a process depends on stays as it is. -/
structure SwapKept (x y : Proc) : Prop where
  state : y.state = .UNUSED ↔ x.state = .UNUSED
  pid : y.pid = x.pid
  swapFile : y.swapFile = x.swapFile
  slots : y.pagesInSwapFile = x.pagesInSwapFile

theorem SwapKept.refl (x : Proc) : SwapKept x x := ⟨Iff.rfl, rfl, rfl, rfl⟩

theorem SwapKept.of_list {x y : Proc} (h : x.SameButList y) : SwapKept x y := by
  obtain ⟨_, _, _, rfl⟩ := h
  exact ⟨Iff.rfl, rfl, rfl, rfl⟩

/-- The steps that calls are made of, of whatever process is current.  The
    first component is the references that routines in progress hold. -/
inductive SwapStep : List Nat × Kernel → List Nat × Kernel → Prop where
  | evict {held : List Nat} {k k' : Kernel} (h : swapPageOut k = .ok k') : SwapStep (held, k) (held, k')
  | exchange {held : List Nat} {k k' : Kernel} {va : Nat} (h : swapPageIn k va = .ok k') :
      SwapStep (held, k) (held, k')
  /-- `exec` forgets the pages of the old program -/
  | reset (held : List Nat) (k : Kernel) : SwapStep (held, k) (held, k.modCur Proc.resetPaging)
  | fork {held : List Nat} {k k' : Kernel} {r : Int} (h : fork k = .ok (r, k')) : SwapStep (held, k) (held, k')
  /-- another process runs -/
  | sched {held : List Nat} {k : Kernel} {p : ProcId} (h : (k.proc p).state ≠ .UNUSED) :
      SwapStep (held, k) (held, { k with curproc := p })
  /-- memory, other files, other fields of processes -/
  | other {held held' : List Nat} {k k' : Kernel} (hfs : FsStep held k.fs held' k'.fs) (hlocks : k'.locks = k.locks)
      (hcurproc : k'.curproc = k.curproc) (hprocs : ∀ p, SwapKept (k.proc p) (k'.proc p)) :
      SwapStep (held, k) (held', k')

abbrev SwapRun : List Nat × Kernel → List Nat × Kernel → Prop := ReflTransGen SwapStep

namespace SwapInv

variable {held : List Nat} {k k' : Kernel}

/-- An eviction or an exchange concerns the current process. -/
theorem swaps (h : SwapInv held k) (honly : OnlySwaps k k') (hstep : FsStep held k.fs held k'.fs)
    (hcur : Covered held k.fs k.cur → Covered held k'.fs k'.cur) : SwapInv held k' := by
  refine h.step hstep honly.locks ?_ fun p hp => ?_
  · obtain ⟨_, _, _, _, _, hsame⟩ := honly.cur
    rw [hsame]
    exact h.live
  · have hswap : OwnSwapFile (k.proc p) := by
      obtain ⟨_, _, _, _, _, hsame⟩ := honly.procs p
      rwa [hsame] at hp
    by_cases hpcur : p = k.curproc
    · left
      subst hpcur
      have hcovered := hcur (h.covered _ hswap)
      unfold Kernel.cur at hcovered
      rwa [honly.curproc] at hcovered
    · obtain ⟨_, _, _, hsame⟩ := honly.others p hpcur
      refine .inr ⟨hswap, ?_, ?_⟩
      · rw [hsame]
      · rw [hsame]

/-- Each step keeps the invariant. -/
theorem swapStep {s s' : List Nat × Kernel} (h : SwapInv s.1 s.2) (hstep : SwapStep s s') : SwapInv s'.1 s'.2 := by
  cases hstep with
  | evict hok => exact h.swaps (swapPageOut_swaps hok) (swapPageOut_step hok) fun hc => hc.swapPageOut h.locks hok
  | exchange hok => exact h.swaps (swapPageIn_swaps hok) (swapPageIn_step hok) fun hc => hc.swapPageIn h.locks hok
  | reset held k =>
    refine h.step (.refl held _) rfl ?_ fun p hp => ?_
    · rw [Kernel.modCur_cur]
      exact h.live
    · by_cases hpcur : p = k.curproc
      · left
        subst hpcur
        have hproc : (k.modCur Proc.resetPaging).proc k.curproc = k.cur.resetPaging := Kernel.modCur_cur k _
        rw [hproc] at hp ⊢
        exact (h.covered k.curproc hp).reset
      · right
        have hproc : (k.modCur Proc.resetPaging).proc p = k.proc p := Kernel.setProc_ne k _ hpcur
        rw [hproc] at hp ⊢
        exact ⟨hp, rfl, rfl⟩
  | fork hok => exact h.fork hok
  | sched hlive => exact h.step (.refl _ _) rfl hlive fun p hp => .inr ⟨hp, rfl, rfl⟩
  | other hfs hlocks hcurproc hprocs =>
    next held held' k k' =>
    refine h.step hfs hlocks ?_ fun p hp => .inr ?_
    · have hstate := (hprocs k.curproc).state
      unfold Kernel.cur
      rw [hcurproc]
      intro hunused
      exact h.live (hstate.mp hunused)
    · have hkept := hprocs p
      refine ⟨⟨fun hunused => hp.1 (hkept.state.mpr hunused), ?_⟩, hkept.swapFile, hkept.slots⟩
      rw [← hkept.pid]
      exact hp.2

theorem swapRun {s s' : List Nat × Kernel} (h : SwapInv s.1 s.2) (hrun : SwapRun s s') : SwapInv s'.1 s'.2 := by
  induction hrun with
  | refl => exact h
  | tail _ hlast ih => exact ih.swapStep hlast

end SwapInv

/-! ### The calls -/

namespace SwapStep

variable {held held' : List Nat} {k k' : Kernel}

theorem of_mem (h : OnlyMem k k') : SwapStep (held, k) (held, k') := by
  refine .other ?_ h.locks h.curproc fun p => ?_
  · rw [h.fs]
    exact .refl held _
  · rw [h.proc]
    exact .refl _

theorem of_lists (h : OnlyLists k k') : SwapStep (held, k) (held, k') := by
  refine .other ?_ (by rw [h.rest]) h.curproc fun p => .of_list (h.procs p)
  rw [h.rest]
  exact .refl held _

theorem of_fs {fs : Fs} (h : FsStep held k.fs held' fs) : SwapStep (held, k) (held', { k with fs }) :=
  .other h rfl rfl fun _ => .refl _

/-- Fields of the current process that have nothing to do with swapping. -/
theorem modCur {f : Proc → Proc} (h : SwapKept k.cur (f k.cur)) : SwapStep (held, k) (held, k.modCur f) := by
  refine .other (.refl held _) rfl rfl fun p => ?_
  by_cases hp : p = k.curproc
  · subst hp
    have hproc : (k.modCur f).proc k.curproc = f k.cur := Kernel.modCur_cur k f
    rw [hproc]
    exact h
  · have hproc : (k.modCur f).proc p = k.proc p := Kernel.setProc_ne k _ hp
    rw [hproc]
    exact .refl _

end SwapStep

section calls

variable {held : List Nat} {k k' : Kernel}

/-- A page fault evicts and exchanges, or kills the process. -/
theorem fault_steps {user : Bool} {va : Nat} {e : FaultEnd} (h : trapPgflt user k va = .ok (e, k')) :
    SwapRun (held, k) (held, k') := by
  obtain ⟨-, ⟨-, -, k1, hout, hin⟩ | ⟨-, -, -, rfl⟩⟩ := trapPgflt_ok h
  · exact (ReflTransGen.single (.evict hout)).tail (.exchange hin)
  · exact .single (.modCur ⟨Iff.rfl, rfl, rfl, rfl⟩)

theorem Quiet.steps {d : Nat} (h : Quiet d k k') : SwapRun (held, k) (held, k') := by
  induction h with
  | refl => exact .refl
  | tail _ hlast ih =>
    refine ih.trans ?_
    cases hlast with
    | evict hok => exact .single (.evict hok)
    | map hfree hok hr =>
      have hmem := mappages_mem hok
      exact .single (.of_mem (OnlyMem.trans ⟨_, _, _, rfl⟩ hmem))
    | unmap hfree hok hr hdealloc hkfree =>
      have hmem := ((mappages_mem hok).trans (deallocuvm_mem hdealloc)).trans (kfree_mem hkfree)
      exact .single (.of_mem (OnlyMem.trans ⟨_, _, _, rfl⟩ hmem))
    | dealloc hok => exact .single (.of_mem (deallocuvm_mem hok))
    | enqueue hok => exact .single (.of_lists (enqueueFIFO_lists hok))
    | fault hok => exact fault_steps hok
    | write f bytes => exact .single (.of_mem (.setFrame _ f bytes))
    | guardPage hok =>
      unfold clearpteu at hok
      split at hok
      · cases hok
      · cases hok
        exact .single (.of_mem (.setPte _ _ _ _))

theorem sbrk_steps {n r : Int} (h : sys_sbrk k n = .ok (r, k')) : SwapRun (held, k) (held, k') := by
  obtain ⟨k1, hquiet, rfl | ⟨sz, rfl⟩⟩ := sys_sbrk_quiet h
  · exact hquiet.steps
  · exact hquiet.steps.tail (.modCur ⟨Iff.rfl, rfl, rfl, rfl⟩)

/-- `exec` holds the inode of the program from here on. -/
theorem execInode_steps {path : Nat} {q : Option Nat} (h : execInode k path = .ok (q, k')) :
    SwapRun (held, k) (q.elim held fun ip => ip :: held, k') := by
  unfold execInode at h
  rw [bind_eq_ok] at h
  obtain ⟨⟨bs, k1⟩, hstr, h⟩ := h
  have h1 : SwapRun (held, k) (held, k1) := (kernelString_quiet (d := 0) hstr).steps
  rw [bind_eq_ok] at h
  obtain ⟨⟨q1, fs⟩, hnamei, h⟩ := h
  have hnamei' : FsStep held k1.fs (q1.elim held fun ip => ip :: held) fs := .namei hnamei
  cases q1 with
  | none =>
    cases h
    exact h1.tail (.of_fs hnamei')
  | some ip =>
    simp only [bind_eq_ok] at h
    obtain ⟨fs', hlock, h⟩ := h
    cases h
    exact h1.tail (.of_fs (hnamei'.trans (.ilock hlock)))

/-- At `bad` it gives the inode back. -/
theorem execBad_steps {d ip : Option Nat} (h : execBad k d ip = .ok k') :
    SwapRun (ip.elim held fun ip => ip :: held, k) (held, k') := by
  simp only [execBad, bind_eq_ok] at h
  obtain ⟨k1, hfree, fs, hput, h⟩ := h
  cases h
  have h1 : SwapRun (ip.elim held fun ip => ip :: held, k) (ip.elim held fun ip => ip :: held, k1) := by
    cases d with
    | none =>
      cases hfree
      exact .refl
    | some d => exact .single (.of_mem (freevm_mem hfree))
  refine h1.tail (.of_fs ?_)
  cases ip with
  | none =>
    cases hput
    exact .refl held _
  | some ip => exact .iunlockput hput

theorem execLoad_steps {d ip : Nat} {argv : List Nat} {r : Option Image} (h : execLoad k d ip argv = .ok (r, k')) :
    SwapRun (ip :: held, k) (held, k') := by
  have h0 : SwapRun (ip :: held, k) (ip :: held, k.modCur Proc.resetPaging) := .single (.reset _ k)
  unfold execLoad at h
  simp only [] at h
  rw [bind_eq_ok] at h
  obtain ⟨⟨r1, k1⟩, hsegs, h⟩ := h
  have h1 := h0.trans (loadSegments_quiet hsegs).steps
  cases r1 with
  | none =>
    simp only [bind_eq_ok] at h
    obtain ⟨k2, hbad, h⟩ := h
    cases h
    exact h1.trans (execBad_steps hbad)
  | some sz =>
    dsimp only at h
    rw [bind_eq_ok] at h
    obtain ⟨fs, hput, h⟩ := h
    rw [bind_eq_ok] at h
    obtain ⟨⟨r2, k2⟩, hstack, h⟩ := h
    have h2 : SwapRun (ip :: held, k) (held, k2) :=
      (h1.tail (.of_fs (.iunlockput hput))).trans (execStack_quiet hstack).steps
    cases r2 with
    | none =>
      simp only [bind_eq_ok] at h
      obtain ⟨k3, hbad, h⟩ := h
      cases h
      exact h2.trans (execBad_steps hbad)
    | some at2 =>
      cases h
      exact h2

theorem execImage_steps {path : Nat} {argv : List Nat} {r : Option Image} (h : execImage k path argv = .ok (r, k')) :
    SwapRun (held, k) (held, k') := by
  unfold execImage at h
  rw [bind_eq_ok] at h
  obtain ⟨⟨q, k1⟩, hinode, h⟩ := h
  have h1 : SwapRun (held, k) (q.elim held fun ip => ip :: held, k1) := execInode_steps hinode
  cases q with
  | none =>
    simp only [bind_eq_ok] at h
    obtain ⟨-, -, h⟩ := h
    cases h
    exact h1
  | some ip =>
    dsimp only at h
    split at h
    · rw [bind_eq_ok] at h
      obtain ⟨k2, hbad, h⟩ := h
      cases h
      exact h1.trans (execBad_steps hbad)
    · rw [bind_eq_ok] at h
      obtain ⟨⟨d, k2⟩, hsetup, h⟩ := h
      have h2 : SwapRun (held, k) (ip :: held, k2) := h1.tail (.of_mem (setupkvm_mem hsetup))
      cases d with
      | none =>
        simp only [bind_eq_ok] at h
        obtain ⟨k3, hbad, h⟩ := h
        cases h
        exact h2.trans (execBad_steps hbad)
      | some d => exact h2.trans (execLoad_steps h)

theorem exec_steps {path : Nat} {argv : List Nat} {r : Int} (h : exec k path argv = .ok (r, k')) :
    SwapRun (held, k) (held, k') := by
  unfold exec at h
  rw [bind_eq_ok] at h
  obtain ⟨⟨img, k1⟩, himage, h⟩ := h
  have h1 : SwapRun (held, k) (held, k1) := execImage_steps himage
  cases img with
  | none =>
    cases h
    exact h1
  | some img =>
    simp only [bind_eq_ok] at h
    obtain ⟨k2, hcommit, h⟩ := h
    cases h
    obtain ⟨k3, hquiet, hfree⟩ := execCommit_ok (d := 0) hcommit
    exact ((h1.trans hquiet.steps).tail (.modCur ⟨Iff.rfl, rfl, rfl, rfl⟩)).tail (.of_mem (freevm_mem hfree))

end calls

/-! ### Runs -/

/-- The calls that the runs are made of, of whatever process is current. -/
inductive SwapCall : Kernel → Kernel → Prop where
  | fork {k k' : Kernel} {r : Int} (h : fork k = .ok (r, k')) : SwapCall k k'
  /-- with success or without -/
  | exec {k k' : Kernel} {path : Nat} {argv : List Nat} {r : Int} (h : exec k path argv = .ok (r, k')) : SwapCall k k'
  | sbrk {k k' : Kernel} {n r : Int} (h : sys_sbrk k n = .ok (r, k')) : SwapCall k k'
  | fault {k k' : Kernel} {user : Bool} {va : Nat} {e : FaultEnd} (h : trapPgflt user k va = .ok (e, k')) :
      SwapCall k k'
  | sched {k : Kernel} {p : ProcId} (h : (k.proc p).state ≠ .UNUSED) : SwapCall k { k with curproc := p }

theorem SwapCall.steps {k k' : Kernel} (h : SwapCall k k') : SwapRun ([], k) ([], k') := by
  cases h with
  | fork h => exact .single (.fork h)
  | exec h => exact exec_steps h
  | sbrk h => exact sbrk_steps h
  | fault h => exact fault_steps h
  | sched h => exact .single (.sched h)

/-- No process has swapped yet: each of them, but the first two, has an open
    swap file, and its slots are as `allocproc` leaves them. -/
structure BeforeSwapping (k : Kernel) : Prop where
  locks : k.locks = []
  sizes : SizesOk k.fs
  live : k.cur.state ≠ .UNUSED
  files : ∀ p, OwnSwapFile (k.proc p) → ∃ f, (k.proc p).swapFile = some f ∧ OpenSwap [] k.fs f 0 ∧
    UsedBelow (k.proc p) 0

theorem BeforeSwapping.inv {k : Kernel} (h : BeforeSwapping k) : SwapInv [] k := by
  refine ⟨h.locks, h.sizes, fun n => Nat.zero_le _, h.live, fun p hp => ?_⟩
  obtain ⟨f, hf, hopen, hused⟩ := h.files p hp
  refine ⟨f, 0, hf, Nat.zero_le _, ?_, hused⟩
  rw [Nat.zero_mul]
  exact hopen

theorem SwapInv.swapCalls {k k' : Kernel} (h : SwapInv [] k) (hcalls : ReflTransGen SwapCall k k') : SwapInv [] k' := by
  induction hcalls with
  | refl => exact h
  | tail _ hlast ih => exact ih.swapRun hlast.steps

/-- Along every run of calls, at every point inside the next one, the next
    write of an eviction or an exchange fits. -/
theorem swap_writes_fit {k k1 k2 kw : Kernel} {held : List Nat} {src : Nat → UInt8} {off : Nat}
    (h : BeforeSwapping k) (hcalls : ReflTransGen SwapCall k k1) (hinside : SwapRun ([], k1) (held, k2))
    (hpid : 2 < k2.cur.pid) (hwrite : SwapWrite k2 kw src off) :
    ∃ f, WriteFits kw kw.curproc f src off PGSIZE := by
  have h2 : SwapInv held k2 := (h.inv.swapCalls hcalls).swapRun hinside
  have hswapping : OwnSwapFile k2.cur := ⟨h2.live, by omega, by omega⟩
  exact (h2.covered k2.curproc hswapping).write h2.locks hwrite

open Layout

theorem threePages_beforeSwapping : BeforeSwapping threePages := by
  have hinode : ∀ n, (threePages.fs.inode n).type = .T_FILE → (threePages.fs.inode n).size = 0 := by
    intro n hn
    show (Layout.inode [] (fun _ => 0) n).size = 0
    unfold Layout.inode
    split
    · rfl
    · split
      · rfl
      · rfl
  refine ⟨rfl, fun n hn => ?_, by decide, fun p hp => ?_⟩
  · rw [hinode n hn]
    exact Nat.zero_le _
  · have hself : p = SELF := by
      by_contra hne
      have hproc : threePages.proc p = if p = 0 then early 1 else if p = 1 then early 2 else unused := if_neg hne
      rw [hproc] at hp
      split at hp
      · exact hp.2.1 rfl
      · split at hp
        · exact hp.2.2 rfl
        · exact hp.1 rfl
    subst hself
    refine ⟨0, rfl, ⟨by decide, rfl, rfl, rfl, rfl, by decide, Nat.zero_le _⟩, fun i _ => rfl⟩

/-- The process has grown to sixteen pages, and page `0` was evicted. -/
def sixteenGrown : Kernel := (reached (sys_sbrk threePages (13 * PGSIZE))).get (by decide +kernel)

/-- It has touched page `0`, and the fault has evicted page `1`. -/
def sixteenFaulted : Kernel := (swapPageOut sixteenGrown).toOption.get (by decide +kernel)

/-- The write of the exchange fits. -/
theorem swap_writes_fit_sixteen : ∃ k kw src off f, swapPageIn sixteenFaulted 0 = .ok k ∧
    SwapWrite sixteenFaulted kw src off ∧ WriteFits kw kw.curproc f src off PGSIZE := by
  obtain ⟨r, hsbrk⟩ : ∃ r, sys_sbrk threePages (13 * PGSIZE) = .ok (r, sixteenGrown) :=
    of_reached (Option.some_get _).symm
  have hout : swapPageOut sixteenGrown = .ok sixteenFaulted := by
    have hsome : (swapPageOut sixteenGrown).toOption = some sixteenFaulted := (Option.some_get _).symm
    cases hok : swapPageOut sixteenGrown with
    | error e =>
      rw [hok] at hsome
      cases hsome
    | ok k =>
      rw [hok] at hsome
      exact congrArg Except.ok (Option.some.inj hsome)
  obtain ⟨k, hin, hne⟩ : ∃ k, swapPageIn sixteenFaulted 0 = .ok k ∧
      (k.cur.pagesInSwapFile 0).address ≠ (sixteenFaulted.cur.pagesInSwapFile 0).address := by
    have hsome : ((swapPageIn sixteenFaulted 0).toOption.map fun k =>
        decide ((k.cur.pagesInSwapFile 0).address ≠ (sixteenFaulted.cur.pagesInSwapFile 0).address)) = some true := by
      decide +kernel
    cases hok : swapPageIn sixteenFaulted 0 with
    | error e =>
      rw [hok] at hsome
      cases hsome
    | ok k =>
      rw [hok] at hsome
      exact ⟨k, rfl, of_decide_eq_true (Option.some.inj hsome)⟩
  rcases swapPageIn_writes hin with rfl | ⟨i, a, kw, src, r', k2, -, hwrite, -⟩
  · exact absurd rfl hne
  · obtain ⟨f, hfits⟩ := swap_writes_fit threePages_beforeSwapping (.single (.sbrk hsbrk)) (.single (.evict hout))
      (by decide +kernel) hwrite
    exact ⟨k, kw, src, _, f, hin, hwrite, hfits⟩

end Paging
