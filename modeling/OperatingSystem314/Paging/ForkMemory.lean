import OperatingSystem314.Paging.ForkReturns

/-! # Does `fork` duplicate memory?

    `logicalByte` is the memory of a process as it sees it: the byte in
    the frame of a resident page, or in the swap slot of a page that is
    swapped out.  `copyuvm` panics on a page that is not present, so `fork`
    duplicates memory just when every page is resident. -/

namespace Paging

/-! ### Logical memory -/

/-- The byte in the slot that is recorded for the page of `va`. -/
def swappedByte (k : Kernel) (x : Proc) (va : Nat) : Option UInt8 := do
  let i ← (List.finRange MAX_PSYC_PAGES).find? fun i =>
    (x.pagesInSwapFile i).in_use ∧ (x.pagesInSwapFile i).address = PTE_ADDR va
  let f ← x.swapFile
  return (k.fs.inode (k.fs.ftable f).ip).byte (i * PGSIZE + va % PGSIZE)

def logicalByte (k : Kernel) (x : Proc) (va : Nat) : Option UInt8 :=
  match k.walkpgdir x.pgdir va with
  | none => none
  | some pte =>
    if pte.p then some (k.frame pte.ppn (va % PGSIZE))
    else if pte.pg then swappedByte k x va
    else none

/-- `fork` returns the pid of a child that has the memory of the parent. -/
def ForkDuplicates (k : Kernel) : Prop :=
  ∃ r k' np, fork k = .ok (r, k') ∧ r ≠ -1 ∧ freeProc k = some np ∧
    ∀ va < k.cur.sz, logicalByte k' (k'.proc np) va = logicalByte k k.cur va

/-- Process table, memory, file table and file system have room for a child. -/
structure ForkRoom (k : Kernel) : Prop where
  entry : freeProc k ≠ none
  frames : childFrames (npages k.cur.sz) ≤ k.freelist.length
  swapFile : SwapFileCreatable k.fs k.nextpid
  blocks : SwapFileCopyable k

/-! ### The two directions -/

theorem forkChild_mem {k k' : Kernel} {np : ProcId} {d : Nat} {r : Int}
    (h : forkChild k np d = .ok (r, k')) : k'.frame = k.frame ∧ k'.pgdir = k.pgdir := by
  simp only [forkChild, bind_eq_ok] at h
  obtain ⟨fs, -, h⟩ := h
  split at h
  · rw [bind_eq_ok] at h
    obtain ⟨k1, hcopy, h⟩ := h
    have h1 := copySwapFile_ok hcopy
    cases h
    rw [h1]
    exact ⟨rfl, rfl⟩
  · cases h
    exact ⟨rfl, rfl⟩

/-- A `fork` that makes a child has found every page. -/
theorem fork_present {k k' : Kernel} {r : Int} (h : ForkState k) (hroom : ForkRoom k)
    (hfork : fork k = .ok (r, k')) (hr : r ≠ -1) :
    ∀ i < npages k.cur.sz, PresentAt k k.cur.pgdir i := by
  obtain ⟨np, k1, d, k2, hnp, hne, halloc, -, hcopy, -⟩ := fork_ok h.live hfork hr
  have hframes := hroom.frames
  obtain ⟨stack, rest, hfree⟩ := List.exists_cons_of_length_pos (l := k.freelist) (by
    unfold childFrames at hframes
    omega)
  obtain ⟨k1', halloc', ha⟩ := allocproc_allocated h.locks h.root hnp hfree fun _ => hroom.swapFile
  rw [halloc] at halloc'
  cases halloc'
  rcases ha.copyuvm_cases h hfree with ⟨_, _, -, -, hall, -⟩ | ⟨_, hnone, -⟩ | ⟨-, hno⟩
  · exact hall
  · rw [hcopy] at hnone
    cases hnone
  · exact absurd hcopy (hno _)

/-- If every page is present, the child gets a copy of each. -/
theorem fork_copies {k : Kernel} (h : ForkState k) (hroom : ForkRoom k) (hpid : 2 < k.cur.pid)
    (hall : ∀ i < npages k.cur.sz, PresentAt k k.cur.pgdir i) :
    ∃ k' np d, fork k = .ok (k.nextpid, k') ∧ freeProc k = some np ∧ (k'.proc np).pgdir = d ∧
      CopiedPages k k' d k.cur.pgdir (npages k.cur.sz) := by
  obtain ⟨np, hnp⟩ := Option.ne_none_iff_exists'.mp hroom.entry
  have hne : k.curproc ≠ np := by
    intro heq
    have hunused := freeProc_unused hnp
    rw [← heq] at hunused
    exact h.live hunused
  have hframes := hroom.frames
  obtain ⟨stack, rest, hfree⟩ := List.exists_cons_of_length_pos (l := k.freelist) (by
    unfold childFrames at hframes
    omega)
  obtain ⟨k1, halloc, ha⟩ := allocproc_allocated h.locks h.root hnp hfree fun _ => hroom.swapFile
  have hcur1 : k1.cur = k.cur := ha.only.cur hne
  rcases ha.copyuvm_cases h hfree with ⟨d, k2, hcopy, -, -, hcopied⟩ | ⟨_, -, hshort, -⟩ | ⟨hbad, -⟩
  · have hm := copyuvm_mem hcopy
    obtain ⟨r, k', hchild⟩ := (forkChild_returns h hne ha hm d).mpr fun _ => hroom.blocks
    have hne2 : k2.curproc ≠ np := by rwa [hm.curproc, ha.only.curproc]
    have hcur2 : k2.cur = k.cur := by rw [hm.cur, hcur1]
    obtain ⟨-, hr, hproc⟩ := forkChild_ok hne2 (by rwa [hcur2]) hchild
    obtain ⟨hframe, hpgdir⟩ := forkChild_mem hchild
    refine ⟨k', np, d, ?_, hnp, ?_, ?_⟩
    · unfold fork
      rw [halloc, ok_bind]
      simp only [hcur1, hcopy, ok_bind, hchild]
      rw [hr, hm.proc, ha.pid]
    · rw [hproc]
      rfl
    · intro i hi
      obtain ⟨x, f, hx, hp, hwalk, hbytes⟩ := hcopied i hi
      refine ⟨x, f, hx, hp, ?_, ?_⟩
      · unfold Kernel.walkpgdir
        rw [hpgdir]
        exact hwalk
      · rw [hframe, hbytes]
  · omega
  · exact absurd (fun j hj _ => .inl (hall j hj)) hbad

theorem lt_npages {va sz : Nat} (h : va < sz) : va / PGSIZE < npages sz := by
  simp only [npages, PGSIZE]
  omega

/-- A copied page reads like the page it was copied from. -/
theorem CopiedPages.logicalByte {k k' : Kernel} {x y : Proc} {n va : Nat}
    (h : CopiedPages k k' y.pgdir x.pgdir n) (hva : va / PGSIZE < n) :
    Paging.logicalByte k' y va = Paging.logicalByte k x va := by
  obtain ⟨pte, f, hx, hp, hy, hbytes⟩ := h _ hva
  have hpage : va / PGSIZE = va / PGSIZE * PGSIZE / PGSIZE := (page_div _).symm
  rw [← walkpgdir_congr hpage] at hx hy
  unfold Paging.logicalByte
  rw [hx, hy]
  simp only [hp, if_true, hbytes]

/-- `fork` duplicates memory just when every page is resident. -/
theorem fork_duplicates_iff {k : Kernel} (h : ForkState k) (hroom : ForkRoom k) (hpid : 2 < k.cur.pid) :
    ForkDuplicates k ↔ ∀ i < npages k.cur.sz, PresentAt k k.cur.pgdir i := by
  constructor
  · rintro ⟨r, k', np, hfork, hr, -⟩
    exact fork_present h hroom hfork hr
  · intro hall
    obtain ⟨k', np, d, hfork, hnp, hd, hcopied⟩ := fork_copies h hroom hpid hall
    refine ⟨k.nextpid, k', np, hfork, by omega, hnp, ?_⟩
    intro va hva
    subst hd
    exact hcopied.logicalByte (lt_npages hva)

/-! ### Concrete kernels -/

open Layout

theorem layout_forkRoom {g : Nat} {q s : List Nat} {m : Nat → UInt8}
    (h : Paged g (layout g q s m) ((q ++ s).length * PGSIZE) q s m)
    (hq : (q ++ s).length ≤ MAX_TOTAL_PAGES) : ForkRoom (layout g q s m) where
  entry := by
    have : freeProc (layout g q s m) = some 3 := rfl
    rw [this]
    exact nofun
  frames := by
    have hlen : (layout g q s m).freelist.length = 1000 := by simp [layout, freeFrames]
    rw [hlen]
    have hn : npages (layout g q s m).cur.sz ≤ MAX_TOTAL_PAGES := by
      show ((q ++ s).length * PGSIZE + PGSIZE - 1) / PGSIZE ≤ MAX_TOTAL_PAGES
      simp only [PGSIZE, MAX_TOTAL_PAGES] at *
      omega
    have hmono := framesFor_mono hn
    have hfew : framesFor MAX_TOTAL_PAGES = 31 := rfl
    unfold childFrames
    simp only [KVMPAGES, NKERNTABLES]
    omega
  swapFile := layout_creatable
  blocks := by
    intro f hf
    cases hf
    have hmissing : Fs.findEntry ((layout g q s m).fs.inode ROOTINO) (swapEntry 4) = none := rfl
    have hnext : (layout g q s m).nextpid = 4 := rfl
    have hsize : ((layout g q s m).fs.inode ((layout g q s m).fs.ftable 0).ip).size = s.length * PGSIZE := rfl
    have hblocks : (layout g q s m).fs.freeBlocks = 900 := rfl
    simp only [hnext, hsize, oldSwapSize, blocksLeft, hmissing, Option.elim_none, layout_entryBlocks, hblocks]
    rw [Nat.max_eq_right (Nat.zero_le _)]
    have hmono := nblocks_mono (Nat.mul_le_mul_right PGSIZE h.slots.1)
    exact hmono.trans (by decide)

/-- Three resident pages are duplicated. -/
theorem fork_duplicates_threePages :
    ForkDuplicates threePages ↔ ∀ i < npages threePages.cur.sz, PresentAt threePages threePages.cur.pgdir i :=
  fork_duplicates_iff (layout_forkState threePages_paged) (layout_forkRoom threePages_paged (by decide))
    (by decide)

/-- A process with a page in the swap file cannot fork. -/
theorem fork_not_duplicates : ¬ ∀ k : Kernel, ForkState k → ForkRoom k → 2 < k.cur.pid → ForkDuplicates k := by
  intro hall
  have hstate := layout_forkState sixteenPages_paged
  have hroom := layout_forkRoom sixteenPages_paged (by decide)
  obtain ⟨r, k', np, hfork, hr, -⟩ := hall _ hstate hroom (by decide)
  obtain ⟨x, hx, hp⟩ := fork_present hstate hroom hfork hr 15 (by decide)
  have hswapped : sixteenPages.walkpgdir sixteenPages.cur.pgdir (15 * PGSIZE) = some .swapped := by decide
  rw [show layout PGSIZE fifteen [15 * PGSIZE] (fun _ => 0) = sixteenPages from rfl, hswapped] at hx
  cases hx
  cases hp

end Paging
