import OperatingSystem314.Paging.Fork
import OperatingSystem314.Paging.Frame

/-! # What `fork` can change

    As in `Frame`, for whatever kernel the routines start from: page table
    routines change memory only (`OnlyMem`), and `fork` changes one entry
    of the process table, which was unused.  `fork_ok` says what a
    successful `fork` has put there. -/

namespace Paging

/-! ### Memory -/

/-- Only frames, the free list and page tables change. -/
def OnlyMem (k k' : Kernel) : Prop :=
  ∃ freelist frame pgdir, k' = { k with freelist, frame, pgdir }

namespace OnlyMem

variable {k k' k'' : Kernel}

theorem refl (k : Kernel) : OnlyMem k k := ⟨_, _, _, rfl⟩

theorem trans (h : OnlyMem k k') (h' : OnlyMem k' k'') : OnlyMem k k'' := by
  obtain ⟨_, _, _, rfl⟩ := h
  obtain ⟨_, _, _, rfl⟩ := h'
  exact ⟨_, _, _, rfl⟩

theorem proc (h : OnlyMem k k') : k'.proc = k.proc := by
  obtain ⟨_, _, _, rfl⟩ := h
  rfl

theorem curproc (h : OnlyMem k k') : k'.curproc = k.curproc := by
  obtain ⟨_, _, _, rfl⟩ := h
  rfl

theorem cur (h : OnlyMem k k') : k'.cur = k.cur := by
  unfold Kernel.cur
  rw [h.proc, h.curproc]

theorem locks (h : OnlyMem k k') : k'.locks = k.locks := by
  obtain ⟨_, _, _, rfl⟩ := h
  rfl

theorem fs (h : OnlyMem k k') : k'.fs = k.fs := by
  obtain ⟨_, _, _, rfl⟩ := h
  rfl

theorem kend (h : OnlyMem k k') : k'.kend = k.kend := by
  obtain ⟨_, _, _, rfl⟩ := h
  rfl

theorem setPte (k : Kernel) (d va : Nat) (x : Pte) : OnlyMem k (k.setPte d va x) := ⟨_, _, _, rfl⟩

theorem setFrame (k : Kernel) (f : Nat) (bytes : Nat → UInt8) : OnlyMem k (k.setFrame f bytes) :=
  ⟨_, _, _, rfl⟩

end OnlyMem

/-- What each round of a loop keeps, the loop keeps. -/
theorem foldlM_ok {σ α : Type} {R : σ → σ → Prop} {f : σ → α → Result σ} (hrefl : ∀ s, R s s)
    (htrans : ∀ {s t u}, R s t → R t u → R s u) (hf : ∀ {s a t}, f s a = .ok t → R s t)
    {l : List α} {s t : σ} (h : l.foldlM f s = .ok t) : R s t := by
  induction l generalizing s with
  | nil =>
    cases h
    exact hrefl _
  | cons a l ih =>
    rw [List.foldlM_cons, bind_eq_ok] at h
    obtain ⟨u, hu, h⟩ := h
    exact htrans (hf hu) (ih h)

theorem kalloc_mem {k k' : Kernel} {f : Option Nat} (h : kalloc k = (f, k')) : OnlyMem k k' := by
  unfold kalloc at h
  split at h
  · cases h
    exact .refl k
  · cases h
    exact ⟨_, _, _, rfl⟩

theorem kfree_mem {k k' : Kernel} {f : Nat} (h : kfree k f = .ok k') : OnlyMem k k' := by
  rw [kfree_ok h]
  exact ⟨_, _, _, rfl⟩

theorem mappages_mem {k k' : Kernel} {d va : Nat} {x : Pte} {r : Int}
    (h : mappages k d va x = .ok (r, k')) : OnlyMem k k' := by
  have halloc : ∀ {b : Bool} {k1 : Kernel}, walkpgdirAlloc k d va = (b, k1) → OnlyMem k k1 := by
    intro b k1 hk1
    unfold walkpgdirAlloc at hk1
    split at hk1
    · cases hk1
      exact .refl k
    · split at hk1
      next k2 hk2 =>
        cases hk1
        exact kalloc_mem hk2
      next t k2 hk2 =>
        cases hk1
        exact (kalloc_mem hk2).trans ⟨_, _, _, rfl⟩
  unfold mappages at h
  split at h
  next k1 hk1 =>
    cases h
    exact halloc hk1
  next k1 hk1 =>
    rw [bind_eq_ok] at h
    obtain ⟨pte, -, h⟩ := h
    split at h
    · cases h
    · cases h
      exact (halloc hk1).trans (.setPte k1 d va _)

theorem deallocPage_mem {d a : Nat} {k k' : Kernel} (h : deallocPage d k a = .ok k') : OnlyMem k k' := by
  unfold deallocPage at h
  split at h
  · cases h
    exact .refl k
  · split at h
    · split at h
      · cases h
      · rw [bind_eq_ok] at h
        obtain ⟨k1, hfree, h⟩ := h
        cases h
        exact (kfree_mem hfree).trans (.setPte k1 d a _)
    · cases h
      exact .refl k

theorem deallocuvm_mem {k k' : Kernel} {d oldsz newsz n : Nat}
    (h : deallocuvm k d oldsz newsz = .ok (n, k')) : OnlyMem k k' := by
  unfold deallocuvm at h
  split at h
  · cases h
    exact .refl k
  · rw [bind_eq_ok] at h
    obtain ⟨k1, hfold, h⟩ := h
    cases h
    exact foldlM_ok OnlyMem.refl OnlyMem.trans deallocPage_mem hfold

theorem freevm_mem {k k' : Kernel} {d : Nat} (h : freevm k d = .ok k') : OnlyMem k k' := by
  unfold freevm at h
  split at h
  · cases h
  · simp only [bind_eq_ok] at h
    obtain ⟨⟨n, k1⟩, hdealloc, k2, hfold, h⟩ := h
    exact ((deallocuvm_mem hdealloc).trans (foldlM_ok OnlyMem.refl OnlyMem.trans kfree_mem hfold)).trans
      (kfree_mem h)

theorem setupkvm_mem {k k' : Kernel} {d : Option Nat} (h : setupkvm k = .ok (d, k')) : OnlyMem k k' := by
  unfold setupkvm at h
  split at h
  next k1 hk1 =>
    cases h
    exact kalloc_mem hk1
  next f k1 hk1 =>
    simp only [] at h
    split at h
    · cases h
      exact (kalloc_mem hk1).trans ⟨_, _, _, rfl⟩
    · rw [bind_eq_ok] at h
      obtain ⟨k2, hfree, h⟩ := h
      cases h
      exact ((kalloc_mem hk1).trans ⟨_, _, _, rfl⟩).trans (freevm_mem hfree)

/-- `copyuvm` returns `true` for a page that was present. -/
theorem copyPage_mem {d pgdir i : Nat} {k k' : Kernel} {b : Bool}
    (h : copyPage d pgdir k i = .ok (b, k')) :
    OnlyMem k k' ∧ ∃ x, k.walkpgdir pgdir i = some x ∧ x.p = true := by
  unfold copyPage at h
  split at h
  · cases h
  next x hx =>
    split at h
    · cases h
    next hp =>
      refine ⟨?_, x, hx, by simpa using hp⟩
      split at h
      next k1 hk1 =>
        cases h
        exact kalloc_mem hk1
      next mem k1 hk1 =>
        simp only [bind_eq_ok] at h
        obtain ⟨⟨r, k2⟩, hmap, h⟩ := h
        have h2 := ((kalloc_mem hk1).trans (.setFrame k1 mem _)).trans (mappages_mem hmap)
        split at h
        · rw [bind_eq_ok] at h
          obtain ⟨k3, hfree, h⟩ := h
          cases h
          exact h2.trans (kfree_mem hfree)
        · cases h
          exact h2

theorem copyLoop_mem {d pgdir : Nat} {pages : List Nat} {k k' : Kernel} {r : Option Nat}
    (h : copyLoop d pgdir pages k = .ok (r, k')) : OnlyMem k k' := by
  induction pages generalizing k with
  | nil =>
    cases h
    exact .refl _
  | cons i rest ih =>
    simp only [copyLoop, bind_eq_ok] at h
    obtain ⟨⟨b, k1⟩, hpage, h⟩ := h
    have h1 := (copyPage_mem hpage).1
    simp only at h
    split at h
    · exact h1.trans (ih h)
    · rw [bind_eq_ok] at h
      obtain ⟨k2, hfree, h⟩ := h
      cases h
      exact h1.trans (freevm_mem hfree)

theorem copyuvm_mem {k k' : Kernel} {pgdir sz : Nat} {d : Option Nat}
    (h : copyuvm k pgdir sz = .ok (d, k')) : OnlyMem k k' := by
  simp only [copyuvm, bind_eq_ok] at h
  obtain ⟨⟨d1, k1⟩, hsetup, h⟩ := h
  simp only at h
  split at h
  · cases h
    exact setupkvm_mem hsetup
  · exact (setupkvm_mem hsetup).trans (copyLoop_mem h)

/-! ### The process table -/

/-- Only entry `np` of the process table changes. -/
structure OnlyProc (np : ProcId) (k k' : Kernel) : Prop where
  curproc : k'.curproc = k.curproc
  locks : k'.locks = k.locks
  others : ∀ p, p ≠ np → k'.proc p = k.proc p

namespace OnlyProc

variable {np : ProcId} {k k' k'' : Kernel}

theorem refl (k : Kernel) : OnlyProc np k k := ⟨rfl, rfl, fun _ _ => rfl⟩

theorem trans (h : OnlyProc np k k') (h' : OnlyProc np k' k'') : OnlyProc np k k'' := by
  refine ⟨h'.curproc.trans h.curproc, h'.locks.trans h.locks, ?_⟩
  intro p hp
  rw [h'.others p hp, h.others p hp]

theorem setProc (k : Kernel) (x : Proc) : OnlyProc np k (k.setProc np x) := by
  refine ⟨rfl, rfl, ?_⟩
  intro p hp
  exact Kernel.setProc_ne k x hp

theorem of_mem (h : OnlyMem k k') : OnlyProc np k k' := by
  refine ⟨h.curproc, h.locks, ?_⟩
  intro p _
  rw [h.proc]

theorem of_fs (h : k' = { k with fs := k'.fs }) : OnlyProc np k k' := by
  refine ⟨?_, ?_, ?_⟩
  · rw [h]
  · rw [h]
  · intro p _
    rw [h]

theorem cur (h : OnlyProc np k k') (hne : k.curproc ≠ np) : k'.cur = k.cur := by
  unfold Kernel.cur
  rw [h.curproc]
  exact h.others _ hne

end OnlyProc

/-- The swap file is the only thing `createSwapFile` gives the process. -/
theorem createSwapFile_ok {k k' : Kernel} {p : ProcId} (h : createSwapFile k p = .ok k') :
    ∃ fs f, k' = { k with fs }.setProc p { k.proc p with swapFile := some f } := by
  simp only [createSwapFile, bind_eq_ok] at h
  obtain ⟨⟨r, fs⟩, -, fs1, -, ip, -, h⟩ := h
  split at h
  · cases h
  · cases h
    exact ⟨_, _, rfl⟩

theorem initPaging_ok {k k' : Kernel} {p : ProcId} (h : initPaging k p = .ok k') :
    OnlyProc p k k' ∧ (k'.proc p).pid = (k.proc p).pid ∧ (k'.proc p).kstack = (k.proc p).kstack := by
  unfold initPaging at h
  split at h
  · simp only [bind_eq_ok] at h
    obtain ⟨k1, hcreate, -, -, -, -, h⟩ := h
    obtain ⟨fs, f, rfl⟩ := createSwapFile_ok hcreate
    cases h
    refine ⟨?_, by simp [Proc.resetPaging], by simp [Proc.resetPaging]⟩
    exact ((OnlyProc.of_fs rfl).trans (.setProc _ _)).trans (.setProc _ _)
  · cases h
    exact ⟨.refl k, rfl, rfl⟩

/-- The entry `allocproc` returns was unused, and it gets the next pid. -/
theorem allocproc_ok {k k' : Kernel} {np : ProcId} (h : allocproc k = .ok (some np, k')) :
    freeProc k = some np ∧ OnlyProc np k k' ∧ (k'.proc np).pid = k.nextpid := by
  unfold allocproc at h
  split at h
  · cases h
  next p hfree =>
    simp only [] at h
    split at h
    · cases h
    next stack k1 hk1 =>
      rw [bind_eq_ok] at h
      obtain ⟨k2, hinit, h⟩ := h
      cases h
      obtain ⟨h2, hpid, -⟩ := initPaging_ok hinit
      have h1 := kalloc_mem hk1
      refine ⟨hfree, ?_, ?_⟩
      · have h0 : OnlyProc np k { k with nextpid := k.nextpid + 1 } := ⟨rfl, rfl, fun _ _ => rfl⟩
        exact (((h0.trans (.setProc _ _)).trans (.of_mem h1)).trans (.setProc _ _)).trans h2
      · rw [hpid, Kernel.setProc_self]
        rw [h1.proc, Kernel.setProc_self]

theorem freeProc_unused {k : Kernel} {np : ProcId} (h : freeProc k = some np) :
    (k.proc np).state = .UNUSED := by
  simpa using List.find?_some h

/-! ### `fork` -/

theorem copySwapLoop_ok {np : ProcId} {fuel : Nat} {offset r : Int} {buffer : Nat → UInt8}
    {k k' : Kernel} (h : copySwapLoop np fuel offset r buffer k = .ok k') :
    k' = { k with fs := k'.fs } := by
  induction fuel generalizing offset r buffer k with
  | zero => cases h
  | succ fuel ih =>
    unfold copySwapLoop at h
    split at h
    · cases h
      rfl
    · simp only [bind_eq_ok] at h
      obtain ⟨⟨n, k1⟩, hwrite, ⟨r', bytes, k2⟩, hread, -, -, h⟩ := h
      have h1 := writeToSwapFile_ok hwrite
      have h2 := readFromSwapFile_ok hread
      have h3 := ih h
      rw [h3, h2, h1]

theorem copySwapFile_ok {np : ProcId} {k k' : Kernel} (h : copySwapFile k np = .ok k') :
    k' = { k with fs := k'.fs } := by
  simp only [copySwapFile, bind_eq_ok] at h
  obtain ⟨⟨r, bytes, k1⟩, hread, k2, hloop, -, -, h⟩ := h
  cases h
  have h1 := readFromSwapFile_ok hread
  have h2 := copySwapLoop_ok hloop
  rw [h2, h1]

/-- The child has the metadata of the parent, the pointers included. -/
theorem forkChild_ok {k k' : Kernel} {np : ProcId} {d : Nat} {r : Int} (hne : k.curproc ≠ np)
    (hpid : 2 < k.cur.pid) (h : forkChild k np d = .ok (r, k')) :
    OnlyProc np k k' ∧ r = (k.proc np).pid ∧
      k'.proc np = { ((k.proc np).childOf k.cur k.curproc d).copyPaging k.cur with
        state := .RUNNABLE } := by
  simp only [forkChild, bind_eq_ok] at h
  obtain ⟨fs, hdup, h⟩ := h
  set k1 := k.setProc np ((k.proc np).childOf k.cur k.curproc d) with hk1
  have h1 : OnlyProc np k k1 := .setProc _ _
  have hcur1 : k1.cur = k.cur := h1.cur hne
  have hpid1 : k1.cur.pid ≠ 1 ∧ k1.cur.pid ≠ 2 := by
    rw [hcur1]
    omega
  have hnp1 : k1.proc np = (k.proc np).childOf k.cur k.curproc d := Kernel.setProc_self _ _ _
  simp only [show ({ k1 with fs := fs.idup k1.cur.cwd } : Kernel).cur = k1.cur from rfl] at h
  rw [if_pos hpid1, bind_eq_ok] at h
  obtain ⟨k2, hcopy, h⟩ := h
  have h2 := copySwapFile_ok hcopy
  cases h
  refine ⟨?_, ?_, ?_⟩
  · exact (((h1.trans (.of_fs rfl)).trans (.setProc _ _)).trans (.of_fs h2)).trans (.setProc _ _)
  · rw [hnp1]
    rfl
  · rw [Kernel.setProc_self, h2, hcur1]
    simp [hnp1]

/-- The stages of a `fork` that does not return `-1`. -/
theorem fork_ok {k k' : Kernel} {r : Int} (hlive : k.cur.state ≠ .UNUSED) (h : fork k = .ok (r, k'))
    (hr : r ≠ -1) : ∃ np k1 d k2, freeProc k = some np ∧ k.curproc ≠ np ∧
      allocproc k = .ok (some np, k1) ∧ k1.cur = k.cur ∧ copyuvm k1 k.cur.pgdir k.cur.sz = .ok (some d, k2) ∧
      k2.cur = k.cur ∧ forkChild k2 np d = .ok (r, k') ∧ OnlyProc np k k2 ∧
      (k2.proc np).pid = k.nextpid := by
  simp only [fork, bind_eq_ok] at h
  obtain ⟨⟨np, k1⟩, halloc, h⟩ := h
  cases np with
  | none =>
    cases h
    exact absurd rfl hr
  | some np =>
    obtain ⟨hfree, h1, hpid1⟩ := allocproc_ok halloc
    have hne : k.curproc ≠ np := by
      intro heq
      have hunused := freeProc_unused hfree
      rw [← heq] at hunused
      exact hlive hunused
    have hcur1 : k1.cur = k.cur := h1.cur hne
    simp only [bind_eq_ok] at h
    obtain ⟨⟨d, k2⟩, hcopy, h⟩ := h
    have h2 := copyuvm_mem hcopy
    cases d with
    | none =>
      simp only [bind_eq_ok] at h
      obtain ⟨k3, -, h⟩ := h
      cases h
      exact absurd rfl hr
    | some d =>
      rw [hcur1] at hcopy
      refine ⟨np, k1, d, k2, hfree, hne, halloc, hcur1, hcopy, ?_, h, h1.trans (.of_mem h2), ?_⟩
      · rw [h2.cur, hcur1]
      · rw [h2.proc, hpid1]

/-- What the child gets: the parent's metadata, and the next pid. -/
theorem fork_child {k k' : Kernel} {r : Int} (hlive : k.cur.state ≠ .UNUSED) (hpid : 2 < k.cur.pid)
    (h : fork k = .ok (r, k')) (hr : r ≠ -1) : ∃ np, freeProc k = some np ∧ k.curproc ≠ np ∧
      r = k.nextpid ∧ OnlyProc np k k' ∧ (k'.proc np).pagesInPhyMem = k.cur.pagesInPhyMem ∧
      (k'.proc np).head = k.cur.head := by
  obtain ⟨np, k1, d, k2, hfree, hne, -, -, -, hcur2, hchild, h2, hpid2⟩ := fork_ok hlive h hr
  have hne2 : k2.curproc ≠ np := by rwa [h2.curproc]
  obtain ⟨h3, hr3, hnp⟩ := forkChild_ok hne2 (by rwa [hcur2]) hchild
  refine ⟨np, hfree, hne, ?_, h2.trans h3, ?_, ?_⟩
  · rw [hr3, hpid2]
  · rw [hnp, hcur2]
    rfl
  · rw [hnp, hcur2]
    rfl

end Paging
