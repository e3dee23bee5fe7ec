import OperatingSystem314.Paging.Grow

/-! # What the paging routines can change

    For each routine, what holds of the kernel it returns, whatever the
    kernel it started from (no invariant is assumed).  `OnlyLists` is for
    the routines of the list, `OnlySwaps` for eviction, exchange and page
    faults: apart from the lists, the slots and the directory of the
    current process they leave processes and page tables alone. -/

namespace Paging

/-! ### The list routines -/

/-- Equal up to the list fields. -/
def Proc.SameButList (x y : Proc) : Prop :=
  ∃ cells h n, y = { x with pagesInPhyMem := cells, head := h, nPagesInPhyMemory := n }

namespace Proc.SameButList

variable {x y z : Proc}

theorem refl (x : Proc) : x.SameButList x := ⟨_, _, _, rfl⟩

theorem trans (h : x.SameButList y) (h' : y.SameButList z) : x.SameButList z := by
  obtain ⟨_, _, _, rfl⟩ := h
  obtain ⟨_, _, _, rfl⟩ := h'
  exact ⟨_, _, _, rfl⟩

theorem pgdir (h : x.SameButList y) : y.pgdir = x.pgdir := by
  obtain ⟨_, _, _, rfl⟩ := h
  rfl

theorem slots (h : x.SameButList y) : y.pagesInSwapFile = x.pagesInSwapFile := by
  obtain ⟨_, _, _, rfl⟩ := h
  rfl

theorem count (x : Proc) (n : Int) : x.SameButList (x.count n 0) :=
  ⟨x.pagesInPhyMem, x.head, x.nPagesInPhyMemory + n, by simp only [Proc.count, Int.add_zero]⟩

end Proc.SameButList

/-- Only list fields of processes change. -/
structure OnlyLists (k k' : Kernel) : Prop where
  rest : k' = { k with proc := k'.proc }
  procs : ∀ p, (k.proc p).SameButList (k'.proc p)

namespace OnlyLists

variable {k k' k'' : Kernel}

theorem refl (k : Kernel) : OnlyLists k k := ⟨rfl, fun _ => .refl _⟩

theorem trans (h : OnlyLists k k') (h' : OnlyLists k' k'') : OnlyLists k k'' := by
  refine ⟨?_, fun p => (h.procs p).trans (h'.procs p)⟩
  rw [h'.rest, h.rest]

theorem curproc (h : OnlyLists k k') : k'.curproc = k.curproc := by rw [h.rest]

theorem cur (h : OnlyLists k k') : k.cur.SameButList k'.cur := by
  unfold Kernel.cur
  rw [h.curproc]
  exact h.procs _

theorem setProc (k : Kernel) (p : ProcId) {x : Proc} (h : (k.proc p).SameButList x) :
    OnlyLists k (k.setProc p x) := by
  refine ⟨rfl, fun r => ?_⟩
  by_cases hr : r = p
  · subst hr; simpa using h
  · simp [hr, Proc.SameButList.refl]

theorem modCur (k : Kernel) {f : Proc → Proc} (h : k.cur.SameButList (f k.cur)) :
    OnlyLists k (k.modCur f) :=
  setProc k k.curproc h

theorem setCell (k : Kernel) (c : Cell) (x : PageInPhyMem) : OnlyLists k (k.setCell c x) :=
  setProc k c.owner ⟨_, _, _, rfl⟩

end OnlyLists

theorem enqueueFIFO_lists {k k' : Kernel} {a : Nat} (h : enqueueFIFO k a = .ok k') : OnlyLists k k' := by
  have hput : ∀ {k1 : Kernel} {c : Cell} {x : PageInPhyMem}, OnlyLists k k1 →
      OnlyLists k ((k1.setCell c x).modCur fun p => p.count 1 0) := by
    intro k1 c x h1
    exact (h1.trans (.setCell k1 c x)).trans (.modCur _ (.count _ 1))
  unfold enqueueFIFO at h
  split at h
  · cases h
    exact .refl k
  · simp only [] at h
    split at h
    · cases h
      exact hput (.modCur k ⟨_, _, _, rfl⟩)
    · rw [bind_eq_ok] at h
      obtain ⟨t, -, h⟩ := h
      cases h
      exact hput (.setCell k _ _)

theorem dequeueFIFO_lists {k k' : Kernel} {a : Nat} (h : dequeueFIFO k = .ok (a, k')) :
    OnlyLists k k' := by
  simp only [dequeueFIFO, bind_eq_ok] at h
  obtain ⟨-, -, -, -, h⟩ := h
  split at h
  · cases h
    exact .refl k
  · simp only [bind_eq_ok] at h
    obtain ⟨-, -, -, -, h⟩ := h
    cases h
    exact (OnlyLists.setCell k _ _).trans (.modCur _ ⟨_, _, _, rfl⟩)

/-! ### The swap file -/

theorem writeToSwapFile_ok {k k' : Kernel} {p : ProcId} {src : Nat → UInt8} {off : Nat} {size r : Int}
    (h : writeToSwapFile k p src off size = .ok (r, k')) : k' = { k with fs := k'.fs } := by
  simp only [writeToSwapFile, bind_eq_ok] at h
  obtain ⟨f, -, h⟩ := h
  split at h
  · cases h
  · simp only [bind_eq_ok] at h
    obtain ⟨⟨r, fs⟩, -, h⟩ := h
    cases h
    rfl

theorem readFromSwapFile_ok {k k' : Kernel} {p : ProcId} {off size : Nat} {r : Int}
    {bytes : Nat → UInt8} (h : readFromSwapFile k p off size = .ok (r, bytes, k')) :
    k' = { k with fs := k'.fs } := by
  simp only [readFromSwapFile, bind_eq_ok] at h
  obtain ⟨f, -, ⟨r, fs⟩, -, h⟩ := h
  cases h
  rfl

/-! ### Eviction and exchange -/

/-- Equal up to the paging metadata. -/
def Proc.SameButPaging (x y : Proc) : Prop :=
  ∃ cells h n slots n', y = { x with
    pagesInPhyMem := cells, head := h, nPagesInPhyMemory := n
    pagesInSwapFile := slots, nPagesInSwapFile := n' }

namespace Proc.SameButPaging

variable {x y z : Proc}

theorem trans (h : x.SameButPaging y) (h' : y.SameButPaging z) : x.SameButPaging z := by
  obtain ⟨_, _, _, _, _, rfl⟩ := h
  obtain ⟨_, _, _, _, _, rfl⟩ := h'
  exact ⟨_, _, _, _, _, rfl⟩

theorem of_list (h : x.SameButList y) : x.SameButPaging y := by
  obtain ⟨_, _, _, rfl⟩ := h
  exact ⟨_, _, _, _, _, rfl⟩

theorem pgdir (h : x.SameButPaging y) : y.pgdir = x.pgdir := by
  obtain ⟨_, _, _, _, _, rfl⟩ := h
  rfl

theorem pid (h : x.SameButPaging y) : y.pid = x.pid := by
  obtain ⟨_, _, _, _, _, rfl⟩ := h
  rfl

end Proc.SameButPaging

/-- Only memory, the swap file, the directory and the paging metadata of
    the current process change, and the lists of other processes; slots in
    use stay in use. -/
structure OnlySwaps (k k' : Kernel) : Prop where
  rest : k' = { k with
    proc := k'.proc, fs := k'.fs, frame := k'.frame, freelist := k'.freelist, pgdir := k'.pgdir }
  procs : ∀ p, (k.proc p).SameButPaging (k'.proc p)
  others : ∀ p, p ≠ k.curproc → (k.proc p).SameButList (k'.proc p)
  pgdirs : ∀ e, e ≠ k.cur.pgdir → k'.pgdir e = k.pgdir e
  used : ∀ i, (k.cur.pagesInSwapFile i).in_use = true → (k'.cur.pagesInSwapFile i).in_use = true

namespace OnlySwaps

variable {k k' k'' : Kernel}

theorem curproc (h : OnlySwaps k k') : k'.curproc = k.curproc := by rw [h.rest]

theorem locks (h : OnlySwaps k k') : k'.locks = k.locks := by rw [h.rest]

theorem cur (h : OnlySwaps k k') : k.cur.SameButPaging k'.cur := by
  unfold Kernel.cur
  rw [h.curproc]
  exact h.procs _

theorem pgdir (h : OnlySwaps k k') : k'.cur.pgdir = k.cur.pgdir := h.cur.pgdir

theorem trans (h : OnlySwaps k k') (h' : OnlySwaps k' k'') : OnlySwaps k k'' := by
  refine ⟨?_, fun p => (h.procs p).trans (h'.procs p), fun p hp => ?_, fun e he => ?_,
    fun i hi => h'.used i (h.used i hi)⟩
  · rw [h'.rest, h.rest]
  · exact (h.others p hp).trans (h'.others p (by rwa [h.curproc]))
  · rw [h'.pgdirs e (by rwa [h.pgdir]), h.pgdirs e he]

theorem of_lists (h : OnlyLists k k') : OnlySwaps k k' := by
  refine ⟨?_, fun p => .of_list (h.procs p), fun p _ => h.procs p, fun e _ => ?_, fun i hi => ?_⟩
  · rw [h.rest]
  · rw [h.rest]
  · rwa [h.cur.slots]

theorem refl (k : Kernel) : OnlySwaps k k := of_lists (.refl k)

end OnlySwaps

/-- In addition, other processes are left alone. -/
structure OnlyCur (k k' : Kernel) : Prop extends OnlySwaps k k' where
  same : ∀ p, p ≠ k.curproc → k'.proc p = k.proc p

namespace OnlyCur

variable {k k' k'' : Kernel}

theorem trans (h : OnlyCur k k') (h' : OnlyCur k' k'') : OnlyCur k k'' := by
  refine ⟨h.toOnlySwaps.trans h'.toOnlySwaps, fun p hp => ?_⟩
  rw [h'.same p (by rwa [h.curproc]), h.same p hp]

theorem refl (k : Kernel) : OnlyCur k k := ⟨.refl k, fun _ _ => rfl⟩

/-- Memory and the file system may change freely. -/
theorem of_mem (k : Kernel) (fs : Fs) (frame : Nat → Nat → UInt8) (freelist : List Nat) :
    OnlyCur k { k with fs, frame, freelist } :=
  ⟨⟨rfl, fun _ => .of_list (.refl _), fun _ _ => .refl _, fun _ _ => rfl, fun _ hi => hi⟩,
    fun _ _ => rfl⟩

theorem setFrame (k : Kernel) (f : Nat) (bytes : Nat → UInt8) : OnlyCur k (k.setFrame f bytes) :=
  of_mem k k.fs _ k.freelist

theorem of_fs (h : k' = { k with fs := k'.fs }) : OnlyCur k k' := by
  rw [h]
  exact of_mem k _ k.frame k.freelist

theorem setPte (k : Kernel) (va : Nat) (x : Pte) : OnlyCur k (k.setPte k.cur.pgdir va x) := by
  refine ⟨⟨rfl, fun _ => .of_list (.refl _), fun _ _ => .refl _, fun e he => ?_, fun _ hi => hi⟩,
    fun _ _ => rfl⟩
  simp [Kernel.setPte, he]

theorem modCur (k : Kernel) {f : Proc → Proc} (h : k.cur.SameButPaging (f k.cur))
    (hused : ∀ i, (k.cur.pagesInSwapFile i).in_use = true →
      ((f k.cur).pagesInSwapFile i).in_use = true) : OnlyCur k (k.modCur f) := by
  have hother : ∀ p, p ≠ k.curproc → (k.modCur f).proc p = k.proc p := fun p hp =>
    Kernel.setProc_ne k _ hp
  refine ⟨⟨rfl, fun p => ?_, fun p hp => ?_, fun _ _ => rfl, fun i hi => ?_⟩, hother⟩
  · by_cases hp : p = k.curproc
    · subst hp
      have : (k.modCur f).proc k.curproc = f k.cur := Kernel.modCur_cur k f
      rw [this]
      exact h
    · rw [hother p hp]
      exact .of_list (.refl _)
  · rw [hother p hp]
    exact .refl _
  · rw [Kernel.modCur_cur]
    exact hused i hi

theorem setSlot (k : Kernel) (i : Fin MAX_PSYC_PAGES) (s : PageInSwapFile)
    (hs : (k.cur.pagesInSwapFile i).in_use = true → s.in_use = true) :
    OnlyCur k (k.modCur fun x => x.setSlot i s) := by
  refine modCur k ⟨_, _, _, _, _, rfl⟩ fun j hj => ?_
  by_cases hji : j = i
  · subst hji
    simpa using hs hj
  · simpa [Proc.setSlot, hji] using hj

theorem count (k : Kernel) (phy swap : Int) : OnlyCur k (k.modCur fun x => x.count phy swap) :=
  modCur k ⟨_, _, _, _, _, rfl⟩ fun _ hi => hi

end OnlyCur

/-- A slot is taken and written, or there is none. -/
theorem recordPage_cases {k k' : Kernel} {a : Nat} {x : Pte} (h : recordPage k a x = .ok k') :
    k' = k ∨ ∃ i fs, k' = { k.modCur fun p => p.setSlot i ⟨a, true⟩ with fs } := by
  unfold recordPage at h
  split at h
  · cases h
    exact .inl rfl
  · next i _ =>
    rw [bind_eq_ok] at h
    obtain ⟨⟨n, k1⟩, hw, h⟩ := h
    have hfs := writeToSwapFile_ok hw
    simp only at h
    split at h
    · cases h
    · rw [bind_eq_ok] at h
      obtain ⟨-, -, h⟩ := h
      cases h
      exact .inr ⟨i, _, hfs⟩

theorem recordPage_ok {k k' : Kernel} {a : Nat} {x : Pte} (h : recordPage k a x = .ok k') :
    OnlyCur k k' ∧ k'.pgdir = k.pgdir ∧ k'.cur.pagesInPhyMem = k.cur.pagesInPhyMem ∧
      k'.cur.head = k.cur.head := by
  rcases recordPage_cases h with rfl | ⟨i, fs, rfl⟩
  · exact ⟨.refl _, rfl, rfl, rfl⟩
  · have hcur : (k.modCur fun p => p.setSlot i ⟨a, true⟩).cur = k.cur.setSlot i ⟨a, true⟩ := Kernel.modCur_cur k _
    refine ⟨(OnlyCur.setSlot k i ⟨a, true⟩ fun _ => rfl).trans (.of_fs rfl), rfl, ?_, ?_⟩
    · show (k.modCur fun p => p.setSlot i ⟨a, true⟩).cur.pagesInPhyMem = _
      rw [hcur, Proc.setSlot_cells]
    · show (k.modCur fun p => p.setSlot i ⟨a, true⟩).cur.head = _
      rw [hcur, Proc.setSlot_head]

theorem kfree_ok {k k' : Kernel} {f : Nat} (h : kfree k f = .ok k') :
    k' = { k with freelist := f :: k.freelist, frame := Function.update k.frame f fun _ => 1 } := by
  unfold kfree at h
  split at h
  · cases h
    rfl
  · cases h

/-- Whatever slot the page gets, if any, its frame is freed and its entry marked. -/
theorem moveToSwapFile_ok {k k' : Kernel} {a : Nat} (h : moveToSwapFile k a = .ok k') :
    OnlyCur k k' ∧ k'.cur.pagesInPhyMem = k.cur.pagesInPhyMem ∧ k'.cur.head = k.cur.head ∧
      ∃ x, k.walkpgdir k.cur.pgdir a = some x ∧ x ≠ .zero ∧
        k'.pgdir k.cur.pgdir = if x.p then (k.pgdir k.cur.pgdir).setPte (PTE_ADDR a) .swapped
          else k.pgdir k.cur.pgdir := by
  simp only [moveToSwapFile, bind_eq_ok, deref_eq_ok] at h
  obtain ⟨x, hx, h⟩ := h
  split at h
  · cases h
  next hx0 =>
  simp only [bind_eq_ok, deref_eq_ok] at h
  obtain ⟨k1, hrec, y, hy, h⟩ := h
  obtain ⟨h1, hpgdir1, hcells1, hhead1⟩ := recordPage_ok hrec
  obtain rfl : x = y := by
    rw [walkpgdir_PTE_ADDR, h1.pgdir] at hy
    have : k1.walkpgdir k.cur.pgdir a = k.walkpgdir k.cur.pgdir a := by
      simp only [Kernel.walkpgdir, hpgdir1]
    rw [this, hx] at hy
    exact Option.some.inj hy
  rw [if_neg hx0] at h
  split at h
  next hp =>
    simp only [bind_eq_ok] at h
    obtain ⟨k3, hfree, k2, h, h'⟩ := h
    cases h
    cases h'
    have hk3 := kfree_ok hfree
    have h3 : OnlyCur k1 k3 := by
      rw [hk3]
      exact .of_mem k1 k1.fs _ _
    have hcur3 : k3.cur = k1.cur := by
      rw [hk3]
      rfl
    refine ⟨((h1.trans h3).trans (.setPte k3 _ _)).trans (.count _ _ _), ?_, ?_, x, hx, hx0, ?_⟩
    · rw [Kernel.modCur_cur, Proc.count_cells, Kernel.setPte_cur, hcur3, hcells1]
    · rw [Kernel.modCur_cur, Proc.count_head, Kernel.setPte_cur, hcur3, hhead1]
    · rw [if_pos hp]
      have hpgdir3 : k3.pgdir = k.pgdir := by
        rw [hk3]
        exact hpgdir1
      simp [Kernel.modCur, Kernel.setPte, hcur3, h1.pgdir, hpgdir3]
  next hp =>
    simp only [bind_eq_ok] at h
    obtain ⟨k2, h, h'⟩ := h
    cases h
    cases h'
    refine ⟨h1.trans (.count _ _ _), ?_, ?_, x, hx, hx0, ?_⟩
    · rw [Kernel.modCur_cur, Proc.count_cells, hcells1]
    · rw [Kernel.modCur_cur, Proc.count_head, hhead1]
    · rw [if_neg hp]
      simp [Kernel.modCur, hpgdir1]

theorem swapPageOut_ok {k k' : Kernel} (h : swapPageOut k = .ok k') :
    ∃ a k1, dequeueFIFO k = .ok (a, k1) ∧ moveToSwapFile k1 a = .ok k' := by
  simp only [swapPageOut, bind_eq_ok] at h
  obtain ⟨⟨a, k1⟩, hdeq, hmove⟩ := h
  exact ⟨a, k1, hdeq, hmove⟩

theorem swapPageOut_swaps {k k' : Kernel} (h : swapPageOut k = .ok k') : OnlySwaps k k' := by
  obtain ⟨a, k1, hdeq, hmove⟩ := swapPageOut_ok h
  exact (OnlySwaps.of_lists (dequeueFIFO_lists hdeq)).trans (moveToSwapFile_ok hmove).1.toOnlySwaps

/-- Either no slot has the address and nothing happens, or the next page of
    the list gives its frame to the page brought in. -/
theorem swapPageIn_ok {k k' : Kernel} {va : Nat} (h : swapPageIn k va = .ok k') :
    (slotOf k.cur (PTE_ADDR va) = none ∧ k' = k) ∨
    ∃ i b k1 k2 y, slotOf k.cur (PTE_ADDR va) = some i ∧ dequeueFIFO k = .ok (b, k1) ∧
      OnlyCur k1 k2 ∧ enqueueFIFO k2 va = .ok k' ∧
      k2.cur.pagesInPhyMem = k1.cur.pagesInPhyMem ∧ k2.cur.head = k1.cur.head ∧
      k1.walkpgdir k1.cur.pgdir b = some y ∧
      k2.pgdir k1.cur.pgdir =
        ((k1.pgdir k1.cur.pgdir).setPte va ⟨y.ppn, true, true, true, false⟩).setPte b .swapped := by
  unfold swapPageIn at h
  split at h
  next hnone =>
    cases h
    exact .inl ⟨hnone, rfl⟩
  next i hslot =>
    right
    simp only [bind_eq_ok, deref_eq_ok] at h
    obtain ⟨⟨b, k1⟩, hdeq, x, hx, h⟩ := h
    split at h
    · cases h
    simp only [bind_eq_ok, deref_eq_ok] at h
    obtain ⟨y, hy, h⟩ := h
    split at h
    · cases h
    simp only [bind_eq_ok] at h
    obtain ⟨⟨r, bytes, k4⟩, hread, ⟨r', k5⟩, hwrite, k6, henq, _, -, h⟩ := h
    cases h
    have hfs4 := readFromSwapFile_ok hread
    have hfs5 := writeToSwapFile_ok hwrite
    set k2 := k1.modCur fun x => x.setSlot i { x.pagesInSwapFile i with address := b } with hk2
    have hcur2 : k2.cur = k1.cur.setSlot i { k1.cur.pagesInSwapFile i with address := b } :=
      Kernel.modCur_cur k1 fun x => x.setSlot i { x.pagesInSwapFile i with address := b }
    have hpgdir2 : k2.cur.pgdir = k1.cur.pgdir := by rw [hcur2, Proc.setSlot_pgdir]
    have hcur5 : k5.cur = k2.cur := by
      rw [hfs5, hfs4]
      rfl
    have hpgdir5 : k5.pgdir = (k2.setPte k1.cur.pgdir va ⟨y.ppn, true, true, true, false⟩).pgdir := by
      rw [hfs5, hfs4]
    have h2 : OnlyCur k1 k2 := .setSlot k1 i _ fun hi => hi
    have h3 : OnlyCur k2 (k2.setPte k1.cur.pgdir va ⟨y.ppn, true, true, true, false⟩) := by
      rw [← hpgdir2]
      exact .setPte k2 _ _
    have h5 := ((h2.trans h3).trans (.of_fs hfs4)).trans (.of_fs hfs5)
    simp only at henq
    generalize (fun j : Nat => if (j : Int) < r then bytes j else 0) = buffer at henq
    refine ⟨i, b, k1, _, y, hslot, hdeq, ?_, henq, ?_, ?_, hy, ?_⟩
    · refine (h5.trans (.setFrame k5 y.ppn buffer)).trans ?_
      rw [← hpgdir2, ← hcur5]
      exact .setPte _ _ _
    · rw [Kernel.setPte_cur, Kernel.setFrame_cur, hcur5, hcur2, Proc.setSlot_cells]
    · rw [Kernel.setPte_cur, Kernel.setFrame_cur, hcur5, hcur2, Proc.setSlot_head]
    · simp [Kernel.setPte, Kernel.setFrame, hpgdir5, hk2, Kernel.modCur]

theorem swapPageIn_swaps {k k' : Kernel} {va : Nat} (h : swapPageIn k va = .ok k') : OnlySwaps k k' := by
  rcases swapPageIn_ok h with ⟨-, rfl⟩ | ⟨i, b, k1, k2, y, -, hdeq, h2, henq, -⟩
  · exact .refl k'
  · exact ((OnlySwaps.of_lists (dequeueFIFO_lists hdeq)).trans h2.toOnlySwaps).trans
      (.of_lists (enqueueFIFO_lists henq))

/-! ### Page faults -/

/-- A handled fault is an eviction followed by an exchange. -/
theorem trapPgflt_ok {user : Bool} {k k' : Kernel} {va : Nat} {e : FaultEnd}
    (h : trapPgflt user k va = .ok (e, k')) :
    .cons ∉ k.locks ∧
    ((∃ x, k.walkpgdir k.cur.pgdir va = some x ∧ x.pg = true) ∧ e = .resumed ∧
        (∃ k1, swapPageOut k = .ok k1 ∧ swapPageIn k1 (PTE_ADDR va) = .ok k') ∨
      (∀ x, k.walkpgdir k.cur.pgdir va = some x → x.pg = false) ∧ user = true ∧ e = .killed ∧
        k' = k.modCur fun x => { x with killed := true }) := by
  unfold trapPgflt at h
  simp only [bind_eq_ok] at h
  obtain ⟨_, hprint, h⟩ := h
  refine ⟨cprintf_eq_ok hprint, ?_⟩
  cases hwalk : k.walkpgdir k.cur.pgdir va with
  | none =>
    simp only [hwalk, Bool.false_eq_true, if_false] at h
    split at h
    next hu =>
      cases h
      exact .inr ⟨nofun, hu, rfl, rfl⟩
    · cases h
  | some x =>
    simp only [hwalk] at h
    cases hpg : x.pg with
    | true =>
      simp only [hpg, if_true, bind_eq_ok] at h
      obtain ⟨k1, hout, k2, hin, h⟩ := h
      cases h
      exact .inl ⟨⟨x, rfl, hpg⟩, rfl, k1, hout, hin⟩
    | false =>
      simp only [hpg, Bool.false_eq_true, if_false] at h
      split at h
      next hu =>
        cases h
        exact .inr ⟨fun y hy => by cases hy; exact hpg, hu, rfl, rfl⟩
      · cases h

end Paging
