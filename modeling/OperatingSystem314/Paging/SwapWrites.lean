import OperatingSystem314.Paging.SwapOffsets
import OperatingSystem314.Paging.Service

/-! # Every write to the swap file is accepted

    Slots are taken in order, so the slots that were ever written are the
    first ones, and the swap file covers them.  Resetting the metadata frees
    slots, but the file keeps its size; the copy that a child gets is as
    long as the file of the parent.

    * `SwapWrite`: the calls of `writeToSwapFile` in evictions and exchanges.
    * `Covered`: the slots behind the end of the file were never used.
    * `Covered.write`: such a call fits. -/

namespace Paging

/-! ### The calls -/

/-- `writeToSwapFile` is called in `kw` with `src` and the offset, by an
    eviction or an exchange that was started in `k`. -/
inductive SwapWrite : (k kw : Kernel) → (src : Nat → UInt8) → (placeOnFile : Nat) → Prop where
  /-- by `moveToSwapFile`, if there is a free slot -/
  | move {k k1 : Kernel} {addr : Nat} {pte : Pte} {i : Fin MAX_PSYC_PAGES} (hdeq : dequeueFIFO k = .ok (addr, k1))
      (hpte : k1.walkpgdir k1.cur.pgdir addr = some pte) (hzero : pte ≠ .zero) (hslot : freeSlot k1.cur = some i) :
      SwapWrite k (k1.modCur fun x => x.setSlot i { address := addr, in_use := true }) (k1.frame pte.ppn) (i * PGSIZE)
  /-- by `swapPageIn`, if a slot has the address -/
  | exchange {k k1 k2 : Kernel} {fault_addr addr : Nat} {x pte : Pte} {i : Fin MAX_PSYC_PAGES} {r : Int}
      {bytes : Nat → UInt8} (hslot : slotOf k.cur (PTE_ADDR fault_addr) = some i)
      (hdeq : dequeueFIFO k = .ok (addr, k1)) (hfault : k1.walkpgdir k1.cur.pgdir fault_addr = some x)
      (hfault0 : x ≠ .zero) (hpte : k1.walkpgdir k1.cur.pgdir addr = some pte) (hzero : pte ≠ .zero)
      (hread : readFromSwapFile ((k1.modCur fun x => x.setSlot i { x.pagesInSwapFile i with address := addr }).setPte
        k1.cur.pgdir fault_addr ⟨pte.ppn, true, true, true, false⟩) k1.curproc (i * PGSIZE) PGSIZE =
          .ok (r, bytes, k2)) :
      SwapWrite k k2 (k2.frame pte.ppn) (i * PGSIZE)

/-- An eviction writes once, or there is no free slot. -/
theorem swapPageOut_writes {k k' : Kernel} (h : swapPageOut k = .ok k') :
    (k'.fs = k.fs ∧ k'.cur.pagesInSwapFile = k.cur.pagesInSwapFile) ∨
    ∃ i a kw src r k2, freeSlot k.cur = some i ∧ SwapWrite k kw src (i * PGSIZE) ∧
      writeToSwapFile kw kw.curproc src (i * PGSIZE) PGSIZE = .ok (r, k2) ∧ k'.fs = k2.fs ∧
      k'.cur.pagesInSwapFile = Function.update k.cur.pagesInSwapFile i ⟨a, true⟩ := by
  obtain ⟨a, k1, hdeq, hmove⟩ := swapPageOut_ok h
  have hlists := dequeueFIFO_lists hdeq
  have hslots := moveToSwapFile_slots hmove
  have hfs1 : k1.fs = k.fs := by rw [hlists.rest]
  have hfree : freeSlot k1.cur = freeSlot k.cur := by
    unfold freeSlot
    rw [hlists.cur.slots]
  simp only [moveToSwapFile, bind_eq_ok, deref_eq_ok] at hmove
  obtain ⟨pte, hpte, hmove⟩ := hmove
  split at hmove
  · cases hmove
  next hzero =>
  simp only [bind_eq_ok, deref_eq_ok] at hmove
  obtain ⟨k3, hrec, temp, -, hmove⟩ := hmove
  -- after the write only the page table and the counts change
  have hfs3 : k'.fs = k3.fs := by
    split at hmove
    · cases hmove
    split at hmove
    · simp only [bind_eq_ok] at hmove
      obtain ⟨k5, hkfree, k4, hk4, hmove⟩ := hmove
      cases hk4
      cases hmove
      rw [kfree_ok hkfree]
      rfl
    · simp only [bind_eq_ok] at hmove
      obtain ⟨k4, hk4, hmove⟩ := hmove
      cases hk4
      cases hmove
      rfl
  unfold recordPage at hrec
  cases hslot : freeSlot k1.cur with
  | none =>
    left
    rw [hslot] at hrec
    cases hrec
    refine ⟨hfs3.trans hfs1, ?_⟩
    rw [hslots]
    unfold Proc.recorded
    rw [hslot]
    exact hlists.cur.slots
  | some i =>
    right
    rw [hslot] at hrec
    simp only [bind_eq_ok] at hrec
    obtain ⟨⟨r, k2⟩, hwrite, hrec⟩ := hrec
    have hfs2 : k3.fs = k2.fs := by
      dsimp only at hrec
      split at hrec
      · cases hrec
      · rw [bind_eq_ok] at hrec
        obtain ⟨-, -, hrec⟩ := hrec
        cases hrec
        rfl
    refine ⟨i, a, _, _, r, k2, by rw [← hfree, hslot], .move hdeq hpte hzero hslot, hwrite, hfs3.trans hfs2, ?_⟩
    rw [hslots]
    unfold Proc.recorded
    rw [hslot, ← hlists.cur.slots]
    funext j
    exact Proc.setSlot_pagesInSwapFile _ _ _ j

/-- An exchange writes once, or no slot has the address. -/
theorem swapPageIn_writes {k k' : Kernel} {va : Nat} (h : swapPageIn k va = .ok k') :
    k' = k ∨
    ∃ i a kw src r k2, slotOf k.cur (PTE_ADDR va) = some i ∧ SwapWrite k kw src (i * PGSIZE) ∧
      writeToSwapFile kw kw.curproc src (i * PGSIZE) PGSIZE = .ok (r, k2) ∧ k'.fs = k2.fs ∧
      k'.cur.pagesInSwapFile =
        Function.update k.cur.pagesInSwapFile i { k.cur.pagesInSwapFile i with address := a } := by
  unfold swapPageIn at h
  split at h
  · cases h
    exact .inl rfl
  next i hslot =>
  right
  simp only [bind_eq_ok, deref_eq_ok] at h
  obtain ⟨⟨a, k1⟩, hdeq, x, hx, h⟩ := h
  split at h
  · cases h
  next hx0 =>
  simp only [bind_eq_ok, deref_eq_ok] at h
  obtain ⟨pte, hpte, h⟩ := h
  split at h
  · cases h
  next hzero =>
  simp only [bind_eq_ok] at h
  obtain ⟨⟨n, bytes, kw⟩, hread, ⟨r, k2⟩, hwrite, k4, henq, -, -, h⟩ := h
  cases h
  have hlists := dequeueFIFO_lists hdeq
  have hlists4 := enqueueFIFO_lists henq
  refine ⟨i, a, kw, _, r, k2, hslot, .exchange hslot hdeq hx hx0 hpte hzero hread, hwrite, ?_, ?_⟩
  · rw [hlists4.rest]
    rfl
  · rw [hlists4.cur.slots]
    show k2.cur.pagesInSwapFile = _
    rw [writeToSwapFile_ok hwrite, readFromSwapFile_ok hread, ← hlists.cur.slots]
    funext j
    show (k1.modCur fun x => x.setSlot i { x.pagesInSwapFile i with address := a }).cur.pagesInSwapFile j = _
    rw [Kernel.modCur_cur]
    exact Proc.setSlot_pagesInSwapFile _ _ _ j

/-- What an eviction or an exchange has done when it comes to the write. -/
theorem SwapWrite.frame {k kw : Kernel} {src : Nat → UInt8} {off : Nat} (h : SwapWrite k kw src off) :
    kw.curproc = k.curproc ∧ kw.locks = k.locks ∧ kw.cur.swapFile = k.cur.swapFile ∧
      (∀ held, FsStep held k.fs held kw.fs) ∧
      ∃ i : Fin MAX_PSYC_PAGES, off = i * PGSIZE ∧ (freeSlot k.cur = some i ∨ ∃ a, slotOf k.cur a = some i) := by
  have hdequeued : ∀ {a k1}, dequeueFIFO k = .ok (a, k1) → k1.curproc = k.curproc ∧ k1.locks = k.locks ∧
      k1.cur.swapFile = k.cur.swapFile ∧ k1.fs = k.fs ∧ k1.cur.pagesInSwapFile = k.cur.pagesInSwapFile := by
    intro a k1 hdeq
    have hlists := dequeueFIFO_lists hdeq
    refine ⟨hlists.curproc, by rw [hlists.rest], ?_, by rw [hlists.rest], hlists.cur.slots⟩
    obtain ⟨_, _, _, hlist⟩ := hlists.cur
    rw [hlist]
  cases h with
  | move hdeq hpte hzero hslot =>
    next k1 addr pte i =>
    obtain ⟨hcurproc, hlocks, hfile, hfs, hslots⟩ := hdequeued hdeq
    refine ⟨hcurproc, hlocks, ?_, fun held => ?_, i, rfl, .inl ?_⟩
    · rw [Kernel.modCur_cur]
      exact hfile
    · show FsStep held k.fs held k1.fs
      rw [hfs]
      exact .refl held _
    · unfold freeSlot at hslot ⊢
      rwa [hslots] at hslot
  | exchange hslot hdeq hfault hfault0 hpte hzero hread =>
    next k1 fault_addr addr x pte i r bytes =>
    obtain ⟨hcurproc, hlocks, hfile, hfs, -⟩ := hdequeued hdeq
    have hkw := readFromSwapFile_ok hread
    refine ⟨?_, ?_, ?_, fun held => ?_, i, rfl, .inr ⟨_, hslot⟩⟩
    · rw [hkw]
      exact hcurproc
    · rw [hkw]
      exact hlocks
    · rw [hkw, ← hfile]
      show (k1.modCur fun x => x.setSlot i { x.pagesInSwapFile i with address := addr }).cur.swapFile = _
      rw [Kernel.modCur_cur]
      rfl
    · have hstep : FsStep held _ held kw.fs := readFromSwapFile_step hread
      rw [← hfs]
      exact hstep

/-- To the rest of the file system neither routine does anything else. -/
theorem swapPageOut_step {held : List Nat} {k k' : Kernel} (h : swapPageOut k = .ok k') :
    FsStep held k.fs held k'.fs := by
  rcases swapPageOut_writes h with ⟨hfs, -⟩ | ⟨i, a, kw, src, r, k2, -, hwrite, hret, hfs, -⟩
  · rw [hfs]
    exact .refl held _
  · rw [hfs]
    exact (hwrite.frame.2.2.2.1 held).trans (writeToSwapFile_step hret)

theorem swapPageIn_step {held : List Nat} {k k' : Kernel} {va : Nat} (h : swapPageIn k va = .ok k') :
    FsStep held k.fs held k'.fs := by
  rcases swapPageIn_writes h with rfl | ⟨i, a, kw, src, r, k2, -, hwrite, hret, hfs, -⟩
  · exact .refl held _
  · rw [hfs]
    exact (hwrite.frame.2.2.2.1 held).trans (writeToSwapFile_step hret)

/-! ### Slots that were used -/

/-- Only the first `c` slots of the process were used since they were reset. -/
def UsedBelow (x : Proc) (c : Nat) : Prop := ∀ i : Fin MAX_PSYC_PAGES, c ≤ i.val → x.pagesInSwapFile i = ⟨0, false⟩

namespace UsedBelow

variable {x : Proc} {c : Nat} {i : Fin MAX_PSYC_PAGES}

/-- A search that finds a slot that was not used finds the first of these. -/
theorem first {P : PageInSwapFile → Bool} (h : UsedBelow x c)
    (hfind : (List.finRange MAX_PSYC_PAGES).find? (fun i => P (x.pagesInSwapFile i)) = some i) : i.val ≤ c := by
  by_contra hlt
  rw [List.find?_eq_some_iff_getElem] at hfind
  obtain ⟨hi, n, hn, hget, hbefore⟩ := hfind
  have hin : i.val = n := by
    rw [← hget]
    simp
  have hc : c < MAX_PSYC_PAGES := by
    have := i.isLt
    omega
  have hskipped := hbefore c (by omega)
  simp only [List.getElem_finRange, Fin.cast_mk] at hskipped
  rw [h ⟨c, hc⟩ (Nat.le_refl c)] at hskipped
  rw [h _ (by omega)] at hi
  rw [hi] at hskipped
  cases hskipped

theorem freeSlot_le (h : UsedBelow x c) (hslot : freeSlot x = some i) : i.val ≤ c :=
  h.first (P := fun s => s.in_use = false) hslot

theorem slotOf_le {a : Nat} (h : UsedBelow x c) (hslot : slotOf x a = some i) : i.val ≤ c :=
  h.first (P := fun s => s.address = a) hslot

/-- One more slot is used, or one of those that were. -/
theorem update {y : Proc} {s : PageInSwapFile} (h : UsedBelow x c)
    (hy : y.pagesInSwapFile = Function.update x.pagesInSwapFile i s) : UsedBelow y (max c (i + 1)) := by
  intro j hj
  have hne : j ≠ i := by
    rintro rfl
    omega
  rw [hy, Function.update_of_ne hne]
  exact h j (by omega)

end UsedBelow

/-! ### Files that cover the slots -/

/-- The swap file of the process covers the slots that were used. -/
def Covered (held : List Nat) (fs : Fs) (x : Proc) : Prop :=
  ∃ f c, x.swapFile = some f ∧ c ≤ MAX_PSYC_PAGES ∧ OpenSwap held fs f (c * PGSIZE) ∧ UsedBelow x c

namespace Covered

variable {held held' : List Nat} {fs fs' : Fs} {x x' : Proc} {k k' kw k2 : Kernel} {src : Nat → UInt8} {off : Nat}

theorem step (h : Covered held fs x) (hstep : FsStep held fs held' fs') (hfile : x'.swapFile = x.swapFile)
    (hslots : x'.pagesInSwapFile = x.pagesInSwapFile) : Covered held' fs' x' := by
  obtain ⟨f, c, hf, hc, hopen, hused⟩ := h
  refine ⟨f, c, hfile.trans hf, hc, hopen.step hstep, fun i hi => ?_⟩
  rw [hslots]
  exact hused i hi

/-- A reset leaves the file as long as it is. -/
theorem reset (h : Covered held fs x) : Covered held fs x.resetPaging := by
  obtain ⟨f, c, hf, hc, hopen, -⟩ := h
  exact ⟨f, c, hf, hc, hopen, fun _ _ => rfl⟩

/-- What an eviction or an exchange finds when it writes to slot `i`. -/
theorem atWrite (h : Covered held k.fs k.cur) (hwrite : SwapWrite k kw src off) :
    ∃ f c, c ≤ MAX_PSYC_PAGES ∧ ∃ i : Fin MAX_PSYC_PAGES, off = i * PGSIZE ∧ i.val ≤ c ∧ k.cur.swapFile = some f ∧
      (kw.proc kw.curproc).swapFile = some f ∧ OpenSwap held kw.fs f (c * PGSIZE) ∧ UsedBelow k.cur c := by
  obtain ⟨f, c, hf, hc, hopen, hused⟩ := h
  obtain ⟨-, -, hfile, hstep, i, hoff, hslot⟩ := hwrite.frame
  refine ⟨f, c, hc, i, hoff, ?_, hf, hfile.trans hf, hopen.step (hstep held), hused⟩
  rcases hslot with hfree | ⟨a, hof⟩
  · exact hused.freeSlot_le hfree
  · exact hused.slotOf_le hof

theorem slot_fits (i : Fin MAX_PSYC_PAGES) : i * PGSIZE + PGSIZE ≤ MAXFILE * BSIZE := by
  have hcap : MAX_PSYC_PAGES * PGSIZE ≤ MAXFILE * BSIZE := by decide
  exact Nat.le_trans (slot_end i.isLt) hcap

/-- The write starts inside the file or at its end. -/
theorem write (h : Covered held k.fs k.cur) (hlocks : k.locks = []) (hwrite : SwapWrite k kw src off) :
    ∃ f, WriteFits kw kw.curproc f src off PGSIZE := by
  obtain ⟨-, hlocks', -⟩ := hwrite.frame
  obtain ⟨f, c, -, i, rfl, hi, -, hown, hopen, -⟩ := h.atWrite hwrite
  refine ⟨f, hopen.writeFits hown (hlocks'.trans hlocks) ?_ (slot_fits i) src⟩
  exact Nat.mul_le_mul_right PGSIZE hi

/-- After the write the file covers the slot, too. -/
theorem wrote {i : Fin MAX_PSYC_PAGES} {s : PageInSwapFile} {r : Int} (h : Covered held k.fs k.cur)
    (hlocks : k.locks = []) (hwrite : SwapWrite k kw src (i * PGSIZE))
    (hok : writeToSwapFile kw kw.curproc src (i * PGSIZE) PGSIZE = .ok (r, k2))
    (hfile : x'.swapFile = k.cur.swapFile) (hslots : x'.pagesInSwapFile = Function.update k.cur.pagesInSwapFile i s) :
    Covered held k2.fs x' := by
  obtain ⟨-, hlocks', -⟩ := hwrite.frame
  obtain ⟨f, c, hc, j, hj, hi, hf, hown, hopen, hused⟩ := h.atWrite hwrite
  obtain rfl : i = j := by
    refine Fin.ext ?_
    exact Nat.eq_of_mul_eq_mul_right (by decide) hj
  have hfits : i * PGSIZE + PGSIZE ≤ MAXFILE * BSIZE := slot_fits i
  have hopen2 := hopen.written hown (hlocks'.trans hlocks) (Nat.mul_le_mul_right PGSIZE hi) hfits hok
  refine ⟨f, max c (i + 1), hfile.trans hf, Nat.max_le.mpr ⟨hc, i.isLt⟩, hopen2.mono ?_, hused.update hslots⟩
  rw [← Nat.succ_mul, Nat.mul_max_mul_right]

/-- Evictions and exchanges keep it so. -/
theorem swapPageOut (h : Covered held k.fs k.cur) (hlocks : k.locks = []) (hok : Paging.swapPageOut k = .ok k') :
    Covered held k'.fs k'.cur := by
  have hfile : k'.cur.swapFile = k.cur.swapFile := by
    obtain ⟨_, _, _, _, _, hsame⟩ := (swapPageOut_swaps hok).cur
    rw [hsame]
  rcases swapPageOut_writes hok with ⟨hfs, hslots⟩ | ⟨i, a, kw, src, r, k2, -, hwrite, hret, hfs, hslots⟩
  · rw [hfs]
    exact h.step (.refl held _) hfile hslots
  · rw [hfs]
    exact h.wrote hlocks hwrite hret hfile hslots

theorem swapPageIn {va : Nat} (h : Covered held k.fs k.cur) (hlocks : k.locks = [])
    (hok : Paging.swapPageIn k va = .ok k') : Covered held k'.fs k'.cur := by
  have hfile : k'.cur.swapFile = k.cur.swapFile := by
    obtain ⟨_, _, _, _, _, hsame⟩ := (swapPageIn_swaps hok).cur
    rw [hsame]
  rcases swapPageIn_writes hok with rfl | ⟨i, a, kw, src, r, k2, -, hwrite, hret, hfs, hslots⟩
  · exact h
  · rw [hfs]
    exact h.wrote hlocks hwrite hret hfile hslots

end Covered

end Paging
