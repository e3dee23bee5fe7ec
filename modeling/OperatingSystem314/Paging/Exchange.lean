import OperatingSystem314.Paging.SwapFile

/-! # The exchange of two pages

    `swapPageIn` gives the frame of one page and the slot of another to
    each other.  `swapPageIn_eq` says what the kernel is afterwards, with
    nothing assumed but that the routine gets to its end: a list with two
    entries, a slot that is recorded for the page, entries for both pages,
    and a swap file whose slot can be read and written. -/

namespace Paging

/-! ### One slot of the swap file -/

/-- Slot `i` of the open file `f` can be read and overwritten. -/
structure SlotReady (fs : Fs) (f : Fin NFILE) (i : Nat) : Prop where
  isInode : (fs.ftable f).type = .FD_INODE
  readable : (fs.ftable f).readable = true
  writable : (fs.ftable f).writable = true
  isFile : (fs.inode (fs.ftable f).ip).type = .T_FILE
  covered : i * PGSIZE + PGSIZE ≤ (fs.inode (fs.ftable f).ip).size

/-- The file system after `src` was written to slot `i`. -/
def Fs.slotWritten (fs : Fs) (f : Fin NFILE) (i : Nat) (src : Nat → UInt8) : Fs :=
  (fs.seek f (i * PGSIZE)).wrote f src PGSIZE

theorem SwapFile.slotReady {fs : Fs} {f : Fin NFILE} {n i : Nat} (h : SwapFile fs f n) (hi : i < n) :
    SlotReady fs f i :=
  ⟨h.isInode, h.readable, h.writable, h.isFile, (slot_end hi).trans h.filled⟩

theorem Fs.seek_seek (fs : Fs) (f : Fin NFILE) (off off' : Nat) : (fs.seek f off).seek f off' = fs.seek f off' := by
  simp [seek, setFile]

theorem Fs.slotWritten_slotByte (fs : Fs) (f : Fin NFILE) (i : Nat) (src : Nat → UInt8) {i' j : Nat}
    (hj : j < PGSIZE) : (fs.slotWritten f i src).slotByte f i' j = if i' = i then src j else fs.slotByte f i' j := by
  simp only [slotByte, slotWritten, wrote, grown, seek, setFile, setInode, Function.update_self, Inode.wrote]
  by_cases hii : i' = i
  · subst hii
    rw [if_pos (by omega), if_pos rfl]
    congr 1
    omega
  · rw [if_neg hii, if_neg]
    simp only [PGSIZE] at *
    omega

theorem Fs.slotWritten_inode (fs : Fs) (f : Fin NFILE) (i : Nat) (src : Nat → UInt8) {n : Nat}
    (hn : n ≠ (fs.ftable f).ip) : (fs.slotWritten f i src).inode n = fs.inode n := by
  simp [slotWritten, wrote, grown, seek, setFile, setInode, hn]

namespace SlotReady

variable {fs : Fs} {f : Fin NFILE} {i : Nat}

theorem fileread (h : SlotReady fs f i) (hmax : i < MAX_PSYC_PAGES) :
    (fs.seek f (i * PGSIZE)).fileread f PGSIZE = .ok (PGSIZE, fs.seek f (i * PGSIZE + PGSIZE)) := by
  obtain ⟨h1, h2, h3, h4, h5⟩ := h
  have hcap := slot_end hmax
  have hsmall : MAX_PSYC_PAGES * PGSIZE < 2 ^ 32 := by decide
  have hx : (fs.seek f (i * PGSIZE)).ftable f = { fs.ftable f with off := i * PGSIZE } := by
    simp [Fs.seek, Fs.setFile]
  have hip : ∀ n, (fs.seek f (i * PGSIZE)).inode n = fs.inode n := fun _ => rfl
  rw [Fs.fileread_eq (by rw [hx]; exact h2) (by rw [hx]; exact h1) (by rw [hx, hip]; exact h4)
    (by rw [hx, hip]; exact h5) (by decide) (by rw [hx]; exact hcap.trans_lt hsmall)]
  simp [Fs.seek, Fs.setFile]

theorem filewrite (h : SlotReady fs f i) (hmax : i < MAX_PSYC_PAGES) (src : Nat → UInt8) :
    (fs.seek f (i * PGSIZE)).filewrite f src PGSIZE = .ok (PGSIZE, fs.slotWritten f i src) := by
  apply Fs.filewrite_eq
  obtain ⟨h1, h2, h3, h4, h5⟩ := h
  have hend := slot_end hmax
  have hcap : MAX_PSYC_PAGES * PGSIZE ≤ MAXFILE * BSIZE := by decide
  constructor
  all_goals simp only [Fs.seek, Fs.setFile, Function.update_self]
  · exact h3
  · exact h1
  · exact h4
  · exact (Nat.le_add_right _ _).trans h5
  · exact hend.trans hcap
  · -- no block is needed for bytes that are overwritten
    rw [Nat.max_eq_left h5]
    exact Nat.le_add_right _ _

theorem seek (h : SlotReady fs f i) (off : Nat) : SlotReady (fs.seek f off) f i := by
  obtain ⟨h1, h2, h3, h4, h5⟩ := h
  constructor <;> simpa [Fs.seek, Fs.setFile]

/-- The slot is read, and then overwritten. -/
theorem exchange {k : Kernel} (hf : k.cur.swapFile = some f) (hlocks : k.locks = []) (h : SlotReady k.fs f i)
    (hmax : i < MAX_PSYC_PAGES) (src : Nat → UInt8) : ∃ fs1 bytes,
      readFromSwapFile k k.curproc (i * PGSIZE) PGSIZE = .ok (PGSIZE, bytes, { k with fs := fs1 }) ∧
      (∀ j, bytes j = k.fs.slotByte f i j) ∧
      writeToSwapFile { k with fs := fs1 } k.curproc src (i * PGSIZE) PGSIZE =
        .ok (PGSIZE, { k with fs := k.fs.slotWritten f i src }) := by
  have hf' : (k.proc k.curproc).swapFile = some f := hf
  set fs1 := k.fs.seek f (i * PGSIZE + PGSIZE) with hfs1
  refine ⟨fs1, fun j => (fs1.inode (fs1.ftable f).ip).byte (i * PGSIZE + j), ?_, ?_, ?_⟩
  · unfold readFromSwapFile
    rw [hf', deref_some, ok_bind]
    simp only [show k.fs.setFile f { k.fs.ftable f with off := i * PGSIZE } = k.fs.seek f (i * PGSIZE) from rfl,
      h.fileread hmax, ok_bind]
    rfl
  · intro j
    have hip : (fs1.ftable f).ip = (k.fs.ftable f).ip := by simp [hfs1, Fs.seek, Fs.setFile]
    simp only [hip, show fs1.inode = k.fs.inode from rfl, Inode.byte, h.isFile, Fs.slotByte]
  · have hsame : fs1.slotWritten f i src = k.fs.slotWritten f i src := by
      unfold Fs.slotWritten
      rw [hfs1, Fs.seek_seek]
    have hwrite := (h.seek (i * PGSIZE + PGSIZE)).filewrite hmax src
    rw [← hfs1, hsame] at hwrite
    unfold writeToSwapFile
    rw [show (({ k with fs := fs1 } : Kernel).proc k.curproc).swapFile = some f from hf', deref_some, ok_bind]
    simp only [hlocks, ne_eq, not_true, and_false, if_false]
    rw [show fs1.setFile f { fs1.ftable f with off := i * PGSIZE } = fs1.seek f (i * PGSIZE) from rfl, hwrite]
    rfl

end SlotReady

/-! ### `swapPageIn` -/

/-- The process after the exchange: cell `c` was given up, slot `i` is
    recorded for `r`, and `a` was put in behind cell `t`. -/
def Proc.exchanged (x : Proc) (c : Cell) (i : Fin MAX_PSYC_PAGES) (r : Nat) (t : Option Cell) (e : Cell)
    (a : Nat) : Proc :=
  ((x.dequeued c).setSlot i { x.pagesInSwapFile i with address := r }).enqueued t e a

/-- What `swapPageIn` leaves when it finds the slot and gets to its end. -/
theorem swapPageIn_eq {k : Kernel} {a r : Nat} {q : List Nat} {i : Fin MAX_PSYC_PAGES} {x y : Pte}
    {f : Fin NFILE} (hlocks : k.locks = []) (hfifo : Fifo k.curproc k.cur (r :: q)) (hq : q ≠ [])
    (hslot : slotOf k.cur (PTE_ADDR a) = some i) (hy : k.walkpgdir k.cur.pgdir a = some y) (hy0 : y ≠ .zero)
    (hx : k.walkpgdir k.cur.pgdir r = some x) (hx0 : x ≠ .zero) (hf : k.cur.swapFile = some f)
    (hready : SlotReady k.fs f i) :
    ∃ k' c t e buffer, swapPageIn k a = .ok k' ∧ k'.cur = k.cur.exchanged c i r t e a ∧
      Fifo k'.curproc k'.cur (q ++ [a]) ∧ (∀ j < PGSIZE, buffer j = k.fs.slotByte f i j) ∧
      k' = { ((k.setPte k.cur.pgdir a ⟨x.ppn, true, true, true, false⟩).setFrame x.ppn buffer).setPte
        k.cur.pgdir r .swapped with
          proc := k'.proc, fs := k.fs.slotWritten f i (k.frame x.ppn) } ∧
      ∀ p, p ≠ k.curproc → k'.proc p = k.proc p := by
  have hcons : .cons ∉ k.locks := by
    rw [hlocks]
    exact List.not_mem_nil
  obtain ⟨c, hdeq, hfifo1⟩ := hfifo.dequeueFIFO hq hcons
  set d := k.cur.pgdir with hd
  set new : Pte := ⟨x.ppn, true, true, true, false⟩ with hnew
  -- the list and the slot table, then the swap file, then the page table
  set k1 := k.setCur (k.cur.dequeued c) with hk1
  have hcur1 : k1.cur = k.cur.dequeued c := Kernel.setCur_cur k _
  have hpgdir1 : k1.cur.pgdir = d := by simp [hcur1, hd]
  set k3 := (k1.modCur fun p => p.setSlot i { p.pagesInSwapFile i with address := r }).setPte d a new with hk3
  have hcur3 : k3.cur = (k.cur.dequeued c).setSlot i { k.cur.pagesInSwapFile i with address := r } := by
    rw [hk3, Kernel.setPte_cur, Kernel.modCur_cur, hcur1]
    simp
  obtain ⟨fs1, bytes, hread, hbytes, hwrite0⟩ := SlotReady.exchange (k := k3) (by simpa [hcur3] using hf)
    hlocks hready i.isLt (k.frame x.ppn)
  set fs2 := k.fs.slotWritten f i (k.frame x.ppn) with hfs2
  have hwrite : writeToSwapFile { k3 with fs := fs1 } k3.curproc (k.frame x.ppn) (i * PGSIZE) PGSIZE =
      .ok (PGSIZE, { k3 with fs := fs2 }) := hwrite0
  set buffer : Nat → UInt8 := fun j => if (j : Int) < (PGSIZE : Nat) then bytes j else 0 with hbuffer
  set k6 := (({ k3 with fs := fs2 } : Kernel).setFrame x.ppn buffer).setPte d r .swapped with hk6
  have hcur6 : k6.cur = (k.cur.dequeued c).setSlot i { k.cur.pagesInSwapFile i with address := r } := hcur3
  have hfifo6 : Fifo k6.curproc k6.cur q := by
    rw [hcur6]
    exact hfifo1.congr (by simp) (by simp)
  have hqlen : q.length < MAX_PSYC_PAGES := by
    have := hfifo.length_le
    rw [List.length_cons] at this
    omega
  obtain ⟨t, e, henq, hfifo7⟩ := hfifo6.enqueueFIFO hqlen a
  have hcur7 : (k6.setCur (k6.cur.enqueued t e a)).cur = k.cur.exchanged c i r t e a := by
    rw [Kernel.setCur_cur, hcur6]
    rfl
  refine ⟨k6.setCur (k6.cur.enqueued t e a), c, t, e, buffer, ?_, hcur7, ?_, ?_, rfl, ?_⟩
  · have hprint : cprintf (k6.setCur (k6.cur.enqueued t e a)) = .ok () := cprintf_ok hlocks
    have hwa1 : k1.walkpgdir d a = some y := hy
    have hwb1 : k1.walkpgdir d r = some x := hx
    simp only [swapPageIn, hslot, hdeq, ok_bind, hpgdir1, hwa1, hwb1, deref_some]
    rw [if_neg hy0, if_neg hx0, ← hk3, show k3.curproc = _ from rfl, hread]
    simp only [ok_bind]
    rw [show writeToSwapFile _ k3.curproc (k3.frame x.ppn) _ _ = _ from hwrite]
    simp only [ok_bind]
    rw [show enqueueFIFO _ a = _ from henq]
    simp only [ok_bind, hprint, pure_eq_ok]
  · rw [Kernel.setCur_cur]
    exact hfifo7
  · intro j hj
    rw [hbuffer]
    simp only []
    rw [if_pos (by omega), hbytes]
    rfl
  · intro p hp
    rw [Kernel.setCur_proc_ne _ _ (show p ≠ k6.curproc from hp)]
    show (k1.modCur fun z => z.setSlot i { z.pagesInSwapFile i with address := r }).proc p = k.proc p
    rw [Kernel.modCur, Kernel.setCur_proc_ne _ _ (show p ≠ k1.curproc from hp), hk1,
      Kernel.setCur_proc_ne _ _ hp]

end Paging
