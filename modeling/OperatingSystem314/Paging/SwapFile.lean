import OperatingSystem314.Paging.FileIO
import OperatingSystem314.Paging.Swap

/-! # The swap file and its slots

    `SwapFile` says that a file can hold the slots and that the first `n`
    of them have been written; `Slots` that the slot table of a process
    uses its first entries; `Backed` that the file holds the pages the
    table names.  The specifications of `writeToSwapFile` and
    `readFromSwapFile` for one slot follow. -/

namespace Paging

/-! ### The swap file -/

/-- Slot `i` of the swap file. -/
def Fs.slotByte (fs : Fs) (f : Fin NFILE) (i j : Nat) : UInt8 :=
  (fs.inode (fs.ftable f).ip).data (i * PGSIZE + j)

/-- Blocks of a swap file with every slot written. -/
def SWAPBLOCKS : Nat := nblocks (MAX_PSYC_PAGES * PGSIZE)

/-- `f` is a swap file whose first `n` slots have been written, with room
    on the disk for all of them. -/
structure SwapFile (fs : Fs) (f : Fin NFILE) (n : Nat) : Prop where
  isInode : (fs.ftable f).type = .FD_INODE
  readable : (fs.ftable f).readable = true
  writable : (fs.ftable f).writable = true
  isFile : (fs.inode (fs.ftable f).ip).type = .T_FILE
  filled : n * PGSIZE ≤ (fs.inode (fs.ftable f).ip).size
  room : SWAPBLOCKS ≤ nblocks (fs.inode (fs.ftable f).ip).size + fs.freeBlocks

/-- The file table entry after `off` was set. -/
def Fs.seek (fs : Fs) (f : Fin NFILE) (off : Nat) : Fs :=
  fs.setFile f { fs.ftable f with off }

theorem slot_end {i n : Nat} (hi : i < n) : i * PGSIZE + PGSIZE ≤ n * PGSIZE := by
  rw [← Nat.succ_mul]
  exact Nat.mul_le_mul_right _ hi

namespace SwapFile

variable {fs : Fs} {f : Fin NFILE} {n i : Nat}

theorem seek (h : SwapFile fs f n) (off : Nat) : SwapFile (fs.seek f off) f n := by
  obtain ⟨h1, h2, h3, h4, h5, h6⟩ := h
  constructor <;> simpa [Fs.seek, Fs.setFile]

theorem slotByte_seek (fs : Fs) (f : Fin NFILE) (off i j : Nat) :
    (fs.seek f off).slotByte f i j = fs.slotByte f i j := by
  simp [Fs.slotByte, Fs.seek, Fs.setFile]

theorem writable' (h : SwapFile fs f n) (hi : i ≤ n) (hmax : i < MAX_PSYC_PAGES) :
    (fs.seek f (i * PGSIZE)).Writable f PGSIZE := by
  obtain ⟨h1, h2, h3, h4, h5, h6⟩ := h
  have hi' : i * PGSIZE ≤ n * PGSIZE := Nat.mul_le_mul_right _ hi
  have hend : i * PGSIZE + PGSIZE ≤ MAX_PSYC_PAGES * PGSIZE := slot_end hmax
  have hcap : MAX_PSYC_PAGES * PGSIZE ≤ MAXFILE * BSIZE := by decide
  constructor
  all_goals simp only [Fs.seek, Fs.setFile, Function.update_self]
  · exact h3
  · exact h1
  · exact h4
  · exact hi'.trans h5
  · exact hend.trans hcap
  · rcases Nat.le_total (fs.inode (fs.ftable f).ip).size (i * PGSIZE + PGSIZE) with hle | hle
    · rw [Nat.max_eq_right hle]
      exact (nblocks_mono hend).trans h6
    · rw [Nat.max_eq_left hle]
      omega

/-- Writing a slot that follows or replaces a written one. -/
theorem write (h : SwapFile fs f n) (hi : i ≤ n) (hmax : i < MAX_PSYC_PAGES) (src : Nat → UInt8) :
    ∃ fs', (fs.seek f (i * PGSIZE)).filewrite f src PGSIZE = .ok (PGSIZE, fs') ∧
      SwapFile fs' f (max n (i + 1)) ∧
      ∀ i' j, j < PGSIZE →
        fs'.slotByte f i' j = if i' = i then src j else fs.slotByte f i' j := by
  have hw := h.writable' hi hmax
  refine ⟨_, Fs.filewrite_eq hw, ?_, fun i' j hj => ?_⟩
  · obtain ⟨h1, h2, h3, h4, h5, h6⟩ := h
    have hb := hw.blocks
    simp only [Fs.seek, Fs.setFile, Function.update_self] at hb
    constructor
    all_goals simp only [Fs.wrote, Fs.grown, Fs.seek, Fs.setFile, Fs.setInode, Function.update_self]
    · exact h1
    · exact h2
    · exact h3
    · exact h4
    · rw [Inode.wrote_size_pos _ _ _ (by decide)]
      rcases Nat.le_total n (i + 1) with hle | hle
      · rw [Nat.max_eq_right hle, Nat.succ_mul]
        exact Nat.le_max_right _ _
      · rw [Nat.max_eq_left hle]
        exact h5.trans (Nat.le_max_left _ _)
    · rw [Inode.wrote_size_pos _ _ _ (by decide)]
      have := nblocks_mono (Nat.le_max_left (fs.inode (fs.ftable f).ip).size (i * PGSIZE + PGSIZE))
      omega
  · simp only [Fs.slotByte, Fs.wrote, Fs.grown, Fs.seek, Fs.setFile, Fs.setInode,
      Function.update_self, Inode.wrote]
    by_cases hii : i' = i
    · subst hii
      rw [if_pos (by omega), if_pos rfl]
      congr 1
      omega
    · rw [if_neg hii, if_neg]
      clear hw h
      simp only [PGSIZE] at *
      omega

/-- Reading a written slot. -/
theorem read (h : SwapFile fs f n) (hi : i < n) (hmax : i < MAX_PSYC_PAGES) :
    ∃ fs', (fs.seek f (i * PGSIZE)).fileread f PGSIZE = .ok (PGSIZE, fs') ∧ SwapFile fs' f n ∧
      (∀ i' j, fs'.slotByte f i' j = fs.slotByte f i' j) ∧
      fs'.inode (fs'.ftable f).ip = fs.inode (fs.ftable f).ip := by
  obtain ⟨h1, h2, h3, h4, h5, h6⟩ := id h
  have hend := slot_end hi
  have hcap := slot_end hmax
  have hsmall : MAX_PSYC_PAGES * PGSIZE < 2 ^ 32 := by decide
  have hx : (fs.seek f (i * PGSIZE)).ftable f = { fs.ftable f with off := i * PGSIZE } := by
    simp [Fs.seek, Fs.setFile]
  have hip : ∀ n, (fs.seek f (i * PGSIZE)).inode n = fs.inode n := fun _ => rfl
  refine ⟨(fs.seek f (i * PGSIZE)).seek f _, Fs.fileread_eq (by rw [hx]; exact h2)
    (by rw [hx]; exact h1) (by rw [hx, hip]; exact h4) (by rw [hx, hip]; exact hend.trans h5)
    (by decide) (by rw [hx]; exact hcap.trans_lt hsmall), (h.seek _).seek _, fun i' j => ?_, ?_⟩
  · rw [slotByte_seek, slotByte_seek]
  · simp [Fs.seek, Fs.setFile]

end SwapFile

/-! ### The slots -/

/-- The slots in use are the first ones, and hold the addresses `s`. -/
def Slots (x : Proc) (s : List Nat) : Prop :=
  s.length ≤ MAX_PSYC_PAGES ∧
    ∀ i, x.pagesInSwapFile i = (s[i.val]?).elim ⟨0, false⟩ fun a => ⟨a, true⟩

namespace Slots

variable {x : Proc} {s : List Nat} {a : Nat}

theorem freeSlot_eq (h : Slots x s) (hlt : s.length < MAX_PSYC_PAGES) :
    freeSlot x = some ⟨s.length, hlt⟩ := by
  refine find?_finRange ?_ fun j hj => ?_
  · simp [h.2]
  · have hj' : j.val < s.length := hj
    simp [h.2, hj']

/-- Without a free slot the search for one fails. -/
theorem freeSlot_full (h : Slots x s) (hfull : s.length = MAX_PSYC_PAGES) : freeSlot x = none := by
  refine List.find?_eq_none.mpr fun i _ => ?_
  have hi : i.val < s.length := by
    rw [hfull]
    exact i.isLt
  simp [h.2, hi]

theorem slotOf_eq (h : Slots x s) (hnd : s.Nodup) {i : Fin MAX_PSYC_PAGES}
    (hi : s[i.val]? = some a) : slotOf x a = some i := by
  refine find?_finRange ?_ fun j hj => ?_
  · simp [h.2, hi]
  · obtain ⟨hlt, hget⟩ := List.getElem?_eq_some_iff.mp hi
    have hj' : j.val < i.val := hj
    have hne : s[j.val] ≠ a := fun heq =>
      absurd (hnd.getElem_inj_iff.mp (heq.trans hget.symm)) (by omega)
    simp [h.2, List.getElem?_eq_getElem (by omega : j.val < s.length), hne]

/-- The first free slot is taken. -/
theorem push (h : Slots x s) (hlt : s.length < MAX_PSYC_PAGES) (a : Nat) :
    Slots (x.setSlot ⟨s.length, hlt⟩ ⟨a, true⟩) (s ++ [a]) := by
  refine ⟨by simp; omega, fun j => ?_⟩
  by_cases hj : j = ⟨s.length, hlt⟩
  · subst hj; simp [Proc.setSlot]
  · have hj' : j.val ≠ s.length := fun heq => hj (Fin.ext heq)
    rw [Proc.setSlot_pagesInSwapFile, Function.update_of_ne hj, h.2]
    rcases Nat.lt_or_gt_of_ne hj' with hlt' | hgt
    · rw [List.getElem?_append_left hlt']
    · rw [List.getElem?_eq_none (by omega), List.getElem?_eq_none (by simp; omega)]

/-- A slot gets another address. -/
theorem set (h : Slots x s) {i : Fin MAX_PSYC_PAGES} (hi : i.val < s.length) (b : Nat) :
    Slots (x.setSlot i { x.pagesInSwapFile i with address := b }) (s.set i b) := by
  refine ⟨by simpa using h.1, fun j => ?_⟩
  by_cases hj : j = i
  · subst hj; simp [Proc.setSlot, h.2, hi]
  · have hj' : i.val ≠ j.val := fun heq => hj (Fin.ext heq.symm)
    rw [Proc.setSlot_pagesInSwapFile, Function.update_of_ne hj, h.2, List.getElem?_set_ne hj']

theorem congr {x' : Proc} (h : Slots x s) (hx : x'.pagesInSwapFile = x.pagesInSwapFile) :
    Slots x' s := by
  refine ⟨h.1, fun i => ?_⟩
  rw [hx]
  exact h.2 i

end Slots

/-- The first slots of the swap file `f` hold the pages `s`. -/
structure Backed (fs : Fs) (f : Fin NFILE) (s : List Nat) (m : Nat → UInt8) : Prop where
  file : SwapFile fs f s.length
  bytes : ∀ i a, s[i]? = some a → ∀ j < PGSIZE, fs.slotByte f i j = m (a + j)

/-! ### Reading and writing a slot -/

section writes

variable {k : Kernel} {f : Fin NFILE} {s : List Nat} {m : Nat → UInt8} {i : Nat}

theorem cprintf_ok (h : k.locks = []) : cprintf k = .ok () := by
  simp [cprintf, h]

/-- A page written to a slot that follows or replaces a written one. -/
theorem writeToSwapFile_eq {n : Nat} (hf : k.cur.swapFile = some f) (hlocks : k.locks = [])
    (h : SwapFile k.fs f n) (hi : i ≤ n) (hmax : i < MAX_PSYC_PAGES) (src : Nat → UInt8) :
    ∃ fs', writeToSwapFile k k.curproc src (i * PGSIZE) PGSIZE = .ok (PGSIZE, { k with fs := fs' }) ∧
      SwapFile fs' f (max n (i + 1)) ∧
      ∀ i' j, j < PGSIZE →
        fs'.slotByte f i' j = if i' = i then src j else k.fs.slotByte f i' j := by
  obtain ⟨fs', hw, hfile, hbytes⟩ := h.write hi hmax src
  refine ⟨fs', ?_, hfile, hbytes⟩
  have hf' : (k.proc k.curproc).swapFile = some f := hf
  simp only [writeToSwapFile, hf', deref_some, ok_bind, hlocks]
  rw [if_neg (by simp)]
  rw [show k.fs.setFile f _ = k.fs.seek f (i * PGSIZE) from rfl, hw]
  rfl

/-- A page read from a written slot. -/
theorem readFromSwapFile_eq {n : Nat} (hf : k.cur.swapFile = some f) (h : SwapFile k.fs f n)
    (hi : i < n) (hmax : i < MAX_PSYC_PAGES) :
    ∃ fs' bytes,
      readFromSwapFile k k.curproc (i * PGSIZE) PGSIZE = .ok (PGSIZE, bytes, { k with fs := fs' }) ∧
      SwapFile fs' f n ∧ (∀ i' j, fs'.slotByte f i' j = k.fs.slotByte f i' j) ∧
      ∀ j, bytes j = k.fs.slotByte f i j := by
  obtain ⟨fs', hr, hfile, hbytes, hinode⟩ := h.read hi hmax
  refine ⟨fs', fun j => (fs'.inode (fs'.ftable f).ip).byte (i * PGSIZE + j), ?_, hfile, hbytes,
    fun j => ?_⟩
  · have hf' : (k.proc k.curproc).swapFile = some f := hf
    simp only [readFromSwapFile, hf', deref_some, ok_bind]
    rw [show k.fs.setFile f _ = k.fs.seek f (i * PGSIZE) from rfl, hr]
    rfl
  · simp only [hinode, Inode.byte, h.isFile, Fs.slotByte]

end writes

end Paging
