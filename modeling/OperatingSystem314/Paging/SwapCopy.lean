import OperatingSystem314.Paging.Child
import OperatingSystem314.Paging.SwapFile

/-! # When the swap file can be copied

    The loop of `fork` that copies the swap file of the parent writes
    behind what it has written before.  It returns if the disk has blocks
    for what the child's file grows by, and panics in `balloc` otherwise
    (`copySwapFile_returns`). -/

namespace Paging

/-! ### The two files -/

/-- `f` is read and `g` is written, up to offset `o` of `size` bytes. -/
structure CopyFiles (fs : Fs) (f g : Fin NFILE) (size o : Nat) : Prop where
  ne : f ≠ g
  isInode : (fs.ftable f).type = .FD_INODE
  readable : (fs.ftable f).readable = true
  isFile : (fs.inode (fs.ftable f).ip).type = .T_FILE
  sizeEq : (fs.inode (fs.ftable f).ip).size = size
  fits : size ≤ MAXFILE * BSIZE
  isInode' : (fs.ftable g).type = .FD_INODE
  writable : (fs.ftable g).writable = true
  isFile' : (fs.inode (fs.ftable g).ip).type = .T_FILE
  reached : o ≤ (fs.inode (fs.ftable g).ip).size
  upTo : o ≤ size

/-- The blocks that the file written to still needs. -/
def CopyRoom (fs : Fs) (g : Fin NFILE) (size : Nat) : Prop :=
  nblocks (max (fs.inode (fs.ftable g).ip).size size) ≤
    nblocks (fs.inode (fs.ftable g).ip).size + fs.freeBlocks

namespace CopyFiles

variable {fs : Fs} {f g : Fin NFILE} {size o : Nat}

/-- Offsets do not matter. -/
theorem seek (h : CopyFiles fs f g size o) (e : Fin NFILE) (off : Nat) :
    CopyFiles (fs.seek e off) f g size o ∧ ((fs.seek e off).ftable g).ip = (fs.ftable g).ip := by
  have hip : ∀ i, ((fs.seek e off).ftable i).ip = (fs.ftable i).ip ∧
      ((fs.seek e off).ftable i).type = (fs.ftable i).type ∧
      ((fs.seek e off).ftable i).readable = (fs.ftable i).readable ∧
      ((fs.seek e off).ftable i).writable = (fs.ftable i).writable := by
    intro i
    by_cases hi : i = e
    · subst hi
      simp [Fs.seek, Fs.setFile]
    · simp [Fs.seek, Fs.setFile, hi]
  refine ⟨?_, (hip g).1⟩
  constructor
  · exact h.ne
  · rw [(hip f).2.1]; exact h.isInode
  · rw [(hip f).2.2.1]; exact h.readable
  · rw [(hip f).1]; exact h.isFile
  · rw [(hip f).1]; exact h.sizeEq
  · exact h.fits
  · rw [(hip g).2.1]; exact h.isInode'
  · rw [(hip g).2.2.2]; exact h.writable
  · rw [(hip g).1]; exact h.isFile'
  · rw [(hip g).1]; exact h.reached
  · exact h.upTo

theorem copyRoom_seek (h : CopyFiles fs f g size o) (e : Fin NFILE) (off : Nat) :
    CopyRoom (fs.seek e off) g size ↔ CopyRoom fs g size := by
  unfold CopyRoom
  rw [(h.seek e off).2]
  exact Iff.rfl

/-- A read at the offset reached. -/
theorem fileread (h : CopyFiles fs f g size o) : ∃ off,
    (fs.seek f o).fileread f 1024 = .ok ((min 1024 (size - o) : Nat), fs.seek f off) := by
  have hcap : MAXFILE * BSIZE + 1024 < 2 ^ 32 := by decide
  have hfits := h.fits
  have hupTo := h.upTo
  have hlen : (fs.inode (fs.ftable f).ip).length = size := by
    rw [← h.sizeEq]
    simp [Inode.length, h.isFile]
  have hread : (fs.seek f o).readi ((fs.seek f o).ftable f).ip ((fs.seek f o).ftable f).off 1024 =
      (min 1024 (size - o) : Nat) := by
    unfold Fs.readi
    simp only [Fs.seek, Fs.setFile, Function.update_self, h.isFile, hlen, reduceCtorEq, if_false]
    rw [if_neg (by omega)]
    split <;> omega
  unfold Fs.fileread
  simp only [hread]
  rw [if_neg (by simp [Fs.seek, Fs.setFile, h.readable]), if_neg (by simp [Fs.seek, Fs.setFile, h.isInode])]
  split
  · refine ⟨o + (min 1024 (size - o)), ?_⟩
    rw [Int.toNat_natCast]
    simp [Fs.seek, Fs.setFile]
  · exact ⟨o, rfl⟩

/-- A chunk can be written just when there are blocks for it. -/
theorem writable_iff (h : CopyFiles fs f g size o) {n : Nat} (hn : o + n ≤ size) :
    (fs.seek g o).Writable g n ↔ CopyRoom fs g (o + n) := by
  have hfits := h.fits
  constructor
  · intro hw
    have hb := hw.blocks
    unfold CopyRoom
    simpa [Fs.seek, Fs.setFile] using hb
  · intro hroom
    constructor
    all_goals simp only [Fs.seek, Fs.setFile, Function.update_self]
    · exact h.writable
    · exact h.isInode'
    · exact h.isFile'
    · exact h.reached
    · omega
    · exact hroom

/-- Without blocks for the chunk, `balloc` panics. -/
theorem filewrite_panics (h : CopyFiles fs f g size o) {n : Nat} {src : Nat → UInt8} (hpos : 0 < n)
    (hsmall : n ≤ Fs.MAXWRITE) (hn : o + n ≤ size) (hroom : ¬ CopyRoom fs g (o + n)) :
    (fs.seek g o).filewrite g src n = panic "balloc: out of blocks" := by
  have hcap : MAXFILE * BSIZE < 2 ^ 32 := by decide
  have hfits := h.fits
  have hreached := h.reached
  unfold CopyRoom at hroom
  unfold Fs.filewrite
  simp only []
  rw [if_neg (by simp [Fs.seek, Fs.setFile, h.writable]), if_neg (by simp [Fs.seek, Fs.setFile, h.isInode'])]
  unfold Fs.filewriteLoop
  rw [if_pos (by omega), Int.toNat_natCast, Nat.sub_zero, Nat.min_eq_left hsmall]
  have hwrite : (fs.seek g o).writei ((fs.seek g o).ftable g).ip (fun j => src (0 + j))
      ((fs.seek g o).ftable g).off n = panic "balloc: out of blocks" := by
    unfold Fs.writei
    simp only [Fs.seek, Fs.setFile, Function.update_self, h.isFile', reduceCtorEq, if_false]
    rw [if_neg (by omega), if_neg (by omega), Fs.balloc]
    simp only []
    rw [if_pos (by omega)]
    rfl
  simp only [hwrite]
  rfl

/-- After a chunk the next one follows. -/
theorem wrote (h : CopyFiles fs f g size o) {n : Nat} (src : Nat → UInt8) (hpos : 0 < n)
    (hn : o + n ≤ size) (hroom : CopyRoom fs g (o + n)) :
    CopyFiles ((fs.seek g o).wrote g src n) f g size (o + n) ∧
      (CopyRoom ((fs.seek g o).wrote g src n) g size ↔ CopyRoom fs g size) := by
  obtain ⟨hs, hip⟩ := h.seek g o
  have hftable : ∀ i, (((fs.seek g o).wrote g src n).ftable i).ip = (fs.ftable i).ip ∧
      (((fs.seek g o).wrote g src n).ftable i).type = (fs.ftable i).type ∧
      (((fs.seek g o).wrote g src n).ftable i).readable = (fs.ftable i).readable ∧
      (((fs.seek g o).wrote g src n).ftable i).writable = (fs.ftable i).writable := by
    intro i
    by_cases hi : i = g
    · subst hi
      simp [Fs.wrote, Fs.grown, Fs.seek, Fs.setFile, Fs.setInode]
    · simp [Fs.wrote, Fs.grown, Fs.seek, Fs.setFile, Fs.setInode, hi]
  have hinode : ∀ i, ((fs.seek g o).wrote g src n).inode i =
      if i = (fs.ftable g).ip then (fs.inode (fs.ftable g).ip).wrote o n src else fs.inode i := by
    intro i
    simp [Fs.wrote, Fs.grown, Fs.seek, Fs.setFile, Fs.setInode, Function.update_apply]
  have hnew : ((fs.inode (fs.ftable g).ip).wrote o n src).size =
      max (fs.inode (fs.ftable g).ip).size (o + n) := Inode.wrote_size_pos _ _ _ hpos
  refine ⟨?_, ?_⟩
  · constructor
    · exact h.ne
    · rw [(hftable f).2.1]; exact h.isInode
    · rw [(hftable f).2.2.1]; exact h.readable
    · rw [(hftable f).1, hinode]
      split
      · exact h.isFile'
      · exact h.isFile
    · rw [(hftable f).1, hinode]
      split
      next heq =>
        -- both descriptors are open on the same file: the write stays inside it
        rw [hnew, ← heq, h.sizeEq]
        omega
      · exact h.sizeEq
    · exact h.fits
    · rw [(hftable g).2.1]; exact h.isInode'
    · rw [(hftable g).2.2.2]; exact h.writable
    · rw [(hftable g).1, hinode, if_pos rfl]; exact h.isFile'
    · rw [(hftable g).1, hinode, if_pos rfl, hnew]; omega
    · exact hn
  · have hfree : ((fs.seek g o).wrote g src n).freeBlocks = fs.freeBlocks -
        (nblocks (max (fs.inode (fs.ftable g).ip).size (o + n)) - nblocks (fs.inode (fs.ftable g).ip).size) := by
      rw [← hnew]
      simp [Fs.wrote, Fs.grown, Fs.seek, Fs.setFile, Fs.setInode]
    unfold CopyRoom at hroom ⊢
    rw [(hftable g).1, hinode, if_pos rfl, hnew, hfree]
    have hmono := nblocks_mono (Nat.le_max_left (fs.inode (fs.ftable g).ip).size (o + n))
    rw [show max (max (fs.inode (fs.ftable g).ip).size (o + n)) size =
      max (fs.inode (fs.ftable g).ip).size size from by omega]
    omega

end CopyFiles

/-! ### The loop -/

/-- What the disk is too full for. -/
abbrev outOfBlocks : String := "balloc: out of blocks"

theorem toUint_natCast {a : Nat} (h : a < 2 ^ 32) : toUint (a : Int) = a := by
  unfold toUint
  omega

/-- One round: the chunk is written and the next one is read, or there are
    no blocks for it. -/
theorem CopyFiles.round {k : Kernel} {np : ProcId} {f g : Fin NFILE} {size o : Nat} (buffer : Nat → UInt8)
    (hlocks : k.locks = []) (hf : k.cur.swapFile = some f) (hg : (k.proc np).swapFile = some g)
    (h : CopyFiles k.fs f g size o) (hlt : o < size) :
    let n := min 1024 (size - o)
    let fs := (k.fs.seek g o).wrote g buffer n
    (¬ CopyRoom k.fs g size ∧ writeToSwapFile k np buffer o n = panic outOfBlocks) ∨
    ∃ bytes off, writeToSwapFile k np buffer o n = .ok (n, { k with fs }) ∧
      readFromSwapFile { k with fs } k.curproc (o + n) 1024 =
        .ok ((min 1024 (size - (o + n)) : Nat), bytes, { k with fs := fs.seek f off }) ∧
      (∀ j, bytes j = (fs.inode (fs.ftable f).ip).data (o + n + j)) ∧
      CopyFiles (fs.seek f off) f g size (o + n) ∧
      (CopyRoom (fs.seek f off) g size ↔ CopyRoom k.fs g size) := by
  intro n fs
  have hpos : 0 < n := by omega
  have hwrite : writeToSwapFile k np buffer o n = 
      (k.fs.seek g o).filewrite g buffer n >>= fun q => pure (q.1, { k with fs := q.2 }) := by
    unfold writeToSwapFile
    rw [hg, deref_some, ok_bind]
    simp only [hlocks, ne_eq, not_true, and_false, if_false]
    rfl
  rw [hwrite]
  by_cases hroom : CopyRoom k.fs g (o + n)
  · right
    have hok : (k.fs.seek g o).filewrite g buffer n = .ok (n, fs) :=
      Fs.filewrite_eq ((h.writable_iff (by omega)).mpr hroom)
    obtain ⟨h1, hroom1⟩ := h.wrote buffer hpos (by omega) hroom
    obtain ⟨off, hread⟩ := h1.fileread
    refine ⟨fun j => ((fs.seek f off).inode ((fs.seek f off).ftable f).ip).byte (o + n + j), off, ?_, ?_, ?_,
      (h1.seek f off).1, ?_⟩
    · rw [hok]
      rfl
    · have hread' : (fs.seek f (o + n)).fileread f 1024 =
          .ok ((min 1024 (size - (o + n)) : Nat), fs.seek f off) := hread
      unfold readFromSwapFile
      rw [show (({ k with fs } : Kernel).proc k.curproc).swapFile = some f from hf, deref_some, ok_bind]
      simp only [show fs.setFile f { fs.ftable f with off := o + n } = fs.seek f (o + n) from rfl,
        hread', ok_bind]
      rfl
    · intro j
      have hip : ((fs.seek f off).ftable f).ip = (fs.ftable f).ip := by simp [Fs.seek, Fs.setFile]
      have hfile : (fs.inode (fs.ftable f).ip).type = .T_FILE := h1.isFile
      simp only [hip, show (fs.seek f off).inode = fs.inode from rfl, Inode.byte, hfile]
    · rw [h1.copyRoom_seek, hroom1]
  · left
    refine ⟨?_, ?_⟩
    · intro hall
      apply hroom
      unfold CopyRoom at hall ⊢
      exact (nblocks_mono (by omega)).trans hall
    · rw [h.filewrite_panics hpos (by simp only [Fs.MAXWRITE]; omega) (by omega) hroom]
      rfl

/-- By induction on the rounds left. -/
theorem copySwapLoop_cases (fuel : Nat) {k : Kernel} {np : ProcId} {f g : Fin NFILE} {size o : Nat}
    (buffer : Nat → UInt8) (hlocks : k.locks = []) (hf : k.cur.swapFile = some f)
    (hg : (k.proc np).swapFile = some g) (h : CopyFiles k.fs f g size o) (hfuel : size - o < fuel) :
    (CopyRoom k.fs g size ∧ ∃ k', copySwapLoop np fuel o (min 1024 (size - o) : Nat) buffer k = .ok k') ∨
    (¬ CopyRoom k.fs g size ∧
      copySwapLoop np fuel o (min 1024 (size - o) : Nat) buffer k = panic outOfBlocks) := by
  induction fuel generalizing k o buffer with
  | zero => omega
  | succ fuel ih =>
    have hupTo := h.upTo
    have hcap : MAXFILE * BSIZE < 2 ^ 32 := by decide
    have hfits := h.fits
    unfold copySwapLoop
    by_cases hend : o = size
    · -- everything is copied, and the file is as long as the source
      subst hend
      rw [if_pos (by simp)]
      have hreached := h.reached
      refine .inl ⟨?_, k, rfl⟩
      unfold CopyRoom
      rw [Nat.max_eq_left hreached]
      omega
    · rw [if_neg (by omega), toUint_natCast (by omega)]
      rcases h.round buffer hlocks hf hg (by omega) with ⟨hroom, hwrite⟩ | ⟨bytes, off, hwrite, hread, -, h1, hroom⟩
      · rw [hwrite]
        exact .inr ⟨hroom, rfl⟩
      · rw [hwrite]
        simp only [ok_bind]
        rw [show ((o : Int) + ((min 1024 (size - o) : Nat) : Int)) = ((o + min 1024 (size - o) : Nat) : Int) from by
          omega, toUint_natCast (by omega), hread]
        simp only [ok_bind]
        set fs2 := ((k.fs.seek g o).wrote g buffer (min 1024 (size - o))).seek f off with hfs2
        rw [← hroom, cprintf_ok (k := { k with fs := fs2 }) hlocks]
        simp only [ok_bind]
        exact ih (k := { k with fs := fs2 }) _ hlocks hf hg h1 (by omega)

theorem copySwapLoop_returns (fuel : Nat) {k : Kernel} {np : ProcId} {f g : Fin NFILE} {size o : Nat}
    (buffer : Nat → UInt8) (hlocks : k.locks = []) (hf : k.cur.swapFile = some f)
    (hg : (k.proc np).swapFile = some g) (h : CopyFiles k.fs f g size o) (hfuel : size - o < fuel) :
    (∃ k', copySwapLoop np fuel o (min 1024 (size - o) : Nat) buffer k = .ok k') ↔
      CopyRoom k.fs g size := by
  rcases copySwapLoop_cases fuel buffer hlocks hf hg h hfuel with ⟨hroom, hok⟩ | ⟨hroom, hpanic⟩
  · exact ⟨fun _ => hroom, fun _ => hok⟩
  · constructor
    · rintro ⟨k', hok⟩
      rw [hpanic] at hok
      cases hok
    · exact fun habs => absurd habs hroom

/-- The read in front of the loop. -/
theorem CopyFiles.firstRead {k : Kernel} {f g : Fin NFILE} {size : Nat} (hf : k.cur.swapFile = some f)
    (h : CopyFiles k.fs f g size 0) : ∃ bytes off, readFromSwapFile k k.curproc 0 1024 =
      .ok ((min 1024 size : Nat), bytes, { k with fs := k.fs.seek f off }) ∧
      ∀ j, bytes j = (k.fs.inode (k.fs.ftable f).ip).data j := by
  obtain ⟨off, hread⟩ := h.fileread
  refine ⟨fun j => ((k.fs.seek f off).inode ((k.fs.seek f off).ftable f).ip).byte (0 + j), off, ?_, ?_⟩
  · unfold readFromSwapFile
    rw [show (k.proc k.curproc).swapFile = some f from hf, deref_some, ok_bind]
    simp only [show k.fs.setFile f { k.fs.ftable f with off := 0 } = k.fs.seek f 0 from rfl, hread, ok_bind]
    rfl
  · intro j
    have hip : ((k.fs.seek f off).ftable f).ip = (k.fs.ftable f).ip := by simp [Fs.seek, Fs.setFile]
    simp only [hip, show (k.fs.seek f off).inode = k.fs.inode from rfl, Inode.byte, h.isFile, Nat.zero_add]

/-- `fork` survives the copy of the swap file just when there are blocks
    for it, and otherwise panics in `balloc`. -/
theorem copySwapFile_cases {k : Kernel} {np : ProcId} {f g : Fin NFILE} {size : Nat}
    (hlocks : k.locks = []) (hf : k.cur.swapFile = some f) (hg : (k.proc np).swapFile = some g)
    (h : CopyFiles k.fs f g size 0) :
    (CopyRoom k.fs g size ∧ ∃ k', copySwapFile k np = .ok k') ∨
    (¬ CopyRoom k.fs g size ∧ copySwapFile k np = panic outOfBlocks) := by
  obtain ⟨bytes, off, hread, -⟩ := h.firstRead hf
  have hfits := h.fits
  have hloop := copySwapLoop_cases MAXROUNDS (k := { k with fs := k.fs.seek f off })
    (fun j => if (j : Int) < ((min 1024 size : Nat) : Int) then bytes j else 0)
    hlocks hf hg (h.seek f off).1 (by simp only [MAXROUNDS]; omega)
  rw [h.copyRoom_seek, Nat.cast_zero, Nat.sub_zero] at hloop
  unfold copySwapFile
  rw [hread, ok_bind]
  rcases hloop with ⟨hroom, k2, hk2⟩ | ⟨hroom, hpanic⟩
  · left
    have hlocks2 : k2.locks = [] := by
      rw [copySwapLoop_ok hk2]
      exact hlocks
    refine ⟨hroom, k2, ?_⟩
    simp only [hk2, ok_bind, cprintf_ok hlocks2]
    rfl
  · refine .inr ⟨hroom, ?_⟩
    simp only [hpanic, panic_bind]

theorem copySwapFile_returns {k : Kernel} {np : ProcId} {f g : Fin NFILE} {size : Nat}
    (hlocks : k.locks = []) (hf : k.cur.swapFile = some f) (hg : (k.proc np).swapFile = some g)
    (h : CopyFiles k.fs f g size 0) :
    (∃ k', copySwapFile k np = .ok k') ↔ CopyRoom k.fs g size := by
  rcases copySwapFile_cases hlocks hf hg h with ⟨hroom, hok⟩ | ⟨hroom, hpanic⟩
  · exact ⟨fun _ => hroom, fun _ => hok⟩
  · constructor
    · rintro ⟨k', hok⟩
      rw [hpanic] at hok
      cases hok
    · exact fun habs => absurd habs hroom

end Paging
