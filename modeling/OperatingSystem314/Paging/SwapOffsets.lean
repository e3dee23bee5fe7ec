import Mathlib.Logic.Relation
import OperatingSystem314.Paging.OpenFiles
import OperatingSystem314.Paging.SwapCopied

/-! # Writing inside the file and behind its end

    `writei` refuses an offset behind the end of the file.  `filewrite` cuts
    what it is given into chunks and writes each of them where the last one
    ended, so that only the first offset matters.

    * `WriteRound`: a round of the loop of `filewrite`.
    * `WriteFits`: a call of `writeToSwapFile` whose chunks are all accepted.
    * `OpenSwap.writeFits`: when that is. -/

namespace Paging

open Relation (ReflTransGen)

/-! ### Chunks -/

/-- A round of the loop of `filewrite` that writes a whole chunk.  The loop
    has written `i` bytes when the round starts. -/
inductive WriteRound (f : Fin NFILE) (src : Nat → UInt8) (n : Nat) : Nat × Fs → Nat × Fs → Prop where
  | mk {i n1 : Nat} {fs fs' : Fs} (hlt : i < n) (hn1 : n1 = min (n - i) Fs.MAXWRITE)
      (hwrite : fs.writei (fs.ftable f).ip (fun j => src (i + j)) (fs.ftable f).off n1 = .ok (n1, fs')) :
      WriteRound f src n (i, fs) (i + n1, fs'.setFile f { fs.ftable f with off := (fs.ftable f).off + n1 })

/-- The loop goes through such rounds until it has written everything, or a
    chunk is refused. -/
theorem filewriteLoop_round {f : Fin NFILE} {src : Nat → UInt8} {n fuel i : Nat} {fs : Fs}
    (hlt : i < n) {n1 : Nat} (hn1 : n1 = min (n - i) Fs.MAXWRITE) {fs' : Fs}
    (hwrite : fs.writei (fs.ftable f).ip (fun j => src (i + j)) (fs.ftable f).off n1 = .ok (n1, fs')) :
    Fs.filewriteLoop f src n (fuel + 1) i fs = Fs.filewriteLoop f src n fuel (i + n1)
      (fs'.setFile f { fs.ftable f with off := (fs.ftable f).off + n1 }) := by
  have hpos : 0 < n1 := by
    rw [hn1]
    simp only [Fs.MAXWRITE]
    omega
  rw [Fs.filewriteLoop, if_pos (by omega), Int.toNat_natCast, ← hn1]
  simp only [hwrite, ok_bind]
  rw [if_neg (by omega), if_neg (by simp), if_pos (by omega), Int.toNat_natCast]

/-- What holds when `i` of `n` bytes are written, the first of them at `off`. -/
structure Chunked (f : Fin NFILE) (off n i : Nat) (fs : Fs) : Prop where
  isFile : (fs.inode (fs.ftable f).ip).type = .T_FILE
  offset : (fs.ftable f).off = off + i
  noGap : off + i ≤ (fs.inode (fs.ftable f).ip).size
  fits : off + n ≤ MAXFILE * BSIZE
  upTo : i ≤ n

/-- A chunk is written as a whole, or there are no blocks for it. -/
theorem writei_cases {fs : Fs} {ip off n : Nat} (src : Nat → UInt8) (hfile : (fs.inode ip).type = .T_FILE)
    (hgap : off ≤ (fs.inode ip).size) (hfits : off + n ≤ MAXFILE * BSIZE) :
    fs.writei ip src off n = panic outOfBlocks ∨ ∃ fs', fs.writei ip src off n = .ok (n, fs') ∧
      fs'.ftable = fs.ftable ∧ (fs'.inode ip).type = .T_FILE ∧
      (fs'.inode ip).size = max (fs.inode ip).size (off + n) := by
  have hsmall : MAXFILE * BSIZE < 2 ^ 32 := by decide
  unfold Fs.writei
  simp only [hfile, reduceCtorEq, if_false]
  rw [if_neg (by omega), if_neg (by omega), Fs.balloc]
  split
  · exact .inl rfl
  · refine .inr ⟨_, rfl, rfl, ?_, ?_⟩
    · simp [Fs.setInode]
    · simp [Fs.setInode]

namespace Chunked

variable {f : Fin NFILE} {src : Nat → UInt8} {off n i : Nat} {fs : Fs}

/-- The chunk that the loop comes to does not start behind the end of the
    file, and it ends where the file may still go. -/
theorem accepted (h : Chunked f off n i fs) : (fs.ftable f).off ≤ (fs.inode (fs.ftable f).ip).size ∧
    (fs.ftable f).off + min (n - i) Fs.MAXWRITE ≤ MAXFILE * BSIZE := by
  have hfits := h.fits
  have hupTo := h.upTo
  rw [h.offset]
  exact ⟨h.noGap, by omega⟩

theorem next {fs' : Fs} {n1 : Nat} (h : Chunked f off n i fs) (hn1 : n1 = min (n - i) Fs.MAXWRITE)
    (hwrite : fs.writei (fs.ftable f).ip (fun j => src (i + j)) (fs.ftable f).off n1 = .ok (n1, fs')) :
    Chunked f off n (i + n1) (fs'.setFile f { fs.ftable f with off := (fs.ftable f).off + n1 }) := by
  have hupTo := h.upTo
  have hoff := h.offset
  obtain ⟨hgap, hend⟩ := h.accepted
  rw [← hn1] at hend
  rcases writei_cases (fun j => src (i + j)) h.isFile hgap hend with hpanic | ⟨fs1, hok, -, hfile, hsize⟩
  · rw [hpanic] at hwrite
    cases hwrite
  rw [hok] at hwrite
  obtain ⟨-, rfl⟩ := Prod.mk.inj (Except.ok.inj hwrite)
  have hip : (fs1.setFile f { fs.ftable f with off := (fs.ftable f).off + n1 }).ftable f =
      { fs.ftable f with off := (fs.ftable f).off + n1 } := by
    simp [Fs.setFile]
  have hle := Nat.le_max_right (fs.inode (fs.ftable f).ip).size ((fs.ftable f).off + n1)
  refine ⟨?_, ?_, ?_, h.fits, by omega⟩
  · rw [hip]
    exact hfile
  · rw [hip]
    show (fs.ftable f).off + n1 = _
    omega
  · rw [hip]
    show _ ≤ (fs1.inode (fs.ftable f).ip).size
    omega

/-- Each chunk follows the one before it, by induction on the rounds. -/
theorem rounds {i' : Nat} {fs' : Fs} (h : Chunked f off n i fs)
    (hrun : ReflTransGen (WriteRound f src n) (i, fs) (i', fs')) : Chunked f off n i' fs' := by
  suffices hall : ∀ s, ReflTransGen (WriteRound f src n) (i, fs) s → Chunked f off n s.1 s.2 from hall _ hrun
  intro s hs
  induction hs with
  | refl => exact h
  | tail _ hlast ih =>
    cases hlast with
    | mk hlt hn1 hwrite => exact ih.next hn1 hwrite

/-- The loop writes everything, or runs out of blocks. -/
theorem loop {fuel : Nat} (h : Chunked f off n i fs) (src : Nat → UInt8) (hfuel : n - i < fuel) :
    Fs.filewriteLoop f src n fuel i fs = panic outOfBlocks ∨
      ∃ fs', Fs.filewriteLoop f src n fuel i fs = .ok (n, fs') ∧ Chunked f off n n fs' := by
  induction fuel generalizing i fs with
  | zero => omega
  | succ fuel ih =>
    have hupTo := h.upTo
    by_cases hlt : i < n
    · obtain ⟨hgap, hend⟩ := h.accepted
      obtain ⟨n1, hn1⟩ : ∃ n1, n1 = min (n - i) Fs.MAXWRITE := ⟨_, rfl⟩
      rw [← hn1] at hend
      rcases writei_cases (fun j => src (i + j)) h.isFile hgap hend with hpanic | ⟨fs1, hok, -⟩
      · left
        rw [Fs.filewriteLoop, if_pos (by omega), Int.toNat_natCast, ← hn1]
        simp only [hpanic]
        rfl
      · rw [filewriteLoop_round hlt hn1 hok]
        have hpos : 0 < n1 := by
          rw [hn1]
          simp only [Fs.MAXWRITE]
          omega
        exact ih (h.next hn1 hok) (by omega)
    · obtain rfl : i = n := by omega
      right
      refine ⟨fs, ?_, h⟩
      rw [Fs.filewriteLoop, if_neg (by omega)]

end Chunked

/-! ### Calls -/

/-- The call of `writeToSwapFile` for `n` bytes at `off` starts inside the
    swap file `f` or at its end, and it ends where the file may still go; so
    does every chunk it is cut into.  It writes all the bytes, unless the
    disk is full. -/
structure WriteFits (k : Kernel) (p : ProcId) (f : Fin NFILE) (src : Nat → UInt8) (off n : Nat) : Prop where
  own : (k.proc p).swapFile = some f
  starts : off ≤ (k.fs.inode (k.fs.ftable f).ip).size
  ends : off + n ≤ MAXFILE * BSIZE
  chunks : ∀ i fs, ReflTransGen (WriteRound f src n) (0, k.fs.seek f off) (i, fs) → i < n →
    (fs.ftable f).off ≤ (fs.inode (fs.ftable f).ip).size ∧
      (fs.ftable f).off + min (n - i) Fs.MAXWRITE ≤ MAXFILE * BSIZE
  returns : writeToSwapFile k p src off n = panic outOfBlocks ∨ ∃ k', writeToSwapFile k p src off n = .ok (n, k')
  room : nblocks (max (k.fs.inode (k.fs.ftable f).ip).size (off + n)) ≤
    nblocks (k.fs.inode (k.fs.ftable f).ip).size + k.fs.freeBlocks →
      ∃ k', writeToSwapFile k p src off n = .ok (n, k')

theorem writeToSwapFile_step {held : List Nat} {k k' : Kernel} {p : ProcId} {src : Nat → UInt8} {off : Nat}
    {n r : Int} (h : writeToSwapFile k p src off n = .ok (r, k')) : FsStep held k.fs held k'.fs := by
  simp only [writeToSwapFile, bind_eq_ok] at h
  obtain ⟨f, -, h⟩ := h
  split at h
  · cases h
  · simp only [bind_eq_ok] at h
    obtain ⟨⟨r, fs⟩, hwrite, h⟩ := h
    cases h
    have hseek : FsStep held k.fs held (k.fs.setFile f { k.fs.ftable f with off := off }) :=
      .setFile (Nat.le_refl _)
    exact hseek.trans (.filewrite hwrite)

theorem readFromSwapFile_step {held : List Nat} {k k' : Kernel} {p : ProcId} {off n : Nat} {r : Int}
    {bytes : Nat → UInt8} (h : readFromSwapFile k p off n = .ok (r, bytes, k')) : FsStep held k.fs held k'.fs := by
  simp only [readFromSwapFile, bind_eq_ok] at h
  obtain ⟨f, -, ⟨r, fs⟩, hread, h⟩ := h
  cases h
  have hseek : FsStep held k.fs held (k.fs.setFile f { k.fs.ftable f with off := off }) :=
    .setFile (Nat.le_refl _)
  exact hseek.trans (.fileread hread)

namespace OpenSwap

variable {held : List Nat} {k k' : Kernel} {p : ProcId} {f : Fin NFILE} {size off n : Nat} {src : Nat → UInt8}

theorem chunked (h : OpenSwap held k.fs f size) (hoff : off ≤ size) (hend : off + n ≤ MAXFILE * BSIZE) :
    Chunked f off n 0 (k.fs.seek f off) := by
  have hip : (k.fs.seek f off).ftable f = { k.fs.ftable f with off } := by
    simp [Fs.seek, Fs.setFile]
  have hfilled := Nat.le_trans hoff h.filled
  refine ⟨?_, ?_, ?_, hend, Nat.zero_le n⟩
  · rw [hip]
    exact h.isFile
  · rw [hip]
    rfl
  · rw [hip]
    exact hfilled

/-- The call and the loop of `filewrite`. -/
theorem write_eq (h : OpenSwap held k.fs f size) (hown : (k.proc p).swapFile = some f) (hlocks : k.locks = []) :
    writeToSwapFile k p src off n = (do
      let (i, fs) ← Fs.filewriteLoop f src n (n + 1) 0 (k.fs.seek f off)
      return (if i = n then (n : Int) else -1, { k with fs })) := by
  have hip : (k.fs.seek f off).ftable f = { k.fs.ftable f with off } := by
    simp [Fs.seek, Fs.setFile]
  have hwritable : ¬ ((k.fs.seek f off).ftable f).writable = false := by
    rw [hip]
    simp [h.writable]
  have htype : ¬ ((k.fs.seek f off).ftable f).type ≠ .FD_INODE := by
    rw [hip]
    simp [h.isInode]
  simp only [writeToSwapFile, hown, deref_some, ok_bind, hlocks]
  rw [if_neg (by simp), show k.fs.setFile f { k.fs.ftable f with off := off } = k.fs.seek f off from rfl]
  unfold Fs.filewrite
  simp only []
  rw [if_neg hwritable, if_neg htype, Int.toNat_natCast]
  simp only [bind_assoc, pure_eq_ok, ok_bind, Int.natCast_inj]

theorem writeFits (h : OpenSwap held k.fs f size) (hown : (k.proc p).swapFile = some f) (hlocks : k.locks = [])
    (hoff : off ≤ size) (hend : off + n ≤ MAXFILE * BSIZE) (src : Nat → UInt8) : WriteFits k p f src off n := by
  have hchunked := h.chunked hoff hend
  refine ⟨hown, Nat.le_trans hoff h.filled, hend, ?_, ?_, ?_⟩
  · intro i fs hrun _
    exact (hchunked.rounds hrun).accepted
  · rw [h.write_eq hown hlocks]
    rcases hchunked.loop src (Nat.lt_succ_self n) with hpanic | ⟨fs', hok, -⟩
    · left
      rw [hpanic]
      rfl
    · right
      rw [hok, ok_bind]
      simp only [if_true]
      exact ⟨_, rfl⟩
  · intro hroom
    have hip : (k.fs.seek f off).ftable f = { k.fs.ftable f with off } := by
      simp [Fs.seek, Fs.setFile]
    have hw : (k.fs.seek f off).Writable f n := by
      refine ⟨?_, ?_, ?_, ?_, ?_, ?_⟩
      all_goals rw [hip]
      · exact h.writable
      · exact h.isInode
      · exact h.isFile
      · exact Nat.le_trans hoff h.filled
      · exact hend
      · exact hroom
    have hwrite : (k.fs.seek f off).filewrite f src n = .ok (n, (k.fs.seek f off).wrote f src n) := Fs.filewrite_eq hw
    simp only [writeToSwapFile, hown, deref_some, ok_bind, hlocks]
    rw [if_neg (by simp), show k.fs.setFile f { k.fs.ftable f with off := off } = k.fs.seek f off from rfl, hwrite]
    exact ⟨_, rfl⟩

/-- What is written is inside the file afterwards. -/
theorem written {r : Int} (h : OpenSwap held k.fs f size) (hown : (k.proc p).swapFile = some f)
    (hlocks : k.locks = []) (hoff : off ≤ size) (hend : off + n ≤ MAXFILE * BSIZE)
    (hok : writeToSwapFile k p src off n = .ok (r, k')) : OpenSwap held k'.fs f (max size (off + n)) := by
  have hstep := h.step (writeToSwapFile_step hok)
  rw [h.write_eq hown hlocks] at hok
  rcases (h.chunked hoff hend).loop src (Nat.lt_succ_self n) with hpanic | ⟨fs', hloop, hlast⟩
  · rw [hpanic] at hok
    cases hok
  rw [hloop, ok_bind] at hok
  obtain ⟨-, rfl⟩ := Prod.mk.inj (Except.ok.inj hok)
  have hgap := hlast.noGap
  have hfilled := hstep.filled
  refine ⟨hstep.ref, hstep.isInode, hstep.readable, hstep.writable, hstep.isFile, hstep.others, ?_⟩
  exact Nat.max_le.mpr ⟨hfilled, hgap⟩

end OpenSwap

end Paging
