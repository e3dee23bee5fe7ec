import Mathlib.Tactic.Linarith
import OperatingSystem314.Paging.Fs

/-! # Reading and writing a regular file

    What `filewrite` and `fileread` do to a regular file when they do not
    fail: the chunks of `filewrite` add up to one write of the whole
    buffer.  `Writable` collects what each chunk relies on. -/

namespace Paging

theorem nblocks_mono {a b : Nat} (h : a ≤ b) : nblocks a ≤ nblocks b := by
  have hdiv : (a + BSIZE - 1) / BSIZE ≤ (b + BSIZE - 1) / BSIZE := Nat.div_le_div_right (by omega)
  simp only [nblocks]
  split <;> split <;> omega

/-- The inode after `n` bytes of `src` were written at `off`. -/
def Inode.wrote (x : Inode) (off n : Nat) (src : Nat → UInt8) : Inode :=
  { x with
    data := fun j => if off ≤ j ∧ j < off + n then src (j - off) else x.data j
    size := if n = 0 then x.size else max x.size (off + n) }

@[simp] theorem Inode.wrote_zero (x : Inode) (off : Nat) (src : Nat → UInt8) :
    x.wrote off 0 src = x := by
  have : ∀ j, ¬ (off ≤ j ∧ j < off) := by omega
  simp [wrote, this]

/-- Two writes one behind the other are one write. -/
theorem Inode.wrote_wrote (x : Inode) (off i n : Nat) (src : Nat → UInt8) :
    (x.wrote off i src).wrote (off + i) n (fun j => src (i + j)) = x.wrote off (i + n) src := by
  have hdata : ∀ j, (if off + i ≤ j ∧ j < off + i + n then src (i + (j - (off + i)))
      else if off ≤ j ∧ j < off + i then src (j - off) else x.data j) =
      if off ≤ j ∧ j < off + (i + n) then src (j - off) else x.data j := by
    intro j
    by_cases h : off + i ≤ j ∧ j < off + i + n
    · rw [if_pos h, if_pos (by omega)]
      congr 1
      omega
    · rw [if_neg h]
      by_cases h' : off ≤ j ∧ j < off + i
      · rw [if_pos h', if_pos (by omega)]
      · rw [if_neg h', if_neg (by omega)]
  have hsize : (if n = 0 then (if i = 0 then x.size else max x.size (off + i))
      else max (if i = 0 then x.size else max x.size (off + i)) (off + i + n)) =
      if i + n = 0 then x.size else max x.size (off + (i + n)) := by
    split <;> split <;> split <;> omega
  simp only [wrote]
  congr 1
  funext j
  exact hdata j

theorem Inode.wrote_size_pos (x : Inode) (off : Nat) {n : Nat} (src : Nat → UInt8) (hn : 0 < n) :
    (x.wrote off n src).size = max x.size (off + n) := by
  simp only [wrote, if_neg (by omega : ¬ n = 0)]

theorem Inode.size_le_wrote (x : Inode) (off n : Nat) (src : Nat → UInt8) :
    x.size ≤ (x.wrote off n src).size := by
  simp only [wrote]
  split <;> omega

namespace Fs

/-- The file system after `x`, the content of inode `inum`, grew to `x'`. -/
def grown (fs : Fs) (inum : Nat) (x' : Inode) : Fs :=
  { fs.setInode inum x' with
    freeBlocks := fs.freeBlocks - (nblocks x'.size - nblocks (fs.inode inum).size) }

/-- A successful `writei` to a regular file. -/
theorem writei_eq {fs : Fs} {inum off n : Nat} {src : Nat → UInt8}
    (hfile : (fs.inode inum).type = .T_FILE) (hgap : off ≤ (fs.inode inum).size)
    (hfits : off + n ≤ MAXFILE * BSIZE) (hn : 0 < n)
    (hblocks : nblocks ((fs.inode inum).wrote off n src).size ≤
      nblocks (fs.inode inum).size + fs.freeBlocks) :
    fs.writei inum src off n = .ok (n, fs.grown inum ((fs.inode inum).wrote off n src)) := by
  have hsmall : MAXFILE * BSIZE < 2 ^ 32 := by decide
  rw [Inode.wrote_size_pos _ _ _ hn] at hblocks
  simp only [writei, hfile, reduceCtorEq, if_false]
  rw [if_neg (by omega), if_neg (by omega), balloc, if_neg (by omega)]
  simp only [bind, Except.bind, pure, Except.pure, grown, setInode, Inode.wrote, hfile,
    if_neg (by omega : ¬ n = 0)]

variable {fs : Fs} {f : Fin NFILE} {src : Nat → UInt8} {n : Nat}

/-- What writing `n` bytes through the open file `f` relies on. -/
structure Writable (fs : Fs) (f : Fin NFILE) (n : Nat) : Prop where
  writable : (fs.ftable f).writable = true
  isInode : (fs.ftable f).type = .FD_INODE
  isFile : (fs.inode (fs.ftable f).ip).type = .T_FILE
  noGap : (fs.ftable f).off ≤ (fs.inode (fs.ftable f).ip).size
  fits : (fs.ftable f).off + n ≤ MAXFILE * BSIZE
  blocks : nblocks (max (fs.inode (fs.ftable f).ip).size ((fs.ftable f).off + n)) ≤
    nblocks (fs.inode (fs.ftable f).ip).size + fs.freeBlocks

/-- The file system after `n` bytes of `src` were written through `f`. -/
def wrote (fs : Fs) (f : Fin NFILE) (src : Nat → UInt8) (n : Nat) : Fs :=
  let x := fs.ftable f
  (fs.grown x.ip ((fs.inode x.ip).wrote x.off n src)).setFile f { x with off := x.off + n }

theorem wrote_zero (fs : Fs) (f : Fin NFILE) (src : Nat → UInt8) : fs.wrote f src 0 = fs := by
  simp [wrote, grown, setFile, setInode]

/-- A chunk written behind another is one longer write. -/
theorem wrote_grown (fs : Fs) (f : Fin NFILE) (src : Nat → UInt8) (i n1 : Nat) :
    let fs' := fs.wrote f src i
    let x := fs'.ftable f
    (fs'.grown x.ip ((fs'.inode x.ip).wrote x.off n1 fun j => src (i + j))).setFile f
      { x with off := x.off + n1 } = fs.wrote f src (i + n1) := by
  have h1 := (fs.inode (fs.ftable f).ip).size_le_wrote (fs.ftable f).off i src
  have h2 := ((fs.inode (fs.ftable f).ip).wrote (fs.ftable f).off i src).size_le_wrote
    ((fs.ftable f).off + i) n1 fun j => src (i + j)
  rw [Inode.wrote_wrote] at h2
  have hb1 := nblocks_mono h1
  have hb2 := nblocks_mono h2
  simp only [wrote, grown, setFile, setInode, Function.update_self, Function.update_idem,
    Inode.wrote_wrote, Nat.add_assoc]
  congr 1
  omega

/-- What a chunk relies on, with `i` bytes written before it. -/
theorem Writable.chunk (h : fs.Writable f n) (src : Nat → UInt8) {i n1 : Nat} (hi : i + n1 ≤ n) :
    let fs' := fs.wrote f src i
    let x := fs'.ftable f
    (fs'.inode x.ip).type = .T_FILE ∧ x.off ≤ (fs'.inode x.ip).size ∧
      x.off + n1 ≤ MAXFILE * BSIZE ∧
      nblocks ((fs'.inode x.ip).wrote x.off n1 fun j => src (i + j)).size ≤
        nblocks (fs'.inode x.ip).size + fs'.freeBlocks := by
  obtain ⟨-, -, hfile, hgap, hfits, hblocks⟩ := h
  simp only [wrote, grown, setFile, setInode, Function.update_self, Inode.wrote_wrote]
  set y := fs.inode (fs.ftable f).ip
  set off := (fs.ftable f).off
  have hwhole : (y.wrote off (i + n1) src).size ≤ max y.size (off + n) := by
    simp only [Inode.wrote]
    split <;> omega
  refine ⟨hfile, ?_, by omega, ?_⟩
  · simp only [Inode.wrote]
    split <;> omega
  · have hb1 := nblocks_mono (y.size_le_wrote off i src)
    have hb2 := nblocks_mono hwhole
    omega

/-- The chunk loop, entered with `i` bytes written. -/
theorem filewriteLoop_wrote (h : fs.Writable f n) (src : Nat → UInt8) {fuel i : Nat} (hi : i ≤ n)
    (hfuel : n < fuel + i) :
    filewriteLoop f src n fuel i (fs.wrote f src i) = .ok (n, fs.wrote f src n) := by
  induction fuel generalizing i with
  | zero => omega
  | succ fuel ih =>
    unfold filewriteLoop
    by_cases hlt : i < n
    · rw [if_pos (by omega)]
      set n1 := min (n - i) MAXWRITE with hn1
      have hpos : 0 < n1 := by simp only [hn1, MAXWRITE]; omega
      have hgrown := fs.wrote_grown f src i n1
      set fs' := fs.wrote f src i with hfs'
      have hw : fs'.writei (fs'.ftable f).ip (fun j => src (i + j)) (fs'.ftable f).off n1 =
          .ok (n1, fs'.grown (fs'.ftable f).ip
            ((fs'.inode (fs'.ftable f).ip).wrote (fs'.ftable f).off n1 fun j => src (i + j))) := by
        obtain ⟨hfile, hgap, hfits, hblocks⟩ := h.chunk src (by omega : i + n1 ≤ n)
        exact writei_eq hfile hgap hfits hpos hblocks
      have hneg : ¬ (n1 : Int) < 0 := by omega
      simp only [bind, Except.bind, Int.toNat_natCast, ← hn1, hw, if_pos (Int.natCast_pos.mpr hpos),
        if_neg hneg, ne_eq, not_true, if_false]
      rw [show filewriteLoop f src n fuel (i + n1) _ = _ from congrArg _ hgrown]
      exact ih (by omega) (by omega)
    · obtain rfl : i = n := by omega
      simp

/-- `filewrite` writes the whole buffer, at the file's offset. -/
theorem filewrite_eq (h : fs.Writable f n) : fs.filewrite f src n = .ok (n, fs.wrote f src n) := by
  have hloop := filewriteLoop_wrote h src (Nat.zero_le n) (by omega : n < n + 1 + 0)
  rw [wrote_zero] at hloop
  simp only [filewrite, h.writable, h.isInode, Int.toNat_natCast, hloop, bind, Except.bind]
  simp [pure, Except.pure]

/-- `fileread` reads the whole buffer, from the file's offset. -/
theorem fileread_eq {n : Nat} (hr : (fs.ftable f).readable = true)
    (htype : (fs.ftable f).type = .FD_INODE) (hfile : (fs.inode (fs.ftable f).ip).type = .T_FILE)
    (hsize : (fs.ftable f).off + n ≤ (fs.inode (fs.ftable f).ip).size) (hn : 0 < n)
    (hsmall : (fs.ftable f).off + n < 2 ^ 32) :
    fs.fileread f n =
      .ok (n, fs.setFile f { fs.ftable f with off := (fs.ftable f).off + n }) := by
  have hlen : (fs.inode (fs.ftable f).ip).length = (fs.inode (fs.ftable f).ip).size := by
    simp [Inode.length, hfile]
  simp only [fileread, hr, htype, readi, hfile, hlen, reduceCtorEq, ne_eq, not_true, if_false]
  rw [if_neg (by omega), if_neg (by omega), if_pos (by omega), Int.toNat_natCast]

end Fs

end Paging
