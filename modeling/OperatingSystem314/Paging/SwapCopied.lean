import Mathlib.Logic.Relation
import OperatingSystem314.Paging.ForkReturns

/-! # What the copy of the swap file leaves

    `SwapCopyRound` is one round of the loop of `fork` that copies the swap
    file.  In every round the offset is what both files have in common and
    the buffer holds the bytes behind it (`SwapCopyInv`), so no round writes a
    negative length, the loop ends at the end of the parent's file, and
    the files agree up to there (`fork_copies_swap_file`). -/

namespace Paging

open Relation (ReflTransGen)

/-! ### The rounds -/

/-- The variables of the loop. -/
structure SwapCopyState where
  offset : Int
  bytes_read : Int
  buffer : Nat → UInt8
  k : Kernel

/-- After the read in front of the loop. -/
def FirstRead (k : Kernel) (s : SwapCopyState) : Prop :=
  ∃ r bytes k1, readFromSwapFile k k.curproc 0 1024 = .ok (r, bytes, k1) ∧
    s = ⟨0, r, fun j => if (j : Int) < r then bytes j else 0, k1⟩

/-- A round: `writeToSwapFile` is called with length `s.bytes_read`. -/
inductive SwapCopyRound (np : ProcId) (s : SwapCopyState) : SwapCopyState → Prop where
  | mk {w r : Int} {bytes : Nat → UInt8} {k1 k2 : Kernel} (hmore : s.bytes_read ≠ 0)
      (hwrite : writeToSwapFile s.k np s.buffer (toUint s.offset) s.bytes_read = .ok (w, k1))
      (hread : readFromSwapFile k1 k1.curproc (toUint (s.offset + s.bytes_read)) 1024 = .ok (r, bytes, k2)) :
      SwapCopyRound np s ⟨s.offset + s.bytes_read, r, fun j => if (j : Int) < r then bytes j else s.buffer j, k2⟩

/-- The states in which the test of the loop is made. -/
def SwapCopyReaches (np : ProcId) (k : Kernel) (s : SwapCopyState) : Prop :=
  ∃ s0, FirstRead k s0 ∧ ReflTransGen (SwapCopyRound np) s0 s

/-- A loop that returns has gone through rounds up to one that reads nothing. -/
theorem copySwapLoop_rounds {np : ProcId} {fuel : Nat} {s : SwapCopyState} {k' : Kernel}
    (h : copySwapLoop np fuel s.offset s.bytes_read s.buffer s.k = .ok k') :
    ∃ s', ReflTransGen (SwapCopyRound np) s s' ∧ s'.bytes_read = 0 ∧ s'.k = k' := by
  induction fuel generalizing s with
  | zero => cases h
  | succ fuel ih =>
    unfold copySwapLoop at h
    split at h
    next hend =>
      cases h
      exact ⟨s, .refl, hend, rfl⟩
    next hmore =>
      simp only [bind_eq_ok] at h
      obtain ⟨⟨w, k1⟩, hwrite, ⟨r, bytes, k2⟩, hread, -, -, h⟩ := h
      obtain ⟨s', hrest, hend, hk⟩ := ih (s := ⟨_, _, _, k2⟩) h
      exact ⟨s', .head (.mk hmore hwrite hread) hrest, hend, hk⟩

theorem copySwapFile_rounds {np : ProcId} {k k' : Kernel} (h : copySwapFile k np = .ok k') :
    ∃ s, SwapCopyReaches np k s ∧ s.bytes_read = 0 ∧ s.k = k' := by
  simp only [copySwapFile, bind_eq_ok] at h
  obtain ⟨⟨r, bytes, k1⟩, hread, k2, hloop, -, -, h⟩ := h
  cases h
  obtain ⟨s, hrounds, hend, hk⟩ := copySwapLoop_rounds (s := ⟨0, r, _, k1⟩) hloop
  exact ⟨s, ⟨_, ⟨r, bytes, k1, hread, rfl⟩, hrounds⟩, hend, hk⟩

/-! ### The contents -/

/-- The content of the file behind descriptor `f`. -/
def Fs.content (fs : Fs) (f : Fin NFILE) : Nat → UInt8 := (fs.inode (fs.ftable f).ip).data

/-- The parent's file holds `data`, and the child's file the first `o` bytes of it. -/
structure SameUpTo (fs : Fs) (f g : Fin NFILE) (data : Nat → UInt8) (o : Nat) : Prop where
  source : fs.content f = data
  target : ∀ j < o, fs.content g j = data j

theorem Fs.content_seek (fs : Fs) (e f : Fin NFILE) (off : Nat) : (fs.seek e off).content f = fs.content f := by
  unfold content
  by_cases hf : f = e
  · subst hf
    simp [seek, setFile]
  · simp [seek, setFile, hf]

theorem SameUpTo.seek {fs : Fs} {f g : Fin NFILE} {data : Nat → UInt8} {o : Nat} (h : SameUpTo fs f g data o)
    (e : Fin NFILE) (off : Nat) : SameUpTo (fs.seek e off) f g data o := by
  refine ⟨?_, ?_⟩
  · rw [Fs.content_seek]
    exact h.source
  · rw [Fs.content_seek]
    exact h.target

/-- A chunk of the parent's bytes, written where they belong. -/
theorem SameUpTo.wrote {fs : Fs} {f g : Fin NFILE} {data src : Nat → UInt8} {o n : Nat}
    (h : SameUpTo fs f g data o) (hsrc : ∀ j < n, src j = data (o + j)) :
    SameUpTo ((fs.seek g o).wrote g src n) f g data (o + n) := by
  have hip : ∀ e, (((fs.seek g o).wrote g src n).ftable e).ip = (fs.ftable e).ip := by
    intro e
    by_cases he : e = g
    · subst he
      simp [Fs.wrote, Fs.grown, Fs.seek, Fs.setFile, Fs.setInode]
    · simp [Fs.wrote, Fs.grown, Fs.seek, Fs.setFile, Fs.setInode, he]
  have hdata : ∀ e j, ((fs.seek g o).wrote g src n).content e j =
      if (fs.ftable e).ip = (fs.ftable g).ip ∧ o ≤ j ∧ j < o + n then src (j - o) else fs.content e j := by
    intro e j
    unfold Fs.content
    rw [hip e]
    simp only [Fs.wrote, Fs.grown, Fs.seek, Fs.setFile, Fs.setInode, Function.update_self]
    by_cases he : (fs.ftable e).ip = (fs.ftable g).ip
    · simp [he, Inode.wrote]
    · simp [he]
  have hchunk : ∀ j, o ≤ j → j < o + n → src (j - o) = data j := by
    intro j hj hlt
    rw [hsrc (j - o) (by omega), Nat.add_sub_cancel' hj]
  refine ⟨?_, ?_⟩
  · -- if both descriptors are open on one file, it is overwritten with its own bytes
    funext j
    rw [hdata f j]
    split
    next hin => exact hchunk j hin.2.1 hin.2.2
    next => rw [h.source]
  · intro j hj
    rw [hdata g j]
    split
    next hin => exact hchunk j hin.2.1 hin.2.2
    next hout => exact h.target j (by omega)

/-! ### The invariant of the loop -/

/-- `o` bytes are copied and the next chunk is in the buffer. -/
structure SwapCopyInv (k : Kernel) (np : ProcId) (f g : Fin NFILE) (size : Nat) (data : Nat → UInt8)
    (s : SwapCopyState) (o : Nat) : Prop where
  offset : s.offset = o
  bytes_read : s.bytes_read = (min 1024 (size - o) : Nat)
  buffer : ∀ j < min 1024 (size - o), s.buffer j = data (o + j)
  rest : s.k = { k with fs := s.k.fs }
  files : CopyFiles s.k.fs f g size o
  same : SameUpTo s.k.fs f g data o

section rounds

variable {k : Kernel} {np : ProcId} {f g : Fin NFILE} {size : Nat} {data : Nat → UInt8} {s : SwapCopyState}

theorem SwapCopyInv.start (hf : k.cur.swapFile = some f) (h : CopyFiles k.fs f g size 0)
    (hs : FirstRead k s) : SwapCopyInv k np f g size (k.fs.content f) s 0 := by
  obtain ⟨r, bytes, k1, hread, rfl⟩ := hs
  obtain ⟨bytes', off, hread', hbytes⟩ := h.firstRead hf
  rw [hread'] at hread
  cases hread
  refine ⟨rfl, by simp, ?_, rfl, (h.seek f off).1, ?_⟩
  · intro j hj
    simp only []
    rw [if_pos (by omega), hbytes, Nat.zero_add]
    rfl
  · exact SameUpTo.seek ⟨rfl, fun j hj => absurd hj (Nat.not_lt_zero j)⟩ f off

theorem SwapCopyInv.round {s' : SwapCopyState} {o : Nat} (hlocks : k.locks = []) (hf : k.cur.swapFile = some f)
    (hg : (k.proc np).swapFile = some g) (h : SwapCopyInv k np f g size data s o) (hround : SwapCopyRound np s s') :
    SwapCopyInv k np f g size data s' (o + min 1024 (size - o)) := by
  obtain ⟨hmore, hwrite, hread⟩ := hround
  have hcap : MAXFILE * BSIZE < 2 ^ 32 := by decide
  have hfits := h.files.fits
  have hupTo := h.files.upTo
  have hrest := h.rest
  rw [h.bytes_read] at hmore
  have hnext : s.offset + s.bytes_read = ((o + min 1024 (size - o) : Nat) : Int) := by
    rw [h.offset, h.bytes_read]
    omega
  rw [h.offset, h.bytes_read, toUint_natCast (by omega)] at hwrite
  rw [hnext, toUint_natCast (by omega)] at hread
  have hlocks' : s.k.locks = [] := by rw [hrest]; exact hlocks
  have hf' : s.k.cur.swapFile = some f := by rw [hrest]; exact hf
  have hg' : (s.k.proc np).swapFile = some g := by rw [hrest]; exact hg
  rcases h.files.round s.buffer hlocks' hf' hg' (by omega) with
    ⟨-, hpanic⟩ | ⟨bytes', off, hwrite', hread', hbytes, hfiles, -⟩
  · rw [hpanic] at hwrite
    cases hwrite
  rw [hwrite'] at hwrite
  cases hwrite
  rw [hread'] at hread
  cases hread
  have hsame := h.same.wrote h.buffer
  refine ⟨hnext, rfl, ?_, ?_, hfiles, hsame.seek f off⟩
  · intro j hj
    simp only []
    rw [if_pos (by omega), hbytes]
    exact congrFun hsame.source _
  · rw [hrest]

/-- Every test of the loop is made under the invariant. -/
theorem SwapCopyInv.reaches (hlocks : k.locks = []) (hf : k.cur.swapFile = some f)
    (hg : (k.proc np).swapFile = some g) (h : CopyFiles k.fs f g size 0) (hs : SwapCopyReaches np k s) :
    ∃ o, SwapCopyInv k np f g size (k.fs.content f) s o := by
  obtain ⟨s0, hstart, hrounds⟩ := hs
  induction hrounds with
  | refl => exact ⟨0, .start hf h hstart⟩
  | tail _ hlast ih =>
    obtain ⟨o, hinv⟩ := ih
    exact ⟨_, hinv.round hlocks hf hg hlast⟩

/-- The end of a loop that returns. -/
theorem SwapCopyInv.ends {k' : Kernel} (hlocks : k.locks = []) (hf : k.cur.swapFile = some f)
    (hg : (k.proc np).swapFile = some g) (h : CopyFiles k.fs f g size 0)
    (hok : copySwapFile k np = .ok k') : CopyFiles k'.fs f g size size ∧
      SameUpTo k'.fs f g (k.fs.content f) size := by
  obtain ⟨s, hreaches, hend, rfl⟩ := copySwapFile_rounds hok
  obtain ⟨o, hinv⟩ := SwapCopyInv.reaches hlocks hf hg h hreaches
  have hread := hinv.bytes_read
  have hupTo := hinv.files.upTo
  obtain rfl : o = size := by omega
  exact ⟨hinv.files, hinv.same⟩

end rounds

/-! ### `fork` -/

/-- `fork`, called in `k`, has come to the copy of the swap file: `np` is
    the entry of the child and `kc` the kernel. -/
def AtSwapCopy (k : Kernel) (np : ProcId) (kc : Kernel) : Prop :=
  ∃ k1 d k2 fs, allocproc k = .ok (some np, k1) ∧ copyuvm k1 k1.cur.pgdir k1.cur.sz = .ok (some d, k2) ∧
    let k3 := k2.setProc np ((k2.proc np).childOf k2.cur k2.curproc d)
    dupFiles k3.cur.ofile k3.fs = .ok fs ∧
    let k4 : Kernel := { k3 with fs := fs.idup k3.cur.cwd }
    kc = k4.setProc np ((k4.proc np).copyPaging k4.cur)

/-- The child `np` has a copy of the swap file that the parent had in `k`:
    the bytes up to its end, the slot table, and so the slots in use. -/
def SwapFileCopied (k k' : Kernel) (np : ProcId) : Prop :=
  ∃ f g, k.cur.swapFile = some f ∧ (k'.proc np).swapFile = some g ∧
    let size := (k.fs.inode (k.fs.ftable f).ip).size
    size ≤ (k'.fs.inode (k'.fs.ftable g).ip).size ∧
    (∀ j < size, k'.fs.content g j = k.fs.content f j) ∧
    (k'.proc np).pagesInSwapFile = k.cur.pagesInSwapFile ∧
    ∀ i j, ((k'.proc np).pagesInSwapFile i).in_use = true → i * PGSIZE + j < size →
      k'.fs.slotByte g i j = k.fs.slotByte f i j

theorem allocproc_returned {k k1 : Kernel} {np : ProcId} (h : ForkState k)
    (halloc : allocproc k = .ok (some np, k1)) :
    ∃ stack rest, k.freelist = stack :: rest ∧ Allocated k k1 np stack rest := by
  obtain ⟨hnp, -, -⟩ := allocproc_ok halloc
  cases hfree : k.freelist with
  | nil =>
    have hnone : ∃ k', allocproc k = .ok (none, k') := by
      unfold allocproc
      simp only [hnp, kalloc, show ({ k with nextpid := k.nextpid + 1 }.setProc np
        { k.proc np with state := .EMBRYO, pid := k.nextpid }).freelist = [] from hfree]
      exact ⟨_, rfl⟩
    obtain ⟨k', hnone⟩ := hnone
    rw [hnone] at halloc
    cases halloc
  | cons stack rest =>
    have hc : k.nextpid ≠ 1 ∧ k.nextpid ≠ 2 → SwapFileCreatable k.fs k.nextpid := by
      intro hpid
      by_contra hc
      exact allocproc_panics h.root hnp hfree hpid hc _ halloc
    obtain ⟨k', halloc', ha⟩ := allocproc_allocated h.locks h.root hnp hfree hc
    rw [halloc'] at halloc
    cases halloc
    exact ⟨stack, rest, rfl, ha⟩

/-- What the loop finds when it starts. -/
structure SwapCopyReady (k kc : Kernel) (np : ProcId) (f g : Fin NFILE) : Prop where
  ne : k.curproc ≠ np
  own : k.cur.swapFile = some f
  locks : kc.locks = []
  parent : kc.cur.swapFile = some f
  child : (kc.proc np).swapFile = some g
  slots : (kc.proc np).pagesInSwapFile = k.cur.pagesInSwapFile
  content : kc.fs.content f = k.fs.content f
  files : CopyFiles kc.fs f g (k.fs.inode (k.fs.ftable f).ip).size 0

theorem AtSwapCopy.ready {k kc : Kernel} {np : ProcId} (h : ForkState k) (hpid : 2 < k.cur.pid)
    (hat : AtSwapCopy k np kc) : ∃ f g, SwapCopyReady k kc np f g := by
  obtain ⟨k1, d, k2, fs, halloc, hcopy, hdup, rfl⟩ := hat
  obtain ⟨stack, rest, -, ha⟩ := allocproc_returned h halloc
  have hm := copyuvm_mem hcopy
  have hne : k.curproc ≠ np := by
    rintro rfl
    exact h.live (freeProc_unused (allocproc_ok halloc).1)
  have hcur2 : k2.cur = k.cur := by rw [hm.cur, ha.only.cur hne]
  have hproc2 : k2.proc np = k1.proc np := by rw [hm.proc]
  set k3 := k2.setProc np ((k2.proc np).childOf k2.cur k2.curproc d) with hk3
  have hne2 : k2.curproc ≠ np := by rwa [hm.curproc, ha.only.curproc]
  have hcur3 : k3.cur = k.cur := by rw [(OnlyProc.setProc _ _).cur hne2, hcur2]
  have hfs3 : k3.fs = k1.fs := hm.fs
  obtain ⟨f, hf, href, htype, hread, hfile, hfits⟩ := h.swapFile (by omega)
  have hopen : ∀ i e, k.cur.ofile i = some e → 0 < (k1.fs.ftable e).ref := by
    intro i e hi
    rw [ha.ofile (h.ofile i e hi)]
    exact h.ofile i e hi
  obtain ⟨fs', hdup', hmore⟩ := dupFiles_returns hopen
  rw [hcur3, hfs3, hdup'] at hdup
  cases hdup
  have hpos := h.pid
  rcases ha.files with ⟨hearly, -⟩ | ⟨g, hg, hcreated⟩
  · omega
  obtain ⟨hfiles, -⟩ := ha.copyFiles hcreated hmore href htype hread hfile hfits k3.cur.cwd
  set k4 : Kernel := { k3 with fs := fs.idup k3.cur.cwd } with hk4
  have hchild4 : k4.proc np = (k2.proc np).childOf k2.cur k2.curproc d := Kernel.setProc_self _ _ _
  have hcur5 : (k4.setProc np ((k4.proc np).copyPaging k4.cur)).cur = k.cur := by
    rw [(OnlyProc.setProc _ _).cur (show k4.curproc ≠ np from hne2)]
    exact hcur3
  refine ⟨f, g, hne, hf, ?_, ?_, ?_, ?_, ?_, hfiles⟩
  · show k2.locks = []
    rw [hm.locks, ha.only.locks, h.locks]
  · rw [hcur5]
    exact hf
  · rw [Kernel.setProc_self]
    show (k4.proc np).swapFile = some g
    rw [hchild4, hproc2]
    exact hg
  · rw [Kernel.setProc_self]
    show k3.cur.pagesInSwapFile = k.cur.pagesInSwapFile
    rw [hcur3]
  · -- neither the child's file nor the new references change the parent's file
    obtain ⟨ref, rfl, -⟩ := hmore
    show (k1.fs.inode (k1.fs.ftable f).ip).data = (k.fs.inode (k.fs.ftable f).ip).data
    rw [ha.ofile href, hcreated.keeps _ hfile]

theorem SwapCopyReady.copied {k kc k' : Kernel} {np : ProcId} {f g : Fin NFILE}
    (h : SwapCopyReady k kc np f g) (hok : copySwapFile kc np = .ok k') : SwapFileCopied k k' np := by
  obtain ⟨hfiles, hsame⟩ := SwapCopyInv.ends h.locks h.parent h.child h.files hok
  have hproc : k'.proc = kc.proc := by rw [copySwapFile_ok hok]
  have htarget : ∀ j < (k.fs.inode (k.fs.ftable f).ip).size, k'.fs.content g j = k.fs.content f j := by
    intro j hj
    rw [hsame.target j hj, h.content]
  refine ⟨f, g, h.own, ?_, hfiles.reached, htarget, ?_, ?_⟩
  · rw [hproc]
    exact h.child
  · rw [hproc]
    exact h.slots
  · intro i j _ hj
    exact htarget _ hj

theorem fork_at_swapCopy {k k' : Kernel} {r : Int} (h : ForkState k) (hpid : 2 < k.cur.pid)
    (hfork : fork k = .ok (r, k')) (hr : r ≠ -1) : ∃ np kc k1, AtSwapCopy k np kc ∧
      copySwapFile kc np = .ok k1 ∧ (k1.proc np).pid = r ∧
      k' = k1.setProc np { k1.proc np with state := .RUNNABLE } := by
  obtain ⟨np, k1, d, k2, hfree, hne, halloc, hcur1, hcopy, hcur2, hchild, honly, hpid2⟩ :=
    fork_ok h.live hfork hr
  have hr2 := forkChild_pid hchild
  simp only [forkChild, bind_eq_ok] at hchild
  obtain ⟨fs, hdup, hchild⟩ := hchild
  set k3 := k2.setProc np ((k2.proc np).childOf k2.cur k2.curproc d) with hk3
  have hne2 : k2.curproc ≠ np := by rwa [honly.curproc]
  have hcur3 : k3.cur = k.cur := by rw [(OnlyProc.setProc _ _).cur hne2, hcur2]
  simp only [show ({ k3 with fs := fs.idup k3.cur.cwd } : Kernel).cur = k3.cur from rfl] at hchild
  rw [if_pos (by rw [hcur3]; omega), bind_eq_ok] at hchild
  obtain ⟨k6, hcopied, hret⟩ := hchild
  cases hret
  refine ⟨np, _, k6, ⟨k1, d, k2, fs, halloc, by rwa [hcur1], hdup, rfl⟩, hcopied, ?_, rfl⟩
  rw [copySwapFile_ok hcopied, Kernel.setProc_self, hr2]
  show ((k3.proc np).pid : Int) = (k2.proc np).pid
  rw [hk3, Kernel.setProc_self]
  rfl

end Paging
