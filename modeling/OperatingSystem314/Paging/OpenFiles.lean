import OperatingSystem314.Paging.SwapFile
import OperatingSystem314.Paging.SwapCreate

/-! # Files that stay open

    A routine of the file system takes references to inodes and gives them
    back.  `FsStep held fs held' fs'` says that the references of the
    routine went from `held` to `held'` while the file system went from
    `fs` to `fs'`, and that it left the references of others alone: a file
    that somebody else refers to is not truncated, it may grow.

    * `FsStep.trans`: one routine after the other.
    * `FsStep.namei`, `FsStep.create`, `FsStep.filewrite`: the routines.
    * `OpenSwap`: the descriptor of a swap file, which stays open. -/

namespace Paging

/-- No regular file is longer than its inode can address. -/
def SizesOk (fs : Fs) : Prop := ∀ n, (fs.inode n).type = .T_FILE → (fs.inode n).size ≤ MAXFILE * BSIZE

structure FsStep (held : List Nat) (fs : Fs) (held' : List Nat) (fs' : Fs) : Prop where
  refs : ∀ n, fs.iref n + held'.count n ≤ fs'.iref n + held.count n
  grows : ∀ n, held.count n < fs.iref n → (fs.inode n).type = .T_FILE →
    (fs'.inode n).type = .T_FILE ∧ (fs.inode n).size ≤ (fs'.inode n).size
  opened : ∀ f, 0 < (fs.ftable f).ref →
    ∃ r o, (fs.ftable f).ref ≤ r ∧ fs'.ftable f = { fs.ftable f with ref := r, off := o }
  sizes : SizesOk fs → SizesOk fs'

namespace FsStep

variable {held held' held'' : List Nat} {fs fs' fs'' : Fs} {n : Nat}

theorem refl (held : List Nat) (fs : Fs) : FsStep held fs held fs :=
  ⟨fun _ => Nat.le_refl _, fun _ _ hfile => ⟨hfile, Nat.le_refl _⟩,
    fun f _ => ⟨(fs.ftable f).ref, (fs.ftable f).off, Nat.le_refl _, rfl⟩, id⟩

theorem trans (h : FsStep held fs held' fs') (h' : FsStep held' fs' held'' fs'') : FsStep held fs held'' fs'' := by
  refine ⟨fun m => ?_, fun m hm hfile => ?_, fun f hf => ?_, fun hs => h'.sizes (h.sizes hs)⟩
  · have h1 := h.refs m
    have h2 := h'.refs m
    omega
  · have h1 := h.refs m
    obtain ⟨hfile', hle⟩ := h.grows m hm hfile
    obtain ⟨hfile'', hle'⟩ := h'.grows m (by omega) hfile'
    exact ⟨hfile'', Nat.le_trans hle hle'⟩
  · obtain ⟨r, o, hr, heq⟩ := h.opened f hf
    have hf' : 0 < (fs'.ftable f).ref := by
      rw [heq]
      exact Nat.lt_of_lt_of_le hf hr
    obtain ⟨r', o', hr', heq'⟩ := h'.opened f hf'
    rw [heq] at hr' heq'
    exact ⟨r', o', Nat.le_trans hr hr', heq'⟩

/-- Nothing but references changes. -/
theorem of_refs (hinode : fs'.inode = fs.inode) (hftable : fs'.ftable = fs.ftable)
    (hrefs : ∀ m, fs.iref m + held'.count m ≤ fs'.iref m + held.count m) : FsStep held fs held' fs' := by
  refine ⟨hrefs, fun m _ hfile => ?_, fun f _ => ⟨(fs.ftable f).ref, (fs.ftable f).off, Nat.le_refl _, ?_⟩,
    fun hs m hfile => ?_⟩
  · rw [hinode]
    exact ⟨hfile, Nat.le_refl _⟩
  · rw [hftable]
  · rw [hinode] at hfile ⊢
    exact hs m hfile

/-- The order of the references does not matter. -/
theorem swap (a b : Nat) (held : List Nat) (fs : Fs) : FsStep (a :: b :: held) fs (b :: a :: held) fs := by
  apply of_refs rfl rfl
  intro m
  rw [(List.Perm.swap a b held).count_eq]

/-- A reference that is never given back. -/
theorem leave (n : Nat) (held : List Nat) (fs : Fs) : FsStep (n :: held) fs held fs := by
  apply of_refs rfl rfl
  intro m
  have := List.count_le_count_cons (a := m) (b := n) (l := held)
  omega

/-! ### Inodes -/

theorem iget (hok : fs.iget n = .ok fs') : FsStep held fs (n :: held) fs' := by
  have href : ∀ m, fs'.iref m = if m = n then fs.iref n + 1 else fs.iref m := by
    intro m
    unfold Fs.iget at hok
    split at hok
    · cases hok
      by_cases hm : m = n
      · simp [Fs.setRef, hm]
      · simp [Fs.setRef, hm]
    next hzero =>
      split at hok
      · cases hok
      · cases hok
        have h0 : fs.iref n = 0 := by omega
        by_cases hm : m = n
        · simp [Fs.setRef, Fs.setValid, hm, h0]
        · simp [Fs.setRef, Fs.setValid, hm]
  obtain ⟨-, -, -, iref, ivalid, heq⟩ := Fs.iget_ok hok
  apply of_refs
  · rw [heq]
  · rw [heq]
  · intro m
    rw [href, List.count_cons]
    by_cases hm : m = n
    · subst hm
      simp
      omega
    · have hne : n ≠ m := fun h => hm h.symm
      simp [hm, hne]

theorem idup : FsStep held fs (n :: held) (fs.idup n) := by
  refine of_refs rfl rfl ?_
  intro m
  rw [List.count_cons]
  unfold Fs.idup Fs.setRef
  by_cases hm : m = n
  · subst hm
    simp
    omega
  · have hne : n ≠ m := fun h => hm h.symm
    simp [hm, hne]

theorem ilock (hok : fs.ilock n = .ok fs') : FsStep held fs held fs' := by
  obtain ⟨-, ivalid, rfl⟩ := Fs.ilock_ok hok
  exact of_refs rfl rfl fun _ => Nat.le_refl _

/-- The inode is freed only if nobody else refers to it. -/
theorem iput : FsStep (n :: held) fs held (fs.iput n) := by
  have hrest : ∀ fs1 : Fs, fs1.iref = fs.iref → (∀ m, m ≠ n → fs1.inode m = fs.inode m) →
      (fs1.inode n = fs.inode n ∨ (fs.iref n = 1 ∧ (fs1.inode n).type = .free)) → fs1.ftable = fs.ftable →
      FsStep (n :: held) fs held (fs1.setRef n (fs1.iref n - 1)) := by
    intro fs1 href hothers hself hftable
    refine ⟨fun m => ?_, fun m hm hfile => ?_, fun f _ => ⟨(fs.ftable f).ref, (fs.ftable f).off, Nat.le_refl _, ?_⟩,
      fun hs m hfile => ?_⟩
    · rw [List.count_cons, href]
      unfold Fs.setRef
      by_cases hmn : m = n
      · subst hmn
        simp
        omega
      · have hne : n ≠ m := fun h => hmn h.symm
        simp [hmn, hne, href]
    · show (fs1.inode m).type = .T_FILE ∧ (fs.inode m).size ≤ (fs1.inode m).size
      by_cases hmn : m = n
      · subst hmn
        rw [List.count_cons_self] at hm
        rcases hself with hsame | ⟨hone, -⟩
        · rw [hsame]
          exact ⟨hfile, Nat.le_refl _⟩
        · omega
      · rw [hothers m hmn]
        exact ⟨hfile, Nat.le_refl _⟩
    · show fs1.ftable f = _
      rw [hftable]
    · replace hfile : (fs1.inode m).type = .T_FILE := hfile
      show (fs1.inode m).size ≤ _
      by_cases hmn : m = n
      · subst hmn
        rcases hself with hsame | ⟨-, hfree⟩
        · rw [hsame] at hfile ⊢
          exact hs m hfile
        · rw [hfree] at hfile
          cases hfile
      · rw [hothers m hmn] at hfile ⊢
        exact hs m hfile
  unfold Fs.iput
  by_cases hlast : fs.ivalid n ∧ (fs.inode n).nlink = 0 ∧ fs.iref n = 1
  · simp only [if_pos hlast]
    refine hrest (fs.ifree n) rfl (fun m hm => ?_) (.inr ⟨hlast.2.2, ?_⟩) rfl
    · simp [Fs.ifree, Fs.setInode, Fs.setValid, hm]
    · simp [Fs.ifree, Fs.setInode, Fs.setValid]
  · simp only [if_neg hlast]
    exact hrest fs rfl (fun _ _ => rfl) (.inl rfl) rfl

theorem iunlock {r : Option Nat} (hok : fs.iunlock r = .ok fs') : FsStep held fs held fs' := by
  rw [Fs.iunlock_ok hok]
  exact refl held fs

theorem iunlockput (hok : fs.iunlockput n = .ok fs') : FsStep (n :: held) fs held fs' := by
  simp only [Fs.iunlockput, bind_eq_ok] at hok
  obtain ⟨fs1, hunlock, hok⟩ := hok
  cases hok
  rw [Fs.iunlock_ok hunlock]
  exact iput

/-- An inode is written that stays what it is. -/
theorem setInode {x : Inode} (htype : x.type = (fs.inode n).type) (hle : (fs.inode n).size ≤ x.size)
    (hfits : x.type = .T_FILE → (fs.inode n).size ≤ MAXFILE * BSIZE → x.size ≤ MAXFILE * BSIZE) :
    FsStep held fs held (fs.setInode n x) := by
  have hinode : ∀ m, (fs.setInode n x).inode m = if m = n then x else fs.inode m := by
    intro m
    by_cases hm : m = n
    · simp [Fs.setInode, hm]
    · simp [Fs.setInode, hm]
  refine ⟨fun _ => Nat.le_refl _, fun m _ hfile => ?_, 
    fun f _ => ⟨(fs.ftable f).ref, (fs.ftable f).off, Nat.le_refl _, rfl⟩, fun hs m hfile => ?_⟩
  · rw [hinode]
    split
    next hm =>
      subst hm
      exact ⟨htype.trans hfile, hle⟩
    · exact ⟨hfile, Nat.le_refl _⟩
  · rw [hinode] at hfile ⊢
    split at hfile
    next hm =>
      subst hm
      rw [if_pos rfl]
      exact hfits hfile (hs m (htype ▸ hfile))
    next hm =>
      rw [if_neg hm]
      exact hs m hfile

theorem balloc {old new : Nat} (hok : fs.balloc old new = .ok fs') : FsStep held fs held fs' := by
  unfold Fs.balloc at hok
  split at hok
  · cases hok
  · cases hok
    exact of_refs rfl rfl fun _ => Nat.le_refl _

/-- A free inode was nobody's file. -/
theorem ialloc {type : InodeType} (hok : fs.ialloc type = .ok (n, fs')) : FsStep held fs (n :: held) fs' := by
  unfold Fs.ialloc at hok
  split at hok
  · cases hok
  next m hfind =>
    rw [bind_eq_ok] at hok
    obtain ⟨fs1, hget, hok⟩ := hok
    cases hok
    have hfree : (fs.inode n).type = .free := by
      have := List.find?_some hfind
      simp only [decide_eq_true_eq] at this
      exact this.2
    refine FsStep.trans ?_ (iget hget)
    have hinode : ∀ m, m ≠ n → (fs.setInode n
        { type, major := 0, nlink := 0, size := 0, data := fun _ => 0, dents := [] }).inode m = fs.inode m := by
      intro m hm
      simp [Fs.setInode, hm]
    refine ⟨fun _ => Nat.le_refl _, fun m _ hfile => ?_, 
    fun f _ => ⟨(fs.ftable f).ref, (fs.ftable f).off, Nat.le_refl _, rfl⟩, fun hs m hfile => ?_⟩
    · rw [hinode m]
      · exact ⟨hfile, Nat.le_refl _⟩
      · rintro rfl
        rw [hfree] at hfile
        cases hfile
    · by_cases hm : m = n
      · subst hm
        simp [Fs.setInode]
      · rw [hinode m hm] at hfile ⊢
        exact hs m hfile

/-- The inode was free and is what was asked for. -/
theorem ialloc_ok {type : InodeType} (hok : fs.ialloc type = .ok (n, fs')) :
    (fs.inode n).type = .free ∧ 0 < fs'.iref n ∧ (fs'.inode n).type = type := by
  unfold Fs.ialloc at hok
  split at hok
  · cases hok
  next m hfind =>
    rw [bind_eq_ok] at hok
    obtain ⟨fs1, hget, hok⟩ := hok
    cases hok
    have hfree := List.find?_some hfind
    simp only [decide_eq_true_eq] at hfree
    obtain ⟨href, -, -, iref, ivalid, heq⟩ := Fs.iget_ok hget
    refine ⟨hfree.2, href, ?_⟩
    rw [heq]
    simp [Fs.setInode]

/-! ### Directories and paths -/

theorem dirlookup (held : List Nat) {dp : Nat} {name : List Char} {r : Option (Nat × Nat)} (hok : fs.dirlookup dp name = .ok (r, fs')) :
    (r = none ∧ fs' = fs) ∨ ∃ ip i, r = some (ip, i) ∧ FsStep held fs (ip :: held) fs' := by
  unfold Fs.dirlookup at hok
  split at hok
  · cases hok
  · split at hok
    · cases hok
      exact .inl ⟨rfl, rfl⟩
    · rw [bind_eq_ok] at hok
      obtain ⟨fs1, hget, hok⟩ := hok
      cases hok
      exact .inr ⟨_, _, rfl, iget hget⟩

theorem writeEntry {dp i : Nat} {de : Dirent} (hok : fs.writeEntry dp i de = .ok fs') : FsStep held fs held fs' := by
  unfold Fs.writeEntry at hok
  simp only [] at hok
  split at hok
  · cases hok
    exact setInode rfl (Nat.le_refl _) fun _ => id
  · split at hok
    · cases hok
    · rw [bind_eq_ok] at hok
      obtain ⟨fs1, halloc, hok⟩ := hok
      cases hok
      have hinode : fs1.inode = fs.inode := by
        unfold Fs.balloc at halloc
        split at halloc
        · cases halloc
        · cases halloc
          rfl
      refine (balloc halloc).trans ?_
      rw [← hinode]
      exact setInode rfl (Nat.le_refl _) fun _ => id

theorem dirlink {dp inum : Nat} {name : List Char} {r : Int} (hok : fs.dirlink dp name inum = .ok (r, fs')) :
    FsStep held fs held fs' := by
  simp only [Fs.dirlink, bind_eq_ok] at hok
  obtain ⟨⟨found, fs1⟩, hlook, hok⟩ := hok
  rcases dirlookup held hlook with ⟨rfl, rfl⟩ | ⟨ip, i, rfl, hstep⟩
  · simp only [bind_eq_ok] at hok
    obtain ⟨fs2, hentry, hok⟩ := hok
    cases hok
    exact writeEntry hentry
  · obtain ⟨-, rfl⟩ := Prod.mk.inj (Except.ok.inj hok)
    exact hstep.trans iput

/-- The loop of `namex` gives back every inode but the last one. -/
theorem namexLoop {parent : Bool} {fuel ip : Nat} {path name : List Char} {r : Option (Nat × List Char)}
    (hok : Fs.namexLoop parent fuel ip path name fs = .ok (r, fs')) :
    FsStep (ip :: held) fs (r.elim held fun q => q.1 :: held) fs' := by
  induction fuel generalizing ip path name fs with
  | zero => cases hok
  | succ fuel ih =>
    unfold Fs.namexLoop at hok
    split at hok
    · split at hok
      · cases hok
        exact iput
      · cases hok
        exact refl _ _
    next name' rest _ =>
      rw [bind_eq_ok] at hok
      obtain ⟨fs1, hlock, hok⟩ := hok
      have h1 : FsStep (ip :: held) fs (ip :: held) fs1 := ilock hlock
      split at hok
      · rw [bind_eq_ok] at hok
        obtain ⟨fs2, hput, hok⟩ := hok
        cases hok
        exact h1.trans (iunlockput hput)
      split at hok
      · rw [bind_eq_ok] at hok
        obtain ⟨fs2, hunlock, hok⟩ := hok
        cases hok
        exact h1.trans (iunlock hunlock)
      · rw [bind_eq_ok] at hok
        obtain ⟨⟨found, fs2⟩, hlook, hok⟩ := hok
        rw [bind_eq_ok] at hok
        obtain ⟨fs3, hput, hok⟩ := hok
        rcases dirlookup (ip :: held) hlook with ⟨rfl, rfl⟩ | ⟨next, i, rfl, h2⟩
        · cases hok
          exact h1.trans (iunlockput hput)
        · exact ((h1.trans h2).trans (swap next ip held fs2)).trans ((iunlockput hput).trans (ih hok))

theorem namex (held : List Nat) {cwd : Nat} {path : List Char} {parent : Bool} {r : Option (Nat × List Char)}
    (hok : fs.namex cwd path parent = .ok (r, fs')) : FsStep held fs (r.elim held fun q => q.1 :: held) fs' := by
  unfold Fs.namex at hok
  by_cases hroot : path.head? = some '/'
  · simp only [if_pos hroot, bind_eq_ok] at hok
    obtain ⟨fs1, hget, hok⟩ := hok
    exact (iget hget).trans (namexLoop hok)
  · simp only [if_neg hroot] at hok
    exact idup.trans (namexLoop hok)

theorem namei {cwd : Nat} {path : List Char} {r : Option Nat} (hok : fs.namei cwd path = .ok (r, fs')) :
    FsStep held fs (r.elim held fun n => n :: held) fs' := by
  simp only [Fs.namei, bind_eq_ok] at hok
  obtain ⟨⟨q, fs1⟩, hnamex, hok⟩ := hok
  cases hok
  have h := namex held hnamex
  cases q with
  | none => exact h
  | some q => exact h

/-- `create` of a regular file returns one, and a reference to it. -/
theorem create (held : List Nat) {cwd major : Nat} {path : List Char} {r : Option Nat}
    (hok : fs.create cwd path .T_FILE major = .ok (r, fs')) :
    FsStep held fs (r.elim held fun ip => ip :: held) fs' ∧
      ∀ ip, r = some ip → (fs'.inode ip).type = .T_FILE := by
  simp only [Fs.create, Fs.nameiparent, bind_eq_ok] at hok
  obtain ⟨⟨q, fs1⟩, hnamex, hok⟩ := hok
  have h1 := namex held hnamex
  cases q with
  | none =>
    cases hok
    exact ⟨h1, nofun⟩
  | some q =>
    obtain ⟨dp, name⟩ := q
    simp only [bind_eq_ok] at hok
    obtain ⟨fs2, hlock, ⟨found, fs3⟩, hlook, hok⟩ := hok
    have h2 : FsStep held fs (dp :: held) fs2 := h1.trans (ilock hlock)
    rcases dirlookup (dp :: held) hlook with ⟨rfl, rfl⟩ | ⟨ip, i, rfl, h3⟩
    · dsimp only at hok
      rw [bind_eq_ok] at hok
      obtain ⟨⟨ip, fs4⟩, halloc, hok⟩ := hok
      rw [bind_eq_ok] at hok
      obtain ⟨fs5, hlock5, hok⟩ := hok
      rw [if_neg nofun, pure_eq_ok, ok_bind, bind_eq_ok] at hok
      obtain ⟨⟨r1, fs6⟩, hlink, hok⟩ := hok
      have hdir : (fs3.inode dp).type = .T_DIR := by
        unfold Fs.dirlookup at hlook
        by_contra hne
        rw [if_pos hne] at hlook
        cases hlook
      obtain ⟨hfree, href, hnew⟩ := ialloc_ok halloc
      have hne : dp ≠ ip := by
        intro heq
        rw [heq, hfree] at hdir
        cases hdir
      obtain ⟨-, ivalid, rfl⟩ := Fs.ilock_ok hlock5
      -- the new inode gets its link count
      have h6 : ∀ held, FsStep held fs4 held (({ fs4 with ivalid } : Fs).setInode ip
          { ({ fs4 with ivalid } : Fs).inode ip with major, nlink := 1 }) := by
        intro held
        exact (ilock hlock5).trans (setInode rfl (Nat.le_refl _) fun _ => id)
      simp only [] at hok
      split at hok
      · cases hok
      rw [bind_eq_ok] at hok
      obtain ⟨fs8, hput, hok⟩ := hok
      cases hok
      have h8 : ∀ held, FsStep (dp :: held) fs4 held fs' := by
        intro held
        exact ((h6 _).trans (dirlink hlink)).trans (iunlockput hput)
      refine ⟨?_, ?_⟩
      · have halloc4 : FsStep (dp :: held) fs3 (ip :: dp :: held) fs4 := ialloc halloc
        exact ((h2.trans halloc4).trans (swap ip dp held fs4)).trans (h8 (ip :: held))
      · -- its reference is somebody else's for what follows
        intro ip' hip
        obtain rfl := Option.some.inj hip
        refine ((h8 []).grows ip ?_ hnew).1
        rw [List.count_singleton]
        simp only [beq_iff_eq, if_neg hne]
        exact href
    · simp only [bind_eq_ok] at hok
      obtain ⟨fs4, hput, fs5, hlock5, hok⟩ := hok
      have h5 : FsStep held fs (ip :: held) fs5 := by
        exact (((h2.trans h3).trans (swap ip dp held fs3)).trans (iunlockput hput)).trans (ilock hlock5)
      split at hok
      next hfile =>
        cases hok
        refine ⟨h5, fun ip' hip => ?_⟩
        obtain rfl := Option.some.inj hip
        exact hfile.2
      · rw [bind_eq_ok] at hok
        obtain ⟨fs6, hput6, hok⟩ := hok
        cases hok
        exact ⟨h5.trans (iunlockput hput6), nofun⟩

/-! ### Open files -/

theorem writei_ftable {off k : Nat} {src : Nat → UInt8} {r : Int}
    (hok : fs.writei n src off k = .ok (r, fs')) : fs'.ftable = fs.ftable := by
  unfold Fs.writei at hok
  simp only [] at hok
  split at hok
  · cases hok
    rfl
  split at hok
  · cases hok
    rfl
  split at hok
  · cases hok
    rfl
  · rw [bind_eq_ok] at hok
    obtain ⟨fs1, halloc, hok⟩ := hok
    unfold Fs.balloc at halloc
    split at halloc
    · cases halloc
    · cases halloc
      cases hok
      rfl

/-- The entry of an open file gets more references or another offset. -/
theorem setFile {f : Fin NFILE} {r o : Nat} (hr : (fs.ftable f).ref ≤ r) :
    FsStep held fs held (fs.setFile f { fs.ftable f with ref := r, off := o }) := by
  refine ⟨fun _ => Nat.le_refl _, fun _ _ hfile => ⟨hfile, Nat.le_refl _⟩, fun g _ => ?_, id⟩
  by_cases hg : g = f
  · subst hg
    refine ⟨r, o, hr, ?_⟩
    simp [Fs.setFile]
  · refine ⟨(fs.ftable g).ref, (fs.ftable g).off, Nat.le_refl _, ?_⟩
    simp [Fs.setFile, hg]

/-- An entry that nobody has is filled in. -/
theorem openFile {f : Fin NFILE} {x : File} (hfree : (fs.ftable f).ref = 0) :
    FsStep held fs held (fs.setFile f x) := by
  refine ⟨fun _ => Nat.le_refl _, fun _ _ hfile => ⟨hfile, Nat.le_refl _⟩, fun g hg => ?_, id⟩
  refine ⟨(fs.ftable g).ref, (fs.ftable g).off, Nat.le_refl _, ?_⟩
  have hne : g ≠ f := by
    rintro rfl
    omega
  simp [Fs.setFile, hne]

theorem filedup {f : Fin NFILE} (hok : fs.filedup f = .ok fs') : FsStep held fs held fs' := by
  unfold Fs.filedup at hok
  split at hok
  · cases hok
  · cases hok
    exact setFile (Nat.le_succ _)

theorem writei {off k : Nat} {src : Nat → UInt8} {r : Int} (hok : fs.writei n src off k = .ok (r, fs')) :
    FsStep held fs held fs' := by
  unfold Fs.writei at hok
  simp only [] at hok
  split at hok
  · cases hok
    exact refl held _
  split at hok
  · cases hok
    exact refl held _
  split at hok
  · cases hok
    exact refl held _
  next hfits =>
    rw [bind_eq_ok] at hok
    obtain ⟨fs1, halloc, hok⟩ := hok
    cases hok
    have hinode : fs1.inode = fs.inode := by
      unfold Fs.balloc at halloc
      split at halloc
      · cases halloc
      · cases halloc
        rfl
    refine (balloc halloc).trans ?_
    rw [← hinode]
    refine setInode rfl (Nat.le_max_left _ _) fun _ hsize => ?_
    exact Nat.max_le.mpr ⟨hsize, Nat.le_of_not_lt hfits⟩

theorem fileread {f : Fin NFILE} {k : Nat} {r : Int} (hok : fs.fileread f k = .ok (r, fs')) :
    FsStep held fs held fs' := by
  unfold Fs.fileread at hok
  simp only [] at hok
  split at hok
  · cases hok
    exact refl held _
  split at hok
  · cases hok
  · cases hok
    split
    · exact setFile (Nat.le_refl _)
    · exact refl held _

theorem filewriteLoop {f : Fin NFILE} {src : Nat → UInt8} {k : Int} {fuel i j : Nat}
    (hok : Fs.filewriteLoop f src k fuel i fs = .ok (j, fs')) : FsStep held fs held fs' := by
  induction fuel generalizing i fs with
  | zero => cases hok
  | succ fuel ih =>
    unfold Fs.filewriteLoop at hok
    split at hok
    · simp only [bind_eq_ok] at hok
      obtain ⟨⟨r, fs1⟩, hwrite, hok⟩ := hok
      have h1 : FsStep held fs held fs1 := writei hwrite
      have h2 : FsStep held fs held (if 0 < r then fs1.setFile f { fs.ftable f with off := (fs.ftable f).off + r.toNat }
          else fs1) := by
        split
        · have hftable : fs1.ftable = fs.ftable := writei_ftable hwrite
          rw [← hftable]
          exact h1.trans (setFile (Nat.le_refl _))
        · exact h1
      simp only [] at hok
      split at hok
      · cases hok
        exact h2
      split at hok
      · cases hok
      · exact h2.trans (ih hok)
    · cases hok
      exact refl held _

theorem filewrite {f : Fin NFILE} {src : Nat → UInt8} {k r : Int} (hok : fs.filewrite f src k = .ok (r, fs')) :
    FsStep held fs held fs' := by
  unfold Fs.filewrite at hok
  simp only [] at hok
  split at hok
  · cases hok
    exact refl held _
  split at hok
  · cases hok
  · rw [bind_eq_ok] at hok
    obtain ⟨⟨i, fs1⟩, hloop, hok⟩ := hok
    cases hok
    exact filewriteLoop hloop

end FsStep

/-! ### The file behind a descriptor -/

/-- A swap file of at least `size` bytes is open as `f`.  Its inode is
    referred to by more than the routines in progress. -/
structure OpenSwap (held : List Nat) (fs : Fs) (f : Fin NFILE) (size : Nat) : Prop where
  ref : 0 < (fs.ftable f).ref
  isInode : (fs.ftable f).type = .FD_INODE
  readable : (fs.ftable f).readable = true
  writable : (fs.ftable f).writable = true
  isFile : (fs.inode (fs.ftable f).ip).type = .T_FILE
  others : held.count (fs.ftable f).ip < fs.iref (fs.ftable f).ip
  filled : size ≤ (fs.inode (fs.ftable f).ip).size

namespace OpenSwap

variable {held held' : List Nat} {fs fs' : Fs} {f : Fin NFILE} {size : Nat}

theorem step (h : OpenSwap held fs f size) (hstep : FsStep held fs held' fs') : OpenSwap held' fs' f size := by
  obtain ⟨r, o, hr, heq⟩ := hstep.opened f h.ref
  obtain ⟨hfile, hle⟩ := hstep.grows _ h.others h.isFile
  have hrefs := hstep.refs (fs.ftable f).ip
  have hothers := h.others
  have hip : (fs'.ftable f).ip = (fs.ftable f).ip := by rw [heq]
  refine ⟨?_, ?_, ?_, ?_, ?_, ?_, ?_⟩
  · rw [heq]
    exact Nat.lt_of_lt_of_le h.ref hr
  · rw [heq]
    exact h.isInode
  · rw [heq]
    exact h.readable
  · rw [heq]
    exact h.writable
  · rw [hip]
    exact hfile
  · rw [hip]
    omega
  · rw [hip]
    exact Nat.le_trans h.filled hle

theorem mono {size' : Nat} (h : OpenSwap held fs f size) (hle : size' ≤ size) : OpenSwap held fs f size' :=
  ⟨h.ref, h.isInode, h.readable, h.writable, h.isFile, h.others, Nat.le_trans hle h.filled⟩

end OpenSwap

end Paging
