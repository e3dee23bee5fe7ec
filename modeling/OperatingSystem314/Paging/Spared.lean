import OperatingSystem314.Paging.FsCalls
import OperatingSystem314.Paging.OpenFiles

/-! # An inode that somebody else refers to

    `Spares n I held fs held' fs'` says that a routine, whose references
    went from `held` to `held'`, has left inode `n` with the property `I`,
    provided that somebody else refers to `n`.  What `I` has to put up with
    is in `Lasting`: link counts that change, entries that are cleared, and
    new entries under new names.

    * `Spares.trans`: one routine after the other.
    * `Spares.create`, `Spares.link`, `Spares.unlink`: the routines.
    * `Spares.filewrite`: writing, to other inodes or whatever `I` permits. -/

namespace Paging

/-- The entries after `writeEntry` at position `i`. -/
def putEntry (dents : List Dirent) (i : Nat) (de : Dirent) : List Dirent :=
  if i < dents.length then dents.set i de else dents ++ [de]

/-- A property of inodes in use that the routines for other inodes, and
    those that change directories, keep. -/
structure Lasting (I : Inode → Prop) : Prop where
  used : ∀ {x : Inode}, I x → x.type ≠ .free
  links : ∀ {x : Inode} (major : Nat) (nlink : Int), I x → I { x with major, nlink }
  clear : ∀ {x : Inode} (i : Nat), I x → I { x with dents := putEntry x.dents i ⟨0, []⟩ }
  entry : ∀ {x : Inode} (i : Nat) (de : Dirent), I x → x.type = .T_DIR → Fs.findEntry x de.name = none →
    I { x with dents := putEntry x.dents i de }

/-- Writing the inode `m` does not break `I` of inode `n`. -/
def Writes (n : Nat) (I : Inode → Prop) (m : Nat) : Prop :=
  m = n → ∀ (x : Inode) (data : Nat → UInt8) (size : Nat), I x → I { x with data, size }

structure Spares (n : Nat) (I : Inode → Prop) (held : List Nat) (fs : Fs) (held' : List Nat) (fs' : Fs) :
    Prop where
  refs : ∀ m, fs.iref m + held'.count m ≤ fs'.iref m + held.count m
  files : ∀ f, fs'.ftable f = { fs.ftable f with off := (fs'.ftable f).off }
  kept : held.count n < fs.iref n → I (fs.inode n) → I (fs'.inode n)
  valid : held.count n < fs.iref n → fs.ivalid n = true → fs'.ivalid n = true
  used : (∀ m, fs.ivalid m = true → (fs.inode m).type ≠ .free) →
    ∀ m, fs'.ivalid m = true → (fs'.inode m).type ≠ .free

namespace Spares

variable {n m : Nat} {I : Inode → Prop} {held held' held'' : List Nat} {fs fs' fs'' : Fs}

theorem refl (held : List Nat) (fs : Fs) : Spares n I held fs held fs :=
  ⟨fun _ => Nat.le_refl _, fun _ => rfl, fun _ => id, fun _ => id, id⟩

theorem trans (h : Spares n I held fs held' fs') (h' : Spares n I held' fs' held'' fs'') :
    Spares n I held fs held'' fs'' := by
  have hothers : held.count n < fs.iref n → held'.count n < fs'.iref n := by
    intro hn
    have := h.refs n
    omega
  refine ⟨fun m => ?_, fun f => ?_, ?_, ?_, fun hused => h'.used (h.used hused)⟩
  · have h1 := h.refs m
    have h2 := h'.refs m
    omega
  · rw [h'.files f, h.files f]
  · intro hn hI
    exact h'.kept (hothers hn) (h.kept hn hI)
  · intro hn hvalid
    exact h'.valid (hothers hn) (h.valid hn hvalid)

/-- Nothing but references changes. -/
theorem of_refs (hinode : fs'.inode = fs.inode) (hftable : fs'.ftable = fs.ftable)
    (hvalid : fs'.ivalid = fs.ivalid) (hrefs : ∀ m, fs.iref m + held'.count m ≤ fs'.iref m + held.count m) :
    Spares n I held fs held' fs' := by
  refine ⟨hrefs, fun f => ?_, fun _ hI => ?_, fun _ hv => ?_, fun hused m hm => ?_⟩
  · rw [hftable]
  · rwa [hinode]
  · rwa [hvalid]
  · rw [hinode]
    exact hused m (by rwa [hvalid] at hm)

/-- The order of the references does not matter. -/
theorem swap (a b : Nat) (held : List Nat) (fs : Fs) : Spares n I (a :: b :: held) fs (b :: a :: held) fs := by
  apply of_refs rfl rfl rfl
  intro m
  rw [(List.Perm.swap a b held).count_eq]

/-! ### Inodes -/

theorem iget (hok : fs.iget m = .ok fs') : Spares n I held fs (m :: held) fs' := by
  have hstep : FsStep held fs (m :: held) fs' := .iget hok
  have hrefs := hstep.refs
  unfold Fs.iget at hok
  split at hok
  · cases hok
    exact of_refs rfl rfl rfl hrefs
  next hzero =>
    split at hok
    · cases hok
    · cases hok
      have hvalid : ∀ i, ((fs.setRef m 1).setValid m false).ivalid i = if i = m then false else fs.ivalid i := by
        intro i
        by_cases hi : i = m
        · simp [Fs.setValid, hi]
        · simp [Fs.setValid, Fs.setRef, hi]
      refine ⟨hrefs, fun _ => rfl, fun _ => id, fun hn hv => ?_, fun hused i hi => ?_⟩
      · rw [hvalid, if_neg (by rintro rfl; omega)]
        exact hv
      · rw [hvalid] at hi
        split at hi
        · cases hi
        · exact hused i hi

theorem idup : Spares n I held fs (m :: held) (fs.idup m) :=
  of_refs rfl rfl rfl FsStep.idup.refs

theorem ilock (hok : fs.ilock m = .ok fs') : Spares n I held fs held fs' := by
  have hstep : FsStep held fs held fs' := .ilock hok
  have hrefs := hstep.refs
  unfold Fs.ilock at hok
  split at hok
  · cases hok
  split at hok
  · cases hok
    exact refl held _
  split at hok
  · cases hok
  next htype =>
    cases hok
    have hvalid : ∀ i, (fs.setValid m true).ivalid i = if i = m then true else fs.ivalid i := by
      intro i
      by_cases hi : i = m
      · simp [Fs.setValid, hi]
      · simp [Fs.setValid, hi]
    refine ⟨hrefs, fun _ => rfl, fun _ => id, fun _ hv => ?_, fun hused i hi => ?_⟩
    · rw [hvalid]
      split
      · rfl
      · exact hv
    · rw [hvalid] at hi
      split at hi
      next him =>
        rw [him]
        exact htype
      · exact hused i hi

/-- The inode is freed only if nobody else refers to it. -/
theorem iput : Spares n I (m :: held) fs held (fs.iput m) := by
  have hstep : FsStep (m :: held) fs held (fs.iput m) := .iput
  have hrefs := hstep.refs
  unfold Fs.iput at hrefs ⊢
  by_cases hlast : fs.ivalid m ∧ (fs.inode m).nlink = 0 ∧ fs.iref m = 1
  · simp only [if_pos hlast] at hrefs ⊢
    -- then it is not the inode that others refer to
    have hne : (m :: held).count n < fs.iref n → n ≠ m := by
      rintro hn rfl
      rw [List.count_cons_self] at hn
      omega
    have hvalid : ∀ i, (fs.ifree m).ivalid i = if i = m then false else fs.ivalid i := by
      intro i
      by_cases hi : i = m
      · simp [Fs.ifree, Fs.setValid, hi]
      · simp [Fs.ifree, Fs.setValid, Fs.setInode, hi]
    have hinode : ∀ i, i ≠ m → (fs.ifree m).inode i = fs.inode i := by
      intro i hi
      simp [Fs.ifree, Fs.setValid, Fs.setInode, hi]
    refine ⟨hrefs, fun _ => rfl, fun hn hI => ?_, fun hn hv => ?_, fun hused i hi => ?_⟩
    · show I ((fs.ifree m).inode n)
      rwa [hinode n (hne hn)]
    · show (fs.ifree m).ivalid n = true
      rwa [hvalid, if_neg (hne hn)]
    · replace hi : (fs.ifree m).ivalid i = true := hi
      show ((fs.ifree m).inode i).type ≠ .free
      rw [hvalid] at hi
      split at hi
      · cases hi
      next him =>
        rw [hinode i him]
        exact hused i hi
  · simp only [if_neg hlast] at hrefs ⊢
    exact of_refs rfl rfl rfl hrefs

theorem iunlock {r : Option Nat} (hok : fs.iunlock r = .ok fs') : Spares n I held fs held fs' := by
  rw [Fs.iunlock_ok hok]
  exact refl held fs

theorem iunlockput (hok : fs.iunlockput m = .ok fs') : Spares n I (m :: held) fs held fs' := by
  simp only [Fs.iunlockput, bind_eq_ok] at hok
  obtain ⟨fs1, hunlock, hok⟩ := hok
  cases hok
  rw [Fs.iunlock_ok hunlock]
  exact iput

/-- An inode is written that stays in use. -/
theorem setInode {x : Inode} (hfree : (fs.inode m).type ≠ .free → x.type ≠ .free)
    (hx : m = n → I (fs.inode n) → I x) : Spares n I held fs held (fs.setInode m x) := by
  have hinode : ∀ i, (fs.setInode m x).inode i = if i = m then x else fs.inode i := by
    intro i
    by_cases hi : i = m
    · simp [Fs.setInode, hi]
    · simp [Fs.setInode, hi]
  refine ⟨fun _ => Nat.le_refl _, fun _ => rfl, fun _ hI => ?_, fun _ => id, fun hused i hi => ?_⟩
  · rw [hinode]
    split
    next hnm => exact hx hnm.symm hI
    · exact hI
  · rw [hinode]
    split
    next him =>
      apply hfree
      rw [← him]
      exact hused i hi
    · exact hused i hi

/-- The link count of an inode changes. -/
theorem modLinks (hI : Lasting I) {f : Int → Int} :
    Spares n I held fs held (fs.modInode m fun x => { x with nlink := f x.nlink }) := by
  apply setInode
  · exact id
  · rintro rfl hx
    exact hI.links _ _ hx

theorem balloc {old new : Nat} (hok : fs.balloc old new = .ok fs') : Spares n I held fs held fs' := by
  unfold Fs.balloc at hok
  split at hok
  · cases hok
  · cases hok
    exact of_refs rfl rfl rfl fun _ => Nat.le_refl _

/-- A free inode is not the one. -/
theorem ialloc (hI : Lasting I) {type : InodeType} (htype : type ≠ .free) (hok : fs.ialloc type = .ok (m, fs')) :
    Spares n I held fs (m :: held) fs' := by
  unfold Fs.ialloc at hok
  split at hok
  · cases hok
  next i hfind =>
    rw [bind_eq_ok] at hok
    obtain ⟨fs1, hget, hok⟩ := hok
    cases hok
    have hfree := List.find?_some hfind
    simp only [decide_eq_true_eq] at hfree
    refine trans (setInode (fun _ => htype) ?_) (iget hget)
    rintro rfl hx
    exact absurd hfree.2 (hI.used hx)

/-! ### Directories -/

theorem dirlookup (held : List Nat) {dp : Nat} {name : List Char} {r : Option (Nat × Nat)}
    (hok : fs.dirlookup dp name = .ok (r, fs')) :
    (r = none ∧ fs' = fs ∧ (fs.inode dp).type = .T_DIR ∧ Fs.findEntry (fs.inode dp) name = none) ∨
      ∃ ip i, r = some (ip, i) ∧ Fs.findEntry (fs.inode dp) name = some (ip, i) ∧
        Spares n I held fs (ip :: held) fs' := by
  unfold Fs.dirlookup at hok
  split at hok
  · cases hok
  next htype =>
    split at hok
    next hnone =>
      cases hok
      exact .inl ⟨rfl, rfl, not_not.mp htype, hnone⟩
    next ip i hfound =>
      rw [bind_eq_ok] at hok
      obtain ⟨fs1, hget, hok⟩ := hok
      cases hok
      exact .inr ⟨ip, i, rfl, hfound, iget hget⟩

theorem balloc_inode {old new : Nat} (hok : fs.balloc old new = .ok fs') : fs'.inode = fs.inode := by
  unfold Fs.balloc at hok
  split at hok
  · cases hok
  · cases hok
    rfl

theorem writeEntry {dp i : Nat} {de : Dirent} (hok : fs.writeEntry dp i de = .ok fs')
    (hx : dp = n → I (fs.inode n) → I { fs.inode n with dents := putEntry (fs.inode n).dents i de }) :
    Spares n I held fs held fs' := by
  unfold putEntry at hx
  unfold Fs.writeEntry at hok
  simp only [] at hok
  split at hok
  next hlt =>
    cases hok
    apply setInode
    · exact id
    · rintro rfl
      rw [if_pos hlt] at hx
      exact hx rfl
  next hlt =>
    split at hok
    · cases hok
    · rw [bind_eq_ok] at hok
      obtain ⟨fs1, halloc, hok⟩ := hok
      cases hok
      have hinode := balloc_inode halloc
      refine (balloc halloc).trans (setInode ?_ ?_)
      · rw [hinode]
        exact id
      · rintro rfl
        rw [if_neg hlt] at hx
        rw [hinode]
        exact hx rfl

theorem dirlink (hI : Lasting I) {dp inum : Nat} {name : List Char} {r : Int} (hname : name.length ≤ DIRSIZ)
    (hok : fs.dirlink dp name inum = .ok (r, fs')) : Spares n I held fs held fs' := by
  simp only [Fs.dirlink, bind_eq_ok] at hok
  obtain ⟨⟨found, fs1⟩, hlook, hok⟩ := hok
  rcases dirlookup (n := n) (I := I) held hlook with ⟨rfl, rfl, hdir, hnone⟩ | ⟨ip, i, rfl, -, hstep⟩
  · simp only [bind_eq_ok] at hok
    obtain ⟨fs2, hentry, hok⟩ := hok
    cases hok
    refine writeEntry hentry ?_
    rintro rfl hx
    rw [List.take_of_length_le hname]
    exact hI.entry _ _ hx hdir hnone
  · obtain ⟨-, rfl⟩ := Prod.mk.inj (Except.ok.inj hok)
    exact hstep.trans iput

/-! ### Paths -/

theorem skipelem_length {path name rest : List Char} (h : Fs.skipelem path = some (name, rest)) :
    name.length ≤ DIRSIZ := by
  unfold Fs.skipelem at h
  simp only [] at h
  split at h
  · cases h
  · cases h
    exact List.length_take_le _ _

/-- The loop of `namex` gives back every inode but the last one. -/
theorem namexLoop {parent : Bool} {fuel ip : Nat} {path name : List Char} {r : Option (Nat × List Char)}
    (hok : Fs.namexLoop parent fuel ip path name fs = .ok (r, fs')) :
    Spares n I (ip :: held) fs (r.elim held fun q => q.1 :: held) fs' ∧
      (parent = true → ∀ q, r = some q → q.2.length ≤ DIRSIZ) := by
  induction fuel generalizing ip path name fs with
  | zero => cases hok
  | succ fuel ih =>
    unfold Fs.namexLoop at hok
    split at hok
    · split at hok
      · cases hok
        exact ⟨iput, nofun⟩
      next hparent =>
        cases hok
        exact ⟨refl _ _, fun htrue => absurd htrue hparent⟩
    next name' rest helem =>
      rw [bind_eq_ok] at hok
      obtain ⟨fs1, hlock, hok⟩ := hok
      have h1 : Spares n I (ip :: held) fs (ip :: held) fs1 := ilock hlock
      split at hok
      · rw [bind_eq_ok] at hok
        obtain ⟨fs2, hput, hok⟩ := hok
        cases hok
        exact ⟨h1.trans (iunlockput hput), nofun⟩
      split at hok
      · rw [bind_eq_ok] at hok
        obtain ⟨fs2, hunlock, hok⟩ := hok
        cases hok
        refine ⟨h1.trans (iunlock hunlock), fun _ q hq => ?_⟩
        cases hq
        exact skipelem_length helem
      · rw [bind_eq_ok] at hok
        obtain ⟨⟨found, fs2⟩, hlook, hok⟩ := hok
        rw [bind_eq_ok] at hok
        obtain ⟨fs3, hput, hok⟩ := hok
        rcases dirlookup (n := n) (I := I) (ip :: held) hlook with ⟨rfl, rfl, -⟩ | ⟨next, i, rfl, -, h2⟩
        · cases hok
          exact ⟨h1.trans (iunlockput hput), nofun⟩
        · obtain ⟨h3, hlen⟩ := ih hok
          exact ⟨((h1.trans h2).trans (swap next ip held fs2)).trans ((iunlockput hput).trans h3), hlen⟩

theorem namex (held : List Nat) {cwd : Nat} {path : List Char} {parent : Bool} {r : Option (Nat × List Char)}
    (hok : fs.namex cwd path parent = .ok (r, fs')) :
    Spares n I held fs (r.elim held fun q => q.1 :: held) fs' ∧
      (parent = true → ∀ q, r = some q → q.2.length ≤ DIRSIZ) := by
  unfold Fs.namex at hok
  by_cases hroot : path.head? = some '/'
  · simp only [if_pos hroot, bind_eq_ok] at hok
    obtain ⟨fs1, hget, hok⟩ := hok
    obtain ⟨h, hlen⟩ := namexLoop hok
    exact ⟨(iget hget).trans h, hlen⟩
  · simp only [if_neg hroot] at hok
    obtain ⟨h, hlen⟩ := namexLoop hok
    exact ⟨idup.trans h, hlen⟩

theorem namei {cwd : Nat} {path : List Char} {r : Option Nat} (hok : fs.namei cwd path = .ok (r, fs')) :
    Spares n I held fs (r.elim held fun ip => ip :: held) fs' := by
  simp only [Fs.namei, bind_eq_ok] at hok
  obtain ⟨⟨q, fs1⟩, hnamex, hok⟩ := hok
  cases hok
  have h := (namex (n := n) (I := I) held hnamex).1
  cases q with
  | none => exact h
  | some q => exact h

/-- The entries of a new directory. -/
theorem mkdots (hI : Lasting I) {dp ip : Nat} (hok : fs.mkdots dp ip = .ok fs') : Spares n I held fs held fs' := by
  simp only [Fs.mkdots, bind_eq_ok] at hok
  obtain ⟨⟨r, fs1⟩, hdot, hok⟩ := hok
  have hlinks : Spares n I held fs held (fs.modInode dp fun x => { x with nlink := x.nlink + 1 }) := by
    exact modLinks (f := fun l => l + 1) hI
  have h1 : Spares n I held fs held fs1 := hlinks.trans (dirlink hI (by decide) hdot)
  simp only [] at hok
  split at hok
  · cases hok
  · rw [bind_eq_ok] at hok
    obtain ⟨⟨r', fs2⟩, hdots, hok⟩ := hok
    have h2 := h1.trans (dirlink hI (by decide) hdots)
    simp only [] at hok
    split at hok
    · cases hok
    · cases hok
      exact h2

theorem create (hI : Lasting I) (held : List Nat) {cwd major : Nat} {path : List Char} {type : InodeType}
    (htype : type ≠ .free) {r : Option Nat} (hok : fs.create cwd path type major = .ok (r, fs')) :
    Spares n I held fs (r.elim held fun ip => ip :: held) fs' := by
  simp only [Fs.create, Fs.nameiparent, bind_eq_ok] at hok
  obtain ⟨⟨q, fs1⟩, hnamex, hok⟩ := hok
  obtain ⟨h1, hname⟩ := namex (n := n) (I := I) held hnamex
  cases q with
  | none =>
    cases hok
    exact h1
  | some q =>
    obtain ⟨dp, name⟩ := q
    replace hname := hname rfl _ rfl
    simp only [bind_eq_ok] at hok
    obtain ⟨fs2, hlock, ⟨found, fs3⟩, hlook, hok⟩ := hok
    have h2 : Spares n I held fs (dp :: held) fs2 := h1.trans (ilock hlock)
    rcases dirlookup (n := n) (I := I) (dp :: held) hlook with ⟨rfl, rfl, -⟩ | ⟨ip, i, rfl, -, h3⟩
    · dsimp only at hok
      rw [bind_eq_ok] at hok
      obtain ⟨⟨ip, fs4⟩, halloc, hok⟩ := hok
      have h4 := (h2.trans (ialloc hI htype halloc)).trans (swap ip dp held fs4)
      rw [bind_eq_ok] at hok
      obtain ⟨fs5, hlock5, hok⟩ := hok
      have hset : Spares n I (dp :: ip :: held) fs5 (dp :: ip :: held)
          (fs5.setInode ip { fs5.inode ip with major, nlink := 1 }) := by
        apply setInode
        · exact id
        · rintro rfl hx
          exact hI.links _ _ hx
      have h5 := (h4.trans (ilock hlock5)).trans hset
      -- what is left, after the entries of a directory
      have hrest : ∀ fs7 : Fs, Spares n I held fs (dp :: ip :: held) fs7 →
          (fs7.dirlink dp name ip >>= fun q =>
            if q.1 < 0 then panic "create: dirlink"
            else q.2.iunlockput dp >>= fun fs => pure (some ip, fs)) = Except.ok (r, fs') →
          Spares n I held fs (r.elim held fun ip => ip :: held) fs' := by
        intro fs7 h7 hok
        rw [bind_eq_ok] at hok
        obtain ⟨⟨r1, fs8⟩, hlink, hok⟩ := hok
        simp only [] at hok
        split at hok
        · cases hok
        rw [bind_eq_ok] at hok
        obtain ⟨fs9, hput, hok⟩ := hok
        cases hok
        exact (h7.trans (dirlink hI hname hlink)).trans (iunlockput hput)
      simp only [] at hok
      split at hok
      · rw [bind_eq_ok] at hok
        obtain ⟨fs7, hdots, hok⟩ := hok
        exact hrest fs7 (h5.trans (mkdots hI hdots)) hok
      · exact hrest _ h5 hok
    · simp only [bind_eq_ok] at hok
      obtain ⟨fs4, hput, fs5, hlock5, hok⟩ := hok
      have h5 : Spares n I held fs (ip :: held) fs5 := by
        exact (((h2.trans h3).trans (swap ip dp held fs3)).trans (iunlockput hput)).trans (ilock hlock5)
      split at hok
      · cases hok
        exact h5
      · rw [bind_eq_ok] at hok
        obtain ⟨fs6, hput6, hok⟩ := hok
        cases hok
        exact h5.trans (iunlockput hput6)

/-! ### Calls -/

theorem unlinkEntry (hI : Lasting I) {dp ip off : Nat} {r : Int} (hok : fs.unlinkEntry dp ip off = .ok (r, fs')) :
    Spares n I (ip :: dp :: held) fs held fs' := by
  simp only [Fs.unlinkEntry, bind_eq_ok] at hok
  obtain ⟨fs1, hlock, hok⟩ := hok
  have h1 : Spares n I (ip :: dp :: held) fs (ip :: dp :: held) fs1 := ilock hlock
  split at hok
  · cases hok
  split at hok
  · simp only [bind_eq_ok] at hok
    obtain ⟨fs2, hput, fs3, hput', hok⟩ := hok
    cases hok
    exact (h1.trans (iunlockput hput)).trans (iunlockput hput')
  · simp only [bind_eq_ok] at hok
    obtain ⟨fs2, hentry, fs3, hput, fs4, hput', hok⟩ := hok
    cases hok
    have h2 : Spares n I (ip :: dp :: held) fs (dp :: ip :: held) fs2 := by
      refine (h1.trans (swap ip dp held fs1)).trans (writeEntry hentry ?_)
      rintro rfl hx
      exact hI.clear _ hx
    have h3 : Spares n I (ip :: dp :: held) fs (ip :: held) fs3 := by
      refine h2.trans (trans ?_ (iunlockput hput))
      split
      · exact modLinks (f := fun l => l - 1) hI
      · exact refl _ _
    exact h3.trans ((modLinks (f := fun l => l - 1) hI).trans (iunlockput hput'))

theorem unlink (hI : Lasting I) (held : List Nat) {cwd : Nat} {path : List Char} {r : Int}
    (hok : fs.unlink cwd path = .ok (r, fs')) : Spares n I held fs held fs' := by
  simp only [Fs.unlink, Fs.nameiparent, bind_eq_ok] at hok
  obtain ⟨⟨q, fs1⟩, hnamex, hok⟩ := hok
  have h1 := (namex (n := n) (I := I) held hnamex).1
  cases q with
  | none =>
    cases hok
    exact h1
  | some q =>
    obtain ⟨dp, name⟩ := q
    simp only [bind_eq_ok] at hok
    obtain ⟨fs2, hlock, hok⟩ := hok
    have h2 : Spares n I held fs (dp :: held) fs2 := h1.trans (ilock hlock)
    split at hok
    · rw [bind_eq_ok] at hok
      obtain ⟨fs3, hput, hok⟩ := hok
      cases hok
      exact h2.trans (iunlockput hput)
    · rw [bind_eq_ok] at hok
      obtain ⟨⟨found, fs3⟩, hlook, hok⟩ := hok
      rcases dirlookup (n := n) (I := I) (dp :: held) hlook with ⟨rfl, rfl, -⟩ | ⟨ip, off, rfl, -, h3⟩
      · simp only [bind_eq_ok] at hok
        obtain ⟨fs4, hput, hok⟩ := hok
        cases hok
        exact h2.trans (iunlockput hput)
      · exact (h2.trans h3).trans (unlinkEntry hI hok)

theorem unlinkBad (hI : Lasting I) {ip : Nat} {r : Int} (hok : fs.unlinkBad ip = .ok (r, fs')) :
    Spares n I (ip :: held) fs held fs' := by
  simp only [Fs.unlinkBad, bind_eq_ok] at hok
  obtain ⟨fs1, hlock, fs2, hput, hok⟩ := hok
  cases hok
  exact (ilock hlock).trans ((modLinks (f := fun l => l - 1) hI).trans (iunlockput hput))

theorem link (hI : Lasting I) (held : List Nat) {cwd : Nat} {old new : List Char} {r : Int}
    (hok : fs.link cwd old new = .ok (r, fs')) : Spares n I held fs held fs' := by
  simp only [Fs.link, bind_eq_ok] at hok
  obtain ⟨⟨q, fs1⟩, hnamei, hok⟩ := hok
  have h1 : Spares n I held fs _ fs1 := namei hnamei
  cases q with
  | none =>
    cases hok
    exact h1
  | some ip =>
    simp only [bind_eq_ok] at hok
    obtain ⟨fs2, hlock, hok⟩ := hok
    have h2 : Spares n I held fs (ip :: held) fs2 := h1.trans (ilock hlock)
    split at hok
    · rw [bind_eq_ok] at hok
      obtain ⟨fs3, hput, hok⟩ := hok
      cases hok
      exact h2.trans (iunlockput hput)
    · simp only [Fs.nameiparent, bind_eq_ok] at hok
      obtain ⟨fs3, hunlock, ⟨q, fs4⟩, hnamex, hok⟩ := hok
      have h3 := (h2.trans (modLinks (f := fun l => l + 1) hI)).trans (iunlock hunlock)
      obtain ⟨h4, hname⟩ := namex (n := n) (I := I) (ip :: held) hnamex
      replace h4 := h3.trans h4
      cases q with
      | none => exact h4.trans (unlinkBad hI hok)
      | some q =>
        obtain ⟨dp, name⟩ := q
        replace hname := hname rfl _ rfl
        simp only [bind_eq_ok] at hok
        obtain ⟨fs5, hlock5, ⟨r1, fs6⟩, hlink, fs7, hput, hok⟩ := hok
        have h7 : Spares n I held fs (ip :: held) fs7 :=
          ((h4.trans (ilock hlock5)).trans (dirlink hI hname hlink)).trans (iunlockput hput)
        split at hok
        · exact h7.trans (unlinkBad hI hok)
        · cases hok
          exact h7.trans iput

theorem openInode (hI : Lasting I) (held : List Nat) {cwd omode : Nat} {path : List Char} {r : Option Nat}
    (hok : fs.openInode cwd path omode = .ok (r, fs')) : Spares n I held fs (r.elim held fun ip => ip :: held) fs' := by
  unfold Fs.openInode at hok
  split at hok
  · exact create hI held (by decide) hok
  · rw [bind_eq_ok] at hok
    obtain ⟨⟨q, fs1⟩, hnamei, hok⟩ := hok
    have h1 : Spares n I held fs _ fs1 := namei hnamei
    cases q with
    | none =>
      cases hok
      exact h1
    | some ip =>
      simp only [bind_eq_ok] at hok
      obtain ⟨fs2, hlock, hok⟩ := hok
      have h2 : Spares n I held fs (ip :: held) fs2 := h1.trans (ilock hlock)
      split at hok
      · rw [bind_eq_ok] at hok
        obtain ⟨fs3, hput, hok⟩ := hok
        cases hok
        exact h2.trans (iunlockput hput)
      · cases hok
        exact h2

theorem make (hI : Lasting I) (held : List Nat) {cwd major : Nat} {path : List Char} {type : InodeType}
    (htype : type ≠ .free) {r : Int} (hok : fs.make cwd path type major = .ok (r, fs')) :
    Spares n I held fs held fs' := by
  simp only [Fs.make, bind_eq_ok] at hok
  obtain ⟨⟨q, fs1⟩, hcreate, hok⟩ := hok
  have h1 := create (n := n) hI held htype hcreate
  cases q with
  | none =>
    cases hok
    exact h1
  | some ip =>
    simp only [bind_eq_ok] at hok
    obtain ⟨fs2, hput, hok⟩ := hok
    cases hok
    exact h1.trans (iunlockput hput)

/-- The new directory takes the place of the one that the process was in. -/
theorem chdir (held : List Nat) {cwd : Nat} {path : List Char} {r : Option Nat} (hok : fs.chdir cwd path = .ok (r, fs')) :
    Spares n I (cwd :: held) fs (r.getD cwd :: held) fs' ∧
      ∀ ip, r = some ip → ip = n → ∃ fs1, Spares n I (cwd :: held) fs (ip :: cwd :: held) fs1 ∧
        (fs1.inode n).type = .T_DIR := by
  simp only [Fs.chdir, bind_eq_ok] at hok
  obtain ⟨⟨q, fs1⟩, hnamei, hok⟩ := hok
  have h1 : Spares n I (cwd :: held) fs _ fs1 := namei hnamei
  cases q with
  | none =>
    cases hok
    exact ⟨h1, nofun⟩
  | some ip =>
    simp only [bind_eq_ok] at hok
    obtain ⟨fs2, hlock, hok⟩ := hok
    have h2 : Spares n I (cwd :: held) fs (ip :: cwd :: held) fs2 := h1.trans (ilock hlock)
    split at hok
    · rw [bind_eq_ok] at hok
      obtain ⟨fs3, hput, hok⟩ := hok
      cases hok
      exact ⟨h2.trans (iunlockput hput), nofun⟩
    next hdir =>
      rw [bind_eq_ok] at hok
      obtain ⟨fs3, hunlock, hok⟩ := hok
      cases hok
      refine ⟨((h2.trans (iunlock hunlock)).trans (swap ip cwd held fs3)).trans iput, fun ip' hip hn => ?_⟩
      cases hip
      subst hn
      exact ⟨fs2, h2, not_not.mp hdir⟩

/-! ### Reading and writing -/

/-- The offset of an open file moves. -/
theorem setOff {f : Fin NFILE} {off : Nat} :
    Spares n I held fs held (fs.setFile f { fs.ftable f with off }) := by
  refine ⟨fun _ => Nat.le_refl _, fun g => ?_, fun _ => id, fun _ => id, id⟩
  by_cases hg : g = f
  · subst hg
    simp [Fs.setFile]
  · simp [Fs.setFile, hg]

theorem fileread {f : Fin NFILE} {k : Nat} {r : Int} (hok : fs.fileread f k = .ok (r, fs')) :
    Spares n I held fs held fs' := by
  unfold Fs.fileread at hok
  simp only [] at hok
  split at hok
  · cases hok
    exact refl held _
  split at hok
  · cases hok
  · cases hok
    split
    · exact setOff
    · exact refl held _

theorem writei {off k : Nat} {src : Nat → UInt8} {r : Int} (hw : Writes n I m)
    (hok : fs.writei m src off k = .ok (r, fs')) : Spares n I held fs held fs' := by
  unfold Fs.writei at hok
  simp only [] at hok
  split at hok
  · cases hok
    exact refl held _
  split at hok
  · cases hok
    exact refl held _
  split at hok
  · cases hok
    exact refl held _
  · rw [bind_eq_ok] at hok
    obtain ⟨fs1, halloc, hok⟩ := hok
    cases hok
    have hinode := balloc_inode halloc
    refine (balloc halloc).trans (setInode ?_ ?_)
    · rw [hinode]
      exact id
    · rintro rfl hx
      rw [hinode] at hx
      exact hw rfl _ _ _ hx

/-- The loop writes the inode that the file is open on. -/
theorem filewriteLoop {f : Fin NFILE} {src : Nat → UInt8} {k : Int} {fuel i j : Nat}
    (hw : Writes n I (fs.ftable f).ip) (hok : Fs.filewriteLoop f src k fuel i fs = .ok (j, fs')) :
    Spares n I held fs held fs' := by
  induction fuel generalizing i fs with
  | zero => cases hok
  | succ fuel ih =>
    unfold Fs.filewriteLoop at hok
    split at hok
    · simp only [bind_eq_ok] at hok
      obtain ⟨⟨r, fs1⟩, hwrite, hok⟩ := hok
      have h1 : Spares n I held fs held fs1 := writei hw hwrite
      have hftable : fs1.ftable = fs.ftable := FsStep.writei_ftable hwrite
      have h2 : Spares n I held fs held
          (if 0 < r then fs1.setFile f { fs.ftable f with off := (fs.ftable f).off + r.toNat } else fs1) := by
        split
        · rw [← hftable]
          exact h1.trans setOff
        · exact h1
      simp only [] at hok
      split at hok
      · cases hok
        exact h2
      split at hok
      · cases hok
      · refine h2.trans (ih ?_ hok)
        rwa [h2.files f]
    · cases hok
      exact refl held _

theorem filewrite {f : Fin NFILE} {src : Nat → UInt8} {k r : Int} (hw : Writes n I (fs.ftable f).ip)
    (hok : fs.filewrite f src k = .ok (r, fs')) : Spares n I held fs held fs' := by
  unfold Fs.filewrite at hok
  simp only [] at hok
  split at hok
  · cases hok
    exact refl held _
  split at hok
  · cases hok
  · rw [bind_eq_ok] at hok
    obtain ⟨⟨i, fs1⟩, hloop, hok⟩ := hok
    cases hok
    exact filewriteLoop hw hloop

end Spares

end Paging
