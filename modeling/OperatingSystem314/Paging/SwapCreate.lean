import Mathlib.Data.List.TakeWhile
import OperatingSystem314.Paging.Child

/-! # When the swap file of a new process can be created

    `createSwapFile` does not look at what `create` and `filealloc`
    return.  `createSwapFile_returns` says exactly when the kernel
    survives it: the name `/.swap<pid>` is free or names a regular file,
    and inodes, inode cache, root directory and file table have room. -/

namespace Paging

/-! ### The path -/

theorem slash_not_mem_swapName (pid : Nat) : '/' ∉ swapName pid := by
  unfold swapName itoa
  rw [List.mem_append, not_or]
  refine ⟨by decide, fun hmem => ?_⟩
  have hdigit := Nat.isDigit_of_mem_toDigits (by decide) (by decide) hmem
  exact absurd hdigit (by decide)

/-- The name as the directory stores it. -/
def swapEntry (pid : Nat) : List Char := (swapName pid).take DIRSIZ

theorem skipelem_swapPath (pid : Nat) : Fs.skipelem (swapPath pid) = some (swapEntry pid, []) := by
  have hne : ∀ c ∈ swapName pid, (decide (c ≠ '/')) = true := by
    intro c hc
    rw [decide_eq_true_iff]
    rintro rfl
    exact slash_not_mem_swapName pid hc
  have hdrop : (swapPath pid).dropWhile (· = '/') = swapName pid := rfl
  unfold Fs.skipelem
  simp only [hdrop]
  rw [if_neg (by simp [swapName]), List.takeWhile_eq_self_iff.mpr hne, List.dropWhile_eq_nil_iff.mpr hne]
  rfl

/-! ### The root directory -/

namespace Fs

/-- The root directory, which init keeps open, is cached. -/
structure RootOk (fs : Fs) : Prop where
  ref : 0 < fs.iref ROOTINO
  valid : fs.ivalid ROOTINO = true
  isDir : (fs.inode ROOTINO).type = .T_DIR

/-- `iget` of the inode finds it cached or finds a free entry. -/
def CanIget (fs : Fs) (n : Nat) : Prop := 0 < fs.iref n ∨ fs.cached < NINODE

theorem cached_congr {fs fs' : Fs} (hn : fs'.ninodes = fs.ninodes)
    (href : ∀ n, 0 < fs'.iref n ↔ 0 < fs.iref n) : fs'.cached = fs.cached := by
  unfold cached
  rw [hn]
  exact List.countP_congr fun n _ => by simp [href]

/-- One more reference to a cached inode. -/
def held (fs : Fs) (n : Nat) : Fs := fs.setRef n (fs.iref n + 1)

theorem held_ref {fs : Fs} {n : Nat} (h : 0 < fs.iref n) (i : Nat) :
    0 < (fs.held n).iref i ↔ 0 < fs.iref i := by
  by_cases hi : i = n
  · subst hi
    simp [held, setRef, h]
  · simp [held, setRef, hi]

theorem held_canIget {fs : Fs} {n i : Nat} (h : 0 < fs.iref n) : (fs.held n).CanIget i ↔ fs.CanIget i := by
  have hcached : (fs.held n).cached = fs.cached := cached_congr rfl (held_ref h)
  unfold CanIget
  rw [held_ref h, hcached]

/-- `iget` returns just when it can. -/
theorem iget_returns {fs : Fs} {n : Nat} :
    (∃ fs', fs.iget n = .ok fs') ↔ fs.CanIget n := by
  unfold iget CanIget
  by_cases href : 0 < fs.iref n
  · simp [href]
  · by_cases hfull : NINODE ≤ fs.cached
    · simp only [href, if_false, hfull, if_true, false_or]
      constructor
      · rintro ⟨_, hok⟩
        cases hok
      · intro hlt
        omega
    · simp only [href, if_false, hfull, false_or]
      constructor
      · intro _
        omega
      · intro _
        exact ⟨_, rfl⟩

/-- What `iget` leaves: the same file system with a positive count. -/
theorem iget_ok {fs fs' : Fs} {n : Nat} (h : fs.iget n = .ok fs') :
    0 < fs'.iref n ∧ (∀ i, i ≠ n → fs'.iref i = fs.iref i ∧ fs'.ivalid i = fs.ivalid i) ∧
      (0 < fs.iref n → fs'.ivalid = fs.ivalid ∧ fs'.iref n = fs.iref n + 1) ∧
      ∃ iref ivalid, fs' = { fs with iref, ivalid } := by
  unfold iget at h
  split at h
  next href =>
    cases h
    refine ⟨by simp [setRef], fun i hi => by simp [setRef, hi], fun _ => by simp [setRef], _, _, rfl⟩
  next href =>
    split at h
    · cases h
    · cases h
      refine ⟨by simp [setRef, setValid], fun i hi => by simp [setRef, setValid, hi],
        fun hpos => absurd hpos href, _, _, rfl⟩

/-- `ilock` of a cached inode with a type. -/
theorem ilock_eq {fs : Fs} {n : Nat} (href : 0 < fs.iref n) (htype : (fs.inode n).type ≠ .free) :
    fs.ilock n = .ok (if fs.ivalid n then fs else fs.setValid n true) := by
  unfold ilock
  rw [if_neg (by omega), if_neg htype]
  split <;> rfl

theorem ilock_valid {fs : Fs} {n : Nat} (href : 0 < fs.iref n) (hvalid : fs.ivalid n = true) :
    fs.ilock n = .ok fs := by
  unfold ilock
  rw [if_neg (by omega), if_pos hvalid]

theorem ilock_ok {fs fs' : Fs} {n : Nat} (h : fs.ilock n = .ok fs') :
    0 < fs.iref n ∧ ∃ ivalid, fs' = { fs with ivalid } := by
  unfold ilock at h
  split at h
  · cases h
  · split at h
    · cases h
      exact ⟨by omega, _, rfl⟩
    · split at h
      · cases h
      · cases h
        exact ⟨by omega, _, rfl⟩

theorem iunlock_ok {fs fs' : Fs} {r : Option Nat} (h : fs.iunlock r = .ok fs') : fs' = fs := by
  cases r with
  | none => cases h
  | some n =>
    unfold iunlock at h
    simp only [] at h
    split at h
    · cases h
    · cases h
      rfl

/-- `iput` of a reference that is not the last one. -/
theorem iunlockput_held {fs : Fs} {n : Nat} (href : 1 < fs.iref n) :
    fs.iunlockput n = .ok (fs.setRef n (fs.iref n - 1)) := by
  have hpos : ¬ fs.iref n < 1 := by omega
  have hlast : ¬ (fs.ivalid n = true ∧ (fs.inode n).nlink = 0 ∧ fs.iref n = 1) := by omega
  simp only [iunlockput, iunlock, hpos, if_false, ok_bind, iput, hlast, pure_eq_ok]

/-- The walk to the directory of a swap file ends at the root. -/
theorem nameiparent_swapPath {fs : Fs} (h : fs.RootOk) (cwd pid : Nat) :
    fs.nameiparent cwd (swapPath pid) = .ok (some (ROOTINO, swapEntry pid), fs.held ROOTINO) := by
  obtain ⟨href, hvalid, hdir⟩ := h
  have higet : fs.iget ROOTINO = .ok (fs.held ROOTINO) := by
    unfold iget
    rw [if_pos href]
    rfl
  have href' : 0 < (fs.held ROOTINO).iref ROOTINO := (held_ref href _).mpr href
  have hhead : (swapPath pid).head? = some '/' := rfl
  have hlock : (fs.held ROOTINO).ilock ROOTINO = .ok (fs.held ROOTINO) := ilock_valid href' hvalid
  have hunlock : (fs.held ROOTINO).iunlock (some ROOTINO) = .ok (fs.held ROOTINO) := by
    unfold iunlock
    simp only [if_neg (by omega : ¬ (fs.held ROOTINO).iref ROOTINO < 1)]
  have htype : ¬ ((fs.held ROOTINO).inode ROOTINO).type ≠ .T_DIR := fun hne => hne hdir
  unfold nameiparent namex
  simp only [hhead, if_true, higet, ok_bind]
  unfold namexLoop
  simp only [skipelem_swapPath, hlock, ok_bind, htype, if_false, true_and, if_true, hunlock]
  rfl

/-! ### A new entry of the root directory -/

/-- The position `dirlink` writes to. -/
def freeEntry (x : Inode) : Nat := (x.dents.findIdx? fun de => de.inum = 0).getD x.dents.length

/-- Data blocks the directory grows by. -/
def entryBlocks (x : Inode) : Nat :=
  if freeEntry x < x.dents.length then 0
  else nblocks (16 * (x.dents.length + 1)) - nblocks (16 * x.dents.length)

/-- The directory takes one more entry. -/
def EntryRoom (fs : Fs) (x : Inode) : Prop :=
  freeEntry x < x.dents.length ∨
    16 * (x.dents.length + 1) ≤ MAXFILE * BSIZE ∧ entryBlocks x ≤ fs.freeBlocks

theorem writeEntry_returns {fs : Fs} {dp : Nat} (de : Dirent) :
    (∃ fs', fs.writeEntry dp (freeEntry (fs.inode dp)) de = .ok fs') ↔ fs.EntryRoom (fs.inode dp) := by
  unfold writeEntry EntryRoom entryBlocks
  by_cases hold : freeEntry (fs.inode dp) < (fs.inode dp).dents.length
  · simp [hold]
  · simp only [hold, if_false, false_or]
    by_cases hbig : 16 * ((fs.inode dp).dents.length + 1) > MAXFILE * BSIZE
    · rw [if_pos hbig]
      constructor
      · rintro ⟨_, hok⟩
        cases hok
      · intro h
        omega
    · rw [if_neg hbig, balloc]
      split
      · constructor
        · rintro ⟨_, hok⟩
          cases hok
        · intro h
          omega
      · constructor
        · intro _
          omega
        · intro _
          exact ⟨_, rfl⟩

theorem writeEntry_ok {fs fs' : Fs} {dp : Nat} {de : Dirent}
    (h : fs.writeEntry dp (freeEntry (fs.inode dp)) de = .ok fs') :
    ∃ dents, fs' = { fs with
      inode := Function.update fs.inode dp { fs.inode dp with dents }
      freeBlocks := fs.freeBlocks - entryBlocks (fs.inode dp) } := by
  unfold writeEntry at h
  unfold entryBlocks
  simp only [] at h
  split at h
  next hold =>
    cases h
    rw [if_pos hold]
    exact ⟨_, rfl⟩
  next hold =>
    split at h
    · cases h
    · rw [bind_eq_ok] at h
      obtain ⟨fs1, hballoc, h⟩ := h
      unfold balloc at hballoc
      split at hballoc
      · cases hballoc
      · cases hballoc
        cases h
        rw [if_neg hold]
        exact ⟨_, rfl⟩

/-! ### `create` of a swap file -/

/-- The inode `ialloc` takes. -/
def freeInode (fs : Fs) : Option Nat :=
  (List.range fs.ninodes).find? fun n => n ≠ 0 ∧ (fs.inode n).type = .free

/-- `create` makes, or finds, a regular file of that name in the root directory. -/
def Creatable (fs : Fs) (name : List Char) : Prop :=
  match findEntry (fs.inode ROOTINO) name with
  | some (ip, _) => fs.CanIget ip ∧ (fs.inode ip).type = .T_FILE
  | none => (∃ n, fs.freeInode = some n ∧ fs.CanIget n) ∧ fs.EntryRoom (fs.inode ROOTINO)

/-- What `create` leaves when it returns inode `b`. -/
structure Created (fs fs' : Fs) (name : List Char) (b : Nat) : Prop where
  ftable : fs'.ftable = fs.ftable
  ref : 0 < fs'.iref b
  isFile : (fs'.inode b).type = .T_FILE
  /-- the other files are as they were -/
  keeps : ∀ n, (fs.inode n).type = .T_FILE → fs'.inode n = fs.inode n
  size : (fs'.inode b).size = (findEntry (fs.inode ROOTINO) name).elim 0 fun e => (fs.inode e.1).size
  blocks : fs'.freeBlocks = fs.freeBlocks -
    (findEntry (fs.inode ROOTINO) name).elim (entryBlocks (fs.inode ROOTINO)) fun _ => 0

section create

variable {fs : Fs} (cwd pid : Nat)

/-- The name is taken. -/
theorem create_found (h : fs.RootOk) {ip i : Nat}
    (hfound : findEntry (fs.inode ROOTINO) (swapEntry pid) = some (ip, i)) :
    fs.create cwd (swapPath pid) .T_FILE 0 = (do
      let fs ← (fs.held ROOTINO).iget ip
      let fs ← fs.iunlockput ROOTINO
      let fs ← fs.ilock ip
      if (fs.inode ip).type = .T_FILE then return (some ip, fs)
      else
        let fs ← fs.iunlockput ip
        return (none, fs)) := by
  have hlock : (fs.held ROOTINO).ilock ROOTINO = .ok (fs.held ROOTINO) :=
    ilock_valid ((held_ref h.ref _).mpr h.ref) h.valid
  have hlookup : (fs.held ROOTINO).dirlookup ROOTINO (swapEntry pid) = (do
      let fs ← (fs.held ROOTINO).iget ip
      return (some (ip, i), fs)) := by
    unfold dirlookup
    rw [if_neg (fun hne => hne h.isDir), show (fs.held ROOTINO).inode ROOTINO = fs.inode ROOTINO from rfl,
      hfound]
  unfold create
  rw [nameiparent_swapPath h, ok_bind]
  simp only [hlock, ok_bind, hlookup, bind_assoc, pure_eq_ok, true_and]

/-- The name is free. -/
theorem create_missing (h : fs.RootOk)
    (hmissing : findEntry (fs.inode ROOTINO) (swapEntry pid) = none) :
    fs.create cwd (swapPath pid) .T_FILE 0 = (do
      let (ip, fs) ← (fs.held ROOTINO).ialloc .T_FILE
      let fs ← fs.ilock ip
      let fs := fs.setInode ip { fs.inode ip with major := 0, nlink := 1 }
      let (r, fs) ← fs.dirlink ROOTINO (swapEntry pid) ip
      if r < 0 then panic "create: dirlink"
      else
        let fs ← fs.iunlockput ROOTINO
        return (some ip, fs)) := by
  have hlock : (fs.held ROOTINO).ilock ROOTINO = .ok (fs.held ROOTINO) :=
    ilock_valid ((held_ref h.ref _).mpr h.ref) h.valid
  have hlookup : (fs.held ROOTINO).dirlookup ROOTINO (swapEntry pid) = .ok (none, fs.held ROOTINO) := by
    unfold dirlookup
    rw [if_neg (fun hne => hne h.isDir), show (fs.held ROOTINO).inode ROOTINO = fs.inode ROOTINO from rfl,
      hmissing]
  unfold create
  rw [nameiparent_swapPath h, ok_bind]
  simp only [hlock, ok_bind, hlookup, reduceCtorEq, if_false, pure_eq_ok]

/-- The root keeps a reference besides the one of the walk. -/
theorem iget_root {fs1 : Fs} {n : Nat} (h : fs.RootOk) (hget : (fs.held ROOTINO).iget n = .ok fs1) :
    1 < fs1.iref ROOTINO := by
  obtain ⟨-, hother, hself, -⟩ := iget_ok hget
  have hroot : (fs.held ROOTINO).iref ROOTINO = fs.iref ROOTINO + 1 := by simp [held, setRef]
  have href := h.ref
  by_cases hn : ROOTINO = n
  · subst hn
    rw [(hself (by omega)).2, hroot]
    omega
  · rw [(hother ROOTINO hn).1, hroot]
    omega

/-- The name is taken: the inode has to be a regular file. -/
theorem create_taken (h : fs.RootOk) {ip i : Nat}
    (hfind : findEntry (fs.inode ROOTINO) (swapEntry pid) = some (ip, i)) (hget : fs.CanIget ip)
    (htype : (fs.inode ip).type = .T_FILE) :
    ∃ fs', fs.create cwd (swapPath pid) .T_FILE 0 = .ok (some ip, fs') ∧
      Created fs fs' (swapEntry pid) ip := by
  obtain ⟨fs1, hfs1⟩ := iget_returns.mpr ((held_canIget h.ref).mpr hget)
  obtain ⟨href, -, -, iref, ivalid, heq⟩ := iget_ok hfs1
  have hne : ip ≠ ROOTINO := by
    rintro rfl
    rw [h.isDir] at htype
    cases htype
  have hunlock := iunlockput_held (iget_root h hfs1)
  have htype1 : (fs1.inode ip).type = .T_FILE := by
    rw [heq]
    exact htype
  set fs2 := fs1.setRef ROOTINO (fs1.iref ROOTINO - 1) with hfs2
  have href2 : 0 < fs2.iref ip := by simpa [hfs2, setRef, hne] using href
  have htype2 : (fs2.inode ip).type = .T_FILE := htype1
  obtain ⟨fs3, hlock⟩ : ∃ fs3, fs2.ilock ip = .ok fs3 :=
    ⟨_, ilock_eq href2 (by rw [htype2]; exact nofun)⟩
  obtain ⟨-, ivalid3, rfl⟩ := ilock_ok hlock
  refine ⟨{ fs2 with ivalid := ivalid3 }, ?_, ?_⟩
  · rw [create_found cwd pid h hfind, hfs1, ok_bind, hunlock, ok_bind, hlock, ok_bind]
    have htype3 : (({ fs2 with ivalid := ivalid3 } : Fs).inode ip).type = .T_FILE := htype2
    rw [if_pos htype3]
    rfl
  · have hdisk : fs2.inode = fs.inode ∧ fs2.ftable = fs.ftable ∧ fs2.freeBlocks = fs.freeBlocks := by
      rw [hfs2, heq]
      exact ⟨rfl, rfl, rfl⟩
    refine ⟨hdisk.2.1, href2, htype2, ?_, ?_, ?_⟩
    · intro n _
      exact congrFun hdisk.1 n
    · rw [hfind]
      exact congrArg Inode.size (congrFun hdisk.1 ip)
    · rw [hfind]
      exact hdisk.2.2

theorem ialloc_eq (type : InodeType) : fs.ialloc type = match fs.freeInode with
    | none => panic "ialloc: no inodes"
    | some n => do
      let fs ← (fs.setInode n { type, major := 0, nlink := 0, size := 0, data := fun _ => 0, dents := [] }).iget n
      return (n, fs) := rfl

/-- The name is free: what is left to do is to write the entry. -/
theorem create_new (h : fs.RootOk) {n : Nat}
    (hfind : findEntry (fs.inode ROOTINO) (swapEntry pid) = none) (hfree : fs.freeInode = some n)
    (hget : fs.CanIget n) : ∃ fs1 : Fs, 1 < fs1.iref ROOTINO ∧ 0 < fs1.iref n ∧ fs1.ftable = fs.ftable ∧
      fs1.freeBlocks = fs.freeBlocks ∧ (∃ x : Inode, x.type = .T_FILE ∧ x.size = 0 ∧
        fs1.inode = Function.update fs.inode n x) ∧
      fs.create cwd (swapPath pid) .T_FILE 0 = (do
        let fs ← fs1.writeEntry ROOTINO (freeEntry (fs.inode ROOTINO)) ⟨n, (swapEntry pid).take DIRSIZ⟩
        let fs ← fs.iunlockput ROOTINO
        return (some n, fs)) := by
  have hn : n ≠ 0 ∧ (fs.inode n).type = .free := by simpa using List.find?_some hfree
  have hne : ROOTINO ≠ n := by
    intro heq
    rw [← heq, h.isDir] at hn
    cases hn.2
  set new : Inode :=
    { type := .T_FILE, major := 0, nlink := 0, size := 0, data := fun _ => 0, dents := [] } with hnew
  obtain ⟨fs1, hfs1⟩ : ∃ fs1, ((fs.held ROOTINO).setInode n new).iget n = .ok fs1 :=
    iget_returns.mpr ((held_canIget h.ref).mpr hget)
  obtain ⟨href, hother, -, iref, ivalid, heq⟩ := iget_ok hfs1
  have hialloc : (fs.held ROOTINO).ialloc .T_FILE = .ok (n, fs1) := by
    rw [ialloc_eq, show (fs.held ROOTINO).freeInode = some n from hfree]
    simp only [← hnew, hfs1, ok_bind, pure_eq_ok]
  have hinode1 : fs1.inode = Function.update fs.inode n new := by
    rw [heq]
    rfl
  have htype1 : (fs1.inode n).type = .T_FILE := by
    rw [hinode1, Function.update_self]
  obtain ⟨fs2, hlock⟩ : ∃ fs2, fs1.ilock n = .ok fs2 :=
    ⟨_, ilock_eq href (by rw [htype1]; exact nofun)⟩
  obtain ⟨-, ivalid2, hfs2⟩ := ilock_ok hlock
  have hroot1 : 1 < fs1.iref ROOTINO := by
    rw [(hother ROOTINO hne).1]
    have hpos := h.ref
    have : ((fs.held ROOTINO).setInode n new).iref ROOTINO = fs.iref ROOTINO + 1 := by
      simp [held, setRef, setInode]
    omega
  set x : Inode := { fs2.inode n with major := 0, nlink := 1 } with hx
  have hx2 : fs2.inode n = new := by
    rw [hfs2]
    show fs1.inode n = new
    rw [hinode1, Function.update_self]
  refine ⟨fs2.setInode n x, ?_, ?_, ?_, ?_, ⟨x, ?_, ?_, ?_⟩, ?_⟩
  · rw [hfs2]
    exact hroot1
  · rw [hfs2]
    exact href
  · rw [hfs2, heq]
    rfl
  · rw [hfs2, heq]
    rfl
  · rw [hx, hx2]
  · rw [hx, hx2]
  · show Function.update fs2.inode n x = _
    rw [hfs2]
    show Function.update fs1.inode n x = _
    rw [hinode1, Function.update_idem]
  · have hroot : (fs2.setInode n x).inode ROOTINO = fs.inode ROOTINO := by
      rw [hfs2]
      simp [setInode, hinode1, hne]
    have hlookup : (fs2.setInode n x).dirlookup ROOTINO (swapEntry pid) =
        .ok (none, fs2.setInode n x) := by
      unfold dirlookup
      rw [hroot, if_neg (fun hne => hne h.isDir), hfind]
    have hlink : (fs2.setInode n x).dirlink ROOTINO (swapEntry pid) n = (do
        let fs ← (fs2.setInode n x).writeEntry ROOTINO (freeEntry (fs.inode ROOTINO))
          ⟨n, (swapEntry pid).take DIRSIZ⟩
        return (0, fs)) := by
      unfold dirlink
      rw [hlookup, ok_bind]
      simp only [hroot]
      rfl
    rw [create_missing cwd pid h hfind, hialloc, ok_bind]
    simp only [hlock, ok_bind, ← hx, hlink, bind_assoc, pure_eq_ok]
    rfl

theorem entryRoom_congr {fs1 : Fs} {x : Inode} (h : fs1.freeBlocks = fs.freeBlocks) :
    fs1.EntryRoom x ↔ fs.EntryRoom x := by
  unfold EntryRoom
  rw [h]

/-- The name is free and there is room for a new file. -/
theorem create_made (h : fs.RootOk) {n : Nat}
    (hfind : findEntry (fs.inode ROOTINO) (swapEntry pid) = none) (hfree : fs.freeInode = some n)
    (hget : fs.CanIget n) (hroom : fs.EntryRoom (fs.inode ROOTINO)) :
    ∃ fs', fs.create cwd (swapPath pid) .T_FILE 0 = .ok (some n, fs') ∧
      Created fs fs' (swapEntry pid) n := by
  have hn : n ≠ 0 ∧ (fs.inode n).type = .free := by simpa using List.find?_some hfree
  have hne : n ≠ ROOTINO := by
    rintro rfl
    rw [h.isDir] at hn
    cases hn.2
  obtain ⟨fs1, hroot1, hn1, hftable, hblocks, ⟨x, hx, hxsize, hinode⟩, hcreate⟩ :=
    create_new cwd pid h hfind hfree hget
  have hinode1 : fs1.inode ROOTINO = fs.inode ROOTINO := by
    rw [hinode, Function.update_of_ne (Ne.symm hne)]
  have hroom1 : fs1.EntryRoom (fs1.inode ROOTINO) := by rwa [hinode1, entryRoom_congr hblocks]
  obtain ⟨fs2, hwrite⟩ := (writeEntry_returns ⟨n, (swapEntry pid).take DIRSIZ⟩).mpr hroom1
  obtain ⟨dents, hfs2⟩ := writeEntry_ok hwrite
  have href2 : fs2.iref = fs1.iref := by rw [hfs2]
  have hinode2 : ∀ i, i ≠ ROOTINO → fs2.inode i = fs1.inode i := by
    intro i hi
    rw [hfs2]
    exact Function.update_of_ne hi _ _
  have hheld : 1 < fs2.iref ROOTINO := by rwa [href2]
  have hunlock := iunlockput_held hheld
  rw [hinode1] at hwrite
  refine ⟨fs2.setRef ROOTINO (fs2.iref ROOTINO - 1), ?_, ?_⟩
  · rw [hcreate, hwrite, ok_bind, hunlock]
    rfl
  · have hfile : ((fs2.setRef ROOTINO (fs2.iref ROOTINO - 1)).inode n) = x := by
      show fs2.inode n = x
      rw [hinode2 n hne, hinode, Function.update_self]
    refine ⟨?_, ?_, ?_, ?_, ?_, ?_⟩
    · show fs2.ftable = fs.ftable
      rw [hfs2]
      exact hftable
    · simpa [setRef, hne, href2] using hn1
    · rw [hfile]
      exact hx
    · intro i hi
      have hir : i ≠ ROOTINO := by
        rintro rfl
        rw [h.isDir] at hi
        cases hi
      have hin : i ≠ n := by
        rintro rfl
        rw [hn.2] at hi
        cases hi
      show fs2.inode i = fs.inode i
      rw [hinode2 i hir, hinode, Function.update_of_ne hin]
    · rw [hfile, hfind]
      exact hxsize
    · rw [hfind]
      show fs2.freeBlocks = fs.freeBlocks - entryBlocks (fs.inode ROOTINO)
      rw [hfs2, hinode1]
      show fs1.freeBlocks - _ = _
      rw [hblocks]

/-- `create` returns an inode just when the file system has room for it and
    the name is not taken by anything but a regular file. -/
theorem create_returns (h : fs.RootOk) :
    (∃ b fs', fs.create cwd (swapPath pid) .T_FILE 0 = .ok (some b, fs')) ↔
      fs.Creatable (swapEntry pid) := by
  unfold Creatable
  cases hfind : findEntry (fs.inode ROOTINO) (swapEntry pid) with
  | some e =>
    obtain ⟨ip, i⟩ := e
    constructor
    · rintro ⟨b, fs', hok⟩
      rw [create_found cwd pid h hfind] at hok
      simp only [bind_eq_ok] at hok
      obtain ⟨fs1, hget, fs2, hunlock, fs3, hlock, hok⟩ := hok
      refine ⟨(held_canIget h.ref).mp (iget_returns.mp ⟨fs1, hget⟩), ?_⟩
      split at hok
      next htype =>
        obtain ⟨-, ivalid, rfl⟩ := ilock_ok hlock
        rw [iunlockput_held (iget_root h hget)] at hunlock
        cases hunlock
        obtain ⟨-, -, -, iref1, ivalid1, rfl⟩ := iget_ok hget
        exact htype
      · simp only [bind_eq_ok] at hok
        obtain ⟨fs4, -, hok⟩ := hok
        cases hok
    · rintro ⟨hget, htype⟩
      obtain ⟨fs', hok, -⟩ := create_taken cwd pid h hfind hget htype
      exact ⟨ip, fs', hok⟩
  | none =>
    constructor
    · rintro ⟨b, fs', hok⟩
      have hialloc := hok
      rw [create_missing cwd pid h hfind, ialloc_eq] at hialloc
      cases hfree : fs.freeInode with
      | none =>
        rw [show (fs.held ROOTINO).freeInode = none from hfree] at hialloc
        cases hialloc
      | some n =>
        rw [show (fs.held ROOTINO).freeInode = some n from hfree] at hialloc
        simp only [bind_eq_ok] at hialloc
        obtain ⟨-, ⟨fs1, hget, -⟩, -⟩ := hialloc
        have hget' : fs.CanIget n := by
          have hheld := iget_returns.mp ⟨fs1, hget⟩
          exact (held_canIget h.ref).mp hheld
        obtain ⟨fs1, -, -, -, hblocks, ⟨x, -, -, hinode⟩, hcreate⟩ := create_new cwd pid h hfind hfree hget'
        rw [hcreate] at hok
        simp only [bind_eq_ok] at hok
        obtain ⟨fs2, hwrite, -⟩ := hok
        have hn : n ≠ 0 ∧ (fs.inode n).type = .free := by simpa using List.find?_some hfree
        have hinode1 : fs1.inode ROOTINO = fs.inode ROOTINO := by
          rw [hinode, Function.update_of_ne]
          rintro rfl
          rw [h.isDir] at hn
          cases hn.2
        refine ⟨⟨n, rfl, hget'⟩, ?_⟩
        rw [← entryRoom_congr hblocks, ← hinode1]
        exact (writeEntry_returns _).mp ⟨fs2, by rwa [hinode1]⟩
    · rintro ⟨⟨n, hfree, hget⟩, hroom⟩
      obtain ⟨fs', hok, -⟩ := create_made cwd pid h hfind hfree hget hroom
      exact ⟨n, fs', hok⟩

/-- What `create` returns then. -/
theorem create_created (h : fs.RootOk) (hc : fs.Creatable (swapEntry pid)) :
    ∃ b fs', fs.create cwd (swapPath pid) .T_FILE 0 = .ok (some b, fs') ∧
      Created fs fs' (swapEntry pid) b := by
  unfold Creatable at hc
  cases hfind : findEntry (fs.inode ROOTINO) (swapEntry pid) with
  | some e =>
    rw [hfind] at hc
    exact ⟨e.1, create_taken cwd pid h hfind hc.1 hc.2⟩
  | none =>
    rw [hfind] at hc
    obtain ⟨⟨n, hfree, hget⟩, hroom⟩ := hc
    exact ⟨n, create_made cwd pid h hfind hfree hget hroom⟩

end create

end Fs

/-! ### `createSwapFile` -/

/-- The file system and the file table have room for the swap file of process `pid`. -/
def SwapFileCreatable (fs : Fs) (pid : Nat) : Prop :=
  fs.Creatable (swapEntry pid) ∧ ∃ f, (fs.ftable f).ref = 0

/-- The swap file `f` that was opened for process `pid`. -/
structure SwapFileCreated (fs fs' : Fs) (pid : Nat) (f : Fin NFILE) : Prop where
  unused : (fs.ftable f).ref = 0
  others : ∀ g, g ≠ f → fs'.ftable g = fs.ftable g
  isInode : (fs'.ftable f).type = .FD_INODE
  readable : (fs'.ftable f).readable = true
  writable : (fs'.ftable f).writable = true
  isFile : (fs'.inode (fs'.ftable f).ip).type = .T_FILE
  keeps : ∀ n, (fs.inode n).type = .T_FILE → fs'.inode n = fs.inode n
  size : (fs'.inode (fs'.ftable f).ip).size =
    (Fs.findEntry (fs.inode ROOTINO) (swapEntry pid)).elim 0 fun e => (fs.inode e.1).size
  blocks : fs'.freeBlocks = fs.freeBlocks -
    (Fs.findEntry (fs.inode ROOTINO) (swapEntry pid)).elim (Fs.entryBlocks (fs.inode ROOTINO)) fun _ => 0

/-- `filealloc` finds an entry if there is one. -/
theorem filealloc_eq {fs : Fs} (h : ∃ f, (fs.ftable f).ref = 0) :
    ∃ f, (fs.ftable f).ref = 0 ∧ fs.filealloc = (some f, fs.setFile f { fs.ftable f with ref := 1 }) := by
  unfold Fs.filealloc
  cases hfind : (List.finRange NFILE).find? fun f => (fs.ftable f).ref = 0 with
  | none =>
    obtain ⟨f, hf⟩ := h
    have hnone := List.find?_eq_none.mp hfind f (List.mem_finRange f)
    exact absurd hf (by simpa using hnone)
  | some f => exact ⟨f, by simpa using List.find?_some hfind, rfl⟩

theorem filealloc_some {fs fs' : Fs} {f : Fin NFILE} (h : fs.filealloc = (some f, fs')) :
    (fs.ftable f).ref = 0 := by
  unfold Fs.filealloc at h
  cases hfind : (List.finRange NFILE).find? fun f => (fs.ftable f).ref = 0 with
  | none =>
    rw [hfind] at h
    cases h
  | some g =>
    rw [hfind] at h
    cases h
    simpa using List.find?_some hfind

/-- With room, `createSwapFile` gives the process a new open file. -/
theorem createSwapFile_eq {k : Kernel} {p : ProcId} (h : k.fs.RootOk)
    (hc : SwapFileCreatable k.fs (k.proc p).pid) :
    ∃ fs' f, createSwapFile k p =
        .ok ({ k with fs := fs' }.setProc p { k.proc p with swapFile := some f }) ∧
      SwapFileCreated k.fs fs' (k.proc p).pid f := by
  obtain ⟨hcreate, hfile⟩ := hc
  obtain ⟨b, fs1, hok, hcreated⟩ := Fs.create_created k.cur.cwd (k.proc p).pid h hcreate
  have hfree : ∃ f, (fs1.ftable f).ref = 0 := by rwa [hcreated.ftable]
  obtain ⟨f, hf, halloc⟩ := filealloc_eq hfree
  have hunlock : fs1.iunlock (some b) = .ok fs1 := by
    unfold Fs.iunlock
    have href := hcreated.ref
    simp only [if_neg (by omega : ¬ fs1.iref b < 1)]
  set fs2 := fs1.setFile f { fs1.ftable f with ref := 1 } with hfs2
  refine ⟨fs2.setFile f { fs2.ftable f with
    type := .FD_INODE, ip := b, off := 0, readable := true, writable := true }, f, ?_, ?_⟩
  · unfold createSwapFile
    rw [hok, ok_bind]
    simp only [hunlock, ok_bind, deref_some, halloc]
    rfl
  · refine ⟨by rwa [← hcreated.ftable], ?_, ?_, ?_, ?_, ?_, ?_, ?_, ?_⟩
    · intro g hg
      simp [hfs2, Fs.setFile, hg, hcreated.ftable]
    all_goals simp only [Fs.setFile, Function.update_self]
    · exact hcreated.isFile
    · exact hcreated.keeps
    · exact hcreated.size
    · exact hcreated.blocks

/-- The kernel survives `createSwapFile` just when there is room. -/
theorem createSwapFile_returns {k : Kernel} {p : ProcId} (h : k.fs.RootOk) :
    (∃ k', createSwapFile k p = .ok k') ↔ SwapFileCreatable k.fs (k.proc p).pid := by
  constructor
  · rintro ⟨k', hok⟩
    simp only [createSwapFile, bind_eq_ok, deref_eq_ok] at hok
    obtain ⟨⟨r, fs1⟩, hcreate, fs2, hunlock, ip, hr, hok⟩ := hok
    simp only at hunlock hr
    subst hr
    have hc := (Fs.create_returns k.cur.cwd (k.proc p).pid h).mp ⟨ip, fs1, hcreate⟩
    refine ⟨hc, ?_⟩
    obtain ⟨b, fs', hcreate', hcreated⟩ := Fs.create_created k.cur.cwd (k.proc p).pid h hc
    rw [hcreate] at hcreate'
    cases hcreate'
    have hftable : fs2.ftable = k.fs.ftable := by
      rw [Fs.iunlock_ok hunlock]
      exact hcreated.ftable
    split at hok
    · cases hok
    next f fs3 halloc =>
      exact ⟨f, by rw [← hftable]; exact filealloc_some halloc⟩
  · intro hc
    obtain ⟨fs', f, hok, -⟩ := createSwapFile_eq h hc
    exact ⟨_, hok⟩

end Paging
