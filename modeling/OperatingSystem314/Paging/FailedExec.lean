import OperatingSystem314.Paging.Layout
import OperatingSystem314.Paging.Release
import OperatingSystem314.Paging.SafeEviction
import OperatingSystem314.Paging.SwapCount

/-! # What a failed `exec` leaves

    The metadata are reset as soon as there is a new directory, and no exit
    after that restores them.  What they were before makes no difference to
    what the rest of `exec` does, so for some process it is lost.

    * `Intact`: the page table and the paging metadata are what they were.
    * `exec_intact_iff`: when a failed `exec` leaves every process intact.
    * `exec_forgets_pages`: a bad program header is enough. -/

namespace Paging

/-! ### Processes before and after -/

structure Intact (k k' : Kernel) : Prop where
  dir : k'.cur.pgdir = k.cur.pgdir
  table : k'.pgdir k.cur.pgdir = k.pgdir k.cur.pgdir
  phy : k'.cur.nPagesInPhyMemory = k.cur.nPagesInPhyMemory
  swap : k'.cur.nPagesInSwapFile = k.cur.nPagesInSwapFile
  head : k'.cur.head = k.cur.head
  cells : k'.cur.pagesInPhyMem = k.cur.pagesInPhyMem
  slots : k'.cur.pagesInSwapFile = k.cur.pagesInSwapFile

/-- The process with the paging metadata of `x`. -/
def Proc.withPaging (y x : Proc) : Proc :=
  { y with
    nPagesInPhyMemory := x.nPagesInPhyMemory
    nPagesInSwapFile := x.nPagesInSwapFile
    head := x.head
    pagesInPhyMem := x.pagesInPhyMem
    pagesInSwapFile := x.pagesInSwapFile }

def Kernel.withPaging (k : Kernel) (x : Proc) : Kernel := k.modCur fun y => y.withPaging x

/-- A failed `exec` leaves the caller intact, whichever of its pages are
    resident and which are swapped out. -/
def FailsIntact (k : Kernel) (path : Nat) (argv : List Nat) : Prop :=
  ∀ x k', exec (k.withPaging x) path argv = .ok (-1, k') → Intact (k.withPaging x) k'

/-- The name is that of no inode, or of one without the header of an
    executable, or there is no memory for a new directory. -/
def Refuses (k : Kernel) (name : List UInt8) : Prop :=
  ∃ r fs, k.fs.namei k.cur.cwd (name.map fun b => Char.ofNat b.toNat) = .ok (r, fs) ∧
    (r = none ∨ ∃ ip fs', r = some ip ∧ fs.ilock ip = .ok fs' ∧
      (isElf fs' ip = false ∨ k.freelist.length < KVMPAGES))

variable {k k' k1 : Kernel} {path : Nat} {argv : List Nat} {bs : List UInt8}

theorem withPaging_cur (k : Kernel) : k.withPaging k.cur = k := k.setCur_self

theorem withPaging_counted (k : Kernel) : k.withPaging (k.cur.count 0 1) = k.counted := by
  unfold Kernel.withPaging Kernel.counted Kernel.modCur
  congr 1

theorem StringAt.withPaging (h : StringAt k path bs) (x : Proc) : StringAt (k.withPaging x) path bs := by
  apply h.congr
  intro a
  rw [show (k.withPaging x).cur.pgdir = k.cur.pgdir by rw [Kernel.withPaging, Kernel.modCur_cur]; rfl]
  rfl

theorem Refuses.withPaging (h : Refuses k bs) (x : Proc) : Refuses (k.withPaging x) bs := by
  unfold Refuses
  rw [show (k.withPaging x).cur.cwd = k.cur.cwd by rw [Kernel.withPaging, Kernel.modCur_cur]; rfl]
  exact h

/-! ### Up to the reset -/

/-- What `execInode` finds, once it has read the path. -/
theorem execInode_ok {q : Option Nat} (h : execInode k path = .ok (q, k1)) : ∃ bs k2 fs,
    kernelString MAXSTR k path = .ok (bs, k2) ∧
      k2.fs.namei k2.cur.cwd (bs.map fun b => Char.ofNat b.toNat) = .ok (q, fs) ∧
      ((q = none ∧ k1 = { k2 with fs }) ∨ ∃ ip fs', q = some ip ∧ fs.ilock ip = .ok fs' ∧ k1 = { k2 with fs := fs' }) := by
  unfold execInode at h
  rw [bind_eq_ok] at h
  obtain ⟨⟨bs, k2⟩, hstr, h⟩ := h
  rw [bind_eq_ok] at h
  obtain ⟨⟨r, fs⟩, hnamei, h⟩ := h
  refine ⟨bs, k2, fs, hstr, ?_⟩
  cases r with
  | none =>
    cases h
    exact ⟨hnamei, .inl ⟨rfl, rfl⟩⟩
  | some ip =>
    simp only [bind_eq_ok] at h
    obtain ⟨fs', hlock, h⟩ := h
    cases h
    exact ⟨hnamei, .inr ⟨ip, fs', rfl, hlock, rfl⟩⟩

theorem setupkvm_length {d : Nat} (h : setupkvm k = .ok (some d, k')) : KVMPAGES ≤ k.freelist.length := by
  unfold setupkvm kalloc at h
  cases hfree : k.freelist with
  | nil =>
    rw [hfree] at h
    cases h
  | cons f rest =>
    rw [hfree] at h
    simp only [] at h
    split at h
    next hlen =>
      rw [List.length_take] at hlen
      rw [List.length_cons]
      unfold KVMPAGES
      omega
    next =>
      rw [bind_eq_ok] at h
      obtain ⟨k1, -, h⟩ := h
      cases h

/-- An attempt to make a directory that fails gives everything back. -/
theorem setupkvm_none_intact (hdir : k.cur.pgdir ∉ k.freelist) (h : setupkvm k = .ok (none, k')) : Intact k k' := by
  have hcur : k'.cur = k.cur := (setupkvm_mem h).cur
  have htable : k'.pgdir k.cur.pgdir = k.pgdir k.cur.pgdir := by
    rcases setupkvm_beside h with ⟨-, rfl, -⟩ | ⟨d, rest, hfree, hbeside, -⟩
    · rfl
    · apply hbeside.pgdirs
      rintro rfl
      rw [hfree] at hdir
      exact hdir List.mem_cons_self
  exact ⟨by rw [hcur], htable, by rw [hcur], by rw [hcur], by rw [hcur], by rw [hcur], by rw [hcur]⟩

/-- Only the file system has changed. -/
theorem Intact.of_fs (h : Intact k k1) (hfs : k' = { k1 with fs := k'.fs }) : Intact k k' := by
  have hcur : k'.cur = k1.cur := by
    rw [hfs]
    rfl
  have hpgdir : k'.pgdir = k1.pgdir := by rw [hfs]
  refine ⟨by rw [hcur, h.dir], by rw [hpgdir, h.table], by rw [hcur, h.phy], by rw [hcur, h.swap],
    by rw [hcur, h.head], by rw [hcur, h.cells], by rw [hcur, h.slots]⟩

theorem Intact.refl (k : Kernel) : Intact k k := ⟨rfl, rfl, rfl, rfl, rfl, rfl, rfl⟩

theorem exec_failed (h : exec k path argv = .ok (-1, k')) : execImage k path argv = .ok (none, k') := by
  unfold exec at h
  rw [bind_eq_ok] at h
  obtain ⟨⟨img, k1⟩, himage, h⟩ := h
  cases img with
  | none =>
    cases h
    exact himage
  | some img =>
    simp only [bind_eq_ok] at h
    obtain ⟨k2, -, h⟩ := h
    cases h

/-- A refusal comes before the reset. -/
theorem Refuses.intact (hdir : k.cur.pgdir ∉ k.freelist) (hpath : StringAt k path bs) (h : Refuses k bs)
    (hexec : exec k path argv = .ok (-1, k')) : Intact k k' := by
  obtain ⟨r, fs, hnamei, hr⟩ := h
  rcases execImage_ok (exec_failed hexec) with ⟨q, k1, k2, hinode, hk2, -, hfs⟩ | ⟨ip, k1, d, k2, hinode, helf, hsetup, -⟩
  · have h1 := execInode_resident hpath hinode
    have hk1 : Intact k k1 := (Intact.refl k).of_fs h1
    apply Intact.of_fs _ hfs
    rcases hk2 with ⟨-, rfl⟩ | ⟨ip, -, ⟨-, rfl⟩ | ⟨-, hsetup⟩⟩
    · exact hk1
    · exact hk1
    · have hdir1 : k1.cur.pgdir ∉ k1.freelist := by
        rw [h1]
        exact hdir
      have h2 := setupkvm_none_intact hdir1 hsetup
      rw [h1] at h2
      exact ⟨h2.dir, h2.table, h2.phy, h2.swap, h2.head, h2.cells, h2.slots⟩
  · -- there is an executable, and a directory for it
    exfalso
    obtain ⟨bs', k3, fs', hstr, hnamei', hq⟩ := execInode_ok hinode
    rw [hpath.kernelString_eq hpath.short] at hstr
    cases hstr
    rw [hnamei] at hnamei'
    cases hnamei'
    obtain ⟨hnone, -⟩ | ⟨ip', fs1, hip, hlock, hk1⟩ := hq
    · cases hnone
    cases hip
    obtain hr | ⟨ip', fs2, hip, hlock', hr⟩ := hr
    · cases hr
    cases hip
    rw [hlock] at hlock'
    cases hlock'
    rw [hk1] at helf hsetup
    rcases hr with hr | hr
    · rw [hr] at helf
      cases helf
    · exact absurd (setupkvm_length hsetup) (Nat.not_le_of_lt hr)

/-! ### After the reset -/

theorem execInode_counted (k : Kernel) (path : Nat) : execInode k.counted path = onKernel (execInode k path) := by
  unfold execInode
  rw [kernelString_counted]
  cases kernelString MAXSTR k path with
  | error => rfl
  | ok r =>
    obtain ⟨bs, k1⟩ := r
    simp only [onKernel, Except.map, ok_bind, Prod.map, id, Kernel.counted_fs, Kernel.counted_cur]
    rw [show (k1.cur.count 0 1).cwd = k1.cur.cwd from rfl]
    cases k1.fs.namei k1.cur.cwd (bs.map fun b => Char.ofNat b.toNat) with
    | error => rfl
    | ok r =>
      obtain ⟨q, fs⟩ := r
      cases q with
      | none => rfl
      | some ip =>
        simp only [ok_bind]
        cases fs.ilock ip with
        | error => rfl
        | ok fs' => rfl

theorem setupkvm_counted {d : Nat} (h : setupkvm k = .ok (some d, k')) :
    setupkvm k.counted = .ok (some d, k'.counted) := by
  have hlen : KVMPAGES ≤ k.freelist.length := setupkvm_length h
  obtain ⟨rest, hfree, rfl⟩ := setupkvm_some h
  obtain ⟨d', rest', hfree', hsetup⟩ := setupkvm_eq (k := k.counted) hlen
  obtain ⟨rfl, rfl⟩ := List.cons.inj (hfree.symm.trans hfree')
  exact hsetup

/-- The reset forgets the counter. -/
theorem execLoad_counted (k : Kernel) (d ip : Nat) (argv : List Nat) :
    execLoad k.counted d ip argv = execLoad k d ip argv := by
  have hreset : k.counted.modCur Proc.resetPaging = k.modCur Proc.resetPaging := by
    unfold Kernel.counted
    rw [Kernel.modCur_modCur]
    rfl
  unfold execLoad
  rw [hreset]
  rfl

/-- A failure after the reset leaves the same kernel behind, whatever the
    counter was. -/
theorem exec_counted {ip d : Nat} {k2 : Kernel} (hinode : execInode k path = .ok (some ip, k1))
    (helf : isElf k1.fs ip = true) (hsetup : setupkvm k1 = .ok (some d, k2))
    (hload : execLoad k2 d ip argv = .ok (none, k')) : exec k.counted path argv = .ok (-1, k') := by
  have hinode' : execInode k.counted path = .ok (some ip, k1.counted) := by
    rw [execInode_counted, hinode]
    rfl
  have himage : execImage k.counted path argv = .ok (none, k') := by
    unfold execImage
    rw [hinode', ok_bind]
    simp only []
    rw [Kernel.counted_fs, helf, if_neg (by decide), setupkvm_counted hsetup, ok_bind]
    simp only []
    rw [execLoad_counted, hload]
  unfold exec
  rw [himage]
  rfl

/-- A failed `exec` leaves the caller intact exactly when it gives up before
    the reset and the name is read without a fault. -/
theorem exec_intact_iff (hdir : k.cur.pgdir ∉ k.freelist) (h : exec k path argv = .ok (-1, k')) :
    FailsIntact k path argv ↔ ∃ bs, StringAt k path bs ∧ Refuses k bs := by
  constructor
  · intro hintact
    have hself : Intact k k' := by
      have hx := hintact k.cur k'
      rw [withPaging_cur] at hx
      exact hx h
    rcases execImage_ok (exec_failed h) with ⟨q, k1, k2, hinode, hk2, -, hfs⟩ | ⟨ip, k1, d, k2, hinode, helf, hsetup, hload⟩
    · obtain ⟨bs, k3, fs, hstr, hnamei, hq⟩ := execInode_ok hinode
      have hcur1 : k1.cur = k3.cur := by
        rcases hq with ⟨-, rfl⟩ | ⟨_, _, -, -, rfl⟩
        · rfl
        · rfl
      have hcur : k'.cur = k3.cur := by
        have hcur2 : k2.cur = k1.cur := by
          rcases hk2 with ⟨-, rfl⟩ | ⟨_, -, ⟨-, rfl⟩ | ⟨-, hsetup⟩⟩
          · rfl
          · rfl
          · exact (setupkvm_mem hsetup).cur
        rw [hfs, ← hcur1, ← hcur2]
        rfl
      rcases kernelString_cases hstr with ⟨rfl, hlen, hne, hbytes⟩ | hlt
      · refine ⟨bs, ⟨hlen, hne, hbytes⟩, q, fs, hnamei, ?_⟩
        rcases hk2 with ⟨rfl, -⟩ | ⟨ip, rfl, hip⟩
        · exact .inl rfl
        · obtain ⟨hnone, -⟩ | ⟨ip', fs', hip', hlock, rfl⟩ := hq
          · cases hnone
          cases hip'
          refine .inr ⟨ip, fs', rfl, hlock, ?_⟩
          rcases hip with ⟨helf, -⟩ | ⟨-, hsetup⟩
          · exact .inl helf
          · right
            by_contra hlong
            obtain ⟨d, rest, -, hsome⟩ := setupkvm_eq (k := { k3 with fs := fs' }) (Nat.le_of_not_lt hlong)
            rw [hsome] at hsetup
            cases hsetup
      · -- a fault on the name is counted
        have hswap := hself.swap
        rw [hcur] at hswap
        omega
    · -- two callers that differ in the counter cannot both be left as they were
      exfalso
      have hcounted : Intact k.counted k' := by
        have hx := hintact (k.cur.count 0 1) k'
        rw [withPaging_counted] at hx
        exact hx (exec_counted hinode helf hsetup hload)
      have hswap := hcounted.swap
      rw [hself.swap, Kernel.counted_cur, Proc.count_nPagesInSwapFile] at hswap
      omega
  · rintro ⟨bs, hpath, hrefuses⟩
    intro x k1 h1
    refine (hrefuses.withPaging x).intact ?_ (hpath.withPaging x) h1
    rw [show (k.withPaging x).cur.pgdir = k.cur.pgdir by rw [Kernel.withPaging, Kernel.modCur_cur]; rfl]
    exact hdir

/-! ### A bad program header -/

open Layout

/-- A file header with one program header after it, of a segment that has
    more bytes in the file than in memory. -/
def badProgram : Inode where
  type := .T_FILE
  major := 0
  nlink := 1
  size := 84
  data := fun j =>
    -- 0x7F 'E' 'L' 'F', phoff, phnum; p_type, p_filesz
    if j = 0 then 0x7F else if j = 1 then 0x45 else if j = 2 then 0x4C else if j = 3 then 0x46
    else if j = 28 then 52 else if j = 44 then 1
    else if j = 52 then 1 else if j = 68 then 1 else 0
  dents := []

/-- The program is the file `x`, and `x` is what the user has at address 0. -/
def badMemory (va : Nat) : UInt8 := if va = 0 then 120 else 0

def badFs : Fs :=
  let fs := Layout.fs [15 * PGSIZE] badMemory
  let root := fs.inode ROOTINO
  (fs.setInode ROOTINO { root with dents := root.dents ++ [⟨6, ['x']⟩] }).setInode 6 badProgram

/-- Fifteen pages in memory and one in the swap file. -/
def badCaller : Kernel := { layout PGSIZE fifteen [15 * PGSIZE] badMemory with fs := badFs }

theorem badCaller_paged : Paged PGSIZE badCaller (16 * PGSIZE) fifteen [15 * PGSIZE] badMemory := by
  have h : Paged PGSIZE (layout PGSIZE fifteen [15 * PGSIZE] badMemory) (16 * PGSIZE) fifteen [15 * PGSIZE] badMemory := by
    refine layout_paged sixteenPages_paged.mem.nodup sixteenPages_paged.mem.pages (by decide) (by decide) ?_
    intro va hle
    have hpos : va ≠ 0 := by
      rintro rfl
      exact absurd hle (by decide)
    exact if_neg hpos
  refine ⟨h.locks, h.pid, h.fifo, h.slots, ⟨0, rfl, ?_⟩, h.mem, h.counted, h.bounded⟩
  have hbacked := layout_backed (s := [15 * PGSIZE]) (m := badMemory)
  exact ⟨⟨rfl, rfl, rfl, rfl, hbacked.file.filled, hbacked.file.room⟩, hbacked.bytes⟩

theorem badCaller_name : StringAt badCaller 0 [120] := by
  refine ⟨by decide, List.forall_mem_singleton.mpr (by decide), ?_⟩
  intro i hi
  have hi : i = 0 ∨ i = 1 := by
    simp only [List.length_singleton] at hi
    omega
  rcases hi with rfl | rfl
  · decide +kernel
  · decide +kernel

theorem badCaller_inode : ∃ fs, execInode badCaller 0 = .ok (some 6, { badCaller with fs }) ∧
    isElf fs 6 = true ∧ (elfhdr (fs.bytes 6 0)).phnum = 1 ∧
    fs.inode 6 = badProgram ∧ (elfhdr (fs.bytes 6 0)).phoff = 52 ∧ 0 < fs.iref 6 := by
  have hnamei : ∃ fs, badFs.namei ROOTINO ['x'] = .ok (some 6, fs) ∧ ∃ fs', fs.ilock 6 = .ok fs' ∧
      isElf fs' 6 = true ∧ (elfhdr (fs'.bytes 6 0)).phnum = 1 ∧
      fs'.inode 6 = badProgram ∧ (elfhdr (fs'.bytes 6 0)).phoff = 52 ∧ 0 < fs'.iref 6 :=
    ⟨_, rfl, _, rfl, rfl, rfl, rfl, rfl, by decide +kernel⟩
  obtain ⟨fs, hnamei, fs', hlock, hfs'⟩ := hnamei
  refine ⟨fs', ?_, hfs'⟩
  unfold execInode
  rw [badCaller_name.kernelString_eq (by decide), ok_bind]
  have hwalk : badCaller.fs.namei badCaller.cur.cwd ([120].map fun b : UInt8 => Char.ofNat b.toNat) = .ok (some 6, fs) :=
    hnamei
  dsimp only
  rw [hwalk, ok_bind]
  dsimp only
  rw [hlock, ok_bind]
  rfl

/-- The only segment is refused. -/
theorem badProgram_segments {fs : Fs} (hinode : fs.inode 6 = badProgram) (d : Nat) {k : Kernel} (hfs : k.fs = fs) :
    loadSegments d 6 1 52 0 k = .ok (none, k) := by
  have hread : fs.readi 6 52 PROGHDR = PROGHDR := by
    unfold Fs.readi
    rw [hinode]
    rfl
  have hbytes : fs.bytes 6 52 = fun j => badProgram.byte (52 + j) := by
    unfold Fs.bytes
    rw [hinode]
  have hload : (proghdr fun j => badProgram.byte (52 + j)).type = ELF_PROG_LOAD := by decide +kernel
  have hlt : (proghdr fun j => badProgram.byte (52 + j)).memsz < (proghdr fun j => badProgram.byte (52 + j)).filesz := by
    decide +kernel
  have hsegment : loadSegment d 6 52 0 k = .ok (none, k) := by
    unfold loadSegment
    rw [hfs, hbytes, if_neg (not_not.mpr hread)]
    simp only []
    rw [if_neg (not_not.mpr hload), if_pos hlt]
  unfold loadSegments
  rw [hsegment]
  rfl

/-- The new directory is all that is freed. -/
theorem badCaller_fails : ∃ k', exec badCaller 0 [] = .ok (-1, k') ∧ k'.cur = badCaller.cur.resetPaging := by
  obtain ⟨fs, hinode, helf, hphnum, hprogram, hphoff, href⟩ := badCaller_inode
  obtain ⟨d, rest, hfree, hsetup⟩ := setupkvm_eq (k := { badCaller with fs }) (by
    show KVMPAGES ≤ freeFrames.length
    rw [freeFrames, List.length_range']
    decide)
  have hframes : ∀ f ∈ d :: rest, badCaller.FrameOk f := by
    intro f hf
    rw [← hfree] at hf
    obtain ⟨hlo, hhi⟩ := mem_freeFrames.mp hf
    refine ⟨?_, ?_⟩
    · show DIR ≤ f
      exact Nat.le_trans (by decide) hlo
    · exact Nat.lt_of_lt_of_le hhi (by decide)
  set k1 : Kernel := { badCaller with
    fs
    freelist := rest.drop NKERNTABLES
    pgdir := Function.update badCaller.pgdir d { kern := rest.take NKERNTABLES, pde := fun _ => none } } with hk1
  have hfreeable : Freeable (k1.modCur Proc.resetPaging) d := by
    refine .of_new (show 0 < DIR by decide) (hframes d List.mem_cons_self) ?_ (Function.update_self _ _ _)
    intro t ht
    exact hframes t (List.mem_cons_of_mem _ (List.mem_of_mem_take ht))
  obtain ⟨k2, hvm⟩ := freevm_returns hfreeable
  obtain ⟨_, _, _, hk2⟩ := freevm_mem hvm
  have hput : k2.fs.iunlockput 6 = .ok (fs.iput 6) := by
    rw [hk2]
    show fs.iunlockput 6 = _
    unfold Fs.iunlockput Fs.iunlock
    dsimp only
    rw [if_neg (Nat.not_lt.mpr href)]
    rfl
  have hload : execLoad k1 d 6 [] = .ok (none, { k2 with fs := fs.iput 6 }) := by
    have hsegments := badProgram_segments hprogram d (k := k1.modCur Proc.resetPaging) rfl
    unfold execLoad
    rw [show k1.fs = fs from rfl]
    dsimp only
    rw [hphnum, hphoff, hsegments, ok_bind]
    simp only [execBad, Option.elim_some, hvm, hput, ok_bind]
    rfl
  refine ⟨{ k2 with fs := fs.iput 6 }, ?_, ?_⟩
  · have himage : execImage badCaller 0 [] = .ok (none, { k2 with fs := fs.iput 6 }) := by
      unfold execImage
      rw [hinode, ok_bind]
      simp only []
      rw [helf, if_neg (by decide), hsetup, ok_bind]
      exact hload
    unfold exec
    rw [himage]
    rfl
  · have hcur : k2.cur = (k1.modCur Proc.resetPaging).cur := by
      rw [hk2]
      rfl
    exact hcur.trans (k1.modCur_cur _)

/-- The page in the swap file cannot be brought in any more. -/
theorem exec_forgets_pages : Paged PGSIZE badCaller (16 * PGSIZE) fifteen [15 * PGSIZE] badMemory ∧
    ∃ k', exec badCaller 0 [] = .ok (-1, k') ∧ ¬ Intact badCaller k' ∧
    slotOf badCaller.cur (15 * PGSIZE) = some 0 ∧ slotOf k'.cur (15 * PGSIZE) = none := by
  obtain ⟨k', hexec, hcur⟩ := badCaller_fails
  refine ⟨badCaller_paged, k', hexec, ?_, by decide, ?_⟩
  · intro hintact
    have hswap := hintact.swap
    rw [hcur] at hswap
    revert hswap
    decide
  · rw [hcur]
    decide

/-- The header is that of an executable, and there is memory for a
    directory. -/
theorem exec_intact_iff_badCaller : ∃ k', exec badCaller 0 [] = .ok (-1, k') ∧
    (FailsIntact badCaller 0 [] ↔ ∃ bs, StringAt badCaller 0 bs ∧ Refuses badCaller bs) := by
  obtain ⟨k', hexec, -⟩ := badCaller_fails
  have hdir : badCaller.cur.pgdir ∉ badCaller.freelist := by
    intro hmem
    exact absurd (mem_freeFrames.mp hmem).1 (by decide)
  exact ⟨k', hexec, exec_intact_iff hdir hexec⟩

end Paging
