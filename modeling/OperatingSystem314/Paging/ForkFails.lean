import OperatingSystem314.Paging.Dealloc
import OperatingSystem314.Paging.ForkReturns

/-! # What a failed `fork` leaves

    `copyuvm` gives back every frame it took, and `fork` the stack and the
    entry of the process table.  Nobody removes the swap file that
    `allocproc` has created and opened by then.

    `Accounted k0 k d out`: the frames that were free in `k0` are free,
    in hand (`out`), or owned by directory `d`. -/

namespace Paging

/-! ### The frames of a directory -/

theorem Pgdir.mem_tables {pd : Pgdir} {f : Nat} : f ∈ pd.tables ↔
    (∃ i < KERNBASE / PGSIZE / 1024, ∃ t, pd.pde i = some t ∧ t.ppn = f) ∨ f ∈ pd.kern := by
  simp [Pgdir.tables, List.mem_filterMap, List.mem_range]

theorem Pgdir.setPte_pde_none {pd : Pgdir} {va i : Nat} {x : Pte} :
    (pd.setPte va x).pde i = none ↔ pd.pde i = none := by
  unfold Pgdir.setPte
  cases ht : pd.pde (PDX va) with
  | none => rfl
  | some t =>
    by_cases hi : i = PDX va
    · simp [hi, ht]
    · simp [hi]

/-- A present page of directory `d` lies in frame `f`. -/
def Kernel.Maps (k : Kernel) (d f : Nat) : Prop := ∃ a x, k.walkpgdir d a = some x ∧ x.p = true ∧ x.ppn = f

structure Accounted (k0 k : Kernel) (d : Nat) (out : List Nat) : Prop where
  /-- nothing is mapped from `KERNBASE` on -/
  low : ∀ i, KERNBASE / PGSIZE / 1024 ≤ i → (k.pgdir d).pde i = none
  pool : ∀ f, f ∈ k0.freelist ↔ f ∈ k.freelist ∨ f ∈ out ∨ k.Maps d f ∨ f ∈ (k.pgdir d).tables ∨ f = d

namespace Accounted

variable {k0 k k' : Kernel} {d f a : Nat} {out rest : List Nat} {x : Pte}

/-- The new directory of `setupkvm`, with however many tables there was memory for. -/
theorem start (hfree : k0.freelist = d :: rest) : Accounted k0 { k0 with
    freelist := rest.drop NKERNTABLES
    pgdir := Function.update k0.pgdir d { kern := rest.take NKERNTABLES, pde := fun _ => none } } d [] := by
  refine ⟨?_, ?_⟩
  · intro i _
    simp
  · intro f
    have hmaps : ¬ Kernel.Maps { k0 with
        freelist := rest.drop NKERNTABLES
        pgdir := Function.update k0.pgdir d { kern := rest.take NKERNTABLES, pde := fun _ => none } } d f := by
      rintro ⟨a, x, hx, -⟩
      simp [Kernel.walkpgdir, Pgdir.walk] at hx
    have hrest : f ∈ rest ↔ f ∈ rest.take NKERNTABLES ∨ f ∈ rest.drop NKERNTABLES := by
      rw [← List.mem_append, List.take_append_drop]
    simp only [hmaps, hfree, List.mem_cons, hrest, Function.update_self, Pgdir.mem_tables]
    simp only [reduceCtorEq, false_and, exists_false, and_false, false_or, List.not_mem_nil]
    tauto

/-- A frame is taken in hand. -/
theorem take (h : Accounted k0 k d out) (hfree : k.freelist = f :: rest) (bytes : Nat → UInt8) :
    Accounted k0 (({ k with freelist := rest } : Kernel).setFrame f bytes) d (f :: out) := by
  refine ⟨h.low, ?_⟩
  intro g
  rw [h.pool g, hfree, List.mem_cons, List.mem_cons]
  show _ ↔ g ∈ rest ∨ (g = f ∨ g ∈ out) ∨ k.Maps d g ∨ g ∈ (k.pgdir d).tables ∨ g = d
  simp only [or_assoc, or_left_comm (b := g = f)]

/-- The frame in hand is given back. -/
theorem giveBack (h : Accounted k0 k d (f :: out)) (hkfree : kfree k f = .ok k') : Accounted k0 k' d out := by
  rw [kfree_ok hkfree]
  refine ⟨h.low, ?_⟩
  intro g
  rw [h.pool g, List.mem_cons, List.mem_cons]
  show _ ↔ (g = f ∨ g ∈ k.freelist) ∨ g ∈ out ∨ k.Maps d g ∨ g ∈ (k.pgdir d).tables ∨ g = d
  simp only [or_assoc, or_left_comm (b := g = f)]

/-- A frame becomes a page table of the user half. -/
theorem table (h : Accounted k0 k d out) (hnone : (k.pgdir d).pde (PDX a) = none)
    (hlt : PDX a < KERNBASE / PGSIZE / 1024) (hfree : k.freelist = f :: rest) :
    Accounted k0 (k.newTable d a f rest) d out := by
  have hpde : ∀ i, ((k.newTable d a f rest).pgdir d).pde i =
      if i = PDX a then some ⟨f, fun _ => .zero⟩ else (k.pgdir d).pde i := by
    intro i
    simp [Kernel.newTable, Function.update_apply]
  refine ⟨?_, ?_⟩
  · intro i hi
    rw [hpde, if_neg (by omega)]
    exact h.low i hi
  · intro g
    have hmaps : (k.newTable d a f rest).Maps d g ↔ k.Maps d g := by
      refine exists_congr fun b => exists_congr fun y => and_congr_left fun hy => ?_
      unfold Kernel.walkpgdir Pgdir.walk
      rw [hpde]
      by_cases hb : PDX b = PDX a
      · -- no entry of either table is present
        rw [if_pos hb, hb, hnone]
        refine iff_of_false ?_ (by simp)
        rintro ⟨⟩
        cases hy.1
      · rw [if_neg hb]
    have htables : g ∈ ((k.newTable d a f rest).pgdir d).tables ↔ g = f ∨ g ∈ (k.pgdir d).tables := by
      have hkern : ((k.newTable d a f rest).pgdir d).kern = (k.pgdir d).kern := by
        simp [Kernel.newTable]
      rw [Pgdir.mem_tables, Pgdir.mem_tables, hkern, ← or_assoc]
      refine or_congr_left ⟨?_, ?_⟩
      · rintro ⟨i, hi, t, ht, rfl⟩
        rw [hpde] at ht
        split at ht
        · cases ht
          exact .inl rfl
        · exact .inr ⟨i, hi, t, ht, rfl⟩
      · rintro (rfl | ⟨i, hi, t, ht, rfl⟩)
        · exact ⟨PDX a, hlt, _, by rw [hpde, if_pos rfl], rfl⟩
        · refine ⟨i, hi, t, ?_, rfl⟩
          rw [hpde, if_neg, ht]
          rintro rfl
          rw [hnone] at ht
          cases ht
    rw [h.pool g, hmaps, htables, hfree, List.mem_cons]
    show _ ↔ g ∈ rest ∨ _
    simp only [or_assoc, or_left_comm (b := g = f)]

/-- An entry that was not present is written. -/
theorem setPte {y : Pte} (h : Accounted k0 k d (f :: out)) (hy : k.walkpgdir d a = some y) (hp : y.p = false)
    (hx : x.p = true) (hppn : x.ppn = f) : Accounted k0 (k.setPte d a x) d out := by
  have hpgdir : (k.setPte d a x).pgdir d = (k.pgdir d).setPte a x := Function.update_self _ _ _
  refine ⟨?_, ?_⟩
  · intro i hi
    rw [hpgdir, Pgdir.setPte_pde_none]
    exact h.low i hi
  · intro g
    have hmaps : (k.setPte d a x).Maps d g ↔ g = f ∨ k.Maps d g := by
      constructor
      · rintro ⟨b, z, hz, hzp, rfl⟩
        rcases walkpgdir_setPte_cases hz with ⟨-, rfl⟩ | ⟨-, hold⟩
        · exact .inl hppn
        · exact .inr ⟨b, z, hold, hzp, rfl⟩
      · rintro (rfl | ⟨b, z, hz, hzp, rfl⟩)
        · exact ⟨a, x, walkpgdir_setPte_self hy, hx, hppn⟩
        · refine ⟨b, z, ?_, hzp, rfl⟩
          rw [walkpgdir_setPte_ne, hz]
          intro hpage
          rw [walkpgdir_congr hpage, hy] at hz
          cases hz
          rw [hp] at hzp
          cases hzp
    rw [h.pool g, hmaps, hpgdir, Pgdir.setPte_tables, List.mem_cons]
    show _ ↔ g ∈ k.freelist ∨ _
    simp only [or_assoc, or_left_comm (b := g = f)]

/-- A page goes back to the free list. -/
theorem deallocPage (h : Accounted k0 k d out) (hpage : Paging.deallocPage d k a = .ok k') :
    Accounted k0 k' d out := by
  unfold Paging.deallocPage at hpage
  split at hpage
  · cases hpage
    exact h
  next x hx =>
    split at hpage
    next hp =>
      split at hpage
      · cases hpage
      · rw [bind_eq_ok] at hpage
        obtain ⟨k1, hkfree, hpage⟩ := hpage
        cases hpage
        obtain rfl := kfree_ok hkfree
        have hpgdir : (k.setPte d a .zero).pgdir d = (k.pgdir d).setPte a .zero := Function.update_self _ _ _
        refine ⟨?_, ?_⟩
        · intro i hi
          show ((k.setPte d a .zero).pgdir d).pde i = none
          rw [hpgdir, Pgdir.setPte_pde_none]
          exact h.low i hi
        · intro g
          have hmaps : k.Maps d g ↔ g = x.ppn ∨ (k.setPte d a .zero).Maps d g := by
            constructor
            · rintro ⟨b, z, hz, hzp, rfl⟩
              by_cases hpage : b / PGSIZE = a / PGSIZE
              · left
                rw [walkpgdir_congr hpage, hx] at hz
                cases hz
                rfl
              · exact .inr ⟨b, z, by rwa [walkpgdir_setPte_ne hpage], hzp, rfl⟩
            · rintro (rfl | ⟨b, z, hz, hzp, rfl⟩)
              · exact ⟨a, x, hx, hp, rfl⟩
              · rcases walkpgdir_setPte_cases hz with ⟨-, rfl⟩ | ⟨-, hold⟩
                · cases hzp
                · exact ⟨b, z, hold, hzp, rfl⟩
          rw [h.pool g, hmaps]
          show _ ↔ g ∈ x.ppn :: k.freelist ∨ g ∈ out ∨ (k.setPte d a .zero).Maps d g ∨
            g ∈ ((k.setPte d a .zero).pgdir d).tables ∨ g = d
          rw [hpgdir, Pgdir.setPte_tables, List.mem_cons]
          simp only [or_assoc, or_left_comm (b := g = x.ppn)]
    · cases hpage
      exact h

end Accounted

/-! ### `freevm` -/

theorem kfree_each {l : List Nat} {k k' : Kernel} (h : l.foldlM kfree k = .ok k') :
    ∀ f, f ∈ k'.freelist ↔ f ∈ l ∨ f ∈ k.freelist := by
  induction l generalizing k with
  | nil =>
    cases h
    simp
  | cons t l ih =>
    rw [List.foldlM_cons, bind_eq_ok] at h
    obtain ⟨k1, hkfree, h⟩ := h
    intro f
    rw [ih h f, kfree_ok hkfree, List.mem_cons, List.mem_cons, or_left_comm, or_assoc]

/-- All that the directory owns goes back. -/
theorem Accounted.freevm {k0 k k' : Kernel} {d : Nat} (h : Accounted k0 k d []) (hrun : Paging.freevm k d = .ok k') :
    ∀ f, f ∈ k'.freelist ↔ f ∈ k0.freelist := by
  unfold Paging.freevm at hrun
  split at hrun
  · cases hrun
  simp only [bind_eq_ok] at hrun
  obtain ⟨⟨n, k1⟩, hdealloc, k2, htables, hkfree⟩ := hrun
  unfold deallocuvm at hdealloc
  rw [if_neg (by decide), bind_eq_ok] at hdealloc
  obtain ⟨k1', hpages, hdealloc⟩ := hdealloc
  cases hdealloc
  have h1 : Accounted k0 k1 d [] := by
    refine foldlM_ok (R := fun k k' => Accounted k0 k d [] → Accounted k0 k' d []) (fun _ h => h) ?_ ?_ hpages h
    · intro _ _ _ hst htu hs
      exact htu (hst hs)
    · intro _ _ _ hpage hs
      exact hs.deallocPage hpage
  have hgone : ∀ f, ¬ k1.Maps d f := by
    rintro f ⟨a, x, hx, hp, -⟩
    obtain ⟨t, ht, -⟩ := Pgdir.pde_of_walk _ hx
    have hlow : a < KERNBASE := by
      by_contra hge
      have hnone := h1.low (PDX a) (by
        simp only [PDX, PGSIZE, KERNBASE] at hge ⊢
        omega)
      rw [hnone] at ht
      cases ht
    have hmem : PTE_ADDR a ∈ pageRange (PGROUNDUP 0) KERNBASE := by
      rw [mem_pageRange rfl]
      refine ⟨PTE_ADDR_aligned a, Nat.zero_le _, ?_⟩
      exact Nat.lt_of_le_of_lt (Nat.div_mul_le_self a PGSIZE) hlow
    have habsent := (dealloced_of_ok hpages).gone _ hmem x (by rw [walkpgdir_PTE_ADDR, hx])
    rw [hp] at habsent
    cases habsent
  intro f
  rw [h1.pool f, kfree_ok hkfree, List.mem_cons, kfree_each htables f]
  simp only [hgone f, List.not_mem_nil, false_or]
  rw [or_comm (a := f ∈ k1.freelist), or_comm (b := f = d), or_assoc]

/-! ### `copyuvm` -/

/-- One round, whether there was memory for it or not. -/
theorem Accounted.copyPage {k0 k k' : Kernel} {d pg a : Nat} {b : Bool} (h : Accounted k0 k d []) (ha : a < KERNBASE)
    (hrun : Paging.copyPage d pg k a = .ok (b, k')) : Accounted k0 k' d [] := by
  unfold Paging.copyPage at hrun
  split at hrun
  · cases hrun
  next x hx =>
    split at hrun
    · cases hrun
    next hp =>
      cases hfree : k.freelist with
      | nil =>
        simp only [kalloc, hfree] at hrun
        cases hrun
        exact h
      | cons f rest =>
        simp only [kalloc, hfree, bind_eq_ok] at hrun
        obtain ⟨⟨r, k2⟩, hmap, hrun⟩ := hrun
        have htake := h.take hfree (k.frame x.ppn)
        rcases mappages_cases hmap with ⟨hr, rfl, -⟩ | ⟨rfl, k1, rfl, hk1, y, hy, hyp⟩
        · -- no frame for the page table
          rw [if_pos hr, bind_eq_ok] at hrun
          obtain ⟨k3, hkfree, hrun⟩ := hrun
          cases hrun
          exact htake.giveBack hkfree
        · cases hrun
          rcases hk1 with rfl | ⟨t, rest', hnone, hfree', rfl⟩
          · exact htake.setPte hy hyp rfl rfl
          · refine (htake.table hnone ?_ hfree').setPte hy hyp rfl rfl
            simp only [PDX, PGSIZE, KERNBASE] at ha ⊢
            omega

theorem Accounted.copyLoop {k0 k k' : Kernel} {d pg : Nat} {pages : List Nat} (h : Accounted k0 k d [])
    (hpages : ∀ a ∈ pages, a < KERNBASE) (hrun : Paging.copyLoop d pg pages k = .ok (none, k')) :
    ∀ f, f ∈ k'.freelist ↔ f ∈ k0.freelist := by
  induction pages generalizing k with
  | nil => cases hrun
  | cons a rest ih =>
    simp only [Paging.copyLoop, bind_eq_ok] at hrun
    obtain ⟨⟨b, k1⟩, hpage, hrun⟩ := hrun
    have h1 := h.copyPage (hpages a List.mem_cons_self) hpage
    simp only at hrun
    split at hrun
    · exact ih h1 (fun b hb => hpages b (List.mem_cons_of_mem a hb)) hrun
    · rw [bind_eq_ok] at hrun
      obtain ⟨k2, hfreevm, hrun⟩ := hrun
      cases hrun
      exact h1.freevm hfreevm

/-- A `copyuvm` that runs out of memory has given back what it took. -/
theorem copyuvm_gives_back {k k' : Kernel} {pg sz : Nat} (hsz : sz ≤ KERNBASE)
    (hrun : copyuvm k pg sz = .ok (none, k')) : ∀ f, f ∈ k'.freelist ↔ f ∈ k.freelist := by
  simp only [copyuvm, bind_eq_ok] at hrun
  obtain ⟨⟨d, k1⟩, hsetup, hrun⟩ := hrun
  cases d with
  | none =>
    cases hrun
    unfold setupkvm at hsetup
    cases hfree : k.freelist with
    | nil =>
      simp only [kalloc, hfree] at hsetup
      cases hsetup
      simp [hfree]
    | cons d rest =>
      simp only [kalloc, hfree] at hsetup
      split at hsetup
      · cases hsetup
      · rw [bind_eq_ok] at hsetup
        obtain ⟨k2, hfreevm, hsetup⟩ := hsetup
        cases hsetup
        rw [← hfree]
        exact (Accounted.start hfree).freevm hfreevm
  | some d =>
    obtain ⟨rest, hfree, rfl⟩ := setupkvm_some hsetup
    refine (Accounted.start hfree).copyLoop ?_ hrun
    intro a ha
    have := (mem_pageRange rfl).mp ha
    exact Nat.lt_of_lt_of_le this.2.2 hsz

/-! ### `allocproc` -/

/-- `createSwapFile` takes an entry of the file table. -/
theorem createSwapFile_opens {k k' : Kernel} {p : ProcId} (hroot : k.fs.RootOk) (h : createSwapFile k p = .ok k') :
    ∃ f, (k.fs.ftable f).ref = 0 ∧ (k'.fs.ftable f).ref = 1 := by
  simp only [createSwapFile, bind_eq_ok, deref_eq_ok] at h
  obtain ⟨⟨r, fs1⟩, hcreate, fs2, hunlock, ip, hr, h⟩ := h
  simp only at hunlock hr
  subst hr
  have hc := (Fs.create_returns k.cur.cwd (k.proc p).pid hroot).mp ⟨ip, fs1, hcreate⟩
  obtain ⟨b, fs', hcreate', hcreated⟩ := Fs.create_created k.cur.cwd (k.proc p).pid hroot hc
  rw [hcreate] at hcreate'
  cases hcreate'
  obtain rfl := Fs.iunlock_ok hunlock
  split at h
  · cases h
  next f fs3 halloc =>
    have hunused := filealloc_some halloc
    cases h
    refine ⟨f, by rwa [hcreated.ftable] at hunused, ?_⟩
    unfold Fs.filealloc at halloc
    split at halloc
    · cases halloc
    · cases halloc
      simp [Kernel.setProc, Fs.setFile]

/-- Every process but the first two gets a swap file. -/
theorem initPaging_opens {k k' : Kernel} {p : ProcId} (hroot : k.fs.RootOk) (h : initPaging k p = .ok k') :
    k'.freelist = k.freelist ∧ (((k.proc p).pid = 1 ∨ (k.proc p).pid = 2) ∧ k'.fs = k.fs ∨
      ((k.proc p).pid ≠ 1 ∧ (k.proc p).pid ≠ 2) ∧ ∃ f, (k.fs.ftable f).ref = 0 ∧ (k'.fs.ftable f).ref = 1) := by
  unfold initPaging at h
  split at h
  next hpid =>
    simp only [bind_eq_ok] at h
    obtain ⟨k1, hcreate, -, -, -, -, h⟩ := h
    have hopens := createSwapFile_opens hroot hcreate
    obtain ⟨fs, f, rfl⟩ := createSwapFile_ok hcreate
    cases h
    exact ⟨rfl, .inr ⟨hpid, hopens⟩⟩
  next hpid =>
    cases h
    exact ⟨rfl, .inl ⟨by omega, rfl⟩⟩

/-! ### What `fork` leaves -/

/-- The files, frames and entries of the process table in use are the same. -/
structure NothingLeft (k k' : Kernel) : Prop where
  ftable : ∀ f, (k'.fs.ftable f).ref = 0 ↔ (k.fs.ftable f).ref = 0
  iref : k'.fs.iref = k.fs.iref
  root : (k'.fs.inode ROOTINO).dents = (k.fs.inode ROOTINO).dents
  freelist : ∀ f, f ∈ k'.freelist ↔ f ∈ k.freelist
  unused : ∀ p, (k'.proc p).state = .UNUSED ↔ (k.proc p).state = .UNUSED

theorem NothingLeft.of_fs {k k' : Kernel} (hfs : k'.fs = k.fs) (hfree : ∀ f, f ∈ k'.freelist ↔ f ∈ k.freelist)
    (hunused : ∀ p, (k'.proc p).state = .UNUSED ↔ (k.proc p).state = .UNUSED) : NothingLeft k k' := by
  refine ⟨?_, ?_, ?_, hfree, hunused⟩
  · intro f
    rw [hfs]
  · rw [hfs]
  · rw [hfs]

/-- The entry `np` was unused, and is again. -/
theorem unused_again {k k' : Kernel} {np : ProcId} (honly : OnlyProc np k k') (hnp : freeProc k = some np)
    (hstate : (k'.proc np).state = .UNUSED) (p : ProcId) :
    (k'.proc p).state = .UNUSED ↔ (k.proc p).state = .UNUSED := by
  by_cases hp : p = np
  · rw [hp]
    exact iff_of_true hstate (freeProc_unused hnp)
  · rw [honly.others p hp]

/-- Without an entry or a stack nothing was taken. -/
theorem allocproc_leaves {k k' : Kernel} (h : allocproc k = .ok (none, k')) :
    NothingLeft k k' ∧ (freeProc k = none ∨ k.freelist = []) := by
  unfold allocproc at h
  split at h
  next hnone =>
    cases h
    exact ⟨.of_fs rfl (fun _ => Iff.rfl) (fun _ => Iff.rfl), .inl hnone⟩
  next np hnp =>
    cases hfree : k.freelist with
    | nil =>
      simp only [kalloc, show ({ k with nextpid := k.nextpid + 1 }.setProc np
        { k.proc np with state := .EMBRYO, pid := k.nextpid }).freelist = [] from hfree] at h
      cases h
      refine ⟨.of_fs rfl (fun _ => Iff.rfl) ?_, .inr rfl⟩
      refine unused_again ?_ hnp ?_
      · have h0 : OnlyProc np k { k with nextpid := k.nextpid + 1 } := ⟨rfl, rfl, fun _ _ => rfl⟩
        exact (h0.trans (.setProc _ _)).trans (.setProc _ _)
      · rw [Kernel.setProc_self]
    | cons stack rest =>
      simp only [kalloc, show ({ k with nextpid := k.nextpid + 1 }.setProc np
        { k.proc np with state := .EMBRYO, pid := k.nextpid }).freelist = stack :: rest from hfree, bind_eq_ok] at h
      obtain ⟨k1, -, h⟩ := h
      cases h

/-- With both, only the swap file is kept. -/
theorem allocproc_some {k k' : Kernel} {np : ProcId} (hroot : k.fs.RootOk) (h : allocproc k = .ok (some np, k')) :
    freeProc k = some np ∧ OnlyProc np k k' ∧ k.freelist = (k'.proc np).kstack :: k'.freelist ∧
      ((k.nextpid = 1 ∨ k.nextpid = 2) ∧ k'.fs = k.fs ∨
        (k.nextpid ≠ 1 ∧ k.nextpid ≠ 2) ∧ ∃ f, (k.fs.ftable f).ref = 0 ∧ (k'.fs.ftable f).ref = 1) := by
  obtain ⟨hnp, honly, -⟩ := allocproc_ok h
  refine ⟨hnp, honly, ?_⟩
  cases hfree : k.freelist with
  | nil =>
    unfold allocproc at h
    simp only [hnp, kalloc, show ({ k with nextpid := k.nextpid + 1 }.setProc np
      { k.proc np with state := .EMBRYO, pid := k.nextpid }).freelist = [] from hfree] at h
    cases h
  | cons stack rest =>
    rw [allocproc_eq hnp hfree, bind_eq_ok] at h
    obtain ⟨k1, hinit, h⟩ := h
    cases h
    have hself : (k.claimed np stack rest).proc np =
        { k.proc np with state := .EMBRYO, pid := k.nextpid, kstack := stack } := Kernel.setProc_self _ _ _
    obtain ⟨-, -, hkstack⟩ := initPaging_ok hinit
    obtain ⟨hrest, hfs⟩ := initPaging_opens (k := k.claimed np stack rest) hroot hinit
    rw [hself] at hkstack hfs
    rw [hkstack, hrest]
    exact ⟨rfl, hfs⟩

/-- The call that fails for want of memory for the pages. -/
theorem fork_fails {k k' : Kernel} (h : fork k = .ok (-1, k')) : allocproc k = .ok (none, k') ∨
    ∃ np k1 k2, allocproc k = .ok (some np, k1) ∧ copyuvm k1 k1.cur.pgdir k1.cur.sz = .ok (none, k2) ∧
      ∃ k3, kfree k2 (k2.proc np).kstack = .ok k3 ∧
        k' = k3.setProc np { k3.proc np with pgdir := 0, kstack := 0, state := .UNUSED } := by
  simp only [fork, bind_eq_ok] at h
  obtain ⟨⟨np, k1⟩, halloc, h⟩ := h
  cases np with
  | none =>
    cases h
    exact .inl halloc
  | some np =>
    simp only [bind_eq_ok] at h
    obtain ⟨⟨d, k2⟩, hcopy, h⟩ := h
    cases d with
    | none =>
      simp only [bind_eq_ok] at h
      obtain ⟨k3, hkfree, h⟩ := h
      cases h
      exact .inr ⟨np, k1, k2, halloc, hcopy, k3, hkfree, rfl⟩
    | some d =>
      have hpid := forkChild_pid h
      omega

/-- A failed `fork` leaves nothing behind just when it failed before
    `allocproc` made a swap file, or makes none for this pid. -/
theorem fork_leaves_nothing_iff {k k' : Kernel} (hroot : k.fs.RootOk) (hsz : k.cur.sz ≤ KERNBASE)
    (hlive : k.cur.state ≠ .UNUSED) (h : fork k = .ok (-1, k')) :
    NothingLeft k k' ↔ freeProc k = none ∨ k.freelist = [] ∨ k.nextpid = 1 ∨ k.nextpid = 2 := by
  rcases fork_fails h with hnone | ⟨np, k1, k2, halloc, hcopy, k3, hkfree, rfl⟩
  · obtain ⟨hleft, hearly⟩ := allocproc_leaves hnone
    refine iff_of_true hleft ?_
    rcases hearly with hnp | hfree
    · exact .inl hnp
    · exact .inr (.inl hfree)
  · obtain ⟨hnp, honly, hfree, hfs⟩ := allocproc_some hroot halloc
    have hne : k.curproc ≠ np := by
      intro heq
      have hunused := freeProc_unused hnp
      rw [← heq] at hunused
      exact hlive hunused
    have hm : OnlyMem k1 k3 := (copyuvm_mem hcopy).trans (kfree_mem hkfree)
    rw [honly.cur hne] at hcopy
    have hback := copyuvm_gives_back hsz hcopy
    have hlist : ∀ f, f ∈ k3.freelist ↔ f ∈ k.freelist := by
      intro f
      rw [kfree_ok hkfree, hfree, (copyuvm_mem hcopy).proc, List.mem_cons, List.mem_cons, hback f]
    rw [or_iff_right (by rw [hnp]; exact nofun), or_iff_right (by rw [hfree]; exact List.cons_ne_nil _ _)]
    rcases hfs with ⟨hearly, hfs⟩ | ⟨hlate, f, hunused, hused⟩
    · refine iff_of_true (.of_fs (hm.fs.trans hfs) hlist ?_) hearly
      refine unused_again ((honly.trans (.of_mem hm)).trans (.setProc _ _)) hnp ?_
      rw [Kernel.setProc_self]
    · -- the swap file is open
      refine iff_of_false ?_ (by omega)
      intro hleft
      have hstill : (k3.fs.ftable f).ref = 0 := (hleft.ftable f).mpr hunused
      rw [hm.fs, hused] at hstill
      cases hstill

/-- Without memory for a stack. -/
theorem fork_leaves_nothing_iff_noFrame : ∃ k', fork { threePages with freelist := [] } = .ok (-1, k') ∧
    (NothingLeft { threePages with freelist := [] } k' ↔
      freeProc { threePages with freelist := [] } = none ∨ [] = ([] : List Nat) ∨ threePages.nextpid = 1 ∨
        threePages.nextpid = 2) :=
  ⟨_, rfl, fork_leaves_nothing_iff (layout_forkState threePages_paged).root (by decide) nofun rfl⟩

/-- With memory for the stack only, the swap file of the child that is not
    made stays: open, in the inode cache and in the root directory. -/
theorem fork_leaves_swap_file : ∃ k', fork oneFrame = .ok (-1, k') ∧ (oneFrame.fs.ftable 1).ref = 0 ∧
    (k'.fs.ftable 1).ref = 1 ∧ (oneFrame.fs.iref 2 = 0 ∧ k'.fs.iref 2 = 1) ∧
    (k'.fs.inode ROOTINO).dents = (oneFrame.fs.inode ROOTINO).dents ++ [⟨2, swapEntry 4⟩] ∧
    ¬ NothingLeft oneFrame k' := by
  have hrun : (fork oneFrame).toOption.map (fun r =>
      (r.1, (r.2.fs.ftable 1).ref, r.2.fs.iref 2, (r.2.fs.inode ROOTINO).dents)) =
      some (-1, 1, 1, (oneFrame.fs.inode ROOTINO).dents ++ [⟨2, swapEntry 4⟩]) := by decide +kernel
  cases hfork : fork oneFrame with
  | error e =>
    rw [hfork] at hrun
    cases hrun
  | ok r =>
    obtain ⟨r, k'⟩ := r
    rw [hfork] at hrun
    simp only [Except.toOption, Option.map_some, Option.some.injEq, Prod.mk.injEq] at hrun
    obtain ⟨rfl, href, hiref, hdents⟩ := hrun
    refine ⟨k', rfl, rfl, href, ⟨rfl, hiref⟩, hdents, ?_⟩
    intro hleft
    rw [(hleft.ftable 1).mpr rfl] at href
    cases href

end Paging
