import OperatingSystem314.Paging.CopyMemory
import OperatingSystem314.Paging.LoadSteps
import OperatingSystem314.Paging.Owner
import OperatingSystem314.Paging.Pages

/-! # Pages in use across system calls

    `InUse` along faults, `sbrk`, `fork` and `exec`, from whatever state:
    the directories that a call makes and drops are the only change. -/

namespace Paging

open Relation (ReflTransGen)

namespace InUse

variable {ds hs : List Nat} {k k' : Kernel} {d : Nat}

theorem of_lists (h : InUse ds hs k) (hlists : OnlyLists k k') : InUse ds hs k' := by
  apply h.congr
  · rw [hlists.rest]
  · rw [hlists.rest]
  · rw [hlists.rest]

/-! ### Eviction and page faults -/

theorem moveToSwapFile {a : Nat} (h : InUse ds hs k) (hd : k.cur.pgdir ∈ ds)
    (hok : Paging.moveToSwapFile k a = .ok k') : InUse ds hs k' := by
  simp only [Paging.moveToSwapFile, bind_eq_ok, deref_eq_ok] at hok
  obtain ⟨x, -, hok⟩ := hok
  split at hok
  · cases hok
  simp only [bind_eq_ok, deref_eq_ok] at hok
  obtain ⟨k1, hrec, y, hy, hok⟩ := hok
  have hcur1 := (recordPage_ok hrec).1.pgdir
  have hrest := recordPage_rest hrec
  have h1 : InUse ds hs k1 := by
    apply h.congr
    · rw [hrest]
    · rw [hrest]
    · rw [hrest]
  split at hok
  · cases hok
  split at hok
  next hp =>
    simp only [bind_eq_ok] at hok
    obtain ⟨k3, hfree, k2, hok, hok'⟩ := hok
    cases hok
    cases hok'
    have hcur3 : k3.cur.pgdir = k1.cur.pgdir := by
      rw [kfree_ok hfree]
      rfl
    have hd1 : k1.cur.pgdir ∈ ds := by rwa [hcur1]
    have h3 : InUse ds hs (k3.setPte k1.cur.pgdir (PTE_ADDR a) .swapped) := h1.free_page hd1 hy hp hfree rfl rfl
    rw [hcur3]
    exact h3.congr rfl rfl rfl
  next hp =>
    simp only [bind_eq_ok] at hok
    obtain ⟨k2, hok, hok'⟩ := hok
    cases hok
    cases hok'
    exact h1.congr rfl rfl rfl

theorem swapPageOut (h : InUse ds hs k) (hd : k.cur.pgdir ∈ ds) (hok : Paging.swapPageOut k = .ok k') :
    InUse ds hs k' := by
  obtain ⟨a, k1, hdeq, hmove⟩ := swapPageOut_ok hok
  have hlists := dequeueFIFO_lists hdeq
  apply (h.of_lists hlists).moveToSwapFile _ hmove
  rwa [hlists.cur.pgdir]

theorem swapPageIn {va : Nat} (h : InUse ds hs k) (hd : k.cur.pgdir ∈ ds)
    (hok : Paging.swapPageIn k va = .ok k') : InUse ds hs k' := by
  have hfree := swapPageIn_freelist hok
  rcases swapPageIn_ok hok with ⟨-, rfl⟩ | ⟨i, b, k1, k2, y, -, hdeq, h2, henq, -, -, hy, hpgdir⟩
  · exact h
  · have hlists := dequeueFIFO_lists hdeq
    have h1 := h.of_lists hlists
    have hd1 : k1.cur.pgdir ∈ ds := by rwa [hlists.cur.pgdir]
    set k3 := (k1.setPte k1.cur.pgdir va ⟨y.ppn, true, true, true, false⟩).setPte k1.cur.pgdir b .swapped
      with hk3
    have h3 : InUse ds hs k3 := h1.exchange hd1 hy rfl rfl rfl rfl
    have hdirs : k2.pgdir = k3.pgdir := by
      funext e
      by_cases he : e = k1.cur.pgdir
      · rw [he, hpgdir]
        simp [hk3, Kernel.setPte]
      · rw [h2.pgdirs e he]
        simp [hk3, Kernel.setPte, he]
    apply h3.congr
    · rw [(enqueueFIFO_lists henq).rest]
      show k2.kend = k1.kend
      rw [h2.rest]
    · rw [(enqueueFIFO_lists henq).rest]
      exact hdirs
    · rw [hfree]
      show k.freelist = k1.freelist
      rw [hlists.rest]

theorem trapPgflt {user : Bool} {va : Nat} {e : FaultEnd} (h : InUse ds hs k) (hd : k.cur.pgdir ∈ ds)
    (hok : Paging.trapPgflt user k va = .ok (e, k')) : InUse ds hs k' := by
  obtain ⟨-, ⟨-, -, k1, hout, hin⟩ | ⟨-, -, -, rfl⟩⟩ := trapPgflt_ok hok
  · apply (h.swapPageOut hd hout).swapPageIn _ hin
    rwa [(swapPageOut_swaps hout).pgdir]
  · exact h.congr rfl rfl rfl

/-! ### Loading -/

/-- What is done to the guard page. -/
theorem clearpteu {va : Nat} (h : InUse ds hs k) (hd : d ∈ ds) (hok : Paging.clearpteu k d va = .ok k') :
    InUse ds hs k' := by
  unfold Paging.clearpteu at hok
  split at hok
  · cases hok
  next x hx =>
    cases hok
    apply h.setPte
    · intro hp
      exact h.absent d hd va x hx hp
    · intro g hg
      obtain ⟨hp, h0, rfl⟩ := Pte.frame_eq_some.mp hg
      have hpage : inUse k.pgdir ds hs (.inl (d, .page (va / PGSIZE))) = some x.ppn := inUse_page hd hx hp h0
      exact hpage

theorem loadStep (h : InUse ds hs k) (hd : d ∈ ds) (hcur : k.cur.pgdir ∈ ds) (hstep : LoadStep d k k') :
    InUse ds hs k' := by
  cases hstep with
  | evict hout => exact h.swapPageOut hcur hout
  | @map _ f a rest r hfree hmap hr =>
    have h1 : InUse ds (f :: hs) (({ k with freelist := rest } : Kernel).setFrame f fun _ => 0) :=
      (h.kalloc hfree).congr rfl rfl rfl
    rcases mappages (x := ⟨f, true, true, true, false⟩) h1 hmap with ⟨hneg, -⟩ | ⟨-, h2⟩
    · exact absurd hneg hr
    · exact h2
  | @unmap k1 k2 _ f a _ _ _ rest r hfree hmap hr hdealloc hkfree =>
    have h1 : InUse ds (f :: hs) (({ k with freelist := rest } : Kernel).setFrame f fun _ => 0) :=
      (h.kalloc hfree).congr rfl rfl rfl
    rcases mappages (x := ⟨f, true, true, true, false⟩) h1 hmap with ⟨-, rfl⟩ | ⟨rfl, -⟩
    · exact (h1.deallocuvm hd hdealloc).kfree hkfree
    · exact absurd hr (Int.lt_irrefl 0)
  | dealloc hdealloc => exact h.deallocuvm hd hdealloc
  | enqueue henq => exact h.of_lists (enqueueFIFO_lists henq)
  | fault htrap => exact h.trapPgflt hcur htrap
  | write f bytes => exact h.congr rfl rfl rfl
  | guardPage hclear => exact h.clearpteu hd hclear
  | files fs => exact h.congr rfl rfl rfl

end InUse

/-- Which directories a step of loading writes to. -/
theorem LoadStep.dirs {ds : List Nat} {d : Nat} {k k' : Kernel} (h : LoadStep d k k') (hd : d ∈ ds)
    (hcur : k.cur.pgdir ∈ ds) : OnlyDirs ds k k' := by
  cases h with
  | evict hout => exact .of_swaps (swapPageOut_swaps hout) hcur
  | @map _ f a rest r hfree hmap hr =>
    have h1 : Beside d k (({ k with freelist := rest } : Kernel).setFrame f fun _ => 0) :=
      .of_mem ⟨_, _, _, rfl⟩ fun _ _ => rfl
    exact .of_beside (h1.trans (mappages_beside hmap)) hd
  | @unmap k1 k2 _ f a _ _ _ rest r hfree hmap hr hdealloc hkfree =>
    have h1 : Beside d k (({ k with freelist := rest } : Kernel).setFrame f fun _ => 0) :=
      .of_mem ⟨_, _, _, rfl⟩ fun _ _ => rfl
    exact .of_beside (((h1.trans (mappages_beside hmap)).trans (deallocuvm_beside hdealloc)).trans
      (kfree_beside hkfree)) hd
  | dealloc hdealloc => exact .of_beside (deallocuvm_beside hdealloc) hd
  | enqueue henq => exact .of_beside (.of_lists (enqueueFIFO_lists henq)) hd
  | fault htrap =>
    obtain ⟨-, ⟨-, -, k1, hout, hin⟩ | ⟨-, hu, -⟩⟩ := trapPgflt_ok htrap
    · exact .of_swaps ((swapPageOut_swaps hout).trans (swapPageIn_swaps hin)) hcur
    · cases hu
  | write f bytes => exact .setFrame k f bytes
  | guardPage hclear => exact .of_beside (clearpteu_beside hclear) hd
  | files fs => exact .of_fs rfl

/-- Along a whole load. -/
theorem Loads.dirs {ds : List Nat} {d : Nat} {k k' : Kernel} (h : Loads d k k') (hd : d ∈ ds)
    (hcur : k.cur.pgdir ∈ ds) : OnlyDirs ds k k' := by
  induction h with
  | refl => exact .refl k
  | tail _ hstep ih =>
    apply ih.trans (hstep.dirs hd _)
    rwa [ih.pgdir]

theorem InUse.loads {ds hs : List Nat} {d : Nat} {k k' : Kernel} (h : InUse ds hs k) (hd : d ∈ ds)
    (hcur : k.cur.pgdir ∈ ds) (hloads : Loads d k k') : InUse ds hs k' := by
  induction hloads with
  | refl => exact h
  | tail hinit hstep ih =>
    apply ih.loadStep hd _ hstep
    rwa [(Loads.dirs hinit hd hcur).pgdir]

/-! ### `fork` -/

theorem initPaging_rest {k k' : Kernel} {p : ProcId} (h : initPaging k p = .ok k') :
    k' = { k with proc := k'.proc, fs := k'.fs } := by
  unfold initPaging at h
  split at h
  · simp only [bind_eq_ok] at h
    obtain ⟨k1, hcreate, -, -, -, -, h⟩ := h
    obtain ⟨fs, f, rfl⟩ := createSwapFile_ok hcreate
    cases h
    rfl
  · cases h
    rfl

/-- The new process holds a page for its kernel stack. -/
theorem InUse.allocproc {ds hs : List Nat} {k k' : Kernel} {r : Option ProcId} (h : InUse ds hs k)
    (hok : Paging.allocproc k = .ok (r, k')) :
    k'.pgdir = k.pgdir ∧ (r = none → InUse ds hs k') ∧
      ∀ np, r = some np → InUse ds ((k'.proc np).kstack :: hs) k' := by
  unfold Paging.allocproc at hok
  split at hok
  · cases hok
    exact ⟨rfl, fun _ => h, nofun⟩
  next p hp =>
    simp only [] at hok
    set k1 := ({ k with nextpid := k.nextpid + 1 } : Kernel).setProc p
      { k.proc p with state := .EMBRYO, pid := k.nextpid } with hk1
    have h1 : InUse ds hs k1 := h.congr rfl rfl rfl
    unfold Paging.kalloc at hok
    cases hfree : k1.freelist with
    | nil =>
      rw [hfree] at hok
      cases hok
      exact ⟨rfl, fun _ => h1.congr rfl rfl rfl, nofun⟩
    | cons stack rest =>
      simp only [hfree, bind_eq_ok] at hok
      obtain ⟨k2, hinit, hok⟩ := hok
      cases hok
      have h2 := h1.kalloc hfree
      have hrest := initPaging_rest hinit
      refine ⟨by rw [hrest]; rfl, nofun, ?_⟩
      intro np hnp
      cases hnp
      rw [(initPaging_ok hinit).2.2, Kernel.setProc_self]
      apply h2.congr
      · rw [hrest]
        rfl
      · rw [hrest]
        rfl
      · rw [hrest]
        rfl

/-- Without a new process nothing happens, except to an entry that stays unused. -/
theorem allocproc_none {k k' : Kernel} (h : allocproc k = .ok (none, k')) :
    k' = k ∨ ∃ np, freeProc k = some np ∧ OnlyProc np k k' ∧ (k'.proc np).state = .UNUSED := by
  unfold allocproc at h
  split at h
  · cases h
    exact .inl rfl
  next np hfree =>
    simp only [] at h
    split at h
    next k1 hk1 =>
      cases h
      refine .inr ⟨np, hfree, ?_, by rw [Kernel.setProc_self]⟩
      have h0 : OnlyProc np k { k with nextpid := k.nextpid + 1 } := ⟨rfl, rfl, fun _ _ => rfl⟩
      exact ((h0.trans (.setProc _ _)).trans (.of_mem (kalloc_mem hk1))).trans (.setProc _ _)
    · rw [bind_eq_ok] at h
      obtain ⟨k2, -, h⟩ := h
      cases h

/-- The entry that is written, or one that was there. -/
theorem mappages_present {k k' : Kernel} {d a va : Nat} {x y : Pte} {r : Int}
    (h : mappages k d a x = .ok (r, k')) (hy : k'.walkpgdir d va = some y) (hp : y.p = true) :
    va / PGSIZE = a / PGSIZE ∨ k.walkpgdir d va = some y := by
  have halloc : ∀ {b : Bool} {k1 : Kernel} {z : Pte}, walkpgdirAlloc k d a = (b, k1) →
      k1.walkpgdir d va = some z → z.p = true → k.walkpgdir d va = some z := by
    intro b k1 z hk1 hz hzp
    unfold walkpgdirAlloc at hk1
    split at hk1
    · cases hk1
      exact hz
    next hnone =>
      unfold kalloc at hk1
      cases hfree : k.freelist with
      | nil =>
        rw [hfree] at hk1
        cases hk1
        exact hz
      | cons t rest =>
        rw [hfree] at hk1
        cases hk1
        simp only [Kernel.walkpgdir, Function.update_self, Pgdir.walk] at hz ⊢
        by_cases hdx : PDX va = PDX a
        · -- the entries of the new table are absent
          rw [hdx, Function.update_self] at hz
          cases hz
          cases hzp
        · rwa [Function.update_of_ne hdx] at hz
  unfold mappages at h
  split at h
  next k1 hk1 =>
    cases h
    exact .inr (halloc hk1 hy hp)
  next k1 hk1 =>
    rw [bind_eq_ok] at h
    obtain ⟨pte, -, h⟩ := h
    split at h
    · cases h
    · cases h
      rcases walkpgdir_setPte_cases hy with ⟨hpage, -⟩ | ⟨-, hold⟩
      · exact .inl hpage
      · exact .inr (halloc hk1 hold hp)

theorem kalloc_pgdir {k k' : Kernel} {f : Option Nat} (h : kalloc k = (f, k')) : k'.pgdir = k.pgdir := by
  unfold kalloc at h
  split at h
  · cases h
    rfl
  · cases h
    rfl

/-- One page is copied, if memory lasts. -/
theorem copyPage_beside {d pg i : Nat} {k k' : Kernel} {b : Bool} (h : copyPage d pg k i = .ok (b, k')) :
    Beside d k k' ∧ ∀ va y, k'.walkpgdir d va = some y → y.p = true →
      va / PGSIZE = i / PGSIZE ∨ k.walkpgdir d va = some y := by
  unfold copyPage at h
  split at h
  · cases h
  next x hx =>
    split at h
    · cases h
    split at h
    next k1 hk1 =>
      cases h
      refine ⟨kalloc_beside hk1, fun va y hy _ => .inr ?_⟩
      unfold Kernel.walkpgdir at hy
      rwa [kalloc_pgdir hk1] at hy
    next mem k1 hk1 =>
      have h1 : Beside d k k1 := kalloc_beside hk1
      have hpgdir := kalloc_pgdir hk1
      simp only [bind_eq_ok] at h
      obtain ⟨⟨r, k2⟩, hmap, h⟩ := h
      have h2 := (h1.trans (.setFrame k1 mem _)).trans (mappages_beside hmap)
      have hpresent : ∀ va y, k2.walkpgdir d va = some y → y.p = true →
          va / PGSIZE = i / PGSIZE ∨ k.walkpgdir d va = some y := by
        intro va y hy hp
        rcases mappages_present hmap hy hp with hpage | hold
        · exact .inl hpage
        · right
          have hold1 : (k1.pgdir d).walk va = some y := hold
          rw [hpgdir] at hold1
          exact hold1
      split at h
      · rw [bind_eq_ok] at h
        obtain ⟨k3, hkfree, h⟩ := h
        cases h
        refine ⟨h2.trans (kfree_beside hkfree), ?_⟩
        rw [kfree_ok hkfree]
        exact hpresent
      · cases h
        exact ⟨h2, hpresent⟩

/-- A copy that succeeds has only pages that the original has, by
    induction on the pages. -/
theorem copyLoop_present {d e pg : Nat} {pages : List Nat} {k k' : Kernel} (hne : pg ≠ d)
    (h : copyLoop d pg pages k = .ok (some e, k')) :
    e = d ∧ Beside d k k' ∧ (∀ i ∈ pages, ∃ x, k.walkpgdir pg i = some x ∧ x.p = true) ∧
      ∀ va y, k'.walkpgdir d va = some y → y.p = true →
        (∃ i ∈ pages, va / PGSIZE = i / PGSIZE) ∨ k.walkpgdir d va = some y := by
  induction pages generalizing k with
  | nil =>
    cases h
    exact ⟨rfl, .refl _, nofun, fun va y hy _ => .inr hy⟩
  | cons i rest ih =>
    simp only [copyLoop, bind_eq_ok] at h
    obtain ⟨⟨b, k1⟩, hpage, h⟩ := h
    obtain ⟨h1, hpresent1⟩ := copyPage_beside hpage
    simp only [] at h
    split at h
    · obtain ⟨rfl, h2, hall, hpresent2⟩ := ih h
      refine ⟨rfl, h1.trans h2, ?_, ?_⟩
      · intro j hj
        rcases List.mem_cons.mp hj with rfl | hj
        · exact (copyPage_mem hpage).2
        · obtain ⟨x, hx, hp⟩ := hall j hj
          refine ⟨x, ?_, hp⟩
          unfold Kernel.walkpgdir at hx ⊢
          rwa [h1.pgdirs pg hne] at hx
      · intro va y hy hp
        rcases hpresent2 va y hy hp with ⟨j, hj, hdiv⟩ | hold
        · exact .inl ⟨j, List.mem_cons_of_mem i hj, hdiv⟩
        · rcases hpresent1 va y hold hp with hdiv | hold
          · exact .inl ⟨i, by simp, hdiv⟩
          · exact .inr hold
    · rw [bind_eq_ok] at h
      obtain ⟨k2, -, h⟩ := h
      cases h

namespace InUse

variable {ds hs : List Nat} {k k' : Kernel} {d pg : Nat}

theorem copyPage {i : Nat} {b : Bool} (h : InUse ds hs k) (hok : Paging.copyPage d pg k i = .ok (b, k')) :
    InUse ds hs k' := by
  unfold Paging.copyPage at hok
  split at hok
  · cases hok
  next x hx =>
    split at hok
    · cases hok
    unfold Paging.kalloc at hok
    cases hfree : k.freelist with
    | nil =>
      rw [hfree] at hok
      cases hok
      exact h
    | cons mem rest =>
      simp only [hfree, bind_eq_ok] at hok
      obtain ⟨⟨r, k2⟩, hmap, hok⟩ := hok
      have h1 : InUse ds (mem :: hs) (({ k with freelist := rest } : Kernel).setFrame mem (k.frame x.ppn)) :=
        (h.kalloc hfree).congr rfl rfl rfl
      rcases mappages (x := { x with ppn := mem }) h1 hmap with ⟨hneg, rfl⟩ | ⟨rfl, h2⟩
      · rw [if_pos hneg, bind_eq_ok] at hok
        obtain ⟨k3, hkfree, hok⟩ := hok
        cases hok
        exact h1.kfree hkfree
      · cases hok
        exact h2

theorem copyLoop {pages : List Nat} {r : Option Nat} (h : InUse (d :: ds) hs k)
    (hok : Paging.copyLoop d pg pages k = .ok (r, k')) :
    (r = none → InUse ds hs k') ∧ (r ≠ none → InUse (d :: ds) hs k') := by
  induction pages generalizing k with
  | nil =>
    cases hok
    exact ⟨nofun, fun _ => h⟩
  | cons i rest ih =>
    simp only [Paging.copyLoop, bind_eq_ok] at hok
    obtain ⟨⟨b, k1⟩, hpage, hok⟩ := hok
    have h1 := h.copyPage hpage
    simp only [] at hok
    split at hok
    · exact ih h1 hok
    · rw [bind_eq_ok] at hok
      obtain ⟨k2, hfree, hok⟩ := hok
      cases hok
      exact ⟨fun _ => h1.freevm hfree, fun hne => absurd rfl hne⟩

end InUse

theorem copyLoop_beside {d pg : Nat} {pages : List Nat} {k k' : Kernel} {r : Option Nat}
    (h : copyLoop d pg pages k = .ok (r, k')) : Beside d k k' ∧ (r = none ∨ r = some d) := by
  induction pages generalizing k with
  | nil =>
    cases h
    exact ⟨.refl _, .inr rfl⟩
  | cons i rest ih =>
    simp only [copyLoop, bind_eq_ok] at h
    obtain ⟨⟨b, k1⟩, hpage, h⟩ := h
    have h1 := (copyPage_beside hpage).1
    simp only [] at h
    split at h
    · obtain ⟨h2, hr⟩ := ih h
      exact ⟨h1.trans h2, hr⟩
    · rw [bind_eq_ok] at h
      obtain ⟨k2, hfree, h⟩ := h
      cases h
      exact ⟨h1.trans (freevm_beside hfree), .inl rfl⟩

/-- The page of an address, for pages that start on a page boundary. -/
theorem mem_pageRange_of_div {sz i va : Nat} (hi : i ∈ pageRange 0 sz) (hdiv : va / PGSIZE = i / PGSIZE) :
    va / PGSIZE < npages sz := by
  unfold pageRange at hi
  obtain ⟨j, hj, rfl⟩ := List.mem_map.mp hi
  rw [List.mem_range] at hj
  unfold npages
  simp only [PGSIZE] at *
  omega

/-- A copy of `sz` bytes: the pages of the new directory are below `sz`, and
    the original has them. -/
theorem InUse.copyuvm {ds hs : List Nat} {k k' : Kernel} {pg sz : Nat} {r : Option Nat} (h : InUse ds hs k)
    (hpg : pg ∈ ds) (hok : Paging.copyuvm k pg sz = .ok (r, k')) :
    (∀ e ∈ ds, k'.pgdir e = k.pgdir e) ∧ (r = none → InUse ds hs k') ∧
      ∀ d, r = some d → d ∉ ds ∧ InUse (d :: ds) hs k' ∧
        ∀ n, PresentAt k' d n → n < npages sz ∧ PresentAt k pg n := by
  simp only [Paging.copyuvm, bind_eq_ok] at hok
  obtain ⟨⟨d, k1⟩, hsetup, hok⟩ := hok
  obtain ⟨hnone, hsome⟩ := h.setupkvm hsetup
  have hold1 : ∀ e ∈ ds, k1.pgdir e = k.pgdir e := by
    intro e he
    rcases setupkvm_beside hsetup with ⟨-, rfl, -⟩ | ⟨d', rest, hfree, hbeside, -⟩
    · rfl
    · apply hbeside.pgdirs
      rintro rfl
      exact (h.carve_dir hfree).1 he
  cases d with
  | none =>
    cases hok
    exact ⟨hold1, fun _ => hnone rfl, by simp⟩
  | some d =>
    simp only [] at hok
    obtain ⟨hd, h1⟩ := hsome d rfl
    obtain ⟨hbeside, hr⟩ := copyLoop_beside hok
    obtain ⟨hfail, hcopied⟩ := h1.copyLoop hok
    refine ⟨?_, hfail, ?_⟩
    · intro e he
      rw [hbeside.pgdirs e, hold1 e he]
      rintro rfl
      exact hd he
    · intro d' hd'
      subst hd'
      have hne : pg ≠ d := by
        rintro rfl
        exact hd hpg
      obtain ⟨rfl, -, hall, hpresent⟩ := copyLoop_present hne hok
      refine ⟨hd, hcopied (by simp), ?_⟩
      rintro n ⟨x, hx, hp⟩
      obtain ⟨rest, -, hk1⟩ := setupkvm_some hsetup
      rcases hpresent _ x hx hp with ⟨i, hi, hdiv⟩ | hempty
      · have hn : n * PGSIZE / PGSIZE = n := Nat.mul_div_cancel n (by decide)
        rw [hn] at hdiv
        have hlt := mem_pageRange_of_div hi (hn.trans hdiv)
        obtain ⟨y, hy, hyp⟩ := hall i hi
        refine ⟨by rwa [hn] at hlt, y, ?_, hyp⟩
        have hpage : k1.walkpgdir pg (n * PGSIZE) = k1.walkpgdir pg i := walkpgdir_congr (hn.trans hdiv)
        rw [← hpage] at hy
        unfold Kernel.walkpgdir at hy ⊢
        rwa [hold1 pg hpg] at hy
      · rw [hk1] at hempty
        simp only [Kernel.walkpgdir, Function.update_self] at hempty
        cases hempty

/-- `fork` writes only to the new process from here on. -/
theorem forkChild_dir {k k' : Kernel} {np : ProcId} {d : Nat} {r : Int} (h : forkChild k np d = .ok (r, k')) :
    OnlyProc np k k' ∧ k'.pgdir = k.pgdir ∧ k'.freelist = k.freelist ∧ k'.kend = k.kend ∧
      (k'.proc np).pgdir = d := by
  simp only [forkChild, bind_eq_ok] at h
  obtain ⟨fs, -, h⟩ := h
  set k1 : Kernel := { k.setProc np ((k.proc np).childOf k.cur k.curproc d) with
    fs := fs.idup (k.setProc np ((k.proc np).childOf k.cur k.curproc d)).cur.cwd } with hk1
  have h1 : OnlyProc np k k1 := (OnlyProc.setProc k _).trans (.of_fs rfl)
  have hdir1 : (k1.proc np).pgdir = d := by
    show ((k.setProc np ((k.proc np).childOf k.cur k.curproc d)).proc np).pgdir = d
    rw [Kernel.setProc_self]
    rfl
  split at h
  · -- the metadata and the swap file are copied
    rw [bind_eq_ok] at h
    obtain ⟨k2, hcopy, h⟩ := h
    cases h
    have hfs := copySwapFile_ok hcopy
    set k3 := k1.setProc np ((k1.proc np).copyPaging k1.cur) with hk3
    have hdir3 : (k3.proc np).pgdir = d := by
      rw [hk3, Kernel.setProc_self]
      exact hdir1
    refine ⟨?_, ?_, ?_, ?_, ?_⟩
    · exact ((h1.trans (.setProc _ _)).trans (.of_fs hfs)).trans (.setProc _ _)
    · rw [hfs]
      rfl
    · rw [hfs]
      rfl
    · rw [hfs]
      rfl
    · rw [Kernel.setProc_self, hfs]
      exact hdir3
  · cases h
    refine ⟨h1.trans (.setProc _ _), rfl, rfl, rfl, ?_⟩
    rw [Kernel.setProc_self]
    exact hdir1

/-- What `fork` does to the page tables: it fails, or there is a process with
    a directory of its own, with pages of the parent's size that the parent
    has, too. -/
theorem InUse.fork {ds hs : List Nat} {k k' : Kernel} {r : Int} (h : InUse ds hs k)
    (hcur : k.cur.pgdir ∈ ds) (hlive : k.cur.state ≠ .UNUSED) (hok : Paging.fork k = .ok (r, k')) :
    (∀ e ∈ ds, k'.pgdir e = k.pgdir e) ∧
      ((InUse ds hs k' ∧ ∀ p, Live k' p → k'.proc p = k.proc p) ∨
        ∃ np d hs', d ∉ ds ∧ InUse (d :: ds) hs' k' ∧ (k'.proc np).pgdir = d ∧
          (∀ p, p ≠ np → k'.proc p = k.proc p) ∧ k.curproc ≠ np ∧
          ∀ n, PresentAt k' d n → n < npages k.cur.sz ∧ PresentAt k k.cur.pgdir n) := by
  simp only [Paging.fork, bind_eq_ok] at hok
  obtain ⟨⟨np, k1⟩, halloc, hok⟩ := hok
  obtain ⟨hpgdir1, hnone1, hsome1⟩ := h.allocproc halloc
  cases np with
  | none =>
    cases hok
    refine ⟨fun e _ => by rw [hpgdir1], .inl ⟨hnone1 rfl, ?_⟩⟩
    intro p hp
    rcases allocproc_none halloc with rfl | ⟨np, -, honly, hunused⟩
    · rfl
    · apply honly.others
      rintro rfl
      exact hp.1 hunused
  | some np =>
    obtain ⟨hfree, honly1, -⟩ := allocproc_ok halloc
    have hne : k.curproc ≠ np := by
      intro heq
      have hunused := freeProc_unused hfree
      rw [← heq] at hunused
      exact hlive hunused
    have hcur1 : k1.cur = k.cur := honly1.cur hne
    have h1 := hsome1 np rfl
    simp only [bind_eq_ok] at hok
    obtain ⟨⟨d, k2⟩, hcopy, hok⟩ := hok
    rw [hcur1] at hcopy
    have hmem := copyuvm_mem hcopy
    obtain ⟨hold, hnone2, hsome2⟩ := h1.copyuvm hcur hcopy
    have hold' : ∀ e ∈ ds, k2.pgdir e = k.pgdir e := fun e he => by rw [hold e he, hpgdir1]
    cases d with
    | none =>
      simp only [bind_eq_ok] at hok
      obtain ⟨k3, hkfree, hok⟩ := hok
      cases hok
      have h3 : InUse ds hs k3 := by
        apply (hnone2 rfl).kfree (f := (k1.proc np).kstack)
        rw [← hmem.proc]
        exact hkfree
      refine ⟨?_, .inl ⟨h3.congr rfl rfl rfl, ?_⟩⟩
      · intro e he
        rw [kfree_ok hkfree]
        exact hold' e he
      · intro p hp
        by_cases hpnp : p = np
        · subst hpnp
          exact absurd (by rw [Kernel.setProc_self]) hp.1
        · rw [Kernel.setProc_ne _ _ hpnp, kfree_ok hkfree]
          show k2.proc p = k.proc p
          rw [hmem.proc, honly1.others p hpnp]
    | some d =>
      obtain ⟨hd, h2, hpages⟩ := hsome2 d rfl
      obtain ⟨honly3, hpgdir3, hfree3, hkend3, hdir3⟩ := forkChild_dir hok
      refine ⟨?_, .inr ⟨np, d, _, hd, h2.congr hkend3 hpgdir3 hfree3, hdir3, ?_, hne, ?_⟩⟩
      · intro e he
        rw [hpgdir3, hold' e he]
      · intro p hp
        rw [honly3.others p hp, hmem.proc, honly1.others p hp]
      · rintro n ⟨x, hx, hp⟩
        obtain ⟨hlt, hparent⟩ := hpages n ⟨x, by unfold Kernel.walkpgdir at hx ⊢; rwa [hpgdir3] at hx, hp⟩
        refine ⟨hlt, ?_⟩
        unfold PresentAt Kernel.walkpgdir at hparent ⊢
        rwa [hpgdir1] at hparent

/-! ### `sbrk` -/

theorem sys_sbrk_quiet {k k' : Kernel} {n r : Int} (h : sys_sbrk k n = .ok (r, k')) :
    ∃ k1, Quiet k.cur.pgdir k k1 ∧ (k' = k1 ∨ ∃ sz, k' = k1.setSz sz) := by
  simp only [sys_sbrk, bind_eq_ok] at h
  obtain ⟨⟨r1, k2⟩, hgrow, h⟩ := h
  cases h
  have hend : ∀ {k1 : Kernel} {sz : Nat}, Quiet k.cur.pgdir k k1 →
      (if n ≠ 0 ∧ sz = 0 then (.ok (-1, k1) : Result (Int × Kernel)) else .ok (0, k1.setSz sz)) =
        .ok (r1, k2) → ∃ k1, Quiet k.cur.pgdir k k1 ∧ (k2 = k1 ∨ ∃ sz, k2 = k1.setSz sz) := by
    intro k1 sz h1 hret
    split at hret
    · cases hret
      exact ⟨_, h1, .inl rfl⟩
    · cases hret
      exact ⟨_, h1, .inr ⟨sz, rfl⟩⟩
  unfold growproc at hgrow
  simp only [] at hgrow
  split at hgrow
  · rw [bind_eq_ok] at hgrow
    obtain ⟨⟨sz, k1⟩, halloc, hret⟩ := hgrow
    exact hend (allocuvm_quiet halloc) hret
  split at hgrow
  · rw [bind_eq_ok] at hgrow
    obtain ⟨⟨sz, k1⟩, hdealloc, hret⟩ := hgrow
    exact hend (.single (.dealloc hdealloc)) hret
  · exact hend .refl hgrow

/-! ### `exec` -/

/-- The order of the directories does not matter. -/
theorem InUse.perm {ds ds' hs : List Nat} {k : Kernel} (h : InUse ds hs k) (hperm : ds.Perm ds') :
    InUse ds' hs k := by
  refine ⟨h.kend, hperm.nodup_iff.mp h.dirs, h.held, ?_, h.inv.mono ?_⟩
  · intro e he
    exact h.absent e (hperm.mem_iff.mpr he)
  · rintro (⟨e, part⟩ | g) f hi
    · obtain ⟨he, hpart⟩ := inUse_inl.mp hi
      exact inUse_inl.mpr ⟨hperm.mem_iff.mpr he, hpart⟩
    · exact inUse_inr.mpr (inUse_inr.mp hi)

theorem resetPaging_dirs (k : Kernel) (ds : List Nat) : OnlyDirs ds k (k.modCur Proc.resetPaging) := by
  refine ⟨rfl, fun p => ?_, fun _ _ => rfl⟩
  unfold Kernel.modCur Kernel.setCur
  by_cases hp : p = k.curproc
  · rw [hp, Kernel.setProc_self]
    exact ⟨_, _, _, _, _, rfl⟩
  · rw [Kernel.setProc_ne _ _ hp]
    exact .of_list (.refl _)

theorem InUse.setupkvm_dirs {ds hs : List Nat} {k k' : Kernel} {r : Option Nat} (h : InUse ds hs k)
    (hok : Paging.setupkvm k = .ok (r, k')) : ∃ es, (∀ e ∈ es, e ∉ ds) ∧ (∀ d, r = some d → d ∈ es) ∧
      OnlyDirs es k k' := by
  rcases setupkvm_beside hok with ⟨-, rfl, rfl⟩ | ⟨d, rest, hfree, hbeside, hr⟩
  · exact ⟨[], nofun, nofun, .refl k'⟩
  · refine ⟨[d], ?_, ?_, .of_beside hbeside (by simp)⟩
    · intro e he
      rw [List.mem_singleton.mp he]
      exact (h.carve_dir hfree).1
    · rintro e rfl
      rcases hr with hr | hr
      · cases hr
      · rw [Option.some.inj hr]
        simp

/-- Up to the commit `exec` writes to the directory of the process and to a
    new one, which is in use afterwards if there is something to commit to. -/
theorem InUse.execImage {ds hs : List Nat} {k k' : Kernel} {path : Nat} {argv : List Nat} {r : Option Image}
    (h : InUse ds hs k) (hcur : k.cur.pgdir ∈ ds) (hok : Paging.execImage k path argv = .ok (r, k')) :
    (∃ es, (∀ e ∈ es, e ∉ ds) ∧ OnlyDirs (k.cur.pgdir :: es) k k') ∧ (r = none → InUse ds hs k') ∧
      ∀ img, r = some img → img.pgdir ∉ ds ∧ InUse (img.pgdir :: ds) hs k' := by
  have hinode : ∀ {q : Option Nat} {k1 : Kernel}, execInode k path = .ok (q, k1) →
      OnlyDirs [k.cur.pgdir] k k1 ∧ InUse ds hs k1 ∧ k1.cur.pgdir ∈ ds := by
    intro q k1 hk1
    have hloads : Loads k.cur.pgdir k k1 := execInode_loads hk1
    have hdirs : OnlyDirs [k.cur.pgdir] k k1 := hloads.dirs (by simp) (by simp)
    refine ⟨hdirs, h.loads hcur hcur hloads, ?_⟩
    rwa [hdirs.pgdir]
  rcases execImage_ok hok with ⟨q, k1, k2, hk1, hk2, rfl, hk'⟩ | ⟨ip, k1, d, k2, hk1, -, hsetup, hload⟩
  · obtain ⟨hdirs, h1, -⟩ := hinode hk1
    have h2 : InUse ds hs k2 ∧ ∃ es, (∀ e ∈ es, e ∉ ds) ∧ OnlyDirs es k1 k2 := by
      rcases hk2 with ⟨-, rfl⟩ | ⟨ip, -, ⟨-, rfl⟩ | ⟨-, hsetup⟩⟩
      · exact ⟨h1, [], nofun, .refl k2⟩
      · exact ⟨h1, [], nofun, .refl k2⟩
      · obtain ⟨es, hes, -, honly⟩ := h1.setupkvm_dirs hsetup
        exact ⟨(h1.setupkvm hsetup).1 rfl, es, hes, honly⟩
    obtain ⟨h2, es, hes, honly⟩ := h2
    rw [hk']
    refine ⟨⟨es, hes, ?_⟩, fun _ => h2.congr rfl rfl rfl, nofun⟩
    exact ((hdirs.mono (by simp)).trans (honly.mono (by simp))).trans (.of_fs rfl)
  · obtain ⟨hdirs, h1, hcur1⟩ := hinode hk1
    obtain ⟨hd, h2⟩ := (h1.setupkvm hsetup).2 d rfl
    obtain ⟨es, hes, hdes, honly⟩ := h1.setupkvm_dirs hsetup
    have hcur2 : k2.cur.pgdir = k.cur.pgdir := honly.pgdir.trans hdirs.pgdir
    -- along the load, the two directories are those of the process and `d`
    have hload2 : ∀ {k3 : Kernel}, Loads d (k2.modCur Proc.resetPaging) k3 →
        OnlyDirs (k.cur.pgdir :: es) k k3 ∧ InUse (d :: ds) hs k3 := by
      intro k3 hk3
      have hreset : (k2.modCur Proc.resetPaging).cur.pgdir = k.cur.pgdir := by
        rw [Kernel.modCur_cur]
        exact hcur2
      have honly3 : OnlyDirs (k.cur.pgdir :: es) (k2.modCur Proc.resetPaging) k3 := by
        apply hk3.dirs
        · exact List.mem_cons_of_mem _ (hdes d rfl)
        · rw [hreset]
          simp
      refine ⟨?_, ?_⟩
      · exact (((hdirs.mono (by simp)).trans (honly.mono (by simp))).trans (resetPaging_dirs k2 _)).trans honly3
      · have h3 : InUse (d :: ds) hs (k2.modCur Proc.resetPaging) := h2.congr rfl rfl rfl
        apply h3.loads (by simp) _ hk3
        rw [hreset]
        exact List.mem_cons_of_mem _ hcur
    cases r with
    | none =>
      obtain ⟨k3, k4, hk3, hfree, hk'⟩ := execLoad_none hload
      obtain ⟨honly3, h3⟩ := hload2 hk3
      rw [hk']
      refine ⟨⟨es, hes, ?_⟩, fun _ => (h3.freevm hfree).congr rfl rfl rfl, nofun⟩
      exact (honly3.trans (.of_beside (freevm_beside hfree) (List.mem_cons_of_mem _ (hdes d rfl)))).trans
        (.of_fs rfl)
    | some img =>
      obtain ⟨honly3, h3⟩ := hload2 (execLoad_loads hload)
      refine ⟨⟨es, hes, honly3⟩, nofun, ?_⟩
      intro img' himg
      obtain rfl := Option.some.inj himg
      rw [(execLoad_some hload).1]
      exact ⟨hd, h3⟩

/-- What `exec` does to the page tables: it fails, or it gives the process
    the new directory and frees the old one. -/
theorem InUse.exec {ds hs : List Nat} {k k' : Kernel} {path : Nat} {argv : List Nat} {r : Int}
    (h : InUse ds hs k) (hcur : k.cur.pgdir ∈ ds) (hok : Paging.exec k path argv = .ok (r, k')) :
    k'.curproc = k.curproc ∧
    (∀ p, (k'.proc p).state = (k.proc p).state ∧ (k'.proc p).pid = (k.proc p).pid) ∧
    (∀ p, p ≠ k.curproc → (k'.proc p).pgdir = (k.proc p).pgdir) ∧
    (∀ e ∈ ds, e ≠ k.cur.pgdir → k'.pgdir e = k.pgdir e) ∧
    ((Paging.execImage k path argv = .ok (none, k') ∧ InUse ds hs k' ∧ k'.cur.pgdir = k.cur.pgdir) ∨
      ∃ img k1, Paging.execImage k path argv = .ok (some img, k1) ∧ img.pgdir ∉ ds ∧
        InUse (img.pgdir :: ds.erase k.cur.pgdir) hs k' ∧ k'.cur.pgdir = img.pgdir ∧
        k'.pgdir img.pgdir = k1.pgdir img.pgdir) := by
  simp only [Paging.exec, bind_eq_ok] at hok
  obtain ⟨⟨r1, k1⟩, himage, hok⟩ := hok
  obtain ⟨⟨es, hes, hdirs1⟩, hnone, hsome⟩ := h.execImage hcur himage
  cases r1 with
  | none =>
    cases hok
    refine ⟨hdirs1.curproc, ?_, ?_, ?_, .inl ⟨himage, hnone rfl, hdirs1.pgdir⟩⟩
    · intro p
      obtain ⟨_, _, _, _, _, heq⟩ := hdirs1.procs p
      rw [heq]
      exact ⟨rfl, rfl⟩
    · intro p _
      exact (hdirs1.procs p).pgdir
    · intro e he hne
      apply hdirs1.pgdirs
      intro hmem
      rcases List.mem_cons.mp hmem with heq | hmem
      · exact hne heq
      · exact hes e hmem he
  | some img =>
    simp only [bind_eq_ok] at hok
    obtain ⟨k3, hcommit, hok⟩ := hok
    cases hok
    obtain ⟨k2, hquiet, hfree⟩ := execCommit_ok (d := k1.cur.pgdir) hcommit
    have hloads := hquiet.loads
    obtain ⟨hd, h1⟩ := hsome img rfl
    set old := k.cur.pgdir with hold
    have hcur1 : k1.cur.pgdir = old := hdirs1.pgdir
    have hdirs2 : OnlyDirs [old] k1 k2 := by
      rw [hcur1] at hloads
      exact hloads.dirs (by simp) (by simp [hcur1])
    have hcur2 : k2.cur.pgdir = old := hdirs2.pgdir.trans hcur1
    have hmem1 : k1.cur.pgdir ∈ img.pgdir :: ds := by
      rw [hcur1]
      exact List.mem_cons_of_mem _ hcur
    have h2 : InUse (img.pgdir :: ds) hs k2 := h1.loads hmem1 hmem1 hloads
    have hdirs : OnlyDirs (old :: es) k k2 := hdirs1.trans (hdirs2.mono (by simp))
    set k4 := k2.modCur fun x =>
      { x with pgdir := img.pgdir, sz := img.sz, tf := { x.tf with eip := img.entry, esp := img.sp } } with hk4
    rw [hcur2] at hfree
    have hbeside := freevm_beside hfree
    have hne : img.pgdir ≠ old := by
      rintro heq
      rw [heq] at hd
      exact hd hcur
    have hcurproc : k'.curproc = k.curproc := hbeside.curproc.trans hdirs.curproc
    have hother : ∀ p, p ≠ k.curproc → k4.proc p = k2.proc p := by
      intro p hp
      apply Kernel.setProc_ne
      rwa [hdirs.curproc]
    have hown : k4.proc k.curproc = k4.cur := by
      unfold Kernel.cur
      rw [show k4.curproc = k.curproc from hdirs.curproc]
    refine ⟨hcurproc, ?_, ?_, ?_, .inr ⟨img, k1, himage, hd, ?_, ?_, ?_⟩⟩
    · intro p
      obtain ⟨_, _, _, hlist⟩ := hbeside.procs p
      obtain ⟨_, _, _, _, _, hpaging⟩ := hdirs.procs p
      rw [hlist]
      show (k4.proc p).state = (k.proc p).state ∧ (k4.proc p).pid = (k.proc p).pid
      by_cases hp : p = k.curproc
      · subst hp
        rw [hown, hk4, Kernel.modCur_cur]
        show k2.cur.state = _ ∧ k2.cur.pid = _
        unfold Kernel.cur
        rw [hdirs.curproc, hpaging]
        exact ⟨rfl, rfl⟩
      · rw [hother p hp, hpaging]
        exact ⟨rfl, rfl⟩
    · intro p hp
      rw [(hbeside.procs p).pgdir, hother p hp, (hdirs.procs p).pgdir]
    · intro e he hne'
      rw [hbeside.pgdirs e hne']
      apply hdirs.pgdirs
      intro hmem
      rcases List.mem_cons.mp hmem with heq | hmem
      · exact hne' heq
      · exact hes e hmem he
    · -- the old directory is the first of those in use
      have h4 : InUse (img.pgdir :: ds) hs k4 := h2.congr rfl rfl rfl
      refine InUse.freevm (d := old) (h4.perm ?_) hfree
      exact ((List.perm_cons_erase hcur).cons img.pgdir).trans (List.Perm.swap old img.pgdir _)
    · rw [hbeside.cur.pgdir, hk4, Kernel.modCur_cur]
    · rw [hbeside.pgdirs _ hne]
      show k2.pgdir img.pgdir = k1.pgdir img.pgdir
      exact hdirs2.pgdirs _ (by simp [hne])

end Paging
