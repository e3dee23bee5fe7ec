import OperatingSystem314.Paging.Atomic
import OperatingSystem314.Paging.Calls

/-! # What eviction and growth take away

    `Keeps C k k'`: from `k` to `k'` no page of the set `C` is taken away
    from the current process.  Eviction takes the oldest page, a page fault
    the two oldest ones, and `allocuvm` what it evicts and what it undoes;
    it undoes something only if memory runs out.

    * `Keeps.swapPageOut`, `Keeps.swapPageIn`, `allocLoop_keeps`.
    * `allocLoop_round`: a round of the loop of `allocuvm`.
    * `runsOut_of_allocLoop`: when that loop fails. -/

namespace Paging

/-- An eviction replaces entries, it takes none away. -/
theorem swapPageOut_entry {k k' : Kernel} {va : Nat} {x : Pte} (h : swapPageOut k = .ok k')
    (hx : k.walkpgdir k.cur.pgdir va = some x) :
    ∃ y, k'.walkpgdir k'.cur.pgdir va = some y ∧ (y = x ∨ y = .swapped) := by
  obtain ⟨a, k1, hdeq, hmove⟩ := swapPageOut_ok h
  obtain ⟨honly, -, -, z, -, -, hpgdir⟩ := moveToSwapFile_ok hmove
  have hlists := dequeueFIFO_lists hdeq
  have hx1 : (k1.pgdir k1.cur.pgdir).walk va = some x := by
    rw [hlists.cur.pgdir, hlists.rest]
    exact hx
  rw [honly.pgdir, Kernel.walkpgdir, hpgdir]
  split
  · by_cases hpage : va / PGSIZE = PTE_ADDR a / PGSIZE
    · rw [Pgdir.walk_congr _ hpage] at hx1 ⊢
      exact ⟨_, Pgdir.walk_setPte_self _ hx1, .inr rfl⟩
    · exact ⟨x, by rwa [Pgdir.walk_setPte_ne _ hpage], .inl rfl⟩
  · exact ⟨x, hx1, .inl rfl⟩

/-! ### Entries that are kept -/

/-- The present entries of the current directory for the page numbers `C`
    are still there. -/
structure Keeps (C : Nat → Prop) (k k' : Kernel) : Prop where
  pgdir : k'.cur.pgdir = k.cur.pgdir
  present : ∀ va x, C (va / PGSIZE) → k.walkpgdir k.cur.pgdir va = some x → x.p = true →
    k'.walkpgdir k'.cur.pgdir va = some x

namespace Keeps

variable {C : Nat → Prop} {k k' k'' : Kernel}

theorem refl (k : Kernel) : Keeps C k k := ⟨rfl, fun _ _ _ hx _ => hx⟩

theorem trans (h : Keeps C k k') (h' : Keeps C k' k'') : Keeps C k k'' :=
  ⟨h'.pgdir.trans h.pgdir, fun va x hC hx hp => h'.present va x hC (h.present va x hC hx hp) hp⟩

/-- Nothing happens to the directory. -/
theorem of_same (hcur : k'.cur.pgdir = k.cur.pgdir) (hdir : k'.pgdir k.cur.pgdir = k.pgdir k.cur.pgdir) :
    Keeps C k k' := by
  refine ⟨hcur, fun va x _ hx _ => ?_⟩
  rw [hcur, Kernel.walkpgdir, hdir]
  exact hx

theorem of_lists (h : OnlyLists k k') : Keeps C k k' := by
  apply of_same h.cur.pgdir
  rw [h.rest]

theorem setPte {va : Nat} (x : Pte) (hC : ¬ C (va / PGSIZE)) : Keeps C k (k.setPte k.cur.pgdir va x) := by
  refine ⟨rfl, fun a y ha hy _ => ?_⟩
  have hne : a / PGSIZE ≠ va / PGSIZE := by
    intro heq
    rw [heq] at ha
    exact hC ha
  rw [Kernel.setPte_cur, walkpgdir_setPte_ne hne]
  exact hy

/-- Only the entry of one page, or of none, is replaced. -/
theorem moveToSwapFile {a : Nat} (hok : Paging.moveToSwapFile k a = .ok k') (hC : ¬ C (a / PGSIZE)) :
    Keeps C k k' := by
  obtain ⟨honly, -, -, x, -, -, hpgdir⟩ := moveToSwapFile_ok hok
  split at hpgdir
  · have hset : Keeps C k (k.setPte k.cur.pgdir (PTE_ADDR a) .swapped) := setPte _ (by rwa [PTE_ADDR_div])
    refine hset.trans (of_same honly.pgdir ?_)
    rw [Kernel.setPte_cur, hpgdir]
    simp [Kernel.setPte]
  · exact of_same honly.pgdir hpgdir

theorem swapPageOut (hok : Paging.swapPageOut k = .ok k') (hC : ¬ C (oldest k / PGSIZE)) : Keeps C k k' := by
  obtain ⟨⟨k1, hdeq, hmove⟩, -⟩ := swapPageOut_oldest hok
  exact (of_lists (dequeueFIFO_lists hdeq)).trans (moveToSwapFile hmove hC)

theorem swapPageIn {va : Nat} (hok : Paging.swapPageIn k va = .ok k') (hva : ¬ C (va / PGSIZE))
    (hC : slotOf k.cur (PTE_ADDR va) ≠ none → ¬ C (oldest k / PGSIZE)) : Keeps C k k' := by
  rcases swapPageIn_ok hok with ⟨-, rfl⟩ | ⟨i, b, k1, k2, y, hslot, hdeq, h2, henq, -, -, -, hpgdir⟩
  · exact refl _
  · obtain ⟨rfl, -⟩ := dequeueFIFO_unlinked hdeq
    have hold : ¬ C (oldest k / PGSIZE) := hC (by simp [hslot])
    have h1 : Keeps C k k1 := of_lists (dequeueFIFO_lists hdeq)
    -- the page brought in, and then the page replaced
    set k3 := k1.setPte k1.cur.pgdir va ⟨y.ppn, true, true, true, false⟩ with hk3
    have h3 : Keeps C k1 k3 := setPte _ hva
    have h4 : Keeps C k3 (k3.setPte k1.cur.pgdir (oldest k) .swapped) := setPte (k := k3) _ hold
    have h5 : Keeps C (k3.setPte k1.cur.pgdir (oldest k) .swapped) k2 := by
      refine of_same (show _ = k1.cur.pgdir from h2.pgdir) (Eq.trans hpgdir ?_)
      have hcur : (k3.setPte k1.cur.pgdir (oldest k) .swapped).cur.pgdir = k1.cur.pgdir := rfl
      rw [hcur]
      simp only [hk3, Kernel.setPte, Function.update_self]
    exact (((h1.trans h3).trans h4).trans h5).trans (of_lists (enqueueFIFO_lists henq))

/-- A mapping replaces no present entry. -/
theorem mappages {a : Nat} {x : Pte} {r : Int} (hok : Paging.mappages k k.cur.pgdir a x = .ok (r, k')) :
    Keeps C k k' := by
  rcases mappages_cases hok with ⟨-, rfl, -⟩ | ⟨-, k1, rfl, hk1, y, hy, hp⟩
  · exact refl _
  have h1 : Keeps C k k1 ∧ k1.cur.pgdir = k.cur.pgdir := by
    rcases hk1 with rfl | ⟨t, rest, hnone, -, rfl⟩
    · exact ⟨refl _, rfl⟩
    · refine ⟨⟨rfl, fun va z _ hz _ => ?_⟩, rfl⟩
      have hdx : PDX va ≠ PDX a := by
        intro heq
        simp [Kernel.walkpgdir, Pgdir.walk, heq, hnone] at hz
      have hcur : (k.newTable k.cur.pgdir a t rest).cur = k.cur := rfl
      rw [hcur]
      simpa [Kernel.newTable, Kernel.walkpgdir, Pgdir.walk, hdx] using hz
  rw [← h1.2] at hy ⊢
  refine h1.1.trans ⟨rfl, fun va z _ hz hzp => ?_⟩
  have hne : va / PGSIZE ≠ a / PGSIZE := by
    intro heq
    rw [walkpgdir_congr heq, hy] at hz
    cases hz
    rw [hp] at hzp
    cases hzp
  rw [Kernel.setPte_cur, walkpgdir_setPte_ne hne]
  exact hz

theorem deallocPage {a : Nat} (hok : Paging.deallocPage k.cur.pgdir k a = .ok k') (hC : ¬ C (a / PGSIZE)) :
    Keeps C k k' := by
  unfold Paging.deallocPage at hok
  split at hok
  · cases hok
    exact refl _
  · split at hok
    · split at hok
      · cases hok
      · rw [bind_eq_ok] at hok
        obtain ⟨k1, hfree, hok⟩ := hok
        cases hok
        have hmem := kfree_mem hfree
        have hcur : k1.cur.pgdir = k.cur.pgdir := by rw [hmem.cur]
        have h1 : Keeps C k k1 := of_same hcur (by rw [kfree_ok hfree])
        rw [← hcur]
        exact h1.trans (setPte _ hC)
    · cases hok
      exact refl _

theorem deallocuvm {oldsz newsz n : Nat} (hok : Paging.deallocuvm k k.cur.pgdir oldsz newsz = .ok (n, k'))
    (hC : ∀ a ∈ pageRange (PGROUNDUP newsz) oldsz, ¬ C (a / PGSIZE)) : Keeps C k k' := by
  unfold Paging.deallocuvm at hok
  split at hok
  · cases hok
    exact refl _
  rw [bind_eq_ok] at hok
  obtain ⟨k1, hfold, hok⟩ := hok
  cases hok
  generalize hd : k.cur.pgdir = d at hfold
  -- by induction on the pages: each round keeps the directory of the process
  generalize pageRange (PGROUNDUP newsz) oldsz = pages at hfold hC
  induction pages generalizing k with
  | nil =>
    cases hfold
    exact refl _
  | cons a rest ih =>
    rw [List.foldlM_cons, bind_eq_ok] at hfold
    obtain ⟨k2, hpage, hfold⟩ := hfold
    rw [← hd] at hpage
    have h2 : Keeps C k k2 := deallocPage hpage (hC a List.mem_cons_self)
    exact h2.trans (ih (h2.pgdir.trans hd) hfold fun b hb => hC b (List.mem_cons_of_mem a hb))

end Keeps

/-! ### A growth that fails -/

section growth

variable (d : Nat)

/-- A round of the loop of `allocuvm` that maps its page and enqueues it. -/
def AllocRound (a : Nat) (k k' : Kernel) : Prop :=
  ∃ k1 f free r k2, makeRoom k = .ok k1 ∧ k1.freelist = f :: free ∧
    mappages (({ k1 with freelist := free } : Kernel).setFrame f fun _ => 0) d a ⟨f, true, true, true, false⟩ =
      .ok (r, k2) ∧ ¬ r < 0 ∧ enqueueFIFO k2 (PTE_ADDR a) = .ok k'

/-- At some page there is no frame left. -/
inductive RunsOut : List Nat → Kernel → Prop
  | now {a : Nat} {rest : List Nat} {k k1 : Kernel} (hroom : makeRoom k = .ok k1) (h : NoFrame k1 a) :
      RunsOut (a :: rest) k
  | later {a : Nat} {rest : List Nat} {k k1 : Kernel} (hround : AllocRound d a k k1) (h : RunsOut rest k1) :
      RunsOut (a :: rest) k

/-- The addresses that the loop takes from the list. -/
inductive Evicts : List Nat → Kernel → Nat → Prop
  | now {a : Nat} {rest : List Nat} {k : Kernel} (h : (MAX_PSYC_PAGES : Int) ≤ k.cur.nPagesInPhyMemory) :
      Evicts (a :: rest) k (oldest k)
  | later {a b : Nat} {rest : List Nat} {k k1 : Kernel} (hround : AllocRound d a k k1) (h : Evicts rest k1 b) :
      Evicts (a :: rest) k b

end growth

theorem makeRoom_pgdir {k k' : Kernel} (h : makeRoom k = .ok k') : k'.cur.pgdir = k.cur.pgdir := by
  unfold makeRoom at h
  split at h
  · rw [bind_eq_ok] at h
    obtain ⟨-, -, hout⟩ := h
    exact (swapPageOut_swaps hout).pgdir
  · cases h
    rfl

/-- The loop fails in its first round, which undoes what it allocated, or goes on after it. -/
theorem allocLoop_round {oldsz newsz a n : Nat} {rest : List Nat} {k k' : Kernel}
    (h : allocLoop k.cur.pgdir oldsz newsz (a :: rest) k = .ok (n, k')) :
    (∃ k1 kf m k3, makeRoom k = .ok k1 ∧ NoFrame k1 a ∧ n = 0 ∧ OnlyMem k1 kf ∧ kf.pgdir = k1.pgdir ∧
      deallocuvm kf kf.cur.pgdir newsz oldsz = .ok (m, k3) ∧ (k' = k3 ∨ ∃ f, kfree k3 f = .ok k')) ∨
    ∃ k1, AllocRound k.cur.pgdir a k k1 ∧ k1.cur.pgdir = k.cur.pgdir ∧
      allocLoop k1.cur.pgdir oldsz newsz rest k1 = .ok (n, k') := by
  obtain ⟨k1, hroom, hround⟩ := allocLoop_cons h
  have hd1 : k1.cur.pgdir = k.cur.pgdir := makeRoom_pgdir hroom
  rcases hround with ⟨hempty, hn, m, hdealloc⟩ | ⟨f, free, r, k2, hfree, hmap, ⟨hr, hn, m, k3, hdealloc, hkfree⟩ | hgo⟩
  · left
    rw [← hd1] at hdealloc
    exact ⟨k1, k1, m, k', hroom, by simp [NoFrame, hempty], hn, ⟨_, _, _, rfl⟩, rfl, hdealloc, .inl rfl⟩
  · -- there is no frame for the page table
    left
    rcases mappages_cases hmap with ⟨-, rfl, hnone, hlast⟩ | ⟨rfl, -⟩
    · have htable : k1.hasTable (PDX a) = false := by
        unfold Kernel.hasTable
        rw [hd1, show (k1.pgdir k.cur.pgdir).pde (PDX a) = none from hnone]
        rfl
      have hlen : free = [] := hlast
      rw [← hd1] at hdealloc
      exact ⟨k1, _, m, k3, hroom, by simp [NoFrame, hfree, hlen, htable], hn, take_mem k1 f free, rfl, hdealloc,
        .inr ⟨f, hkfree⟩⟩
    · exact absurd hr (by decide)
  · right
    obtain ⟨hr, k3, henq, hrest⟩ := hgo
    have hd3 : k3.cur.pgdir = k.cur.pgdir := by
      rw [(enqueueFIFO_lists henq).cur.pgdir, ((take_mem k1 f free).trans (mappages_mem hmap)).cur, hd1]
    refine ⟨k3, ⟨k1, f, free, r, k2, hroom, hfree, hmap, hr, henq⟩, hd3, ?_⟩
    rwa [hd3]

/-- The loop returns `0` only when memory runs out. -/
theorem runsOut_of_allocLoop {oldsz newsz : Nat} {pages : List Nat} {k k' : Kernel} (hnewsz : newsz ≠ 0)
    (h : allocLoop k.cur.pgdir oldsz newsz pages k = .ok (0, k')) : RunsOut k.cur.pgdir pages k := by
  generalize hd : k.cur.pgdir = d
  induction pages generalizing k with
  | nil =>
    cases h
    exact absurd rfl hnewsz
  | cons a rest ih =>
    rcases allocLoop_round h with ⟨k1, -, -, -, hroom, hnoframe, -⟩ | ⟨k1, hround, hd1, hrest⟩
    · exact .now hroom hnoframe
    · rw [hd] at hround hd1
      exact .later hround (ih hrest hd1)

namespace Keeps

variable {C : Nat → Prop} {k k' : Kernel}

theorem makeRoom (hok : Paging.makeRoom k = .ok k')
    (hC : (MAX_PSYC_PAGES : Int) ≤ k.cur.nPagesInPhyMemory → ¬ C (oldest k / PGSIZE)) : Keeps C k k' := by
  unfold Paging.makeRoom at hok
  split at hok
  next hfull =>
    rw [bind_eq_ok] at hok
    obtain ⟨-, -, hout⟩ := hok
    exact .swapPageOut hout (hC hfull)
  · cases hok
    exact .refl _

theorem of_mem (hmem : OnlyMem k k') (hdir : k'.pgdir = k.pgdir) : Keeps C k k' := by
  apply of_same
  · rw [hmem.cur]
  · rw [hdir]

theorem kfree {f : Nat} (hok : Paging.kfree k f = .ok k') : Keeps C k k' :=
  of_mem (kfree_mem hok) (by rw [kfree_ok hok])

/-- A round of the loop of `allocuvm` takes away what it evicts. -/
theorem allocRound {a : Nat} (h : AllocRound k.cur.pgdir a k k')
    (hC : (MAX_PSYC_PAGES : Int) ≤ k.cur.nPagesInPhyMemory → ¬ C (oldest k / PGSIZE)) : Keeps C k k' := by
  obtain ⟨k1, f, free, r, k2, hroom, -, hmap, -, henq⟩ := h
  have h1 : Keeps C k k1 := .makeRoom hroom hC
  set kf : Kernel := ({ k1 with freelist := free } : Kernel).setFrame f fun _ => 0 with hkf
  have hf : Keeps C k1 kf := .of_mem (take_mem k1 f free) rfl
  rw [← h1.pgdir, ← hf.pgdir] at hmap
  exact ((h1.trans hf).trans (.mappages hmap)).trans (.of_lists (enqueueFIFO_lists henq))

/-- What is left when the loop fails. -/
theorem undone {oldsz newsz m : Nat} {kf k3 : Kernel} (hmem : OnlyMem k kf) (hdir : kf.pgdir = k.pgdir)
    (hdealloc : Paging.deallocuvm kf kf.cur.pgdir newsz oldsz = .ok (m, k3))
    (hend : k' = k3 ∨ ∃ f, Paging.kfree k3 f = .ok k')
    (hC : ∀ a ∈ pageRange (PGROUNDUP oldsz) newsz, ¬ C (a / PGSIZE)) : Keeps C k k' := by
  have h3 : Keeps C k k3 := (of_mem hmem hdir).trans (.deallocuvm hdealloc hC)
  rcases hend with rfl | ⟨f, hkfree⟩
  · exact h3
  · exact h3.trans (.kfree hkfree)

end Keeps

/-- The loop of `allocuvm`, by induction on the pages: it takes away what it
    evicts, and what it undoes. -/
theorem allocLoop_keeps {C : Nat → Prop} {oldsz newsz n : Nat} {pages : List Nat} {k k' : Kernel}
    (h : allocLoop k.cur.pgdir oldsz newsz pages k = .ok (n, k'))
    (hevicts : ∀ b, Evicts k.cur.pgdir pages k b → ¬ C (b / PGSIZE))
    (hnew : ∀ a ∈ pageRange (PGROUNDUP oldsz) newsz, ¬ C (a / PGSIZE)) : Keeps C k k' := by
  generalize hd : k.cur.pgdir = d at hevicts
  induction pages generalizing k with
  | nil =>
    cases h
    exact .refl _
  | cons a rest ih =>
    have hfirst : (MAX_PSYC_PAGES : Int) ≤ k.cur.nPagesInPhyMemory → ¬ C (oldest k / PGSIZE) :=
      fun hfull => hevicts _ (.now hfull)
    rcases allocLoop_round h with
      ⟨k1, kf, m, k3, hroom, -, -, hmem, hdir, hdealloc, hend⟩ | ⟨k1, hround, hd1, hrest⟩
    · exact (Keeps.makeRoom hroom hfirst).trans (.undone hmem hdir hdealloc hend hnew)
    · have h1 : Keeps C k k1 := .allocRound hround hfirst
      rw [hd] at hround hd1
      exact h1.trans (ih hrest hd1 fun b hb => hevicts b (.later hround hb))

/-! ### `sbrk` -/

/-- A call of `sbrk` is a growth, a shrink or neither; then the size is
    recorded, unless the call fails. -/
theorem sys_sbrk_cases {k k' : Kernel} {n r : Int} (h : sys_sbrk k n = .ok (r, k')) :
    ∃ k1, (k' = k1 ∨ ∃ sz, k' = k1.setSz sz) ∧
      ((0 < n ∧ ∃ m, allocuvm k k.cur.pgdir k.cur.sz ((k.cur.sz + n) % 2 ^ 32).toNat = .ok (m, k1)) ∨
        (n < 0 ∧ ∃ m, deallocuvm k k.cur.pgdir k.cur.sz ((k.cur.sz + n) % 2 ^ 32).toNat = .ok (m, k1) ∧
          k' = if m = 0 then k1 else k1.setSz m) ∨
        k1 = k) := by
  simp only [sys_sbrk, bind_eq_ok] at h
  obtain ⟨⟨r1, k2⟩, hgrow, h⟩ := h
  cases h
  have hend : ∀ {k1 : Kernel} {sz : Nat},
      (if n ≠ 0 ∧ sz = 0 then (.ok (-1, k1) : Result (Int × Kernel)) else .ok (0, k1.setSz sz)) = .ok (r1, k2) →
      k2 = k1 ∨ ∃ sz, k2 = k1.setSz sz := by
    intro k1 sz hret
    split at hret
    · cases hret
      exact .inl rfl
    · cases hret
      exact .inr ⟨sz, rfl⟩
  unfold growproc at hgrow
  simp only [] at hgrow
  split at hgrow
  next hn =>
    rw [bind_eq_ok] at hgrow
    obtain ⟨⟨sz, k1⟩, halloc, hret⟩ := hgrow
    exact ⟨k1, hend hret, .inl ⟨hn, sz, halloc⟩⟩
  next hn =>
    split at hgrow
    next hneg =>
      rw [bind_eq_ok] at hgrow
      obtain ⟨⟨sz, k1⟩, hdealloc, hret⟩ := hgrow
      refine ⟨k1, hend hret, .inr (.inl ⟨hneg, sz, hdealloc, ?_⟩)⟩
      split at hret
      next hzero =>
        cases hret
        rw [if_pos hzero.2]
      next hzero =>
        cases hret
        rw [if_neg (by omega)]
    · exact ⟨k, hend hgrow, .inr (.inr rfl)⟩

/-- What a call of `sbrk` leaves alone. -/
theorem sys_sbrk_dirs {k k' : Kernel} {n r : Int} (h : sys_sbrk k n = .ok (r, k')) :
    k'.curproc = k.curproc ∧ (∀ p, (k'.proc p).pgdir = (k.proc p).pgdir) ∧
      ∀ e, e ≠ k.cur.pgdir → k'.pgdir e = k.pgdir e := by
  obtain ⟨k1, hquiet, hk1⟩ := sys_sbrk_quiet h
  have hloads := hquiet.loads
  have hdirs : OnlyDirs [k.cur.pgdir] k k1 := hloads.dirs (by simp) (by simp)
  have h1 : k1.curproc = k.curproc ∧ (∀ p, (k1.proc p).pgdir = (k.proc p).pgdir) ∧
      ∀ e, e ≠ k.cur.pgdir → k1.pgdir e = k.pgdir e :=
    ⟨hdirs.curproc, fun p => (hdirs.procs p).pgdir, fun e he => hdirs.pgdirs e (by simpa using he)⟩
  rcases hk1 with rfl | ⟨sz, rfl⟩
  · exact h1
  · refine ⟨h1.1, fun p => ?_, h1.2.2⟩
    rw [← h1.2.1 p]
    unfold Kernel.setSz Kernel.modCur Kernel.setCur
    by_cases hp : p = k1.curproc
    · rw [hp, Kernel.setProc_self]
      rfl
    · rw [Kernel.setProc_ne _ _ hp]

/-- Shrinking keeps an entry or clears it. -/
theorem deallocuvm_entry {d oldsz newsz n va : Nat} {k k' : Kernel} {x : Pte}
    (h : deallocuvm k d oldsz newsz = .ok (n, k')) (hx : k.walkpgdir d va = some x) :
    k'.walkpgdir d va = some x ∨ k'.walkpgdir d va = some .zero := by
  have hround : ∀ {a : Nat} {k1 k2 : Kernel} {y : Pte}, deallocPage d k1 a = .ok k2 → k1.walkpgdir d va = some y →
      k2.walkpgdir d va = some y ∨ k2.walkpgdir d va = some .zero := by
    intro a k1 k2 y hpage hy
    unfold deallocPage at hpage
    split at hpage
    · cases hpage
      exact .inl hy
    · split at hpage
      · split at hpage
        · cases hpage
        · rw [bind_eq_ok] at hpage
          obtain ⟨k3, hfree, hpage⟩ := hpage
          cases hpage
          have hy3 : k3.walkpgdir d va = some y := by
            rw [Kernel.walkpgdir, kfree_ok hfree]
            exact hy
          by_cases hsame : va / PGSIZE = a / PGSIZE
          · exact .inr (walkpgdir_setPte_same hsame (by rwa [← walkpgdir_congr hsame]))
          · left
            rwa [walkpgdir_setPte_ne hsame]
      · cases hpage
        exact .inl hy
  unfold deallocuvm at h
  split at h
  · cases h
    exact .inl hx
  rw [bind_eq_ok] at h
  obtain ⟨k1, hfold, h⟩ := h
  cases h
  -- by induction on the pages: what is cleared stays cleared
  suffices hfrom : ∀ (pages : List Nat) (k : Kernel) (y : Pte), (y = x ∨ y = .zero) → k.walkpgdir d va = some y →
      pages.foldlM (deallocPage d) k = .ok k' → k'.walkpgdir d va = some x ∨ k'.walkpgdir d va = some .zero by
    exact hfrom _ k x (.inl rfl) hx hfold
  intro pages
  induction pages with
  | nil =>
    intro k y hy hwalk hfold
    cases hfold
    rcases hy with rfl | rfl
    · exact .inl hwalk
    · exact .inr hwalk
  | cons a rest ih =>
    intro k y hy hwalk hfold
    rw [List.foldlM_cons, bind_eq_ok] at hfold
    obtain ⟨k2, hpage, hfold⟩ := hfold
    rcases hround hpage hwalk with hsame | hzero
    · exact ih k2 y hy hsame hfold
    · exact ih k2 .zero (.inr rfl) hzero hfold

end Paging
