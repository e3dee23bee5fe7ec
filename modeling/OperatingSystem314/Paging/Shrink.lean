import OperatingSystem314.Paging.Overgrowth

/-! # Shrinking

    `growproc` of a negative amount takes the pages out of the page table,
    and out of nothing else: the list, the slots and the counters still
    have them.

    * `shrink_forgets_iff`: so it is right only where there is no page to
      take away. -/

namespace Paging

open Spill

/-! ### What is left of the pages -/

/-- The list of a process is unique. -/
theorem Fifo.unique {p : ProcId} {x : Proc} {q q' : List Nat} (h : Fifo p x q) (h' : Fifo p x q') : q = q' := by
  obtain ⟨cells, hcells, rfl⟩ := h
  obtain ⟨cells', hcells', rfl⟩ := h'
  rw [hcells.linked.unique hcells'.linked]

/-- The process, which had the pages `q` in memory and `s` in the swap
    file, has forgotten those beyond its new size. -/
structure Forgotten (k k' : Kernel) (q s : List Nat) : Prop where
  list : ∀ q', Fifo k'.curproc k'.cur q' → ∀ a ∈ q', a < PGROUNDUP k'.cur.sz
  slots : ∀ i, (k'.cur.pagesInSwapFile i).in_use = true →
    (k'.cur.pagesInSwapFile i).address < PGROUNDUP k'.cur.sz
  entries : ∀ a, UserPage a → PGROUNDUP k'.cur.sz ≤ a → ¬ Present k' a ∧ ¬ PagedOut k' a
  counted : k'.cur.nPagesInPhyMemory + (q.countP fun a => PGROUNDUP k'.cur.sz ≤ a) = k.cur.nPagesInPhyMemory
  slotsCounted : k'.cur.nPagesInSwapFile + (s.countP fun a => PGROUNDUP k'.cur.sz ≤ a) = k.cur.nPagesInSwapFile
  /-- a later growth, with whatever evictions it takes, ends and gives
      cleared pages -/
  regrow : ∀ n new, 0 < n → n < 2 ^ 31 → k'.cur.sz + n ≤ MAX_TOTAL_PAGES * PGSIZE →
    new = pageRange (PGROUNDUP k'.cur.sz) (k'.cur.sz + n) →
    EnoughFrames k' k'.cur.nPagesInPhyMemory.toNat new →
    ∃ k'', growproc k' n = .ok (0, k'') ∧ ∀ a ∈ new, Holds k'' a fun _ => 0

namespace Swapping

variable {k k' : Kernel} {q s : List Nat}

/-- A process whose tables are right has forgotten whatever is beyond its size. -/
theorem forgotten (h : Swapping k' k'.cur.sz ⟨q, s, []⟩) (hphy : k.cur.nPagesInPhyMemory = k'.cur.nPagesInPhyMemory)
    (hswap : k.cur.nPagesInSwapFile = k'.cur.nPagesInSwapFile) : Forgotten k k' q s := by
  have hup := h.round_up
  have hbelow : ∀ a, a ∈ q ++ s → a < PGROUNDUP k'.cur.sz := by
    intro a ha
    have := (hup.mapped.pages a).mp (by simpa using ha)
    exact this.2
  have hnone : ∀ l : List Nat, (∀ a ∈ l, a < PGROUNDUP k'.cur.sz) → l.countP (fun a => PGROUNDUP k'.cur.sz ≤ a) = 0 := by
    intro l hl
    apply List.countP_eq_zero.mpr
    intro a ha
    simpa using hl a ha
  refine ⟨?_, ?_, ?_, ?_, ?_, ?_⟩
  · intro q' hq' a ha
    rw [hq'.unique h.fifo] at ha
    exact hbelow a (List.mem_append_left s ha)
  · intro i hi
    have hmem := List.mem_of_getElem? (h.slots.getElem?_eq (i := i) (a := (k'.cur.pagesInSwapFile i).address) (by
      rw [← hi]))
    exact hbelow _ (List.mem_append_right q hmem)
  · intro a hu hle
    constructor
    · rintro ⟨x, hx, hp⟩
      have := (hup.mapped.unmapped a hu.1 hle hu.2 x hx).1
      rw [hp] at this
      cases this
    · rintro ⟨x, hx, hpg⟩
      have := (hup.mapped.unmapped a hu.1 hle hu.2 x hx).2
      rw [hpg] at this
      cases this
  · rw [hnone q fun a ha => hbelow a (List.mem_append_left s ha), hphy]
    simp
  · rw [hnone s fun a ha => hbelow a (List.mem_append_right q ha), hswap]
    simp
  · intro n new hn hn31 hmax hnew hframes
    have hok : (⟨q, s, []⟩ : PageStore).Ok MAX_PSYC_PAGES MAX_PSYC_PAGES :=
      ⟨h.fifo.length_le, h.slots.length_le, fun hne => absurd rfl hne⟩
    have hq : k'.cur.nPagesInPhyMemory.toNat = q.length := by
      rw [h.counted]
      simp
    rw [hq] at hframes
    have hsmall : k'.cur.sz + n < KERNBASE := by
      simp only [MAX_TOTAL_PAGES, PGSIZE] at hmax
      simp only [KERNBASE]
      omega
    obtain ⟨k'', hrun, h'', hholds⟩ := h.growproc_grows hok hn hn31 hsmall hnew hframes
    refine ⟨k'', hrun, ?_⟩
    intro a ha
    -- within the capacity nothing is lost
    have hlen := h.mapped.length_eq
    simp only [List.append_nil, List.length_append] at hlen
    have hcount : new.length = (k'.cur.sz + n - PGROUNDUP k'.cur.sz + PGSIZE - 1) / PGSIZE := by
      rw [hnew, pageRange_eq, length_nextPages]
    have hlost : (PageStore.grown ⟨q, s, []⟩ new).lost = [] := by
      apply hok.lost_eq_nil (by decide) rfl
      show q.length + s.length + new.length ≤ _
      simp only [PGROUNDUP, PGSIZE, MAX_TOTAL_PAGES, MAX_PSYC_PAGES] at hlen hcount hmax ⊢
      omega
    have hitem : a ∈ (PageStore.grown ⟨q, s, []⟩ new).items :=
      Store.items_pushAll.mem_iff.mpr (List.mem_append_left _ ha)
    rw [Store.items, hlost, List.append_nil] at hitem
    exact (hholds a hitem).2 ha

/-- A page beyond the size is still in its table. -/
theorem not_forgotten {lim a : Nat} (h : Swapping k lim ⟨q, s, []⟩) (ha : a ∈ q ++ s)
    (hproc : k'.curproc = k.curproc) (hcells : k'.cur.pagesInPhyMem = k.cur.pagesInPhyMem)
    (hhead : k'.cur.head = k.cur.head) (hslots : k'.cur.pagesInSwapFile = k.cur.pagesInSwapFile)
    (hle : PGROUNDUP k'.cur.sz ≤ a) : ¬ Forgotten k k' q s := by
  intro hforgot
  rcases List.mem_append.mp ha with hq | hs
  · have hfifo : Fifo k'.curproc k'.cur q := by
      rw [hproc]
      exact h.fifo.congr hcells hhead
    have := hforgot.list q hfifo a hq
    omega
  · obtain ⟨i, hi, hget⟩ := List.mem_iff_getElem.mp hs
    have hlt : i < MAX_PSYC_PAGES := Nat.lt_of_lt_of_le hi h.slots.length_le
    have hused := (h.slots.used ⟨i, hlt⟩).mpr hi
    have haddr := h.slots.address ⟨i, hlt⟩ a (by rw [List.getElem?_eq_getElem hi, hget])
    have hbelow := hforgot.slots ⟨i, hlt⟩
    rw [hslots] at hbelow
    have := hbelow hused
    rw [haddr] at this
    omega

end Swapping

/-! ### `growproc` of a negative amount -/

theorem setSz_same (k : Kernel) : k.setSz k.cur.sz = k := by
  unfold Kernel.setSz Kernel.modCur
  exact Kernel.setCur_self k

/-- Below zero the sum wraps to a size that is not smaller. -/
theorem growproc_wraps {k k' : Kernel} {n : Int} (hsz : k.cur.sz ≤ KERNBASE) (hn31 : -2 ^ 31 ≤ n)
    (hneg : k.cur.sz + n < 0) (h : growproc k n = .ok (0, k')) : k' = k := by
  have hwrap : ¬ (((k.cur.sz : Int) + n) % 2 ^ 32).toNat < k.cur.sz := by
    simp only [KERNBASE] at hsz
    omega
  simp only [growproc] at h
  rw [if_neg (by omega), if_pos (by omega), deallocuvm, if_pos (Nat.le_of_not_lt hwrap), ok_bind] at h
  simp only [] at h
  split at h
  · cases h
  · cases h
    exact setSz_same k

/-- A size that is smaller, but not zero. -/
theorem growproc_shrinks {k k' : Kernel} {n : Int} (hsz : k.cur.sz ≤ KERNBASE) (hn : n < 0)
    (hpos : 0 ≤ k.cur.sz + n) (h : growproc k n = .ok (0, k')) :
    ∃ k1, ∃ sz : Nat, (sz : Int) = k.cur.sz + n ∧
      (pageRange (PGROUNDUP sz) k.cur.sz).foldlM (deallocPage k.cur.pgdir) k = .ok k1 ∧ k' = k1.setSz sz := by
  obtain ⟨sz, hsz'⟩ := Int.eq_ofNat_of_zero_le hpos
  have hnew : (((k.cur.sz : Int) + n) % 2 ^ 32).toNat = sz := by
    simp only [KERNBASE] at hsz
    omega
  simp only [growproc] at h
  rw [if_neg (by omega), if_pos hn, hnew, deallocuvm, if_neg (by omega), bind_eq_ok] at h
  obtain ⟨⟨sz1, k1⟩, hdealloc, h⟩ := h
  rw [bind_eq_ok] at hdealloc
  obtain ⟨k2, hfold, hdealloc⟩ := hdealloc
  cases hdealloc
  refine ⟨k1, sz, hsz'.symm, hfold, ?_⟩
  simp only [] at h
  split at h
  · cases h
  · cases h
    rfl

/-- A process that shrinks has forgotten the pages beyond its new size just
    when there are none: the sum wraps, or the size stays within a page. -/
theorem shrink_forgets_iff {k k' : Kernel} {q s : List Nat} {n : Int} (h : Swapping k k.cur.sz ⟨q, s, []⟩)
    (hn : n < 0) (hn31 : -2 ^ 31 ≤ n) (hrun : growproc k n = .ok (0, k')) :
    Forgotten k k' q s ↔ k.cur.sz + n < 0 ∨ k.cur.sz ≤ PGROUNDUP (k.cur.sz + n).toNat := by
  by_cases hneg : k.cur.sz + n < 0
  · obtain rfl := growproc_wraps h.mapped.small hn31 hneg hrun
    exact iff_of_true (h.forgotten rfl rfl) (.inl hneg)
  obtain ⟨k1, sz, hsz, hfold, rfl⟩ := growproc_shrinks h.mapped.small hn (by omega) hrun
  have htoNat : (k.cur.sz + n).toNat = sz := by omega
  rw [htoNat, or_iff_right hneg]
  have hcur : (k1.setSz sz).cur = { k1.cur with sz } := Kernel.modCur_cur k1 _
  by_cases hpages : k.cur.sz ≤ PGROUNDUP sz
  · -- no page to take away
    refine iff_of_true ?_ hpages
    rw [pageRange_nil hpages] at hfold
    cases hfold
    have hle : sz ≤ k.cur.sz := by omega
    have hlim : Swapping (k.setSz sz) (k.setSz sz).cur.sz ⟨q, s, []⟩ := by
      rw [show (k.setSz sz).cur.sz = sz by rw [hcur]]
      refine (h.setSz sz).lim_congr (Nat.le_trans hle h.mapped.small) ?_
      intro a ha
      have hround : a < PGROUNDUP sz ↔ a < sz := lt_PGROUNDUP ha
      rw [← hround]
      simp only [PGROUNDUP, PGSIZE] at ha hpages ⊢
      omega
    apply hlim.forgotten
    · rw [hcur]
    · rw [hcur]
  · refine iff_of_false ?_ hpages
    have hd := dealloced_of_ok hfold
    have hmem : PGROUNDUP sz ∈ q ++ s := by
      have := (h.mapped.pages (PGROUNDUP sz)).mpr ⟨PGROUNDUP_aligned sz, by omega⟩
      simpa using this
    apply h.not_forgotten hmem
    · exact hd.mem.curproc
    · rw [hcur, hd.mem.cur]
    · rw [hcur, hd.mem.cur]
    · rw [hcur, hd.mem.cur]
    · rw [hcur]

/-- Three pages of which the last loses its second half: nothing to forget. -/
theorem shrink_forgets_iff_half : ∃ k', growproc threePages (-2048) = .ok (0, k') ∧
    (Forgotten threePages k' [0, PGSIZE, 2 * PGSIZE] [] ↔ threePages.cur.sz + (-2048 : Int) < 0 ∨
      threePages.cur.sz ≤ PGROUNDUP (threePages.cur.sz + (-2048 : Int)).toNat) := by
  have hrun : growproc threePages (-2048) = .ok (0, threePages.setSz (3 * PGSIZE - 2048)) := rfl
  exact ⟨_, hrun, shrink_forgets_iff threePages_swapping (by decide) (by decide) hrun⟩

/-- Three pages of which the last is given back: it is still in the list. -/
theorem shrink_keeps_stale_page : Swapping threePages threePages.cur.sz ⟨[0, PGSIZE, 2 * PGSIZE], [], []⟩ ∧
    ∃ k', growproc threePages (-PGSIZE) = .ok (0, k') ∧ k'.cur.sz = 2 * PGSIZE ∧
      Fifo k'.curproc k'.cur [0, PGSIZE, 2 * PGSIZE] ∧ ¬ Forgotten threePages k' [0, PGSIZE, 2 * PGSIZE] [] := by
  obtain ⟨k', hrun⟩ : ∃ k', growproc threePages (-PGSIZE) = .ok (0, k') := ⟨_, rfl⟩
  obtain ⟨k1, sz, hsz, hfold, rfl⟩ := growproc_shrinks threePages_swapping.mapped.small (by decide) (by decide) hrun
  have hd := dealloced_of_ok hfold
  have hcur : (k1.setSz sz).cur = { threePages.cur with sz } := by
    rw [Kernel.setSz, Kernel.modCur_cur, hd.mem.cur]
  have hproc : (k1.setSz sz).curproc = threePages.curproc := hd.mem.curproc
  have hsz2 : sz = 2 * PGSIZE := by
    have htwo : (threePages.cur.sz : Int) + -PGSIZE = 2 * PGSIZE := by decide
    rw [htwo] at hsz
    exact_mod_cast hsz
  refine ⟨threePages_swapping, k1.setSz sz, hrun, ?_, ?_, ?_⟩
  · rw [hcur]
    exact hsz2
  · rw [hproc, hcur]
    exact threePages_swapping.fifo.congr rfl rfl
  · apply threePages_swapping.not_forgotten (a := 2 * PGSIZE) (by decide) hproc
    · rw [hcur]
    · rw [hcur]
    · rw [hcur]
    · rw [hcur, hsz2]
      decide

end Paging
