import OperatingSystem314.Paging.Shrink

/-! # What a failed `growproc` leaves

    The undo of `allocuvm` takes the new pages out of the page table.  It
    does not take them out of the list, and it brings no evicted page
    back, so the counters tell how far the loop came (`Advanced`): it has
    left no trace only if its first round failed.

    A shrink to size 0 is taken for a failure, after the pages are gone.

    * `growproc_atomic_iff`: when a failed call changes nothing. -/

namespace Paging

/-! ### The counters -/

/-- The counters after any part of `allocuvm`: pages that entered the list,
    and pages that left it for the swap file. -/
structure Advanced (k k' : Kernel) : Prop where
  swap : k.cur.nPagesInSwapFile ≤ k'.cur.nPagesInSwapFile
  phy : k'.cur.nPagesInSwapFile = k.cur.nPagesInSwapFile → k.cur.nPagesInPhyMemory ≤ k'.cur.nPagesInPhyMemory

namespace Advanced

variable {k k' k'' : Kernel}

theorem of_cur (h : k'.cur = k.cur) : Advanced k k' := by
  refine ⟨?_, ?_⟩
  · rw [h]
  · intro _
    rw [h]

theorem trans (h : Advanced k k') (h' : Advanced k' k'') : Advanced k k'' := by
  have h1 := h.swap
  have h2 := h'.swap
  refine ⟨Int.le_trans h1 h2, ?_⟩
  intro heq
  have h3 := h.phy (by omega)
  have h4 := h'.phy (by omega)
  omega

theorem of_mem (h : OnlyMem k k') : Advanced k k' := .of_cur h.cur

end Advanced

/-- Both counters are the same. -/
def SameCounts (k k' : Kernel) : Prop :=
  k'.cur.nPagesInSwapFile = k.cur.nPagesInSwapFile ∧ k'.cur.nPagesInPhyMemory = k.cur.nPagesInPhyMemory

theorem SameCounts.trans {k k' k'' : Kernel} (h : SameCounts k k') (h' : SameCounts k' k'') : SameCounts k k'' :=
  ⟨h'.1.trans h.1, h'.2.trans h.2⟩

theorem setCell_counts (k : Kernel) (c : Cell) (x : PageInPhyMem) : SameCounts k (k.setCell c x) := by
  unfold SameCounts
  by_cases hown : c.owner = k.curproc
  · rw [Kernel.setCell_own k hown, Kernel.modCur_cur]
    exact ⟨rfl, rfl⟩
  · have hcur : (k.setCell c x).cur = k.cur := Kernel.setProc_ne k _ (Ne.symm hown)
    rw [hcur]
    exact ⟨rfl, rfl⟩

/-- `enqueueFIFO` counts the page, if there is an element for it. -/
theorem enqueueFIFO_counts {k k' : Kernel} {a : Nat} (h : enqueueFIFO k a = .ok k') :
    k'.cur.nPagesInSwapFile = k.cur.nPagesInSwapFile ∧
      (freeCell k.cur ≠ none → k'.cur.nPagesInPhyMemory = k.cur.nPagesInPhyMemory + 1) ∧
      (freeCell k.cur = none → k' = k) := by
  have hput : ∀ {k1 : Kernel} {c : Cell} {x : PageInPhyMem}, SameCounts k k1 →
      ((k1.setCell c x).modCur fun p => p.count 1 0).cur.nPagesInSwapFile = k.cur.nPagesInSwapFile ∧
      ((k1.setCell c x).modCur fun p => p.count 1 0).cur.nPagesInPhyMemory = k.cur.nPagesInPhyMemory + 1 := by
    intro k1 c x h1
    obtain ⟨hswap, hphy⟩ := h1.trans (setCell_counts k1 c x)
    rw [Kernel.modCur_cur, Proc.count_nPagesInSwapFile, Proc.count_nPagesInPhyMemory, hswap, hphy]
    exact ⟨Int.add_zero _, rfl⟩
  unfold enqueueFIFO at h
  split at h
  next hnone =>
    cases h
    exact ⟨rfl, fun hne => absurd hnone hne, fun _ => rfl⟩
  next i hsome =>
    have hput' : k'.cur.nPagesInSwapFile = k.cur.nPagesInSwapFile ∧
        k'.cur.nPagesInPhyMemory = k.cur.nPagesInPhyMemory + 1 := by
      simp only [] at h
      split at h
      · cases h
        apply hput
        unfold SameCounts
        rw [Kernel.modCur_cur]
        exact ⟨rfl, rfl⟩
      · rw [bind_eq_ok] at h
        obtain ⟨t, -, h⟩ := h
        cases h
        exact hput (setCell_counts k _ _)
    refine ⟨hput'.1, fun _ => hput'.2, ?_⟩
    rw [hsome]
    exact nofun

theorem recordPage_counts {k k' : Kernel} {a : Nat} {x : Pte} (h : recordPage k a x = .ok k') :
    k'.cur.nPagesInSwapFile = k.cur.nPagesInSwapFile := by
  rcases recordPage_cases h with rfl | ⟨i, fs, rfl⟩
  · rfl
  · show (k.modCur fun p => p.setSlot i ⟨a, true⟩).cur.nPagesInSwapFile = _
    rw [Kernel.modCur_cur, Proc.setSlot_nPagesInSwapFile]

/-- An eviction counts as one more page in the swap file. -/
theorem swapPageOut_counts {k k' : Kernel} (h : swapPageOut k = .ok k') :
    k'.cur.nPagesInSwapFile = k.cur.nPagesInSwapFile + 1 := by
  unfold swapPageOut at h
  rw [bind_eq_ok] at h
  obtain ⟨⟨a, k1⟩, hdeq, hmove⟩ := h
  have hlists : k1.cur.nPagesInSwapFile = k.cur.nPagesInSwapFile := by
    obtain ⟨_, _, _, hcur⟩ := (dequeueFIFO_lists hdeq).cur
    rw [hcur]
  simp only [moveToSwapFile, bind_eq_ok, deref_eq_ok] at hmove
  obtain ⟨x, -, hmove⟩ := hmove
  split at hmove
  · cases hmove
  · simp only [bind_eq_ok, deref_eq_ok] at hmove
    obtain ⟨k2, hrec, y, -, hmove⟩ := hmove
    have hrec' : k2.cur.nPagesInSwapFile = k1.cur.nPagesInSwapFile := recordPage_counts hrec
    split at hmove
    · cases hmove
    · split at hmove
      · simp only [bind_eq_ok] at hmove
        obtain ⟨k3, hfree, k4, hpte, hmove⟩ := hmove
        cases hpte
        cases hmove
        have hcur : (k3.setPte k3.cur.pgdir (PTE_ADDR a) .swapped).cur = k2.cur := (kfree_mem hfree).cur
        rw [Kernel.modCur_cur, hcur, Proc.count_nPagesInSwapFile, hrec', hlists]
      · cases hmove
        rw [Kernel.modCur_cur, Proc.count_nPagesInSwapFile, hrec', hlists]

theorem makeRoom_of_lt {k : Kernel} (h : k.cur.nPagesInPhyMemory < MAX_PSYC_PAGES) : makeRoom k = .ok k :=
  if_neg (Int.not_le.mpr h)

theorem makeRoom_cases {k k' : Kernel} (h : makeRoom k = .ok k') :
    (k.cur.nPagesInPhyMemory < MAX_PSYC_PAGES ∧ k' = k) ∨
    k'.cur.nPagesInSwapFile = k.cur.nPagesInSwapFile + 1 := by
  unfold makeRoom at h
  split at h
  · rw [bind_eq_ok] at h
    obtain ⟨-, -, hout⟩ := h
    exact .inr (swapPageOut_counts hout)
  next hroom =>
    cases h
    exact .inl ⟨Int.not_le.mp hroom, rfl⟩

theorem makeRoom_advanced {k k' : Kernel} (h : makeRoom k = .ok k') : Advanced k k' := by
  rcases makeRoom_cases h with ⟨-, rfl⟩ | hout
  · exact .of_cur rfl
  · refine ⟨by omega, ?_⟩
    intro heq
    omega

theorem enqueueFIFO_advanced {k k' : Kernel} {a : Nat} (h : enqueueFIFO k a = .ok k') : Advanced k k' := by
  obtain ⟨hswap, hsome, hnone⟩ := enqueueFIFO_counts h
  by_cases hfree : freeCell k.cur = none
  · rw [hnone hfree]
    exact .of_cur rfl
  · have hphy := hsome hfree
    exact ⟨by omega, fun _ => by omega⟩

/-- The frame of a page is taken from the free list and filled. -/
theorem take_mem (k : Kernel) (f : Nat) (free : List Nat) :
    OnlyMem k (({ k with freelist := free } : Kernel).setFrame f fun _ => 0) := ⟨_, _, _, rfl⟩

theorem round_advanced {d oldsz newsz a n : Nat} {rest : List Nat} {k k' : Kernel}
    (h : allocLoop d oldsz newsz (a :: rest) k = .ok (n, k'))
    (hrest : ∀ k1, allocLoop d oldsz newsz rest k1 = .ok (n, k') → Advanced k1 k') :
    ∃ k1, makeRoom k = .ok k1 ∧ Advanced k1 k' := by
  obtain ⟨k1, hroom, hround⟩ := allocLoop_cons h
  refine ⟨k1, hroom, ?_⟩
  rcases hround with ⟨-, -, m, hdealloc⟩ | ⟨f, free, r, k2, -, hmap, hround⟩
  · exact .of_mem (deallocuvm_mem hdealloc)
  · refine (Advanced.of_mem ((take_mem k1 f free).trans (mappages_mem hmap))).trans ?_
    rcases hround with ⟨-, -, m, k3, hdealloc, hkfree⟩ | ⟨-, k3, henq, hloop⟩
    · exact .of_mem ((deallocuvm_mem hdealloc).trans (kfree_mem hkfree))
    · exact (enqueueFIFO_advanced henq).trans (hrest k3 hloop)

/-- The loop of `allocuvm`, by induction on the pages. -/
theorem allocLoop_advanced {d oldsz newsz n : Nat} {l : List Nat} {k k' : Kernel}
    (h : allocLoop d oldsz newsz l k = .ok (n, k')) : Advanced k k' := by
  induction l generalizing k with
  | nil =>
    cases h
    exact .of_cur rfl
  | cons a rest ih =>
    obtain ⟨k1, hroom, hadv⟩ := round_advanced h fun k1 hloop => ih hloop
    exact (makeRoom_advanced hroom).trans hadv

/-! ### The first round -/

/-- There is no frame for a page, or none for the page table it needs. -/
def NoFrame (k : Kernel) (a : Nat) : Prop := k.freelist.length < 1 + if k.hasTable (PDX a) then 0 else 1

instance (k : Kernel) (a : Nat) : Decidable (NoFrame k a) := by
  unfold NoFrame; infer_instance

/-- A loop that leaves the counters as they were did not evict a page in its
    first round, and did not enqueue one. -/
theorem allocLoop_counts {oldsz newsz a n : Nat} {rest : List Nat} {k k' : Kernel}
    (h : allocLoop k.cur.pgdir oldsz newsz (a :: rest) k = .ok (n, k')) (hsame : SameCounts k k') :
    k.cur.nPagesInPhyMemory < MAX_PSYC_PAGES ∧ (freeCell k.cur = none ∨ NoFrame k a) := by
  obtain ⟨hswap, hphy⟩ := hsame
  obtain ⟨k1, hroom, hround⟩ := allocLoop_cons h
  rcases makeRoom_cases hroom with ⟨hlt, rfl⟩ | hout
  · refine ⟨hlt, ?_⟩
    rcases hround with ⟨hfree, -⟩ | ⟨f, free, r, k2, hfree, hmap, hround⟩
    · right
      simp [NoFrame, hfree]
    rcases hround with ⟨hr, -⟩ | ⟨hr, k3, henq, hrest⟩
    · -- the page table
      right
      rcases mappages_cases hmap with ⟨-, -, hnone, hempty⟩ | ⟨rfl, -⟩
      · have htable : k1.hasTable (PDX a) = false := by
          unfold Kernel.hasTable
          rw [show (k1.pgdir k1.cur.pgdir).pde (PDX a) = none from hnone]
          rfl
        have hlen : free = [] := hempty
        simp [NoFrame, hfree, hlen, htable]
      · exact absurd hr (by decide)
    · left
      have hcur : k2.cur = k1.cur := ((take_mem k1 f free).trans (mappages_mem hmap)).cur
      obtain ⟨hswap2, hsome, -⟩ := enqueueFIFO_counts henq
      by_contra hne
      rw [hcur] at hsome hswap2
      have hadv := allocLoop_advanced hrest
      have hphy3 := hsome hne
      have := hadv.phy (by omega)
      omega
  · -- an eviction is not taken back
    obtain ⟨k2, hroom', hadv⟩ := round_advanced h fun k2 hloop => allocLoop_advanced hloop
    rw [hroom] at hroom'
    cases hroom'
    have := hadv.swap
    omega

/-! ### A loop that leaves no trace -/

section entry

variable {k : Kernel} {a b t : Nat} {rest : List Nat} {x : Pte}

/-- A page table without entries changes no entry. -/
theorem entry_newTable (hnone : (k.pgdir k.cur.pgdir).pde (PDX a) = none) :
    (k.newTable k.cur.pgdir a t rest).entry b = k.entry b := by
  have hcur : (k.newTable k.cur.pgdir a t rest).cur = k.cur := rfl
  unfold Kernel.entry
  rw [hcur]
  by_cases hdx : PDX b = PDX a
  · simp [Kernel.newTable, Kernel.walkpgdir, Pgdir.walk, hdx, hnone]
  · simp [Kernel.newTable, Kernel.walkpgdir, Pgdir.walk, hdx]

theorem entry_setPte_ne (hne : b / PGSIZE ≠ a / PGSIZE) : (k.setPte k.cur.pgdir a x).entry b = k.entry b := by
  unfold Kernel.entry
  rw [Kernel.setPte_cur, walkpgdir_setPte_ne hne]

theorem entry_setPte_self {y : Pte} (hy : k.walkpgdir k.cur.pgdir a = some y) :
    (k.setPte k.cur.pgdir a x).entry a = x :=
  entry_of_walk (walkpgdir_setPte_self hy)

end entry

namespace Sound

variable {k k' k2 : Kernel} {lim oldsz newsz a f m : Nat} {free : List Nat} {r : Int}

theorem ne_of_free (h : Sound k lim) (hf : f ∈ k.freelist) :
    ∀ a, a % PGSIZE = 0 → a < lim → (k.entry a).p = true → (k.entry a).ppn ≠ f := by
  intro a ha hlt hp heq
  apply h.free a ha hlt hp
  rw [heq]
  exact hf

/-- A frame is taken from the free list. -/
theorem take (h : Sound k lim) (hfree : k.freelist = f :: free) :
    Sound (({ k with freelist := free } : Kernel).setFrame f fun _ => 0) lim := by
  refine ⟨?_, h.apart⟩
  intro a ha hlt hp hmem
  apply h.free a ha hlt hp
  rw [hfree]
  exact List.mem_cons_of_mem f hmem

theorem take_undone (h : Sound k lim) (hfree : k.freelist = f :: free) :
    Undone k (({ k with freelist := free } : Kernel).setFrame f fun _ => 0) lim :=
  (Undone.refl k lim).fill (h.ne_of_free (by rw [hfree]; exact List.mem_cons_self)) free _

/-- A page table is added. -/
theorem newTable {t : Nat} {rest : List Nat} (h : Sound k lim) (hnone : (k.pgdir k.cur.pgdir).pde (PDX a) = none)
    (hfree : k.freelist = t :: rest) : Sound (k.newTable k.cur.pgdir a t rest) lim := by
  refine ⟨?_, ?_⟩
  · intro b hb hlt hp hmem
    rw [entry_newTable hnone] at hp hmem
    apply h.free b hb hlt hp
    rw [hfree]
    exact List.mem_cons_of_mem t hmem
  · intro b c hb hlt hc hle hcK hp hcp
    rw [entry_newTable hnone] at hp hcp ⊢
    rw [entry_newTable hnone]
    exact h.apart b c hb hlt hc hle hcK hp hcp

/-- A page from `lim` on is mapped to a frame of its own. -/
theorem setPte {x y : Pte} (h : Sound k lim) (ha : a % PGSIZE = 0) (hle : lim ≤ a)
    (hy : k.walkpgdir k.cur.pgdir a = some y)
    (hx : ∀ b, b % PGSIZE = 0 → b < lim → (k.entry b).p = true → (k.entry b).ppn ≠ x.ppn) :
    Sound (k.setPte k.cur.pgdir a x) lim ∧ Undone k (k.setPte k.cur.pgdir a x) lim := by
  have hbelow : ∀ b, b % PGSIZE = 0 → b < lim → (k.setPte k.cur.pgdir a x).entry b = k.entry b := by
    intro b hb hlt
    exact entry_setPte_ne (page_ne hb ha (by omega))
  refine ⟨⟨?_, ?_⟩, .setPte k _ a x, hbelow, fun _ _ _ _ => rfl⟩
  · intro b hb hlt hp
    rw [hbelow b hb hlt] at hp ⊢
    exact h.free b hb hlt hp
  · intro b c hb hlt hc hlec hcK hp hcp
    rw [hbelow b hb hlt] at hp ⊢
    by_cases hca : c = a
    · rw [hca, entry_setPte_self hy]
      exact hx b hb hlt hp
    · rw [entry_setPte_ne (page_ne hc ha hca)] at hcp ⊢
      exact h.apart b c hb hlt hc hlec hcK hp hcp

/-- The round that maps a page. -/
theorem maps (h : Sound k lim) (hfree : k.freelist = f :: free) (ha : a % PGSIZE = 0) (hle : lim ≤ a)
    (hmap : mappages (({ k with freelist := free } : Kernel).setFrame f fun _ => 0) k.cur.pgdir a
      ⟨f, true, true, true, false⟩ = .ok (r, k2)) (hr : ¬ r < 0) : Sound k2 lim ∧ Undone k k2 lim := by
  have htake := h.take hfree
  have hundone := h.take_undone hfree
  have hne := h.ne_of_free (f := f) (by rw [hfree]; exact List.mem_cons_self)
  obtain ⟨k1, hk1⟩ : ∃ k1, k1 = ({ k with freelist := free } : Kernel).setFrame f fun _ => 0 := ⟨_, rfl⟩
  rw [← hk1] at htake hundone hmap
  have hcur : k1.cur.pgdir = k.cur.pgdir := by rw [hundone.mem.cur]
  rw [← hcur] at hmap
  have hne1 : ∀ b, b % PGSIZE = 0 → b < lim → (k1.entry b).p = true → (k1.entry b).ppn ≠ f := by
    intro b hb hlt
    rw [hundone.entry b hb hlt]
    exact hne b hb hlt
  rcases mappages_cases hmap with ⟨hneg, -⟩ | ⟨-, km, rfl, hkm, y, hy, -⟩
  · exact absurd hneg hr
  rcases hkm with rfl | ⟨t, rest, hnone, hfree1, rfl⟩
  · obtain ⟨hsound, hundone2⟩ := htake.setPte (x := ⟨f, true, true, true, false⟩) ha hle hy hne1
    exact ⟨hsound, hundone.trans hundone2⟩
  · -- with a new page table
    have htable := htake.newTable hnone hfree1
    have hundone1 : Undone k1 (k1.newTable k1.cur.pgdir a t rest) lim :=
      ⟨⟨_, _, _, rfl⟩, fun b _ _ => entry_newTable hnone, fun _ _ _ _ => rfl⟩
    obtain ⟨hsound, hundone2⟩ := htable.setPte (x := ⟨f, true, true, true, false⟩) ha hle hy (by
      intro b hb hlt
      rw [entry_newTable hnone]
      exact hne1 b hb hlt)
    exact ⟨hsound, (hundone.trans hundone1).trans hundone2⟩

/-- The round that finds no frame for the page table. -/
theorem unmaps (h : Sound k (PGROUNDUP oldsz)) (hsmall : newsz ≤ KERNBASE) (hfree : k.freelist = f :: free)
    (hmap : mappages (({ k with freelist := free } : Kernel).setFrame f fun _ => 0) k.cur.pgdir a
      ⟨f, true, true, true, false⟩ = .ok (r, k2)) (hr : r < 0) {k3 : Kernel}
    (hdealloc : deallocuvm k2 k.cur.pgdir newsz oldsz = .ok (m, k3)) (hkfree : kfree k3 f = .ok k') :
    Undone k k' (PGROUNDUP oldsz) := by
  have hne := h.ne_of_free (f := f) (by rw [hfree]; exact List.mem_cons_self)
  have hk2 : k2 = ({ k with freelist := free } : Kernel).setFrame f fun _ => 0 := by
    rcases mappages_cases hmap with ⟨-, hk2, -⟩ | ⟨rfl, -⟩
    · exact hk2
    · exact absurd hr (by decide)
  have htake := h.take hfree
  have hundone := h.take_undone hfree
  rw [← hk2] at htake hundone
  have hcur : k2.cur.pgdir = k.cur.pgdir := by rw [hundone.mem.cur]
  rw [← hcur] at hdealloc
  have hundone3 := hundone.trans (htake.dealloc hsmall hdealloc)
  rw [kfree_ok hkfree]
  exact hundone3.fill hne _ _

end Sound

/-- A loop that evicts nothing and has no element to enqueue a page with
    leaves no trace, by induction on the pages. -/
theorem allocLoop_undone {oldsz newsz n : Nat} {l : List Nat} {k k' : Kernel} (h : Sound k (PGROUNDUP oldsz))
    (hsmall : newsz ≤ KERNBASE) (hl : ∀ a ∈ l, a % PGSIZE = 0 ∧ PGROUNDUP oldsz ≤ a)
    (hphy : k.cur.nPagesInPhyMemory < MAX_PSYC_PAGES) (hcell : freeCell k.cur = none)
    (hrun : allocLoop k.cur.pgdir oldsz newsz l k = .ok (n, k')) : Undone k k' (PGROUNDUP oldsz) := by
  induction l generalizing k with
  | nil =>
    cases hrun
    exact .refl _ _
  | cons a rest ih =>
    obtain ⟨ha, hle⟩ := hl a List.mem_cons_self
    obtain ⟨k1, hroom, hround⟩ := allocLoop_cons hrun
    rw [makeRoom_of_lt hphy] at hroom
    cases hroom
    rcases hround with ⟨-, -, m, hdealloc⟩ | ⟨f, free, r, k2, hfree, hmap, hround⟩
    · exact h.dealloc hsmall hdealloc
    rcases hround with ⟨hr, -, m, k3, hdealloc, hkfree⟩ | ⟨hr, k3, henq, hrest⟩
    · exact h.unmaps hsmall hfree hmap hr hdealloc hkfree
    · obtain ⟨h2, hundone⟩ := h.maps hfree ha hle hmap hr
      have hcur := hundone.mem.cur
      rw [← hcur] at hphy hcell hrest
      rw [(enqueueFIFO_counts henq).2.2 hcell] at hrest
      exact hundone.trans (ih h2 (fun b hb => hl b (List.mem_cons_of_mem a hb)) hphy hcell hrest)

/-- So does one whose first round fails. -/
theorem allocLoop_undone_first {oldsz newsz a n : Nat} {rest : List Nat} {k k' : Kernel}
    (h : Sound k (PGROUNDUP oldsz)) (hsmall : newsz ≤ KERNBASE) (hphy : k.cur.nPagesInPhyMemory < MAX_PSYC_PAGES)
    (hframe : NoFrame k a) (hrun : allocLoop k.cur.pgdir oldsz newsz (a :: rest) k = .ok (n, k')) :
    Undone k k' (PGROUNDUP oldsz) := by
  obtain ⟨k1, hroom, hround⟩ := allocLoop_cons hrun
  rw [makeRoom_of_lt hphy] at hroom
  cases hroom
  rcases hround with ⟨-, -, m, hdealloc⟩ | ⟨f, free, r, k2, hfree, hmap, hround⟩
  · exact h.dealloc hsmall hdealloc
  rcases hround with ⟨hr, -, m, k3, hdealloc, hkfree⟩ | ⟨hr, -⟩
  · exact h.unmaps hsmall hfree hmap hr hdealloc hkfree
  · -- the page table needs a frame, too, and there was one only
    exfalso
    unfold NoFrame at hframe
    rw [hfree, List.length_cons] at hframe
    cases htable : k.hasTable (PDX a) with
    | true =>
      rw [htable, if_pos rfl] at hframe
      omega
    | false =>
      have hnone : (k.pgdir k.cur.pgdir).pde (PDX a) = none := by simpa [Kernel.hasTable] using htable
      rw [htable, if_neg (by decide)] at hframe
      have hfree2 : free = [] := List.eq_nil_of_length_eq_zero (by omega)
      rw [hfree2] at hmap
      have hmap2 := mappages_noTable (k := ({ k with freelist := [] } : Kernel).setFrame f fun _ => 0)
        (x := ⟨f, true, true, true, false⟩) hnone rfl
      rw [hmap] at hmap2
      cases hmap2
      exact hr (by decide)

/-! ### `growproc` -/

/-- The call has left no trace in the process: its size, the entries and
    contents of its pages, its list, its slots and its counters are what
    they were. -/
structure Unchanged (k k' : Kernel) : Prop where
  sz : k'.cur.sz = k.cur.sz
  entries : ∀ a, a % PGSIZE = 0 → a < k.cur.sz → k'.entry a = k.entry a
  contents : ∀ a, a % PGSIZE = 0 → a < k.cur.sz → ∀ bytes, Holds k' a bytes ↔ Holds k a bytes
  cells : k'.cur.pagesInPhyMem = k.cur.pagesInPhyMem
  head : k'.cur.head = k.cur.head
  slots : k'.cur.pagesInSwapFile = k.cur.pagesInSwapFile
  counts : SameCounts k k'

theorem Undone.unchanged {k k' : Kernel} (h : Undone k k' (PGROUNDUP k.cur.sz)) : Unchanged k k' := by
  have hcur := h.mem.cur
  refine ⟨by rw [hcur], ?_, ?_, by rw [hcur], by rw [hcur], by rw [hcur], ?_⟩
  · intro a ha hlt
    exact h.entry a ha ((lt_PGROUNDUP ha).mpr hlt)
  · intro a ha hlt bytes
    exact h.holds ha ((lt_PGROUNDUP ha).mpr hlt)
  · unfold SameCounts
    rw [hcur]
    exact ⟨rfl, rfl⟩

/-- The size asked for, as a `uint`. -/
def newSize (k : Kernel) (n : Int) : Nat := ((k.cur.sz + n) % 2 ^ 32).toNat

/-- The failure comes before anything was evicted or enqueued; or, for a
    shrink, there is no page to take away. -/
def FailsClean (k : Kernel) (n : Int) : Prop :=
  if 0 < n then
    KERNBASE ≤ newSize k n ∨ (k.cur.nPagesInPhyMemory < MAX_PSYC_PAGES ∧
      (freeCell k.cur = none ∨ NoFrame k (PGROUNDUP k.cur.sz)))
  else ∀ a ∈ pageRange 0 k.cur.sz, (k.entry a).p = false

instance (k : Kernel) (n : Int) : Decidable (FailsClean k n) := by
  unfold FailsClean; infer_instance

/-- A failed growth. -/
theorem growproc_fails_pos {k k' : Kernel} {n : Int} (hn : 0 < n) (hn31 : n < 2 ^ 31)
    (hrun : growproc k n = .ok (-1, k')) :
    (KERNBASE ≤ newSize k n ∧ k' = k) ∨
    (newSize k n < KERNBASE ∧ ∃ rest, pageRange (PGROUNDUP k.cur.sz) (newSize k n) = PGROUNDUP k.cur.sz :: rest ∧
      allocLoop k.cur.pgdir k.cur.sz (newSize k n) (PGROUNDUP k.cur.sz :: rest) k = .ok (0, k')) := by
  unfold growproc at hrun
  simp only [] at hrun
  rw [if_pos hn, bind_eq_ok] at hrun
  obtain ⟨⟨sz, k1⟩, halloc, hrun⟩ := hrun
  change allocuvm k k.cur.pgdir k.cur.sz (newSize k n) = .ok (sz, k1) at halloc
  simp only [] at hrun
  split at hrun
  next hzero =>
    obtain ⟨-, rfl⟩ := hzero
    cases hrun
    unfold allocuvm at halloc
    split at halloc
    next hend =>
      cases halloc
      exact .inl ⟨hend, rfl⟩
    next hend =>
      split at halloc
      next hlt =>
        -- a wrapped size is below the old one, which is then not 0
        injection halloc with heq
        injection heq with heq
        omega
      next hge =>
        refine .inr ⟨Nat.lt_of_not_le hend, ?_⟩
        by_cases hpages : PGROUNDUP k.cur.sz < newSize k n
        · rw [pageRange_succ hpages] at halloc ⊢
          exact ⟨_, rfl, halloc⟩
        · rw [pageRange_nil (Nat.le_of_not_lt hpages)] at halloc
          injection halloc with heq
          injection heq with heq
          -- no page to allocate: the size returned is not 0
          unfold newSize at heq hge
          omega
  next => cases hrun

theorem foldlM_deallocPage_absent {k : Kernel} {d : Nat} {l : List Nat}
    (h : ∀ a ∈ l, ∀ x, k.walkpgdir d a = some x → x.p = false) : l.foldlM (deallocPage d) k = .ok k := by
  induction l with
  | nil => rfl
  | cons a l ih =>
    have hpage : deallocPage d k a = .ok k := by
      unfold deallocPage
      split
      · rfl
      next x hx =>
        rw [if_neg]
        simpa using h a List.mem_cons_self x hx
    rw [List.foldlM_cons, hpage, ok_bind]
    exact ih fun b hb => h b (List.mem_cons_of_mem a hb)

/-- A shrink that is taken for a failure: to size 0, or of size 0. -/
theorem growproc_fails_neg {k k' : Kernel} {n : Int} (hn : n < 0) (hrun : growproc k n = .ok (-1, k')) :
    (pageRange 0 k.cur.sz).foldlM (deallocPage k.cur.pgdir) k = .ok k' := by
  unfold growproc at hrun
  simp only [] at hrun
  rw [if_neg (by omega), if_pos hn, bind_eq_ok] at hrun
  obtain ⟨⟨sz, k1⟩, hdealloc, hrun⟩ := hrun
  simp only [] at hrun
  split at hrun
  next hzero =>
    obtain ⟨-, rfl⟩ := hzero
    cases hrun
    unfold deallocuvm at hdealloc
    split at hdealloc
    · injection hdealloc with heq
      injection heq with hsz hk
      rw [hsz, ← hk]
      rfl
    · rw [bind_eq_ok] at hdealloc
      obtain ⟨k2, hfold, hdealloc⟩ := hdealloc
      injection hdealloc with heq
      injection heq with hsz hk
      rw [hsz] at hfold
      rw [← hk]
      exact hfold
  next => cases hrun

/-- A failed `growproc` has changed nothing just when it failed before its
    first page was enqueued or evicted, or had no page to take away. -/
theorem growproc_atomic_iff {k k' : Kernel} {n : Int} (hsound : Sound k (PGROUNDUP k.cur.sz)) (hn31 : n < 2 ^ 31)
    (hrun : growproc k n = .ok (-1, k')) : Unchanged k k' ↔ FailsClean k n := by
  unfold FailsClean
  rcases Int.lt_trichotomy n 0 with hn | rfl | hn
  · rw [if_neg (by omega)]
    have hfold := growproc_fails_neg hn hrun
    have hd := dealloced_of_ok hfold
    have hmem : ∀ a, a ∈ pageRange 0 k.cur.sz ↔ a % PGSIZE = 0 ∧ 0 ≤ a ∧ a < k.cur.sz := fun a => mem_pageRange rfl
    constructor
    · intro h a ha
      obtain ⟨hal, -, hlt⟩ := (hmem a).mp ha
      rw [← h.entries a hal hlt]
      by_contra hp
      have hp' : (k'.entry a).p = true := by simpa using hp
      have hx := walk_of_entry hp'
      rw [hd.mem.cur] at hx
      exact hp (hd.gone a ha _ hx)
    · intro h
      have hsame : (pageRange 0 k.cur.sz).foldlM (deallocPage k.cur.pgdir) k = .ok k := by
        apply foldlM_deallocPage_absent
        intro a ha x hx
        rw [← entry_of_walk hx]
        exact h a ha
      rw [hsame] at hfold
      cases hfold
      exact (Undone.refl k _).unchanged
  · cases hrun
  · rw [if_pos hn]
    rcases growproc_fails_pos hn hn31 hrun with ⟨hend, rfl⟩ | ⟨hsmall, rest, hpages, hloop⟩
    · exact iff_of_true (Undone.refl _ _).unchanged (.inl hend)
    rw [or_iff_right (Nat.not_le.mpr hsmall)]
    constructor
    · intro h
      exact allocLoop_counts hloop h.counts
    · rintro ⟨hphy, hcell | hframe⟩
      · refine (allocLoop_undone hsound (Nat.le_of_lt hsmall) ?_ hphy hcell hloop).unchanged
        intro a ha
        rw [← hpages, mem_pageRange (PGROUNDUP_aligned _)] at ha
        exact ⟨ha.1, ha.2.1⟩
      · exact (allocLoop_undone_first hsound (Nat.le_of_lt hsmall) hphy hframe hloop).unchanged

/-- A process of three pages that asks for the whole address space back. -/
theorem growproc_atomic_iff_threePages : ∃ k', growproc threePages (-(3 * PGSIZE)) = .ok (-1, k') ∧
    (Unchanged threePages k' ↔ FailsClean threePages (-(3 * PGSIZE))) := by
  obtain ⟨k', hrun⟩ : ∃ k', growproc threePages (-(3 * PGSIZE)) = .ok (-1, k') := ⟨_, rfl⟩
  exact ⟨k', hrun, growproc_atomic_iff (threePages_swapping.sound (by decide)) (by decide) hrun⟩

/-- A shrink to size 0 fails and takes the pages away; a growth by two pages
    fails and leaves the first of them in the list. -/
theorem growproc_leaves_traces :
    (∃ k', growproc threePages (-(3 * PGSIZE)) = .ok (-1, k') ∧ ¬ Unchanged threePages k') ∧
    ∃ k', growproc oneFrame (2 * PGSIZE) = .ok (-1, k') ∧ ¬ Unchanged oneFrame k' := by
  constructor
  · refine ⟨_, rfl, ?_⟩
    intro h
    have hentry := h.entries 0 (by decide) (by decide)
    have hp := congrArg Pte.p hentry
    exact absurd hp (by decide +kernel)
  · have hrun : (growproc oneFrame (2 * PGSIZE)).toOption.map (fun r => (r.1, r.2.cur.nPagesInPhyMemory)) =
        some (-1, 4) := by decide +kernel
    cases hgrow : growproc oneFrame (2 * PGSIZE) with
    | error e =>
      rw [hgrow] at hrun
      cases hrun
    | ok r =>
      obtain ⟨r, k'⟩ := r
      rw [hgrow] at hrun
      obtain ⟨rfl, hphy⟩ := Prod.mk.inj (Option.some.inj hrun)
      refine ⟨k', rfl, ?_⟩
      intro h
      have hsame := hphy.symm.trans h.counts.2
      exact absurd hsame (by decide)

end Paging
