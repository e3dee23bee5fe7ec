import OperatingSystem314.Paging.CopyMemory
import OperatingSystem314.Paging.Dirs
import OperatingSystem314.Paging.Layout

/-! # The image that `exec` builds

    `Building k0 g d n m k`: since `k0`, in which the new directory `d` was
    empty, the first `n` pages have been mapped in `d`, with the contents
    `m`, and put into the list.  The pages come from the free list of `k0`,
    so those of the old directory are what they were.

    It is kept as long as there are at most `MAX_PSYC_PAGES` pages: no page
    is evicted, and the directory of the process is not looked at. -/

namespace Paging

/-! ### Flat memories -/

/-- The `n` bytes from `a` on are written over. -/
def patch (m : Nat → UInt8) (a n : Nat) (bytes : Nat → UInt8) : Nat → UInt8 :=
  fun va => if a ≤ va ∧ va < a + n then bytes (va - a) else m va

section patch

variable {m : Nat → UInt8} {a n l va : Nat} {bytes : Nat → UInt8}

theorem patch_zero : patch m a 0 bytes = m := by
  funext va
  unfold patch
  rw [if_neg (by omega)]

theorem patch_in {j : Nat} (hj : j < n) : patch m a n bytes (a + j) = bytes j := by
  unfold patch
  rw [if_pos ⟨Nat.le_add_right a j, by omega⟩, Nat.add_sub_cancel_left]

theorem patch_below (h : va < a) : patch m a n bytes va = m va := by
  unfold patch
  rw [if_neg (by omega)]

theorem patch_above (h : a + n ≤ va) : patch m a n bytes va = m va := by
  unfold patch
  rw [if_neg (by omega)]

/-- Two patches next to each other. -/
theorem patch_patch :
    patch (patch m a n bytes) (a + n) l (fun j => bytes (n + j)) = patch m a (n + l) bytes := by
  funext va
  by_cases hlow : va < a + n
  · rw [patch_below hlow]
    unfold patch
    by_cases ha : a ≤ va
    · rw [if_pos ⟨ha, hlow⟩, if_pos ⟨ha, by omega⟩]
    · rw [if_neg (by omega), if_neg (by omega)]
  · by_cases hhigh : va < a + n + l
    · unfold patch
      rw [if_pos ⟨Nat.le_of_not_lt hlow, hhigh⟩, if_pos ⟨by omega, by omega⟩]
      exact congrArg bytes (by omega)
    · rw [patch_above (by omega), patch_above (by omega), patch_above (by omega)]

theorem patch_congr {bytes' : Nat → UInt8} (h : ∀ j < n, bytes j = bytes' j) :
    patch m a n bytes = patch m a n bytes' := by
  funext va
  unfold patch
  split
  next hva => exact h _ (by omega)
  · rfl

end patch

/-- The addresses of the first `n` pages. -/
abbrev pagesBelow (n : Nat) : List Nat := pagesFrom 0 n

theorem pagesBelow_succ (n : Nat) : pagesBelow (n + 1) = pagesBelow n ++ [n * PGSIZE] := by
  unfold pagesBelow pagesFrom
  rw [List.range'_concat, List.map_append]
  simp

theorem mem_pagesBelow {n a : Nat} : a ∈ pagesBelow n ↔ a % PGSIZE = 0 ∧ a < n * PGSIZE := by
  unfold pagesBelow pagesFrom
  simp only [List.mem_map, List.mem_range'_1, PGSIZE]
  constructor
  · rintro ⟨i, hi, rfl⟩
    omega
  · rintro ⟨hal, hlt⟩
    exact ⟨a / 4096, by omega, by omega⟩

theorem length_pagesBelow (n : Nat) : (pagesBelow n).length = n := by
  unfold pagesBelow pagesFrom
  simp

/-! ### The invariant -/

/-- The kernel in which `exec` starts to load into directory `d`: the
    metadata of the process are reset. -/
structure Ready (k0 : Kernel) (d : Nat) : Prop where
  free : FreeList k0
  ne : k0.cur.pgdir ≠ d
  empty : ∀ i, (k0.pgdir d).pde i = none
  reset : k0.cur.resetPaging = k0.cur
  /-- no page of the process lies in a free frame -/
  taken : ∀ va x, k0.walkpgdir k0.cur.pgdir va = some x → x.p = true → x.ppn ∉ k0.freelist

structure Building (k0 : Kernel) (g d n : Nat) (m : Nat → UInt8) (k : Kernel) : Prop where
  beside : Beside d k0 k
  fifo : Fifo k.curproc k.cur (pagesBelow n)
  counted : k.cur.nPagesInPhyMemory = n
  /-- frames are taken from the front of the free list -/
  suffix : k.freelist <:+ k0.freelist
  frames : ∀ f, f ∉ k0.freelist → k.frame f = k0.frame f
  own : ∀ va x, k.walkpgdir d va = some x → x.p = true → x.ppn ∈ k0.freelist
  mem : (n = 0 ∧ (∀ i, (k.pgdir d).pde i = none) ∧ m = fun _ => 0) ∨
    Mem g (k.view d) (n * PGSIZE) (pagesBelow n) [] m

/-- A page table without pages, as the first page finds it. -/
theorem Mem.newTable {g t : Nat} {v : MemView} (hnodup : v.freelist.Nodup)
    (hok : ∀ f ∈ v.freelist, v.FrameOk f) (hpde : ∀ i, v.pd.pde i = if i = 0 then some ⟨t, fun _ => .zero⟩ else none) :
    Mem g v 0 [] [] fun _ => 0 := by
  refine ⟨List.nodup_nil, ?_, Nat.zero_le _, ⟨_, hpde 0⟩, nofun, nofun, nofun, ?_, fun _ _ => rfl, hnodup, hok⟩
  · intro a
    simp
  · intro a _ _
    unfold MemView.walk Pgdir.walk
    rw [hpde]
    by_cases ha : PDX a = 0
    · right
      rw [if_pos ha]
      rfl
    · left
      rw [if_neg ha]
      rfl

theorem Ready.building {k0 : Kernel} {d : Nat} (h : Ready k0 d) (g : Nat) :
    Building k0 g d 0 (fun _ => 0) k0 := by
  have hcur := h.reset
  refine ⟨.refl k0, ?_, ?_, List.suffix_refl _, fun _ _ => rfl, ?_, .inl ⟨rfl, h.empty, rfl⟩⟩
  · rw [← hcur]
    refine ⟨[], ⟨⟨?_, nofun, nofun⟩, ?_⟩, rfl⟩
    · show k0.cur.resetPaging.head = none
      rfl
    · intro i hi
      cases hi
  · rw [← hcur]
    rfl
  · intro va x hx
    simp [Kernel.walkpgdir, Pgdir.walk, h.empty] at hx

namespace Building

variable {k0 k k' : Kernel} {g d n : Nat} {m : Nat → UInt8}

/-- The old directory is untouched, and so are its pages. -/
theorem userByte (h : Building k0 g d n m k) (hr : Ready k0 d) (va : Nat) :
    k.userByte k.cur.pgdir va = k0.userByte k0.cur.pgdir va := by
  have hwalk : k.walkpgdir k.cur.pgdir va = k0.walkpgdir k0.cur.pgdir va := by
    unfold Kernel.walkpgdir
    rw [h.beside.cur.pgdir, h.beside.pgdirs _ hr.ne]
  unfold Kernel.userByte
  rw [hwalk]
  split
  next x hx =>
    split
    next hp => rw [h.frames _ (hr.taken va x hx hp)]
    · rfl
  · rfl

/-- The frame of each of the pages. -/
theorem resident (h : Building k0 g d n m k) {va : Nat} (hva : PTE_ADDR va ∈ pagesBelow n) :
    ∃ x, k.walkpgdir d va = some x ∧ k.walkpgdir d (PTE_ADDR va) = some x ∧
      Resident g (k.view d) m (PTE_ADDR va) x := by
  rcases h.mem with ⟨rfl, -, -⟩ | hmem
  · exact absurd hva (by simp [pagesBelow, pagesFrom])
  · obtain ⟨x, hx⟩ := hmem.resident _ hva
    refine ⟨x, ?_, hx.walk, hx⟩
    rw [← walkpgdir_PTE_ADDR]
    exact hx.walk

/-- A present entry is that of one of the pages. -/
theorem page_of_present (h : Building k0 g d n m k) {va : Nat} {x : Pte} (hx : k.walkpgdir d va = some x)
    (hp : x.p = true) : PTE_ADDR va ∈ pagesBelow n := by
  rcases h.mem with ⟨-, hempty, -⟩ | hmem
  · simp [Kernel.walkpgdir, Pgdir.walk, hempty] at hx
  · by_contra hout
    rw [mem_pagesBelow, not_and] at hout
    have hle : n * PGSIZE ≤ PTE_ADDR va := Nat.le_of_not_lt (hout (PTE_ADDR_aligned va))
    rw [← walkpgdir_PTE_ADDR] at hx
    rcases hmem.unmapped _ (PTE_ADDR_aligned va) hle with hnone | hzero
    · rw [show k.walkpgdir d (PTE_ADDR va) = none from hnone] at hx
      cases hx
    · rw [show k.walkpgdir d (PTE_ADDR va) = some .zero from hzero] at hx
      cases hx
      cases hp

/-- A page is written over. -/
theorem setFrame (h : Building k0 g d n m k) {a : Nat} {x : Pte} (ha : a ∈ pagesBelow n)
    (hx : k.walkpgdir d a = some x) {bytes m' : Nat → UInt8} (hbytes : ∀ j < PGSIZE, bytes j = m' (a + j))
    (hother : ∀ va, PTE_ADDR va ≠ a → m' va = m va) : Building k0 g d n m' (k.setFrame x.ppn bytes) := by
  have hal : PTE_ADDR a = a := PTE_ADDR_of_aligned (mem_pagesBelow.mp ha).1
  rcases h.mem with ⟨rfl, -, -⟩ | hmem
  · exact absurd ha (by simp [pagesBelow, pagesFrom])
  have hres := hmem.resident_of_walk ha hx
  refine ⟨h.beside.trans (.setFrame k _ _), h.fifo, h.counted, h.suffix, ?_, h.own,
    .inr (hmem.write ha hx hbytes hother)⟩
  intro f hf
  have hne : f ≠ x.ppn := by
    rintro rfl
    exact hf (h.own a x hx hres.p)
  show Function.update k.frame x.ppn bytes f = k0.frame f
  rw [Function.update_of_ne hne, h.frames f hf]

/-! ### Allocation -/

/-- A page is mapped, and has not been put into the list yet. -/
structure Mapped (k0 : Kernel) (g d n : Nat) (m : Nat → UInt8) (k k' : Kernel) : Prop where
  mem : OnlyMem k k'
  beside : Beside d k k'
  suffix : k'.freelist <:+ k0.freelist
  frames : ∀ f, f ∉ k0.freelist → k'.frame f = k0.frame f
  own : ∀ va x, k'.walkpgdir d va = some x → x.p = true → x.ppn ∈ k0.freelist
  pages : Mem g (k'.view d) ((n + 1) * PGSIZE) (pagesBelow (n + 1)) [] m

/-- The next page is mapped to the first free frame, unless memory runs out. -/
theorem mappages (h : Building k0 g d n m k) (hr : Ready k0 d) (hn : n < MAX_PSYC_PAGES) {f : Nat}
    {rest : List Nat} (hfree : k.freelist = f :: rest) {r : Int}
    (hmap : Paging.mappages (({ k with freelist := rest } : Kernel).setFrame f fun _ => 0) d (n * PGSIZE)
      ⟨f, true, true, true, false⟩ = .ok (r, k')) :
    r < 0 ∨ r = 0 ∧ Mapped k0 g d n m (({ k with freelist := rest } : Kernel).setFrame f fun _ => 0) k' := by
  set k1 : Kernel := ({ k with freelist := rest } : Kernel).setFrame f fun _ => 0 with hk1
  set new : Pte := ⟨f, true, true, true, false⟩ with hnew
  have hmem1 := mappages_mem hmap
  have hbeside := mappages_beside hmap
  have hf : f ∈ k0.freelist := h.suffix.subset (by simp [hfree])
  have hsuffix : rest <:+ k0.freelist := (hfree ▸ List.suffix_cons f rest).trans h.suffix
  have hframes : ∀ e, e ∉ k0.freelist → k1.frame e = k0.frame e := by
    intro e he
    have hne : e ≠ f := by
      rintro rfl
      exact he hf
    show Function.update k.frame f (fun _ => 0) e = k0.frame e
    rw [Function.update_of_ne hne, h.frames e he]
  have hsmall : n * PGSIZE + PGSIZE ≤ MAX_TOTAL_PAGES * PGSIZE := by
    simp only [PGSIZE, MAX_TOTAL_PAGES, MAX_PSYC_PAGES] at *
    omega
  have hsucc : (n + 1) * PGSIZE = n * PGSIZE + PGSIZE := Nat.succ_mul n PGSIZE
  rcases h.mem with ⟨rfl, hempty, rfl⟩ | hmem
  · -- the first page comes with the page table
    have hnone : (k1.pgdir d).pde (PDX (0 * PGSIZE)) = none := hempty _
    cases hrest : rest with
    | nil =>
      rw [mappages_noTable hnone hrest] at hmap
      obtain ⟨rfl, -⟩ := Prod.mk.inj (Except.ok.inj hmap)
      exact .inl (by decide)
    | cons t rest' =>
      rw [mappages_newTable hnone hrest] at hmap
      cases hmap
      right
      set k2 := k1.newTable d (0 * PGSIZE) t rest' with hk2
      have hpde : ∀ i, (k2.pgdir d).pde i = if i = 0 then some ⟨t, fun _ => .zero⟩ else none := by
        intro i
        simp [hk2, Kernel.newTable, Function.update_apply, PDX, show (k1.pgdir d).pde i = none from hempty i]
      have hfree0 := h.suffix.sublist.nodup hr.free.nodup
      have hok0 : ∀ e ∈ k.freelist, k.FrameOk e := by
        intro e he
        have hkend : k.kend = k0.kend := by rw [h.beside.rest]
        unfold Kernel.FrameOk
        rw [hkend]
        exact hr.free.frames e (h.suffix.subset he)
      have hstart : Mem g ⟨k2.pgdir d, k.frame, f :: rest', k.kend⟩ 0 [] [] fun _ => 0 := by
        refine Mem.newTable ?_ ?_ hpde
        · have hsub : (f :: rest').Sublist k.freelist := by
            rw [hfree, hrest]
            exact (List.sublist_cons_self t rest').cons_cons f
          exact hsub.nodup hfree0
        · intro e he
          apply hok0
          rw [hfree, hrest]
          rcases List.mem_cons.mp he with rfl | he
          · simp
          · simp [he]
      have hgrown := hstart.grow rfl rfl (by decide)
      refine ⟨rfl, hmem1, hbeside, ?_, ?_, ?_, ?_⟩
      · exact (hrest ▸ List.suffix_cons t rest').trans hsuffix
      · exact hframes
      · intro va x hx hp
        rcases walkpgdir_setPte_cases hx with ⟨-, rfl⟩ | ⟨-, hold⟩
        · exact hf
        · simp only [Kernel.walkpgdir, Pgdir.walk, hpde] at hold
          split at hold
          · cases hold
            cases hp
          · cases hold
      · have hview : (k2.setPte d (0 * PGSIZE) { new with p := true }).view d =
            (({ (⟨k2.pgdir d, k.frame, f :: rest', k.kend⟩ : MemView) with freelist := rest' }.setFrame f
              fun _ => 0).setPte 0 new) := by
          simp [Kernel.view, Kernel.setPte, MemView.setPte, MemView.setFrame, hk2, hk1, Kernel.newTable,
            Kernel.setFrame, hnew]
        rw [hview, hsucc]
        simpa [pagesBelow, pagesFrom] using hgrown
  · -- the page table is there, and the entry is empty
    obtain ⟨y, hy⟩ := hmem.walk_some (a := n * PGSIZE) (by simp only [PGSIZE] at *; omega)
    have hzero : y.p = false := by
      rcases hmem.unmapped (n * PGSIZE) (Nat.mul_mod_left n PGSIZE) (Nat.le_refl _) with hnone | hzero
      · rw [hnone] at hy
        cases hy
      · rw [hzero] at hy
        cases hy
        rfl
    have hwalk1 : k1.walkpgdir d (n * PGSIZE) = some y := hy
    rw [mappages_eq hwalk1 hzero] at hmap
    cases hmap
    right
    have hfree' : (k.view d).freelist = f :: rest := hfree
    have hgrown := hmem.grow hfree' (Nat.mul_mod_left n PGSIZE) hsmall
    refine ⟨rfl, hmem1, hbeside, hsuffix, hframes, ?_, ?_⟩
    · intro va x hx hp
      rcases walkpgdir_setPte_cases hx with ⟨-, rfl⟩ | ⟨-, hold⟩
      · exact hf
      · exact h.own va x hold hp
    · have hview : (k1.setPte d (n * PGSIZE) { new with p := true }).view d =
          ({ k.view d with freelist := rest }.setFrame f fun _ => 0).setPte (n * PGSIZE) new := by
        simp [hk1, hnew, Kernel.view, Kernel.setPte, Kernel.setFrame, MemView.setPte, MemView.setFrame]
      rw [hview, hsucc, pagesBelow_succ]
      exact hgrown

/-- The page that was mapped is put into the list. -/
theorem enqueue {k1 k2 : Kernel} (h : Building k0 g d n m k) (hn : n < MAX_PSYC_PAGES)
    (hk1 : OnlyMem k k1) (hbeside1 : Beside d k k1) (hm : Mapped k0 g d n m k1 k2) :
    ∃ k3, enqueueFIFO k2 (PTE_ADDR (n * PGSIZE)) = .ok k3 ∧ Building k0 g d (n + 1) m k3 := by
  have hcur : k2.cur = k.cur := hm.mem.cur.trans hk1.cur
  have hcurproc : k2.curproc = k.curproc := hm.mem.curproc.trans hk1.curproc
  have hfifo : Fifo k2.curproc k2.cur (pagesBelow n) := by
    rw [hcur, hcurproc]
    exact h.fifo
  obtain ⟨t, c, henq, hfifo'⟩ := hfifo.enqueueFIFO (by rwa [length_pagesBelow]) (PTE_ADDR (n * PGSIZE))
  have haddr : PTE_ADDR (n * PGSIZE) = n * PGSIZE := PTE_ADDR_of_aligned (Nat.mul_mod_left n PGSIZE)
  refine ⟨_, henq, ?_, ?_, ?_, hm.suffix, hm.frames, hm.own, .inr hm.pages⟩
  · exact ((h.beside.trans hbeside1).trans hm.beside).trans (.of_lists (enqueueFIFO_lists henq))
  · rw [Kernel.setCur_cur, pagesBelow_succ]
    rw [haddr] at hfifo' ⊢
    exact hfifo'
  · rw [Kernel.setCur_cur, Proc.enqueued_nPagesInPhyMemory, hcur, h.counted]
    simp

/-- No page has to make room. -/
theorem makeRoom_eq (h : Building k0 g d n m k) (hn : n < MAX_PSYC_PAGES) : makeRoom k = .ok k := by
  unfold makeRoom
  rw [h.counted, if_neg (by omega)]

/-- The loop of `allocuvm` over the next `j` pages, by induction on `j`:
    it fails, and undoes nothing else, or all of them are mapped. -/
theorem allocLoop {oldsz newsz j r : Nat} (h : Building k0 g d n m k) (hr : Ready k0 d)
    (hnj : n + j ≤ MAX_PSYC_PAGES) (hloop : Paging.allocLoop d oldsz newsz (pagesFrom n j) k = .ok (r, k')) :
    (r = 0 ∧ Beside d k0 k') ∨ (r = newsz ∧ Building k0 g d (n + j) m k') := by
  induction j generalizing n k with
  | zero =>
    cases hloop
    exact .inr ⟨rfl, h⟩
  | succ j ih =>
    have hn : n < MAX_PSYC_PAGES := by omega
    have hcons : pagesFrom n (j + 1) = n * PGSIZE :: pagesFrom (n + 1) j := rfl
    rw [hcons, Paging.allocLoop, h.makeRoom_eq hn, ok_bind] at hloop
    unfold kalloc at hloop
    cases hfree : k.freelist with
    | nil =>
      simp only [hfree, bind_eq_ok] at hloop
      obtain ⟨-, -, ⟨l, k1⟩, hdealloc, hloop⟩ := hloop
      cases hloop
      exact .inl ⟨rfl, h.beside.trans (deallocuvm_beside hdealloc)⟩
    | cons f rest =>
      simp only [hfree, bind_eq_ok] at hloop
      obtain ⟨⟨r1, k2⟩, hmap, hloop⟩ := hloop
      set k1 : Kernel := ({ k with freelist := rest } : Kernel).setFrame f fun _ => 0 with hk1
      have hmem1 : OnlyMem k k1 := ⟨_, _, _, rfl⟩
      have hbeside1 : Beside d k k1 := .of_mem hmem1 fun _ _ => rfl
      have hbeside2 := (h.beside.trans hbeside1).trans (mappages_beside hmap)
      rcases h.mappages hr hn hfree hmap with hneg | ⟨rfl, hmapped⟩
      · rw [if_pos hneg] at hloop
        simp only [bind_eq_ok] at hloop
        obtain ⟨-, -, ⟨l, k3⟩, hdealloc, k4, hkfree, hloop⟩ := hloop
        cases hloop
        exact .inl ⟨rfl, (hbeside2.trans (deallocuvm_beside hdealloc)).trans (kfree_beside hkfree)⟩
      · obtain ⟨k3, henq, h3⟩ := h.enqueue hn hmem1 hbeside1 hmapped
        simp only [Int.lt_irrefl, if_false, henq, ok_bind] at hloop
        have hrest : Paging.allocLoop d oldsz newsz (pagesFrom (n + 1) j) k3 = .ok (r, k') := by
          split at hloop
          · rw [bind_eq_ok] at hloop
            obtain ⟨-, -, hloop⟩ := hloop
            exact hloop
          · exact hloop
        rw [show n + (j + 1) = n + 1 + j from by omega]
        exact ih h3 (by omega) hrest

end Building

theorem pageRange_pagesFrom (n sz : Nat) : pageRange (n * PGSIZE) sz = pagesFrom n (npages sz - n) := by
  have hcount : (sz - n * PGSIZE + PGSIZE - 1) / PGSIZE = npages sz - n := by
    unfold npages
    simp only [PGSIZE]
    omega
  unfold pageRange pagesFrom
  rw [hcount, List.range'_eq_map_range, List.map_map]
  refine List.map_congr_left fun i _ => ?_
  show n * PGSIZE + i * PGSIZE = (n + i) * PGSIZE
  rw [Nat.add_mul]

namespace Building

variable {k0 k k' : Kernel} {g d : Nat} {m : Nat → UInt8}

/-- `allocuvm` up to fifteen pages: on success the pages below the new size are mapped. -/
theorem allocuvm {oldsz newsz r : Nat} (h : Building k0 g d (npages oldsz) m k) (hr : Ready k0 d)
    (hmax : newsz ≤ MAX_PSYC_PAGES * PGSIZE) (hok : Paging.allocuvm k d oldsz newsz = .ok (r, k')) :
    (r = 0 ∧ Beside d k0 k') ∨ (r = max oldsz newsz ∧ Building k0 g d (npages r) m k') := by
  unfold Paging.allocuvm at hok
  rw [if_neg (by simp only [MAX_PSYC_PAGES, PGSIZE, KERNBASE] at *; omega)] at hok
  split at hok
  next hlt =>
    cases hok
    exact .inr ⟨by omega, h⟩
  next hle =>
    have hround : PGROUNDUP oldsz = npages oldsz * PGSIZE := rfl
    rw [hround, pageRange_pagesFrom] at hok
    have hmono : npages oldsz ≤ npages newsz := by
      unfold npages
      simp only [PGSIZE]
      omega
    have hbound : npages newsz ≤ MAX_PSYC_PAGES := by
      unfold npages
      simp only [PGSIZE, MAX_PSYC_PAGES] at *
      omega
    rcases h.allocLoop hr (by omega) hok with hfail | ⟨rfl, h'⟩
    · exact .inl hfail
    · right
      rw [Nat.add_sub_cancel' hmono] at h'
      exact ⟨by omega, h'⟩

end Building

end Paging
