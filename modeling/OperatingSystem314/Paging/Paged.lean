import OperatingSystem314.Paging.Exchange
import OperatingSystem314.Paging.Grow
import OperatingSystem314.Paging.Memory

/-! # The paging invariant of a process

    `Paged g k lim q s m`: the current process of `k` implements the flat
    memory `m` with the pages `q` resident, in the order of its list, and
    the pages `s` in the first slots of its swap file.

    While a slot is free and the list is long enough to be printed after
    each removal, eviction, page faults, growth and stores keep it. -/

namespace Paging

/-! ### The invariant -/

structure Paged (g : Nat) (k : Kernel) (lim : Nat) (q s : List Nat) (m : Nat → UInt8) : Prop where
  locks : k.locks = []
  pid : 2 < k.cur.pid
  fifo : Fifo k.curproc k.cur q
  slots : Slots k.cur s
  backed : ∃ f, k.cur.swapFile = some f ∧ Backed k.fs f s m
  mem : Mem g (k.view k.cur.pgdir) lim q s m
  /-- the counter runs ahead of the list by one for each fault so far -/
  counted : (q.length : Int) ≤ k.cur.nPagesInPhyMemory
  bounded : k.cur.nPagesInPhyMemory ≤ MAX_PSYC_PAGES

/-! ### Eviction -/

/-- `moveToSwapFile` of a resident page, while a slot is free. -/
theorem moveToSwapFile_eq {k : Kernel} {a : Nat} {x : Pte} {i : Fin MAX_PSYC_PAGES} {fs' : Fs}
    (hlocks : k.locks = []) (ha : a % PGSIZE = 0)
    (hx : k.walkpgdir k.cur.pgdir a = some x) (hp : x.p = true) (hframe : k.FrameOk x.ppn)
    (hslot : freeSlot k.cur = some i)
    (hwrite : let k' := k.modCur fun p => p.setSlot i ⟨a, true⟩
      writeToSwapFile k' k'.curproc (k.frame x.ppn) (i * PGSIZE) PGSIZE =
        .ok (PGSIZE, { k' with fs := fs' })) :
    ∃ k', moveToSwapFile k a = .ok k' ∧ k'.locks = [] ∧ k'.curproc = k.curproc ∧ k'.fs = fs' ∧
      k'.cur = (k.cur.setSlot i ⟨a, true⟩).count (-1) 1 ∧
      k'.view k.cur.pgdir = ((k.view k.cur.pgdir).free x.ppn).setPte a .swapped := by
  have hne : x ≠ .zero := by
    rintro rfl
    simp [Pte.zero] at hp
  set k1 := k.modCur fun p => p.setSlot i ⟨a, true⟩ with hk1
  have hrec : recordPage k a x = .ok { k1 with fs := fs' } := by
    simp only [recordPage, hslot]
    rw [← hk1, show k1.frame = k.frame from rfl, hwrite]
    have hprint : cprintf { k1 with fs := fs' } = .ok () := cprintf_ok hlocks
    simp only [ok_bind, hprint, pure_eq_ok]
    rfl
  have hcur : ({ k1 with fs := fs' } : Kernel).cur = k.cur.setSlot i ⟨a, true⟩ := by
    show k1.cur = _
    exact Kernel.modCur_cur k fun p => p.setSlot i ⟨a, true⟩
  have hwalk : ({ k1 with fs := fs' } : Kernel).walkpgdir k.cur.pgdir a = some x := hx
  have hframe' : ({ k1 with fs := fs' } : Kernel).FrameOk x.ppn := hframe
  obtain ⟨k2, hkfree, hk2, hcur2⟩ : ∃ k2, kfree { k1 with fs := fs' } x.ppn = .ok k2 ∧
      k2 = { k1 with
        fs := fs', freelist := x.ppn :: k.freelist, frame := Function.update k.frame x.ppn fun _ => 1 } ∧
      k2.cur = k.cur.setSlot i ⟨a, true⟩ :=
    ⟨_, if_pos hframe', rfl, hcur⟩
  have hpgdir : k2.cur.pgdir = k.cur.pgdir := by rw [hcur2]; rfl
  simp only [moveToSwapFile, hx, deref_some, ok_bind, if_neg hne, hrec, PTE_ADDR_of_aligned ha, hcur,
    Proc.setSlot_pgdir, hwalk, hp, if_true, hkfree, hpgdir, pure_eq_ok]
  subst hk2
  refine ⟨_, rfl, hlocks, rfl, rfl, ?_, ?_⟩
  · rw [Kernel.modCur_cur]
    exact congrArg (fun p : Proc => p.count (-1) 1) hcur
  · simp [Kernel.view, Kernel.modCur, Kernel.setPte, MemView.setPte, MemView.free, MemView.setFrame, hk1]

/-- What no page fault and no eviction changes. -/
structure Kept (k k' : Kernel) : Prop where
  curproc : k'.curproc = k.curproc
  sz : k'.cur.sz = k.cur.sz
  pgdir : k'.cur.pgdir = k.cur.pgdir
  killed : k'.cur.killed = k.cur.killed

theorem Kept.trans {k k' k'' : Kernel} (h : Kept k k') (h' : Kept k' k'') : Kept k k'' :=
  ⟨h'.curproc.trans h.curproc, h'.sz.trans h.sz, h'.pgdir.trans h.pgdir, h'.killed.trans h.killed⟩

namespace Paged

variable {g lim a : Nat} {k : Kernel} {q s : List Nat} {m : Nat → UInt8}

theorem cons (h : Paged g k lim q s m) : .cons ∉ k.locks := by
  rw [h.locks]
  exact List.not_mem_nil

/-- The frame of a resident page. -/
theorem walk_resident (h : Paged g k lim q s m) (ha : a ∈ q) :
    ∃ x, k.walkpgdir k.cur.pgdir a = some x ∧ Resident g (k.view k.cur.pgdir) m a x := by
  obtain ⟨x, hx⟩ := h.mem.resident a ha
  exact ⟨x, hx.walk, hx⟩

/-- `swapPageOut` takes the oldest page to the first free slot. -/
theorem evict (h : Paged g k lim (a :: q) s m) (hq : q ≠ []) (hs : s.length < MAX_PSYC_PAGES) :
    ∃ k', swapPageOut k = .ok k' ∧ Paged g k' lim q (s ++ [a]) m ∧ Kept k k' ∧
      k'.cur.nPagesInPhyMemory = k.cur.nPagesInPhyMemory - 1 ∧
      k'.freelist.length = k.freelist.length + 1 := by
  obtain ⟨c, hdeq, hfifo⟩ := h.fifo.dequeueFIFO hq h.cons
  obtain ⟨f, hf, hback⟩ := h.backed
  obtain ⟨x, hwalk, hx⟩ := h.walk_resident (by simp : a ∈ a :: q)
  have ha := h.mem.aligned (by simp : a ∈ a :: q ++ s)
  set k1 := k.setCur (k.cur.dequeued c) with hk1
  have hcur1 : k1.cur = k.cur.dequeued c := Kernel.setCur_cur k _
  have hslots1 : Slots k1.cur s := h.slots.congr (by simp [hcur1])
  -- the write of the page's slot
  set k2 := k1.modCur fun p => p.setSlot ⟨s.length, hs⟩ ⟨a, true⟩ with hk2
  have hcur2 : k2.cur = (k.cur.dequeued c).setSlot ⟨s.length, hs⟩ ⟨a, true⟩ := by
    rw [hk2, Kernel.modCur_cur, hcur1]
  obtain ⟨fs', hwrite, hfile, hbytes⟩ := writeToSwapFile_eq (k := k2) (by simpa [hcur2] using hf)
    h.locks hback.file (Nat.le_refl s.length) hs (k.frame x.ppn)
  have hpgdir1 : k1.cur.pgdir = k.cur.pgdir := by simp [hcur1]
  obtain ⟨k', hmove, hlocks', hcurproc', hfs', hcur', hview'⟩ := moveToSwapFile_eq (k := k1) h.locks ha
    (by rw [hpgdir1]; exact hwalk) hx.p hx.frameOk (hslots1.freeSlot_eq hs) hwrite
  rw [hcur1] at hcur'
  have hpgdir' : k'.cur.pgdir = k.cur.pgdir := by simp [hcur']
  have hmem := h.mem.evict hx.walk
  have hview : k'.view k'.cur.pgdir =
      ((k.view k.cur.pgdir).free x.ppn).setPte a .swapped := by
    rw [hpgdir', ← hpgdir1, hview']
    rfl
  have hlen := congrArg (fun v => v.freelist.length) hview'
  have hcount : k'.cur.nPagesInPhyMemory = k.cur.nPagesInPhyMemory - 1 := by
    simp [hcur', Int.sub_eq_add_neg]
  have hcounted := h.counted
  have hbounded := h.bounded
  simp only [List.length_cons] at hcounted
  refine ⟨k', by simp [swapPageOut, hdeq, hmove],
    { locks := hlocks', pid := ?_, fifo := ?_, slots := ?_, backed := ⟨f, ?_, ?_, fun i b hi j hj => ?_⟩,
      mem := ?_, counted := by omega, bounded := by omega }, ⟨hcurproc', ?_, hpgdir', ?_⟩, hcount, ?_⟩
  · simpa [hcur'] using h.pid
  · rw [hcurproc', hcur']
    exact hfifo.congr (by simp) (by simp)
  · rw [hcur']
    exact (hslots1.push hs a).congr (by simp [hcur1])
  · simpa [hcur'] using hf
  · rw [hfs']
    simpa using hfile
  · rw [hfs', hbytes i j hj]
    by_cases his : i = s.length
    · subst his
      have hab : a = b := by simpa using hi
      rw [if_pos rfl, ← hab]
      exact hx.bytes j hj
    · have hlt := (List.getElem?_eq_some_iff.mp hi).1
      rw [if_neg his]
      rw [List.getElem?_append_left (by simp at hlt; omega)] at hi
      exact hback.bytes i b hi j hj
  · rw [hview]
    exact hmem
  · simp [hcur']
  · simp [hcur']
  · exact hlen

/-- `swapPageIn` brings a page in and takes the oldest page to its slot. -/
theorem exchange {b i : Nat} (h : Paged g k lim (b :: q) s m) (hq : q ≠ []) (hi : s[i]? = some a)
    (hcount : k.cur.nPagesInPhyMemory < MAX_PSYC_PAGES) :
    ∃ k', swapPageIn k a = .ok k' ∧ Paged g k' lim (q ++ [a]) (s.set i b) m ∧ Kept k k' ∧
      k'.cur.nPagesInPhyMemory = k.cur.nPagesInPhyMemory + 1 ∧ k'.freelist = k.freelist ∧
      ∃ f, k'.walkpgdir k'.cur.pgdir a = some ⟨f, true, true, true, false⟩ := by
  obtain ⟨hlt, hget⟩ := List.getElem?_eq_some_iff.mp hi
  have hmax : i < MAX_PSYC_PAGES := Nat.lt_of_lt_of_le hlt h.slots.1
  have has : a ∈ b :: q ++ s := List.mem_append_right _ (hget ▸ List.getElem_mem hlt)
  have ha := h.mem.aligned has
  have hb := h.mem.aligned (by simp : b ∈ b :: q ++ s)
  have hab : b ≠ a := by
    rintro rfl
    exact (List.nodup_cons.mp h.mem.nodup).1 (List.mem_append_right _ (hget ▸ List.getElem_mem hlt))
  have hslot : slotOf k.cur (PTE_ADDR a) = some ⟨i, hmax⟩ := by
    rw [PTE_ADDR_of_aligned ha]
    exact h.slots.slotOf_eq (List.nodup_append.mp h.mem.nodup).2.1 hi
  obtain ⟨f, hf, hback⟩ := h.backed
  obtain ⟨x, hwalkb, hx⟩ := h.walk_resident (by simp : b ∈ b :: q)
  have hwalka : k.walkpgdir k.cur.pgdir a = some .swapped := h.mem.swapped a (hget ▸ List.getElem_mem hlt)
  have hx0 : x ≠ .zero := by
    rintro rfl
    exact absurd hx.p (by decide)
  obtain ⟨k', c, t, e, buffer, hok, hcur', hfifo', hbuffer, hk', -⟩ := swapPageIn_eq h.locks h.fifo hq hslot
    hwalka (by decide) hwalkb hx0 hf (hback.file.slotReady hlt)
  have hready := hback.file.slotReady hlt
  obtain ⟨fs', hwrite, hfile', hbytes'⟩ := hback.file.write (Nat.le_of_lt hlt) hmax (k.frame x.ppn)
  have hfs' : k'.fs = fs' := by
    rw [hready.filewrite hmax] at hwrite
    cases hwrite
    rw [hk']
  set d := k.cur.pgdir with hd
  have hcount' : k'.cur.nPagesInPhyMemory = k.cur.nPagesInPhyMemory + 1 := by
    simp [hcur', Proc.exchanged]
  have hview : k'.view d =
      (((k.view d).setPte a ⟨x.ppn, true, true, true, false⟩).setFrame x.ppn buffer).setPte b .swapped := by
    rw [hk']
    simp [Kernel.view, Kernel.setPte, Kernel.setFrame, MemView.setPte, MemView.setFrame]
  have hbuffer' : ∀ j < PGSIZE, buffer j = m (a + j) := fun j hj =>
    (hbuffer j hj).trans (hback.bytes i a hi j hj)
  have hcounted := h.counted
  simp only [List.length_cons] at hcounted
  have hpgdir' : k'.cur.pgdir = d := by simp [hcur', Proc.exchanged, hd]
  refine ⟨k', hok,
    { locks := ?_, pid := ?_, fifo := hfifo', slots := ?_, backed := ⟨f, ?_, ?_, fun i' e' hi' j hj => ?_⟩,
      mem := ?_, counted := ?_, bounded := by omega }, ⟨?_, ?_, hpgdir', ?_⟩, hcount', ?_, x.ppn, ?_⟩
  · rw [hk']
    exact h.locks
  · simpa [hcur', Proc.exchanged] using h.pid
  · rw [hcur']
    refine Slots.congr ?_ (Proc.enqueued_pagesInSwapFile _ _)
    exact (h.slots.set (i := ⟨i, hmax⟩) hlt b).congr (by simp [Proc.setSlot])
  · simpa [hcur', Proc.exchanged] using hf
  · rw [hfs', List.length_set]
    rwa [Nat.max_eq_left hlt] at hfile'
  · rw [hfs', hbytes' i' j hj]
    by_cases hii : i' = i
    · subst hii
      have hbe : b = e' := by simpa [hlt] using hi'
      rw [if_pos rfl, ← hbe]
      exact hx.bytes j hj
    · rw [if_neg hii]
      rw [List.getElem?_set_ne (Ne.symm hii)] at hi'
      exact hback.bytes i' e' hi' j hj
  · rw [hpgdir', hview]
    exact h.mem.exchange hi hx.walk hbuffer'
  · simp only [List.length_append, List.length_singleton]
    omega
  · rw [hk']
    rfl
  · simp [hcur', Proc.exchanged]
  · simp [hcur', Proc.exchanged]
  · rw [hk']
    rfl
  · show (k'.view k'.cur.pgdir).walk a = _
    rw [hpgdir', hview, MemView.walk_setPte_ne (page_ne ha hb hab.symm), MemView.setFrame_walk]
    exact MemView.walk_setPte_self hwalka

/-! ### Page faults -/

/-- An address of the process is swapped out just when its entry says so. -/
theorem walk_pg (h : Paged g k lim q s m) (va : Nat) :
    (∃ x, k.walkpgdir k.cur.pgdir va = some x ∧ x.pg = true) ↔ PTE_ADDR va ∈ s := by
  rw [← walkpgdir_PTE_ADDR]
  constructor
  · rintro ⟨x, hx, hpg⟩
    by_cases hin : PTE_ADDR va ∈ q ++ s
    · rcases List.mem_append.mp hin with hq | hs
      · obtain ⟨y, hy, hres⟩ := h.walk_resident hq
        rw [hx] at hy
        cases hy
        rw [hres.pg] at hpg
        cases hpg
      · exact hs
    · have hout : lim ≤ PTE_ADDR va := Nat.le_of_not_lt fun hlt =>
        hin ((h.mem.pages _).mpr ⟨PTE_ADDR_aligned va, hlt⟩)
      have hx' : (k.view k.cur.pgdir).walk (PTE_ADDR va) = some x := hx
      rcases h.mem.unmapped _ (PTE_ADDR_aligned va) hout with hnone | hzero
      · rw [hnone] at hx'
        cases hx'
      · rw [hzero] at hx'
        cases hx'
        cases hpg
  · exact fun hs => ⟨_, h.mem.swapped _ hs, rfl⟩

/-- A page fault on a swapped page: two pages go out and one comes in. -/
theorem fault (h : Paged g k lim q s m) {va : Nat} (hva : PTE_ADDR va ∈ s) (hq : 3 ≤ q.length)
    (hs : s.length < MAX_PSYC_PAGES) (user : Bool) :
    ∃ k' q' s', trapPgflt user k va = .ok (.resumed, k') ∧ Paged g k' lim q' s' m ∧ Kept k k' ∧
      PTE_ADDR va ∈ q' ∧ q'.length + 1 = q.length ∧ s'.length = s.length + 1 ∧
      k'.cur.nPagesInPhyMemory = k.cur.nPagesInPhyMemory ∧
      ∃ f, k'.walkpgdir k'.cur.pgdir (PTE_ADDR va) = some ⟨f, true, true, true, false⟩ := by
  obtain ⟨x, hx, hpg⟩ := (h.walk_pg va).mpr hva
  obtain ⟨a, b, q, rfl⟩ : ∃ a b q', q = a :: b :: q' := by
    match q, hq with
    | a :: b :: q', _ => exact ⟨a, b, q', rfl⟩
  obtain ⟨k1, hout, h1, hkept1, hn1, hfree1⟩ := h.evict (by simp) hs
  obtain ⟨i, hi⟩ := List.getElem?_of_mem hva
  have hlt := (List.getElem?_eq_some_iff.mp hi).1
  have hbound := h.bounded
  obtain ⟨k2, hin, h2, hkept2, hn2, -, hwalk⟩ := h1.exchange
    (by rintro rfl; simp at hq) (by rw [List.getElem?_append_left hlt]; exact hi) (by omega)
  refine ⟨k2, _, _, ?_, h2, hkept1.trans hkept2, by simp, by simp, by simp, by omega, hwalk⟩
  simp [trapPgflt, cprintf_ok h.locks, hx, hpg, hout, hin]

/-! ### Growth -/

/-- `makeRoom` leaves room for a page in the list. -/
theorem makeRoom (h : Paged g k lim q s m)
    (hfull : k.cur.nPagesInPhyMemory = MAX_PSYC_PAGES → 2 ≤ q.length ∧ s.length < MAX_PSYC_PAGES) :
    ∃ k' q' s', Paging.makeRoom k = .ok k' ∧ Paged g k' lim q' s' m ∧ Kept k k' ∧
      k'.cur.nPagesInPhyMemory < MAX_PSYC_PAGES ∧
      k'.cur.nPagesInPhyMemory ≤ k.cur.nPagesInPhyMemory ∧
      k.cur.nPagesInPhyMemory ≤ k'.cur.nPagesInPhyMemory + 1 ∧
      (k'.cur.nPagesInPhyMemory - q'.length = k.cur.nPagesInPhyMemory - q.length) ∧
      (k'.cur.nPagesInPhyMemory + s'.length = k.cur.nPagesInPhyMemory + s.length) ∧
      (k'.cur.nPagesInPhyMemory + k'.freelist.length = k.cur.nPagesInPhyMemory + k.freelist.length) := by
  have hbound := h.bounded
  by_cases hn : (MAX_PSYC_PAGES : Int) ≤ k.cur.nPagesInPhyMemory
  · obtain ⟨hq, hs⟩ := hfull (by omega)
    obtain ⟨a, q, rfl⟩ := List.exists_cons_of_length_pos (by omega : 0 < q.length)
    simp only [List.length_cons] at hq
    obtain ⟨k', hout, h', hkept, hn', hfree'⟩ := h.evict (by rintro rfl; simp at hq) hs
    refine ⟨k', _, _, ?_, h', hkept, by omega, by omega, by omega, ?_, ?_, by omega⟩
    · unfold Paging.makeRoom
      rw [if_pos hn, cprintf_ok h.locks, ok_bind, hout]
    · simp only [List.length_cons]
      omega
    · simp only [List.length_append, List.length_singleton]
      omega
  · exact ⟨k, q, s, if_neg hn, h, ⟨rfl, rfl, rfl, rfl⟩, by omega, Int.le_refl _, by omega, rfl,
      rfl, rfl⟩

/-- A page is mapped and enqueued. -/
theorem growPage {f : Nat} {rest : List Nat} (h : Paged g k lim q s m) (hfree : k.freelist = f :: rest)
    (hlim : lim % PGSIZE = 0) (hsmall : lim + PGSIZE ≤ MAX_TOTAL_PAGES * PGSIZE)
    (hn : k.cur.nPagesInPhyMemory < MAX_PSYC_PAGES) :
    let k1 := ({ k with freelist := rest } : Kernel).setFrame f fun _ => 0
    ∃ k2 k', mappages k1 k.cur.pgdir lim ⟨f, true, true, true, false⟩ = .ok (0, k2) ∧
      enqueueFIFO k2 (PTE_ADDR lim) = .ok k' ∧ Paged g k' (lim + PGSIZE) (q ++ [lim]) s m ∧
      Kept k k' ∧ k'.cur.nPagesInPhyMemory = k.cur.nPagesInPhyMemory + 1 ∧ k'.freelist = rest := by
  intro k1
  set new : Pte := ⟨f, true, true, true, false⟩ with hnew
  obtain ⟨y, hy, hp⟩ : ∃ y, k1.walkpgdir k.cur.pgdir lim = some y ∧ y.p = false := by
    obtain ⟨y, hy⟩ := h.mem.walk_some (a := lim) (by simp only [PGSIZE] at *; omega)
    rcases h.mem.unmapped lim hlim (Nat.le_refl lim) with hnone | hzero
    · rw [hnone] at hy
      cases hy
    · exact ⟨_, hzero, rfl⟩
  set k2 := k1.setPte k.cur.pgdir lim new with hk2
  have hcur2 : k2.cur = k.cur := rfl
  have hcounted := h.counted
  have hqlen : q.length < MAX_PSYC_PAGES := by omega
  have hfifo2 : Fifo k2.curproc k2.cur q := h.fifo
  obtain ⟨t, e, henq, hfifo'⟩ := hfifo2.enqueueFIFO hqlen (PTE_ADDR lim)
  rw [PTE_ADDR_of_aligned hlim] at hfifo'
  obtain ⟨b, hb, hback⟩ := h.backed
  refine ⟨k2, k2.setCur (k2.cur.enqueued t e (PTE_ADDR lim)), ?_, henq,
    { locks := h.locks, pid := ?_, fifo := ?_, slots := ?_, backed := ⟨b, ?_, hback⟩,
      mem := ?_, counted := ?_, bounded := ?_ }, ⟨rfl, ?_, ?_, ?_⟩, ?_, rfl⟩
  · exact mappages_eq hy hp
  · simpa [hcur2] using h.pid
  · rw [Kernel.setCur_cur]
    simpa [PTE_ADDR_of_aligned hlim] using hfifo'
  · rw [Kernel.setCur_cur]
    exact h.slots.congr (by simp [hcur2])
  · simpa [hcur2] using hb
  · have hview : (k2.setCur (k2.cur.enqueued t e (PTE_ADDR lim))).view k.cur.pgdir =
        ({ k.view k.cur.pgdir with freelist := rest }.setFrame f fun _ => 0).setPte lim new := by
      simp [hk2, k1, Kernel.view, Kernel.setPte, Kernel.setFrame, MemView.setPte, MemView.setFrame]
    rw [show (k2.setCur (k2.cur.enqueued t e (PTE_ADDR lim))).cur.pgdir = k.cur.pgdir by simp [hcur2],
      hview]
    exact h.mem.grow hfree hlim hsmall
  · rw [Kernel.setCur_cur, Proc.enqueued_nPagesInPhyMemory, hcur2, List.length_append]
    simp only [List.length_singleton]
    omega
  · rw [Kernel.setCur_cur, Proc.enqueued_nPagesInPhyMemory, hcur2]
    omega
  all_goals simp [hcur2]

/-- The loop of `allocuvm` over `n` pages, by induction on `n`: while it
    runs, the counter plus the slots in use, and the counter less the
    length of the list, only grow by the pages allocated. -/
theorem allocLoop {d newsz n : Nat} (oldsz : Nat) (h : Paged g k lim q s m) (hd : k.cur.pgdir = d)
    (hn : (newsz - lim + PGSIZE - 1) / PGSIZE = n) (hlim : lim % PGSIZE = 0)
    (hmax : newsz ≤ MAX_TOTAL_PAGES * PGSIZE)
    (hslots : k.cur.nPagesInPhyMemory + n + s.length ≤ MAX_TOTAL_PAGES)
    (hlist : MAX_PSYC_PAGES < k.cur.nPagesInPhyMemory + n →
      k.cur.nPagesInPhyMemory + 2 ≤ q.length + MAX_PSYC_PAGES)
    (hframes : min (k.cur.nPagesInPhyMemory + n) MAX_PSYC_PAGES ≤
      k.cur.nPagesInPhyMemory + k.freelist.length) :
    ∃ k' q' s', Paging.allocLoop d oldsz newsz (pageRange lim newsz) k = .ok (newsz, k') ∧
      Paged g k' (lim + n * PGSIZE) q' s' m ∧ Kept k k' ∧ q.length ≤ q'.length := by
  induction n generalizing k lim q s with
  | zero =>
    have hle : newsz ≤ lim := by
      simp only [PGSIZE] at hn
      omega
    refine ⟨k, q, s, ?_, by simpa using h, ⟨rfl, rfl, rfl, rfl⟩, Nat.le_refl _⟩
    rw [pageRange_nil hle, Paging.allocLoop]
  | succ n ih =>
    have hlt : lim < newsz := by
      simp only [PGSIZE] at hn
      omega
    have hsmall : lim + PGSIZE ≤ MAX_TOTAL_PAGES * PGSIZE := by
      simp only [PGSIZE, MAX_TOTAL_PAGES] at *
      omega
    have hcounted := h.counted
    simp only [MAX_PSYC_PAGES, MAX_TOTAL_PAGES] at hslots hlist hframes
    obtain ⟨k1, q1, s1, hroom, h1, hkept1, hlt1, hle1, hge1, hr1, hs1, hf1⟩ := h.makeRoom (by
      simp only [MAX_PSYC_PAGES]
      omega)
    simp only [MAX_PSYC_PAGES] at hlt1
    obtain ⟨f, rest, hfree⟩ := List.exists_cons_of_length_pos (by omega : 0 < k1.freelist.length)
    have hpgdir1 : k1.cur.pgdir = d := hkept1.pgdir.trans hd
    obtain ⟨k2, k3, hmap, henq, h3, hkept3, hn3, hfree3⟩ := h1.growPage hfree hlim hsmall hlt1
    have hlen3 : k3.freelist.length + 1 = k1.freelist.length := by rw [hfree3, hfree]; rfl
    have hq3 : (q1 ++ [lim]).length = q1.length + 1 := by simp
    obtain ⟨k', q', s', hloop, h', hkept', hq'⟩ := ih h3 (hkept3.pgdir.trans hpgdir1)
      (by simp only [PGSIZE] at *; omega) (by simp only [PGSIZE] at *; omega)
      (by simp only [MAX_TOTAL_PAGES]; omega) (by simp only [MAX_PSYC_PAGES]; omega)
      (by simp only [MAX_PSYC_PAGES]; omega)
    refine ⟨k', q', s', ?_, ?_, (hkept1.trans hkept3).trans hkept', by omega⟩
    · rw [pageRange_succ hlt]
      generalize pageRange (lim + PGSIZE) newsz = rest' at hloop ⊢
      rw [Paging.allocLoop, hroom]
      simp only [ok_bind, kalloc, hfree]
      rw [hpgdir1] at hmap
      rw [hmap]
      simp only [ok_bind, henq]
      rw [if_neg (by decide)]
      split
      · rw [cprintf_ok h3.locks, ok_bind]
        exact hloop
      · exact hloop
    · rw [Nat.succ_mul, Nat.add_comm (n * PGSIZE), ← Nat.add_assoc]
      exact h'

/-- The invariant says nothing about the recorded size. -/
theorem setSz (h : Paged g k lim q s m) (sz : Nat) : Paged g (k.setSz sz) lim q s m := by
  have hcur : (k.setSz sz).cur = { k.cur with sz } := Kernel.modCur_cur k _
  refine ⟨h.locks, ?_, ?_, ?_, ?_, ?_, ?_, ?_⟩
  · rw [hcur]
    exact h.pid
  · rw [hcur]
    exact h.fifo.congr rfl rfl
  · rw [hcur]
    exact h.slots.congr rfl
  · rw [hcur]
    exact h.backed
  · rw [hcur]
    exact h.mem
  · rw [hcur]
    exact h.counted
  · rw [hcur]
    exact h.bounded

/-- The limit can be any size that ends in the same page. -/
theorem lim_congr {lim' : Nat} (h : Paged g k lim q s m) (hsmall : lim' ≤ MAX_TOTAL_PAGES * PGSIZE)
    (hlim : ∀ a, a % PGSIZE = 0 → (a < lim ↔ a < lim')) : Paged g k lim' q s m :=
  { h with mem := h.mem.lim_congr hsmall hlim }

/-- A successful `sbrk` of a positive amount. -/
theorem sbrk {n : Nat} (h : Paged g k k.cur.sz q s m) (hn : 0 < n)
    (hmax : k.cur.sz + n ≤ MAX_TOTAL_PAGES * PGSIZE) {new : Nat}
    (hnew : new = (pageRange (PGROUNDUP k.cur.sz) (k.cur.sz + n)).length)
    (hslots : k.cur.nPagesInPhyMemory + new + s.length ≤ MAX_TOTAL_PAGES)
    (hlist : MAX_PSYC_PAGES < k.cur.nPagesInPhyMemory + new →
      k.cur.nPagesInPhyMemory + 2 ≤ q.length + MAX_PSYC_PAGES)
    (hframes : min (k.cur.nPagesInPhyMemory + new) MAX_PSYC_PAGES ≤
      k.cur.nPagesInPhyMemory + k.freelist.length) :
    ∃ k' q' s', sys_sbrk k n = .ok (k.cur.sz, k') ∧ Paged g k' k'.cur.sz q' s' m ∧
      k'.cur.sz = k.cur.sz + n ∧ q.length ≤ q'.length := by
  set sz := k.cur.sz with hsz
  have hround : Paged g k (PGROUNDUP sz) q s m := by
    refine h.lim_congr ?_ fun a ha => (lt_PGROUNDUP ha).symm
    simp only [PGROUNDUP, PGSIZE, MAX_TOTAL_PAGES] at *
    omega
  have hcount : (sz + n - PGROUNDUP sz + PGSIZE - 1) / PGSIZE = new := by
    rw [hnew]
    simp [pageRange]
  obtain ⟨k', q', s', hloop, h', hkept, hq'⟩ := hround.allocLoop sz rfl hcount (PGROUNDUP_aligned sz) hmax
    hslots hlist hframes
  have hkern : ¬ sz + n ≥ KERNBASE := by
    simp only [PGSIZE, MAX_TOTAL_PAGES, KERNBASE] at *
    omega
  have hgrow : growproc k n = .ok (0, k'.setSz (sz + n)) := by
    have hwrap : (((sz : Int) + n) % 2 ^ 32).toNat = sz + n := by
      simp only [PGSIZE, MAX_TOTAL_PAGES] at hmax
      omega
    simp only [growproc, ← hsz, hwrap]
    rw [if_pos (by omega), allocuvm, if_neg hkern, if_neg (by omega), hloop, ok_bind]
    simp only []
    rw [if_neg (by omega)]
    rfl
  have hcur : (k'.setSz (sz + n)).cur.sz = sz + n := by
    rw [Kernel.setSz, Kernel.modCur_cur]
  refine ⟨k'.setSz (sz + n), q', s', ?_, ?_, hcur, hq'⟩
  · rw [sys_sbrk, hgrow]
    rfl
  · rw [hcur]
    refine (h'.setSz _).lim_congr hmax fun a ha => ?_
    have hround : a < PGROUNDUP (sz + n) ↔ a < sz + n := lt_PGROUNDUP ha
    rw [← hcount, ← hround]
    simp only [PGROUNDUP, PGSIZE]
    omega

/-! ### Stores -/

/-- A byte stored in a resident page. -/
theorem setByte (h : Paged g k lim q s m) {va : Nat} (hva : PTE_ADDR va ∈ q) {x : Pte}
    (hx : k.walkpgdir k.cur.pgdir (PTE_ADDR va) = some x) (byte : UInt8) :
    Paged g (k.setByte x.ppn (va % PGSIZE) byte) lim q s (Function.update m va byte) := by
  obtain ⟨f, hf, hback⟩ := h.backed
  refine ⟨h.locks, h.pid, h.fifo, h.slots, ⟨f, hf, hback.file, fun i a hi j hj => ?_⟩,
    h.mem.store hva hx byte, h.counted, h.bounded⟩
  -- a page in the swap file is not the one written
  have ha := List.mem_of_getElem? hi
  have hne : PTE_ADDR va ≠ a := fun heq =>
    (List.nodup_append.mp h.mem.nodup).2.2 _ hva a ha heq
  rw [Function.update_of_ne]
  · exact hback.bytes i a hi j hj
  · have hdiv := page_ne (PTE_ADDR_aligned va) (h.mem.aligned (List.mem_append_right q ha)) hne
    have hal := h.mem.aligned (List.mem_append_right q ha)
    rw [PTE_ADDR_div] at hdiv
    rintro rfl
    simp only [PGSIZE] at *
    omega

/-! ### Accesses -/

section touch

variable {va : Nat} {store : Bool}

/-- An access to a resident page, by the kernel or outside the guard page. -/
theorem touch_resident (h : Paged g k lim q s m) (hva : PTE_ADDR va ∈ q) {user : Bool}
    (hu : user = true → PTE_ADDR va ≠ g) (store : Bool) (fuel : Nat) :
    ∃ x, k.walkpgdir k.cur.pgdir (PTE_ADDR va) = some x ∧
      touch user store (fuel + 1) k va = .ok (some x.ppn, k) := by
  obtain ⟨x, hx, hres⟩ := h.walk_resident hva
  refine ⟨x, hx, ?_⟩
  rw [walkpgdir_PTE_ADDR] at hx
  have hok : (x.p && (!user || x.u) && (!store || x.w)) = true := by
    cases user with
    | false => simp [hres.p, hres.w]
    | true => simp [hres.p, hres.w, hres.u (hu rfl)]
  simp only [touch, hx, Option.filter_some, hok, if_true]

/-- The guard page lets an access of the process through or kills it. -/
theorem touch_guard (h : Paged g k lim q s m) (hva : PTE_ADDR va ∈ q) (fuel : Nat) :
    (∃ x, k.walkpgdir k.cur.pgdir (PTE_ADDR va) = some x ∧
      touch true store (fuel + 1) k va = .ok (some x.ppn, k)) ∨
    ∃ k', touch true store (fuel + 1) k va = .ok (none, k') := by
  obtain ⟨x, hx, hres⟩ := h.walk_resident hva
  rw [walkpgdir_PTE_ADDR] at hx
  cases hu : x.u with
  | true =>
    left
    refine ⟨x, by rwa [walkpgdir_PTE_ADDR], ?_⟩
    simp [touch, hx, Option.filter_some, hres.p, hres.w, hu]
  | false =>
    right
    simp [touch, hx, Option.filter_some, hu, trapPgflt, cprintf_ok h.locks, hres.pg]

/-- An access outside the process kills it. -/
theorem touch_outside (h : Paged g k lim q s m) (hva : lim ≤ PTE_ADDR va) (fuel : Nat) :
    ∃ k', touch true store (fuel + 1) k va = .ok (none, k') := by
  have hwalk : k.walkpgdir k.cur.pgdir va = none ∨ k.walkpgdir k.cur.pgdir va = some .zero := by
    rw [← walkpgdir_PTE_ADDR]
    exact h.mem.unmapped _ (PTE_ADDR_aligned va) hva
  rcases hwalk with hx | hx
  · simp [touch, hx, trapPgflt, cprintf_ok h.locks]
  · simp [touch, hx, Option.filter_some, trapPgflt, cprintf_ok h.locks, Pte.zero]

/-- An access to a swapped page faults once and then succeeds. -/
theorem touch_swapped (h : Paged g k lim q s m) (hva : PTE_ADDR va ∈ s) (hq : 3 ≤ q.length)
    (hs : s.length < MAX_PSYC_PAGES) (user store : Bool) (fuel : Nat) :
    ∃ k' q' s' x, touch user store (fuel + 2) k va = .ok (some x.ppn, k') ∧
      Paged g k' lim q' s' m ∧ Kept k k' ∧ PTE_ADDR va ∈ q' ∧
      k'.walkpgdir k'.cur.pgdir (PTE_ADDR va) = some x ∧
      q'.length + 1 = q.length ∧ s'.length = s.length + 1 := by
  obtain ⟨k', q', s', htrap, h', hkept, hin, hq', hs', -, f, hwalk⟩ := h.fault hva hq hs user
  refine ⟨k', q', s', _, ?_, h', hkept, hin, hwalk, hq', hs'⟩
  have hx : k.walkpgdir k.cur.pgdir va = some .swapped := by
    rw [← walkpgdir_PTE_ADDR]
    exact h.mem.swapped _ hva
  rw [walkpgdir_PTE_ADDR] at hwalk
  have hsecond : touch user store (fuel + 1) k' va = .ok (some f, k') := by
    simp [touch, hwalk, Option.filter_some]
  rw [touch]
  simp only [hx, Option.filter_some, Pte.swapped, Bool.false_and, Bool.false_eq_true, if_false, htrap,
    ok_bind]
  exact hsecond

/-- A fault with only two pages in the list: the exchange empties it, and
    printing it follows the null head. -/
theorem fault_short {a b : Nat} (h : Paged g k lim [a, b] s m) (hva : PTE_ADDR va ∈ s)
    (hs : s.length < MAX_PSYC_PAGES) (user : Bool) : trapPgflt user k va = .error .nullDeref := by
  obtain ⟨x, hx, hpg⟩ := (h.walk_pg va).mpr hva
  obtain ⟨k1, hout, h1, -⟩ := h.evict (by simp) hs
  have hdeq := h1.fifo.dequeueFIFO_single (by have := h1.pid; omega) h1.cons
  obtain ⟨i, hi⟩ := List.getElem?_of_mem hva
  have hlt := (List.getElem?_eq_some_iff.mp hi).1
  have hslot : slotOf k1.cur (PTE_ADDR (PTE_ADDR va)) = some ⟨i, Nat.lt_trans hlt hs⟩ := by
    rw [PTE_ADDR_of_aligned (PTE_ADDR_aligned va)]
    refine h1.slots.slotOf_eq (List.nodup_append.mp h1.mem.nodup).2.1 ?_
    rw [List.getElem?_append_left hlt]
    exact hi
  simp [trapPgflt, cprintf_ok h.locks, hx, hpg, hout, swapPageIn, hslot, hdeq]

end touch

end Paged

end Paging
