import OperatingSystem314.Paging.Taken

/-! # Eviction from a short list

    `dequeueFIFO` prints the list before and after it takes the oldest page
    off, and the print follows the head.  A page fault takes two pages off
    and puts one on, so each fault shortens the list.

    `Listed p k q`: the list of process `p` lies in its own array and holds
    the pages `q`, all of them in memory.

    * `Roomy`: what a step needs to find in the list.
    * `short_queue_safe`: in runs of such steps every eviction is safe.
    * `short_queue_fails`: page faults run the list down. -/

namespace Paging

open LinkedSlots
open Relation (ReflTransGen)

/-! ### The list and its head -/

theorem Fifo.head_eq_none {p : ProcId} {x : Proc} {q : List Nat} (h : Fifo p x q) :
    x.head = none ↔ q = [] := by
  obtain ⟨cells, hq, rfl⟩ := h
  cases cells with
  | nil =>
    have hhead : x.head = none := hq.linked
    simp [hhead]
  | cons c cells =>
    have hhead : x.head = some c := hq.linked.1
    simp [hhead]

/-- The head of a list in the process's own array is taken off. -/
theorem Fifo.unlinked {k : Kernel} {a : Nat} {q : List Nat} (h : Fifo k.curproc k.cur (a :: q)) :
    oldest k = a ∧ k.unlinked.curproc = k.curproc ∧ Fifo k.curproc k.unlinked.cur q := by
  obtain ⟨cells, hq, heq⟩ := h
  cases cells with
  | nil => cases heq
  | cons c cells =>
    simp only [List.map_cons, List.cons.injEq] at heq
    obtain ⟨rfl, rfl⟩ := heq
    have howner : c.owner = k.curproc := hq.owner c List.mem_cons_self
    have hhead : k.cur.head = some c := hq.linked.1
    have hcell : k.cell c = k.cur.pagesInPhyMem c.slot := k.cell_own howner
    have hcur : k.unlinked.cur = k.cur.dequeued c := by
      unfold Kernel.unlinked
      simp only [hhead]
      have hnext : ∀ x, (k.setCell c x).next c = x.next := by
        intro x
        rw [Kernel.next, Kernel.setCell_own k howner, Kernel.cell_own _ (by simpa using howner)]
        simp
      rw [hnext, Kernel.setCell_own k howner, Kernel.modCur_cur, Kernel.modCur_cur, hcell]
      rfl
    refine ⟨?_, ?_, cells, ?_, ?_⟩
    · simp [oldest, hhead, hcell, Proc.addr]
    · unfold Kernel.unlinked
      simp only [hhead]
      rfl
    · rw [hcur]
      exact hq.dequeued
    · rw [hcur]
      exact List.map_congr_left fun d hd => (hq.dequeued_addr hd).symm

/-- The address is appended, or every element is in use. -/
theorem Fifo.enqueued_or {k k' : Kernel} {a : Nat} {q : List Nat} (h : Fifo k.curproc k.cur q)
    (hok : Paging.enqueueFIFO k a = .ok k') :
    Fifo k'.curproc k'.cur (q ++ [a]) ∨ (q.length = MAX_PSYC_PAGES ∧ k' = k) := by
  rcases Nat.lt_or_ge q.length MAX_PSYC_PAGES with hroom | hfull
  · obtain ⟨t, c, henq, hfifo⟩ := h.enqueueFIFO hroom a
    rw [hok] at henq
    cases henq
    left
    rw [Kernel.setCur_cur]
    exact hfifo
  · right
    refine ⟨Nat.le_antisymm h.length_le hfull, ?_⟩
    unfold Paging.enqueueFIFO at hok
    split at hok
    · cases hok
      rfl
    next i hfree =>
      -- there is an element that is not in use, so the list is not full
      obtain ⟨cells, hq, rfl⟩ := h
      have hi : (⟨k.curproc, i⟩ : Cell) ∉ cells := hq.not_mem (by simpa using List.find?_some hfree)
      have hlen := (hq.toChain.enqueued hi 0).length_le
      simp only [List.length_append, List.length_singleton, List.length_map] at hlen hfull
      omega

/-- A page that is mapped was not present. -/
theorem mappages_entry {k k' : Kernel} {d va : Nat} {x : Pte} {r : Int} (h : mappages k d va x = .ok (r, k')) :
    r < 0 ∨ ((∀ y, k.walkpgdir d va = some y → y.p = false) ∧ k'.walkpgdir d va = some { x with p := true }) := by
  rcases mappages_cases h with ⟨hr, -⟩ | ⟨-, k1, rfl, hk1, y, hy, hp⟩
  · exact .inl hr
  refine .inr ⟨?_, walkpgdir_setPte_same rfl hy⟩
  intro z hz
  rcases hk1 with rfl | ⟨t, rest, hnone, -, rfl⟩
  · rw [hy] at hz
    cases hz
    exact hp
  · rw [Kernel.walkpgdir, Pgdir.walk, hnone] at hz
    cases hz

/-! ### The pages of the list -/

structure Listed (p : ProcId) (k : Kernel) (q : List Nat) : Prop where
  fifo : Fifo p (k.proc p) q
  distinct : (q.map (· / PGSIZE)).Nodup
  resident : ∀ a ∈ q, ∃ x, k.walkpgdir (k.proc p).pgdir a = some x ∧ x.p = true ∧ x.pg = false

namespace Listed

variable {k k' : Kernel} {q : List Nat} {a va : Nat}

/-- The page numbers of the list. -/
def pages (q : List Nat) (n : Nat) : Prop := n ∈ q.map (· / PGSIZE)

theorem mem_pages (ha : a ∈ q) : pages q (a / PGSIZE) := List.mem_map_of_mem (f := (· / PGSIZE)) ha

/-- The entries of the pages in the list are kept. -/
theorem keeps (h : Listed k.curproc k q) {r : List Nat} (hsub : ∀ a ∈ r, a ∈ q)
    (hkeeps : Keeps (pages r) k k') :
    ∀ a ∈ r, ∃ x, k'.walkpgdir (k'.proc k'.curproc).pgdir a = some x ∧ x.p = true ∧ x.pg = false := by
  intro a ha
  obtain ⟨x, hx, hp, hpg⟩ := h.resident a (hsub a ha)
  exact ⟨x, hkeeps.present a x (mem_pages ha) hx hp, hp, hpg⟩

theorem tail_distinct (h : Listed k.curproc k (a :: q)) : ¬ pages q (a / PGSIZE) ∧ (q.map (· / PGSIZE)).Nodup := by
  have hnodup := h.distinct
  rw [List.map_cons, List.nodup_cons] at hnodup
  exact hnodup

theorem present (h : Listed k.curproc k (a :: q)) : Present k (oldest k) := by
  obtain ⟨hold, -, -⟩ := h.fifo.unlinked
  obtain ⟨x, hx, hp, -⟩ := h.resident a List.mem_cons_self
  rw [hold]
  exact ⟨x, hx, hp⟩

/-- A page that is marked or absent is not in the list. -/
theorem not_pages (h : Listed k.curproc k q)
    (hva : ∀ x, k.walkpgdir k.cur.pgdir va = some x → x.p = false ∨ x.pg = true) : ¬ pages q (va / PGSIZE) := by
  intro hmem
  obtain ⟨b, hb, hpage⟩ := List.mem_map.mp hmem
  obtain ⟨x, hx, hp, hpg⟩ := h.resident b hb
  have hx' : k.walkpgdir k.cur.pgdir va = some x := by
    rw [walkpgdir_congr hpage.symm]
    exact hx
  rcases hva x hx' with habsent | hmarked
  · rw [hp] at habsent
    cases habsent
  · rw [hpg] at hmarked
    cases hmarked

/-- Eviction takes the oldest page. -/
theorem evict (h : Listed k.curproc k (a :: q)) (hout : swapPageOut k = .ok k') :
    Listed k'.curproc k' q := by
  obtain ⟨⟨k1, hdeq, hmove⟩, -⟩ := swapPageOut_oldest hout
  obtain ⟨hold, hcur1, hfifo⟩ := h.fifo.unlinked
  obtain ⟨-, rfl⟩ := dequeueFIFO_unlinked hdeq
  obtain ⟨honly, hcells, hhead, -⟩ := moveToSwapFile_ok hmove
  have hcur : k'.curproc = k.curproc := (swapPageOut_swaps hout).curproc
  obtain ⟨hnew, hdistinct⟩ := h.tail_distinct
  refine ⟨?_, hdistinct, ?_⟩
  · rw [hcur]
    have hproc : k'.proc k.curproc = k'.cur := by rw [Kernel.cur, hcur]
    rw [hproc]
    exact hfifo.congr hcells hhead
  · apply h.keeps (fun b hb => List.mem_cons_of_mem a hb)
    apply Keeps.swapPageOut hout
    rwa [hold]

/-- A page that is brought in or mapped is put on the list, if there is room. -/
theorem enqueue {k2 : Kernel} (h : Listed k.curproc k q) (hnew : ¬ pages q (va / PGSIZE))
    (hcur2 : k2.curproc = k.curproc) (hcells : k2.cur.pagesInPhyMem = k.cur.pagesInPhyMem)
    (hhead : k2.cur.head = k.cur.head) (hkeeps : Keeps (pages q) k k2) {b : Nat} (hb : b / PGSIZE = va / PGSIZE)
    (hva : ∃ x, k2.walkpgdir k2.cur.pgdir va = some x ∧ x.p = true ∧ x.pg = false)
    (henq : enqueueFIFO k2 b = .ok k') :
    Listed k'.curproc k' (q ++ [b]) ∨ (q.length = MAX_PSYC_PAGES ∧ Listed k'.curproc k' q) := by
  have hlists := enqueueFIFO_lists henq
  have hkeeps' : Keeps (pages q) k k' := hkeeps.trans (.of_lists hlists)
  have hresident := h.keeps (fun _ ha => ha) hkeeps'
  have hfifo2 : Fifo k2.curproc k2.cur q := by
    rw [hcur2]
    exact h.fifo.congr hcells hhead
  rcases hfifo2.enqueued_or henq with hfifo | ⟨hfull, rfl⟩
  · left
    refine ⟨hfifo, ?_, ?_⟩
    · rw [List.map_append, List.map_singleton, List.nodup_append]
      refine ⟨h.distinct, List.nodup_singleton _, ?_⟩
      intro n hn m hm heq
      rw [List.mem_singleton] at hm
      rw [heq, hm, hb] at hn
      exact hnew hn
    · intro c hc
      rcases List.mem_append.mp hc with hc | hc
      · exact hresident c hc
      · rw [List.mem_singleton] at hc
        obtain ⟨x, hx, hp, hpg⟩ := hva
        refine ⟨x, ?_, hp, hpg⟩
        have hsame : k'.walkpgdir k'.cur.pgdir va = some x := by
          rw [hlists.cur.pgdir, Kernel.walkpgdir, hlists.rest]
          exact hx
        rw [hc, walkpgdir_congr hb]
        exact hsame
  · exact .inr ⟨hfull, hfifo2, h.distinct, hresident⟩

/-- The exchange takes the oldest page and puts the other one at the end. -/
theorem exchange (h : Listed k.curproc k (a :: q)) (hin : swapPageIn k va = .ok k')
    (hslot : slotOf k.cur (PTE_ADDR va) ≠ none) (hva : ∃ x, k.walkpgdir k.cur.pgdir va = some x ∧ x.pg = true) :
    Listed k'.curproc k' (q ++ [va]) := by
  rcases swapPageIn_ok hin with ⟨hnone, -⟩ | ⟨i, b, k1, k2, y, -, hdeq, h2, henq, hcells, hhead, -, hpgdir⟩
  · exact absurd hnone hslot
  obtain ⟨x, hx, hpg⟩ := hva
  obtain ⟨rfl, rfl⟩ := dequeueFIFO_unlinked hdeq
  obtain ⟨hold, hcur1, hfifo⟩ := h.fifo.unlinked
  have hlists := dequeueFIFO_lists hdeq
  obtain ⟨hnew, hdistinct⟩ := h.tail_distinct
  -- the list without its head, in the kernel that has lost only that
  have h1 : Listed k.unlinked.curproc k.unlinked q := by
    have hproc : k.unlinked.proc k.curproc = k.unlinked.cur := by rw [Kernel.cur, hcur1]
    refine ⟨by rwa [hcur1, hproc], hdistinct, ?_⟩
    exact h.keeps (fun b hb => List.mem_cons_of_mem a hb) (.of_lists hlists)
  have hother : ¬ pages (a :: q) (va / PGSIZE) := h.not_pages fun z hz => by
    rw [hx] at hz
    cases hz
    exact .inr hpg
  have hva1 : ¬ pages q (va / PGSIZE) := fun hmem => hother (List.mem_cons_of_mem _ hmem)
  have hne : va / PGSIZE ≠ oldest k / PGSIZE := by
    intro heq
    rw [hold] at heq
    exact hother (by rw [heq]; exact mem_pages List.mem_cons_self)
  set k3 := k.unlinked.setPte k.unlinked.cur.pgdir va ⟨y.ppn, true, true, true, false⟩ with hk3
  have h3 : Keeps (pages q) k.unlinked k3 := .setPte _ hva1
  have h4 : Keeps (pages q) k3 (k3.setPte k.unlinked.cur.pgdir (oldest k) .swapped) :=
    .setPte (k := k3) _ (by rwa [hold])
  have hdir : (k3.setPte k.unlinked.cur.pgdir (oldest k) .swapped).pgdir k.unlinked.cur.pgdir =
      ((k.unlinked.pgdir k.unlinked.cur.pgdir).setPte va ⟨y.ppn, true, true, true, false⟩).setPte (oldest k)
        .swapped := by
    simp only [hk3, Kernel.setPte, Function.update_self]
  have h5 : Keeps (pages q) (k3.setPte k.unlinked.cur.pgdir (oldest k) .swapped) k2 := by
    refine .of_same (show _ = k.unlinked.cur.pgdir from h2.pgdir) ?_
    exact hpgdir.trans hdir.symm
  -- the page that was brought in
  have hmapped : k2.walkpgdir k2.cur.pgdir va = some ⟨y.ppn, true, true, true, false⟩ := by
    have hx1 : (k.unlinked.pgdir k.unlinked.cur.pgdir).walk va = some x := by
      rw [hlists.cur.pgdir, hlists.rest]
      exact hx
    rw [h2.pgdir, Kernel.walkpgdir, hpgdir, Pgdir.walk_setPte_ne _ hne]
    exact Pgdir.walk_setPte_self _ hx1
  rcases h1.enqueue hva1 h2.curproc hcells hhead ((h3.trans h4).trans h5) rfl ⟨_, hmapped, rfl, rfl⟩ henq with
    hlisted | ⟨hfull, -⟩
  · exact hlisted
  · have hlen := h.fifo.length_le
    simp only [List.length_cons] at hlen
    omega

/-- A fault that is handled shortens the list by one. -/
theorem fault {user : Bool} {e : FaultEnd} {q : List Nat} (h : Listed k.curproc k q)
    (hlen : PagedOut k va → 3 ≤ q.length ∨
      (2 ≤ q.length ∧ slotOf (k.cur.recorded (oldest k)) (PTE_ADDR va) = none))
    (htrap : trapPgflt user k va = .ok (e, k')) :
    ∃ q', Listed k'.curproc k' q' ∧ (¬ PagedOut k va → q'.length = q.length) ∧
      (PagedOut k va → q'.length + 1 = q.length) := by
  obtain ⟨-, ⟨hout', -, k1, hout, hin⟩ | ⟨hno, -, -, rfl⟩⟩ := trapPgflt_ok htrap
  · have hlen2 : 2 ≤ q.length := by
      rcases hlen hout' with hlen | hlen
      · omega
      · exact hlen.1
    obtain ⟨a, q, rfl⟩ : ∃ a q', q = a :: q' := by
      match q, hlen2 with
      | a :: q', _ => exact ⟨a, q', rfl⟩
    have h1 := h.evict hout
    by_cases hslot : slotOf k1.cur (PTE_ADDR (PTE_ADDR va)) = none
    · -- nothing is brought in
      rcases swapPageIn_ok hin with ⟨-, rfl⟩ | ⟨i, b, k2, k3, y, hsome, -⟩
      · exact ⟨q, h1, fun hn => absurd hout' hn, fun _ => rfl⟩
      · rw [hslot] at hsome
        cases hsome
    · have hlen3 : 3 ≤ (a :: q).length := by
        rcases hlen hout' with hlen | ⟨-, hnone⟩
        · exact hlen
        · rw [swapPageOut_slots hout, PTE_ADDR_of_aligned (PTE_ADDR_aligned va)] at hslot
          exact absurd hnone hslot
      obtain ⟨b, q, rfl⟩ : ∃ b q', q = b :: q' := by
        match q, hlen3 with
        | b :: q', _ => exact ⟨b, q', rfl⟩
      refine ⟨q ++ [PTE_ADDR va], h1.exchange hin hslot ?_, fun hn => absurd hout' hn, fun _ => by simp⟩
      -- the page is marked after the eviction as well
      obtain ⟨x, hx, hpg⟩ := hout'
      obtain ⟨y, hy, hyx⟩ := swapPageOut_entry hout hx
      refine ⟨y, by rwa [walkpgdir_PTE_ADDR], ?_⟩
      rcases hyx with rfl | rfl
      · exact hpg
      · rfl
  · have hcur : (k.modCur fun x => { x with killed := true }).cur = { k.cur with killed := true } :=
      Kernel.modCur_cur k _
    refine ⟨q, ⟨?_, h.distinct, ?_⟩, fun _ => rfl, ?_⟩
    · have hfifo : Fifo k.curproc (k.modCur fun x => { x with killed := true }).cur q := by
        rw [hcur]
        exact h.fifo.congr rfl rfl
      exact hfifo
    · intro a ha
      have hdir : (k.modCur fun x => { x with killed := true }).cur.pgdir = k.cur.pgdir := by rw [hcur]
      obtain ⟨x, hx, hp, hpg⟩ := h.resident a ha
      refine ⟨x, ?_, hp, hpg⟩
      show k.walkpgdir (k.modCur fun x => { x with killed := true }).cur.pgdir a = some x
      rw [hdir]
      exact hx
    · rintro ⟨x, hx, hpg⟩
      rw [hno x hx] at hpg
      cases hpg

/-! ### Growing and shrinking -/

theorem makeRoom (h : Listed k.curproc k q) (hne : (MAX_PSYC_PAGES : Int) ≤ k.cur.nPagesInPhyMemory → q ≠ [])
    (hok : Paging.makeRoom k = .ok k') : ∃ q', Listed k'.curproc k' q' ∧ (∀ b ∈ q', b ∈ q) ∧
      (((MAX_PSYC_PAGES : Int) ≤ k.cur.nPagesInPhyMemory ∧ q'.length + 1 = q.length) ∨
        (k.cur.nPagesInPhyMemory < MAX_PSYC_PAGES ∧ q' = q)) := by
  unfold Paging.makeRoom at hok
  split at hok
  next hfull =>
    rw [bind_eq_ok] at hok
    obtain ⟨-, -, hout⟩ := hok
    obtain ⟨a, q, rfl⟩ := List.exists_cons_of_ne_nil (hne hfull)
    exact ⟨q, h.evict hout, fun b hb => List.mem_cons_of_mem a hb, .inl ⟨hfull, rfl⟩⟩
  next hroom =>
    cases hok
    exact ⟨q, h, fun _ hb => hb, .inr ⟨by omega, rfl⟩⟩

/-- Nothing changes but memory that is not in the page table. -/
theorem of_mem (h : Listed k.curproc k q) (hmem : OnlyMem k k') (hkeeps : Keeps (pages q) k k') :
    Listed k'.curproc k' q := by
  have hcur : k'.curproc = k.curproc := hmem.curproc
  refine ⟨?_, h.distinct, h.keeps (fun _ ha => ha) hkeeps⟩
  rw [hcur, hmem.proc]
  exact h.fifo

/-- A round of the loop puts its page on the list; if it evicts, the list
    has to hold two pages to be as long again. -/
theorem allocRound (h : Listed k.curproc k q) (hne : q ≠ [])
    (hlong : (MAX_PSYC_PAGES : Int) ≤ k.cur.nPagesInPhyMemory → 2 ≤ q.length)
    (hround : AllocRound k.cur.pgdir a k k') : ∃ q', Listed k'.curproc k' q' ∧ 2 ≤ q'.length := by
  obtain ⟨k1, f, free, r, k2, hroom, -, hmap, hr, henq⟩ := hround
  obtain ⟨q1, h1, -, hlen⟩ := h.makeRoom (fun _ => hne) hroom
  have hd1 : k1.cur.pgdir = k.cur.pgdir := makeRoom_pgdir hroom
  set kf : Kernel := ({ k1 with freelist := free } : Kernel).setFrame f fun _ => 0 with hkf
  have hmemf : OnlyMem k1 kf := take_mem k1 f free
  have hf : Listed kf.curproc kf q1 := h1.of_mem hmemf (.of_mem hmemf rfl)
  rw [← hd1, ← show kf.cur.pgdir = k1.cur.pgdir by rw [hmemf.cur]] at hmap
  rcases mappages_entry hmap with hneg | ⟨hold, hnew⟩
  · exact absurd hneg hr
  -- the page was not present, so it is not in the list
  have hother : ¬ pages q1 (a / PGSIZE) := hf.not_pages fun x hx => .inl (hold x hx)
  have hmem2 := mappages_mem hmap
  have hmapped : ∃ x, k2.walkpgdir k2.cur.pgdir a = some x ∧ x.p = true ∧ x.pg = false := by
    rw [hmem2.cur]
    exact ⟨_, hnew, rfl, rfl⟩
  have hlen2 : q.length ≤ q1.length + 1 ∧ 1 ≤ q.length := by
    refine ⟨?_, List.length_pos_iff.mpr hne⟩
    rcases hlen with ⟨-, hlen⟩ | ⟨-, rfl⟩
    · omega
    · omega
  rcases hf.enqueue hother hmem2.curproc (by rw [hmem2.cur]) (by rw [hmem2.cur]) (.mappages hmap) (PTE_ADDR_div a)
    hmapped henq with hlisted | ⟨hfull, hlisted⟩
  · refine ⟨_, hlisted, ?_⟩
    rw [List.length_append, List.length_singleton]
    rcases hlen with ⟨hcount, hlen⟩ | ⟨-, rfl⟩
    · have := hlong hcount
      omega
    · omega
  · refine ⟨_, hlisted, ?_⟩
    rw [hfull]
    decide

/-- Nothing of the list is given up. -/
theorem deallocuvm {oldsz newsz n : Nat} (h : Listed k.curproc k q)
    (hok : Paging.deallocuvm k k.cur.pgdir oldsz newsz = .ok (n, k'))
    (hq : ∀ b ∈ pageRange (PGROUNDUP newsz) oldsz, ¬ pages q (b / PGSIZE)) : Listed k'.curproc k' q :=
  h.of_mem (deallocuvm_mem hok) (.deallocuvm hok hq)

/-- While memory lasts, by induction on the pages. -/
theorem allocLoop {oldsz newsz n : Nat} {addrs : List Nat} (h : Listed k.curproc k q) (hlen : 2 ≤ q.length)
    (hlasts : ¬ RunsOut k.cur.pgdir addrs k)
    (hok : Paging.allocLoop k.cur.pgdir oldsz newsz addrs k = .ok (n, k')) :
    ∃ q', Listed k'.curproc k' q' ∧ 2 ≤ q'.length := by
  generalize hd : k.cur.pgdir = d at hlasts
  induction addrs generalizing k q with
  | nil =>
    cases hok
    exact ⟨q, h, hlen⟩
  | cons a rest ih =>
    rcases allocLoop_round hok with ⟨k1, -, -, -, hroom, hnoframe, -⟩ | ⟨k1, hround, hd1, hrest⟩
    · exact absurd (.now hroom hnoframe) hlasts
    · obtain ⟨q1, h1, hlen1⟩ := h.allocRound (List.ne_nil_of_length_pos (by omega)) (fun _ => hlen) hround
      rw [hd] at hround hd1
      exact ih h1 hlen1 hrest hd1 fun hout => hlasts (.later hround hout)

/-- A growth that memory lasts for once it has mapped its first page. -/
theorem grow {oldsz newsz n : Nat} {addrs : List Nat} (h : Listed k.curproc k q) (hne : q ≠ [])
    (hlong : addrs ≠ [] → (MAX_PSYC_PAGES : Int) ≤ k.cur.nPagesInPhyMemory → 2 ≤ q.length)
    (hlasts : ∀ a rest k1, addrs = a :: rest → AllocRound k.cur.pgdir a k k1 → ¬ RunsOut k.cur.pgdir rest k1)
    (hundone : RunsOut k.cur.pgdir addrs k → ∀ b ∈ pageRange (PGROUNDUP oldsz) newsz, ¬ pages q (b / PGSIZE))
    (hok : Paging.allocLoop k.cur.pgdir oldsz newsz addrs k = .ok (n, k')) :
    ∃ q', q' ≠ [] ∧ Listed k'.curproc k' q' := by
  cases addrs with
  | nil =>
    cases hok
    exact ⟨q, hne, h⟩
  | cons a rest =>
    have hlong := hlong (List.cons_ne_nil a rest)
    rcases allocLoop_round hok with
      ⟨k1, kf, m, k3, hroom, hnoframe, -, hmem, hdir, hdealloc, hend⟩ | ⟨k1, hround, hd1, hrest⟩
    · -- the first page is not mapped, and what is undone is not in the list
      obtain ⟨q1, h1, hsub, hlen⟩ := h.makeRoom (fun _ => hne) hroom
      have hkeeps : Keeps (pages q1) k1 k' := by
        refine .undone hmem hdir hdealloc hend fun b hb hmem => ?_
        obtain ⟨c, hc, hpage⟩ := List.mem_map.mp hmem
        exact hundone (.now hroom hnoframe) b hb (List.mem_map.mpr ⟨c, hsub c hc, hpage⟩)
      have hmem' : OnlyMem k1 k' := by
        have h3 : OnlyMem k1 k3 := hmem.trans (deallocuvm_mem hdealloc)
        rcases hend with rfl | ⟨f, hkfree⟩
        · exact h3
        · exact h3.trans (kfree_mem hkfree)
      refine ⟨q1, ?_, h1.of_mem hmem' hkeeps⟩
      apply List.ne_nil_of_length_pos
      have hpos := List.length_pos_iff.mpr hne
      rcases hlen with ⟨hfull, hlen⟩ | ⟨-, rfl⟩
      · have := hlong hfull
        omega
      · exact hpos
    · obtain ⟨q1, h1, hlen1⟩ := h.allocRound hne hlong hround
      have hlasts1 := hlasts a rest k1 rfl hround
      rw [← hd1] at hlasts1
      obtain ⟨q', h', hlen'⟩ := h1.allocLoop hlen1 hlasts1 hrest
      exact ⟨q', List.ne_nil_of_length_pos (by omega), h'⟩

/-- The list has nothing to do with the recorded size. -/
theorem setSz (h : Listed k.curproc k q) (sz : Nat) : Listed (k.setSz sz).curproc (k.setSz sz) q := by
  have hcur : (k.setSz sz).cur = { k.cur with sz } := Kernel.modCur_cur k _
  refine ⟨?_, h.distinct, ?_⟩
  · show Fifo k.curproc (k.setSz sz).cur q
    rw [hcur]
    exact h.fifo.congr rfl rfl
  · show ∀ a ∈ q, ∃ x, k.walkpgdir (k.setSz sz).cur.pgdir a = some x ∧ x.p = true ∧ x.pg = false
    rw [hcur]
    exact h.resident

end Listed

end Paging
