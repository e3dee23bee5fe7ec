import OperatingSystem314.Paging.Coherent
import OperatingSystem314.Paging.Transparency

/-! # Does a page fault bring the page in?

    `swapPageIn` returns silently when no slot has the address, and `trap`
    resumes the process all the same.  `Serviceable k va` says from the
    state before the fault whether the page will be there afterwards: a
    slot has its address, also after the eviction that comes first, and the
    page to be replaced is another one.

    The equivalence assumes nothing of the state, so it holds however that
    was reached. -/

namespace Paging

open LinkedSlots

/-! ### The two pages that a fault takes from the list -/

/-- `*curproc->head->address`, as `dequeueFIFO` returns it. -/
def oldest (k : Kernel) : Nat := (k.cur.head.map fun c => (k.cell c).address).getD (2 ^ 32 - 1)

/-- The address in the entry behind the head. -/
def secondOldest (k : Kernel) : Nat :=
  ((k.cur.head.bind k.next).map fun c => (k.cell c).address).getD (2 ^ 32 - 1)

section cells

variable (k : Kernel) {c e : Cell} (x : PageInPhyMem)

theorem cell_setCell_self : (k.setCell c x).cell c = x := by
  simp [Kernel.cell, Kernel.setCell]

theorem cell_setCell_ne (h : e ≠ c) : (k.setCell c x).cell e = k.cell e := by
  unfold Kernel.cell Kernel.setCell
  by_cases howner : e.owner = c.owner
  · have hslot : e.slot ≠ c.slot := by
      intro hslot
      cases e
      cases c
      exact h (congrArg₂ Cell.mk howner hslot)
    rw [howner, Kernel.setProc_self, Proc.setCell_pagesInPhyMem, Function.update_of_ne hslot]
  · rw [Kernel.setProc_ne _ _ howner]

theorem cell_setHead (h : Option Cell) : (k.modCur fun p => p.setHead h).cell e = k.cell e := by
  unfold Kernel.cell Kernel.modCur Kernel.setCur
  by_cases howner : e.owner = k.curproc
  · rw [howner, Kernel.setProc_self]
    rfl
  · rw [Kernel.setProc_ne _ _ howner]

end cells

theorem printQueue_ok {k : Kernel} {u : Unit} (h : printQueue k = .ok u)
    (hpid : k.cur.pid ≠ 1 ∧ k.cur.pid ≠ 2) :
    ∃ c t, k.cur.head = some c ∧ tailFrom k.next (NCELLS + 1) c = some t := by
  unfold printQueue at h
  rw [if_pos hpid] at h
  simp only [bind_eq_ok, deref_eq_ok] at h
  obtain ⟨c, hc, t, ht, -⟩ := h
  refine ⟨c, t, hc, ?_⟩
  unfold tailCell at ht
  split at ht
  next ht' =>
    cases ht
    exact ht'
  · cases ht

/-- What `dequeueFIFO` makes of the list. -/
def Kernel.unlinked (k : Kernel) : Kernel :=
  match k.cur.head with
  | none => k
  | some head =>
    let k := k.setCell head { k.cell head with address := 0, in_use := false }
    k.modCur fun x => x.setHead (k.next head)

/-- The address that `swapPageIn` takes from the list when `swapPageOut`
    has just taken the oldest one. -/
def replaced (k : Kernel) : Nat := oldest k.unlinked

theorem dequeueFIFO_unlinked {k k' : Kernel} {a : Nat} (h : dequeueFIFO k = .ok (a, k')) :
    a = oldest k ∧ k' = k.unlinked := by
  simp only [dequeueFIFO, bind_eq_ok] at h
  obtain ⟨-, -, -, -, h⟩ := h
  unfold oldest Kernel.unlinked
  split at h
  next hnone =>
    cases h
    rw [hnone]
    exact ⟨rfl, rfl⟩
  next c hsome =>
    simp only [bind_eq_ok] at h
    obtain ⟨-, -, -, -, h⟩ := h
    cases h
    rw [hsome]
    exact ⟨rfl, rfl⟩

/-- A list that `printQueue` got to the end of does not come back at once. -/
theorem next_ne_self {k : Kernel} {c t : Cell} {fuel : Nat} (ht : tailFrom k.next fuel c = some t) :
    k.next c ≠ some c := by
  intro hself
  have htc : t = c := by
    refine mem_of_tailFrom (fun e => e = c) ?_ rfl ht
    rintro i j rfl hj
    rw [hself] at hj
    exact (Option.some.inj hj).symm
  have hnone := next_of_tailFrom ht
  rw [htc, hself] at hnone
  cases hnone

/-- Removing the oldest page, for a process whose list is printed before
    and after: the list has at least two entries. -/
theorem dequeueFIFO_long {k k' : Kernel} {a : Nat} (h : dequeueFIFO k = .ok (a, k'))
    (hpid : k.cur.pid ≠ 1 ∧ k.cur.pid ≠ 2) :
    a = oldest k ∧ ∃ c', k'.cur.head = some c' ∧ (k'.cell c').address = secondOldest k := by
  simp only [dequeueFIFO, bind_eq_ok] at h
  obtain ⟨_, -, _, hprint, h⟩ := h
  obtain ⟨c, t, hc, ht⟩ := printQueue_ok hprint hpid
  rw [hc] at h
  simp only [bind_eq_ok] at h
  obtain ⟨_, -, _, hprint', h⟩ := h
  cases h
  refine ⟨by simp [oldest, hc], ?_⟩
  set x : PageInPhyMem := { k.cell c with address := 0, in_use := false } with hx
  have hnext : (k.setCell c x).next c = k.next c := by
    rw [Kernel.next, cell_setCell_self]
    rfl
  rw [hnext] at hprint' ⊢
  set k1 := (k.setCell c x).modCur fun p => p.setHead (k.next c) with hk1
  have hlists : OnlyLists k k1 := (OnlyLists.setCell k c x).trans (.modCur _ ⟨_, _, _, rfl⟩)
  have hpid' : k1.cur.pid ≠ 1 ∧ k1.cur.pid ≠ 2 := by
    rw [(Proc.SameButPaging.of_list hlists.cur).pid]
    exact hpid
  obtain ⟨c', -, hc', -⟩ := printQueue_ok hprint' hpid'
  have hhead : k.next c = some c' := by
    rw [← hc', hk1, Kernel.modCur_cur]
    rfl
  have hne : c' ≠ c := by
    rintro rfl
    exact next_ne_self ht hhead
  refine ⟨c', hc', ?_⟩
  rw [hk1, cell_setHead, cell_setCell_ne k x hne]
  simp [secondOldest, hc, hhead]

/-! ### The slots after the eviction -/

/-- `moveToSwapFile` gives the page the first free slot, if there is one. -/
def Proc.recorded (x : Proc) (addr : Nat) : Proc :=
  match freeSlot x with
  | some i => x.setSlot i ⟨addr, true⟩
  | none => x

theorem recordPage_slots {k k' : Kernel} {a : Nat} {x : Pte} (h : recordPage k a x = .ok k') :
    k'.cur.pagesInSwapFile = (k.cur.recorded a).pagesInSwapFile := by
  unfold recordPage at h
  unfold Proc.recorded
  split at h
  · next hnone =>
    cases h
    rw [hnone]
  · next i hi =>
    rw [hi]
    rw [bind_eq_ok] at h
    obtain ⟨⟨n, k1⟩, hw, h⟩ := h
    have hfs := writeToSwapFile_ok hw
    simp only at h
    split at h
    · cases h
    · rw [bind_eq_ok] at h
      obtain ⟨-, -, h⟩ := h
      cases h
      rw [hfs]
      show (k.modCur fun p => p.setSlot i ⟨a, true⟩).cur.pagesInSwapFile = _
      rw [Kernel.modCur_cur]

theorem moveToSwapFile_slots {k k' : Kernel} {a : Nat} (h : moveToSwapFile k a = .ok k') :
    k'.cur.pagesInSwapFile = (k.cur.recorded a).pagesInSwapFile := by
  simp only [moveToSwapFile, bind_eq_ok, deref_eq_ok] at h
  obtain ⟨x, -, h⟩ := h
  split at h
  · cases h
  simp only [bind_eq_ok, deref_eq_ok] at h
  obtain ⟨k1, hrec, y, -, h⟩ := h
  rw [← recordPage_slots hrec]
  split at h
  · cases h
  split at h
  · simp only [bind_eq_ok] at h
    obtain ⟨k3, hfree, k2, h, h'⟩ := h
    cases h
    cases h'
    rw [kfree_ok hfree, Kernel.modCur_cur]
    rfl
  · simp only [bind_eq_ok] at h
    obtain ⟨k2, h, h'⟩ := h
    cases h
    cases h'
    rw [Kernel.modCur_cur]
    rfl

/-- The eviction of a page leaves the list as it is. -/
theorem moveToSwapFile_oldest {k k' : Kernel} {a : Nat} (h : moveToSwapFile k a = .ok k') :
    oldest k' = oldest k := by
  obtain ⟨honly, hcells, hhead, -⟩ := moveToSwapFile_ok h
  have hcell : ∀ c : Cell, k'.cell c = k.cell c := by
    intro c
    unfold Kernel.cell
    by_cases howner : c.owner = k.curproc
    · have hcur : k'.proc k.curproc = k'.cur := by rw [Kernel.cur, honly.curproc]
      rw [howner, hcur, hcells]
      rfl
    · rw [honly.same _ howner]
  unfold oldest
  rw [hhead]
  simp only [hcell]

theorem swapPageOut_oldest {k k' : Kernel} (h : swapPageOut k = .ok k') :
    (∃ k1, dequeueFIFO k = .ok (oldest k, k1) ∧ moveToSwapFile k1 (oldest k) = .ok k') ∧
      oldest k' = replaced k := by
  obtain ⟨a, k1, hdeq, hmove⟩ := swapPageOut_ok h
  obtain ⟨rfl, rfl⟩ := dequeueFIFO_unlinked hdeq
  exact ⟨⟨_, hdeq, hmove⟩, moveToSwapFile_oldest hmove⟩

theorem swapPageOut_slots {k k' : Kernel} (h : swapPageOut k = .ok k') (addr : Nat) :
    slotOf k'.cur addr = slotOf (k.cur.recorded (oldest k)) addr := by
  obtain ⟨a, k1, hdeq, hmove⟩ := swapPageOut_ok h
  obtain ⟨rfl, -⟩ := dequeueFIFO_unlinked hdeq
  have hlists := dequeueFIFO_lists hdeq
  have hrec : (k1.cur.recorded (oldest k)).pagesInSwapFile = (k.cur.recorded (oldest k)).pagesInSwapFile := by
    have hsame := hlists.cur.slots
    unfold Proc.recorded freeSlot
    rw [hsame]
    split
    · simp [Proc.setSlot, hsame]
    · exact hsame
  rw [slotOf, moveToSwapFile_slots hmove, hrec, slotOf]

/-- After the eviction some slot has the address of the page that faulted,
    and the page that is to be replaced is not that page. -/
def Serviceable (k : Kernel) (va : Nat) : Prop :=
  slotOf (k.cur.recorded (oldest k)) (PTE_ADDR va) ≠ none ∧ secondOldest k / PGSIZE ≠ va / PGSIZE

/-- The first of the two evictions of a fault, for a process whose list is
    printed: the other page becomes the oldest one. -/
theorem swapPageOut_long {k k' : Kernel} (h : swapPageOut k = .ok k')
    (hpid : k.cur.pid ≠ 1 ∧ k.cur.pid ≠ 2) :
    (∃ k1, dequeueFIFO k = .ok (oldest k, k1) ∧ moveToSwapFile k1 (oldest k) = .ok k') ∧
      oldest k' = secondOldest k ∧
      ∀ addr, slotOf k'.cur addr = slotOf (k.cur.recorded (oldest k)) addr := by
  obtain ⟨⟨k1, hdeq, hmove⟩, -⟩ := swapPageOut_oldest h
  obtain ⟨-, c', hhead1, haddr1⟩ := dequeueFIFO_long hdeq hpid
  refine ⟨⟨k1, hdeq, hmove⟩, ?_, swapPageOut_slots h⟩
  rw [moveToSwapFile_oldest hmove, ← haddr1]
  simp [oldest, hhead1]

/-! ### What the fault leaves -/

/-- The process was killed, or the page is there and the access passes when
    it is tried again. -/
def Progresses (fin : FaultEnd) (k : Kernel) (va : Nat) : Prop :=
  fin = .killed ∨
    (Present k va ∧ ∀ store fuel, ∃ f, touch true store (fuel + 1) k va = .ok (some f, k))

/-- Eviction neither brings a page in nor marks it for the first time. -/
theorem moveToSwapFile_absent {k k' : Kernel} {a va : Nat} (h : moveToSwapFile k a = .ok k')
    {x : Pte} (hx : k.walkpgdir k.cur.pgdir va = some x) (hp : x.p = false) :
    k'.walkpgdir k'.cur.pgdir va = some x := by
  obtain ⟨honly, -, -, y, hy, -, hpgdir⟩ := moveToSwapFile_ok h
  rw [honly.pgdir, Kernel.walkpgdir, hpgdir]
  split
  next hyp =>
    have hne : va / PGSIZE ≠ PTE_ADDR a / PGSIZE := by
      intro hpage
      rw [PTE_ADDR_div] at hpage
      rw [walkpgdir_congr hpage, hy] at hx
      cases hx
      rw [hyp] at hp
      cases hp
    rw [Pgdir.walk_setPte_ne _ hne]
    exact hx
  · exact hx

/-- The access passes once `swapPageIn` has mapped the page. -/
theorem touch_mapped {k : Kernel} {va ppn : Nat}
    (h : k.walkpgdir k.cur.pgdir va = some ⟨ppn, true, true, true, false⟩) (store : Bool) (fuel : Nat) :
    touch true store (fuel + 1) k va = .ok (some ppn, k) := by
  simp [touch, h, Option.filter_some]

/-- A handled fault on a swapped page makes progress just when the page was
    serviceable. -/
theorem fault_progresses_iff {k k' : Kernel} {va : Nat} {fin : FaultEnd} (hpid : 2 < k.cur.pid)
    (hva : PagedOut k va) (habsent : ¬ Present k va) (htrap : trapPgflt true k va = .ok (fin, k')) :
    Progresses fin k' va ↔ Serviceable k va := by
  obtain ⟨x, hx, hpg⟩ := hva
  have hp : x.p = false := by
    by_contra hp
    exact habsent ⟨x, hx, by simpa using hp⟩
  obtain ⟨-, hcase⟩ := trapPgflt_ok htrap
  obtain ⟨-, rfl, k2, hout, hin⟩ | ⟨hno, -⟩ := hcase
  swap
  · rw [hno x hx] at hpg
    cases hpg
  obtain ⟨⟨k1, hdeq, hmove⟩, hreplaced, hslots⟩ := swapPageOut_long hout (by omega)
  have hlists1 := dequeueFIFO_lists hdeq
  obtain ⟨honly2, -⟩ := moveToSwapFile_ok hmove
  -- the page is as absent after the eviction as before
  have hx1 : k1.walkpgdir k1.cur.pgdir va = some x := by
    rw [hlists1.cur.pgdir, Kernel.walkpgdir, hlists1.rest]
    exact hx
  have hx2 := moveToSwapFile_absent hmove hx1 hp
  have hslot : slotOf k2.cur (PTE_ADDR (PTE_ADDR va)) =
      slotOf (k.cur.recorded (oldest k)) (PTE_ADDR va) := by
    rw [PTE_ADDR_of_aligned (PTE_ADDR_aligned va), hslots]
  have hpid2 : k2.cur.pid ≠ 1 ∧ k2.cur.pid ≠ 2 := by
    rw [honly2.cur.pid, (Proc.SameButPaging.of_list hlists1.cur).pid]
    omega
  rcases swapPageIn_ok hin with ⟨hnone, rfl⟩ | ⟨i, b, k3, k4, y, hsome, hdeq3, h4, henq, -, -, -, hpgdir4⟩
  · -- no slot: the page is still absent
    constructor
    · rintro (hkilled | ⟨⟨z, hz, hzp⟩, -⟩)
      · cases hkilled
      · rw [hx2] at hz
        cases hz
        rw [hp] at hzp
        cases hzp
    · rintro ⟨hfound, -⟩
      rw [hslot] at hnone
      exact absurd hnone hfound
  · obtain ⟨rfl, -⟩ := dequeueFIFO_long hdeq3 hpid2
    rw [hreplaced] at hpgdir4
    -- the entry of the page, in the directory as it is at the end
    have hlists := enqueueFIFO_lists henq
    have hlists3 := dequeueFIFO_lists hdeq3
    have hdir : k'.cur.pgdir = k3.cur.pgdir := by rw [hlists.cur.pgdir, h4.pgdir]
    have hold : (k3.pgdir k3.cur.pgdir).walk va = some x := by
      rw [hlists3.cur.pgdir, hlists3.rest]
      exact hx2
    have hwalk : k'.walkpgdir k'.cur.pgdir va =
        (((k3.pgdir k3.cur.pgdir).setPte (PTE_ADDR va) ⟨y.ppn, true, true, true, false⟩).setPte
          (secondOldest k) .swapped).walk va := by
      rw [hdir, Kernel.walkpgdir, hlists.rest, ← hpgdir4]
    have hmapped : ((k3.pgdir k3.cur.pgdir).setPte (PTE_ADDR va) ⟨y.ppn, true, true, true, false⟩).walk va =
        some ⟨y.ppn, true, true, true, false⟩ :=
      Pgdir.walk_setPte_same _ (PTE_ADDR_div va).symm (by rwa [Pgdir.walk_PTE_ADDR])
    by_cases hsame : secondOldest k / PGSIZE = va / PGSIZE
    · -- the page itself is the one that is replaced
      have hgone : k'.walkpgdir k'.cur.pgdir va = some .swapped := by
        rw [hwalk]
        refine Pgdir.walk_setPte_same _ hsame.symm (y := ⟨y.ppn, true, true, true, false⟩) ?_
        rw [Pgdir.walk_congr _ hsame]
        exact hmapped
      constructor
      · rintro (hkilled | ⟨⟨z, hz, hzp⟩, -⟩)
        · cases hkilled
        · rw [hgone] at hz
          cases hz
          cases hzp
      · rintro ⟨-, hother⟩
        exact absurd hsame hother
    · have hthere : k'.walkpgdir k'.cur.pgdir va = some ⟨y.ppn, true, true, true, false⟩ := by
        rw [hwalk, Pgdir.walk_setPte_ne _ (Ne.symm hsame)]
        exact hmapped
      constructor
      · intro _
        rw [hslot] at hsome
        refine ⟨?_, hsame⟩
        rw [hsome]
        exact Option.some_ne_none i
      · intro _
        exact .inr ⟨⟨_, hthere, rfl⟩, fun store fuel => ⟨y.ppn, touch_mapped hthere store fuel⟩⟩

theorem sixteenPages_absent : ¬ Present sixteenPages (15 * PGSIZE) := by
  rintro ⟨x, hx, hp⟩
  have hwalk : sixteenPages.walkpgdir sixteenPages.cur.pgdir (15 * PGSIZE) = some .swapped := by decide
  rw [hwalk] at hx
  cases hx
  cases hp

/-- The sixteenth page comes back. -/
theorem fault_progresses_sixteen : ∃ k', trapPgflt true sixteenPages (15 * PGSIZE) = .ok (.resumed, k') ∧
    Progresses .resumed k' (15 * PGSIZE) := by
  obtain ⟨k', -, -, htrap, -⟩ :=
    sixteenPages_paged.fault (show PTE_ADDR (15 * PGSIZE) ∈ [15 * PGSIZE] by decide) (by decide)
      (by decide) true
  refine ⟨k', htrap, ?_⟩
  exact (fault_progresses_iff (by decide) sixteenPages_pagedOut sixteenPages_absent htrap).mpr
    ⟨by decide, by decide⟩

/-! ### A page that never comes back -/

/-- A small process has grown to thirty pages, fifteen of them in the swap
    file, and reads page `0`: all slots are in use, and page `15` is
    evicted without one. -/
def lostPage : Kernel :=
  (reached (userRun [.sbrk (27 * PGSIZE), .load 0] threePages)).get (by decide +kernel)

/-- The process has tried once to read page `15`. -/
def triedOnce : Kernel := (reached (trapPgflt true lostPage (15 * PGSIZE))).get (by decide +kernel)

/-- It has tried again. -/
def triedTwice : Kernel := (reached (trapPgflt true triedOnce (15 * PGSIZE))).get (by decide +kernel)

theorem not_progresses_of_swapped {k : Kernel} {va : Nat}
    (h : k.walkpgdir k.cur.pgdir va = some .swapped) : ¬ Progresses .resumed k va := by
  rintro (hkilled | ⟨⟨x, hx, hp⟩, -⟩)
  · cases hkilled
  · rw [h] at hx
    cases hx
    cases hp

theorem trap_resumed {k k' : Kernel} {va : Nat} (h : reached (trapPgflt true k va) = some k')
    (hva : k.walkpgdir k.cur.pgdir va = some .swapped) : trapPgflt true k va = .ok (.resumed, k') := by
  obtain ⟨fin, htrap⟩ := of_reached h
  obtain ⟨-, ⟨-, rfl, -⟩ | ⟨hno, -⟩⟩ := trapPgflt_ok htrap
  · exact htrap
  · cases hno _ hva

/-- Page `15` is not there after the fault that was to bring it in, nor
    after the next one. -/
theorem fault_without_progress :
    Started threePages ⟨fun _ => 0, 3 * PGSIZE, PGSIZE⟩ ∧
    (∃ rs, userRun [.sbrk (27 * PGSIZE), .load 0] threePages = .ok (rs, lostPage)) ∧
    PagedOut lostPage (15 * PGSIZE) ∧
    trapPgflt true lostPage (15 * PGSIZE) = .ok (.resumed, triedOnce) ∧
    ¬ Progresses .resumed triedOnce (15 * PGSIZE) ∧
    trapPgflt true triedOnce (15 * PGSIZE) = .ok (.resumed, triedTwice) ∧
    ¬ Progresses .resumed triedTwice (15 * PGSIZE) := by
  have h0 : lostPage.walkpgdir lostPage.cur.pgdir (15 * PGSIZE) = some .swapped := by decide +kernel
  have h1 : triedOnce.walkpgdir triedOnce.cur.pgdir (15 * PGSIZE) = some .swapped := by decide +kernel
  have h2 : triedTwice.walkpgdir triedTwice.cur.pgdir (15 * PGSIZE) = some .swapped := by decide +kernel
  refine ⟨threePages_started, of_reached (Option.some_get _).symm, ⟨_, h0, rfl⟩, ?_, ?_, ?_, ?_⟩
  · exact trap_resumed (Option.some_get _).symm h0
  · exact not_progresses_of_swapped h1
  · exact trap_resumed (Option.some_get _).symm h1
  · exact not_progresses_of_swapped h2

end Paging
