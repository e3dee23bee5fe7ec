import OperatingSystem314.Paging.Frame
import OperatingSystem314.Paging.Layout

/-! # Coherent paging metadata, and what a page fault does to it

    `Coherent k q s`: the list holds exactly the present pages, the slots
    in use exactly the swapped ones, and the counters count them.

    No handled fault keeps it: two pages leave memory and one comes in, so
    a present page is missing afterwards. -/

namespace Paging

/-- A page of the user half of the address space. -/
def UserPage (a : Nat) : Prop := a % PGSIZE = 0 ∧ a < KERNBASE

/-- `PTE_P` is set in the current directory. -/
def Present (k : Kernel) (a : Nat) : Prop := ∃ x, k.walkpgdir k.cur.pgdir a = some x ∧ x.p = true

/-- `PTE_PG` is set in the current directory. -/
def PagedOut (k : Kernel) (a : Nat) : Prop := ∃ x, k.walkpgdir k.cur.pgdir a = some x ∧ x.pg = true

/-- The addresses of the slots in use. -/
def slotAddresses (x : Proc) : List Nat :=
  (List.finRange MAX_PSYC_PAGES).filterMap fun i =>
    if (x.pagesInSwapFile i).in_use then some (x.pagesInSwapFile i).address else none

structure Coherent (k : Kernel) (q s : List Nat) : Prop where
  /-- the list visits the elements in use, once each, and they hold `q` -/
  fifo : Fifo k.curproc k.cur q
  nodup : q.Nodup
  present : ∀ a, a ∈ q ↔ UserPage a ∧ Present k a
  counted : k.cur.nPagesInPhyMemory = q.length
  slots : slotAddresses k.cur = s
  slotsNodup : s.Nodup
  pagedOut : ∀ a, a ∈ s ↔ UserPage a ∧ PagedOut k a
  slotsCounted : k.cur.nPagesInSwapFile = s.length

/-- The state after the fault is coherent again, with as many pages in
    memory and as many in the swap file. -/
def FaultPreserves (k : Kernel) (va : Nat) (q s : List Nat) : Prop :=
  ∃ k' q' s', trapPgflt true k va = .ok (.resumed, k') ∧ Coherent k' q' s' ∧
    q'.length = q.length ∧ s'.length = s.length

/-- An entry that was overwritten is present only if the new value is. -/
theorem present_setPte {pd : Pgdir} {va a : Nat} {x y : Pte} (hy : (pd.setPte va x).walk a = some y)
    (hp : y.p = true) : (a / PGSIZE = va / PGSIZE ∧ x.p = true) ∨
      (a / PGSIZE ≠ va / PGSIZE ∧ pd.walk a = some y) := by
  by_cases hpage : a / PGSIZE = va / PGSIZE
  · left
    refine ⟨hpage, ?_⟩
    cases hold : pd.walk va with
    | some z =>
      rw [Pgdir.walk_setPte_same pd hpage hold] at hy
      cases hy
      exact hp
    | none =>
      -- without a page table there is no entry to read
      have hnone : (pd.setPte va x).walk a = none := by
        rw [Pgdir.walk_congr _ hpage]
        cases ht : pd.pde (PDX va) <;> simp_all [Pgdir.walk, Pgdir.setPte]
      rw [hnone] at hy
      cases hy
  · exact .inr ⟨hpage, by rwa [Pgdir.walk_setPte_ne pd hpage] at hy⟩

/-- After a handled fault fewer pages are present than the list held before. -/
theorem Coherent.fault_drops {k k' : Kernel} {q s : List Nat} {va : Nat} {e : FaultEnd} {user : Bool}
    (h : Coherent k q s) (hpid : 2 < k.cur.pid) (hva : PagedOut k va)
    (htrap : trapPgflt user k va = .ok (e, k')) :
    ∃ r : List Nat, r.length < q.length ∧ ∀ a, UserPage a → Present k' a → a ∈ r := by
  obtain ⟨hlocks, hcase⟩ := trapPgflt_ok htrap
  obtain ⟨-, -, k2, hout, hin⟩ | ⟨hno, -⟩ := hcase
  swap
  · obtain ⟨x, hx, hpg⟩ := hva
    rw [hno x hx] at hpg
    cases hpg
  obtain ⟨a, k1, hdeq, hmove⟩ := swapPageOut_ok hout
  have hpid' : k.cur.pid ≠ 1 ∧ k.cur.pid ≠ 2 := by omega
  match q, h with
  | [], h =>
    rw [h.fifo.dequeueFIFO_nil hpid' hlocks] at hdeq
    cases hdeq
  | [a'], h =>
    rw [h.fifo.dequeueFIFO_single hpid' hlocks] at hdeq
    cases hdeq
  | a' :: b :: q, h =>
    obtain ⟨c, hdeq', hfifo1⟩ := h.fifo.dequeueFIFO (by simp) hlocks
    rw [hdeq'] at hdeq
    cases hdeq
    obtain ⟨h2, hcells2, hhead2, x, hx, -, hpgdir2⟩ := moveToSwapFile_ok hmove
    rw [Kernel.setCur_cur] at hcells2 hhead2 hpgdir2 hx
    have hd2 : k2.cur.pgdir = k.cur.pgdir := by rw [h2.pgdir, Kernel.setCur_cur, Proc.dequeued_pgdir]
    -- the first eviction takes the page of `a` away
    have hxp : x.p = true := by
      obtain ⟨-, y, hy, hp⟩ := (h.present a).mp (by simp)
      rw [show (k.setCur (k.cur.dequeued c)).walkpgdir (k.cur.dequeued c).pgdir a =
        k.walkpgdir k.cur.pgdir a from rfl, hy] at hx
      cases hx
      exact hp
    rw [if_pos hxp, Proc.dequeued_pgdir, Kernel.setCur_pgdir] at hpgdir2
    have hgone : ∀ u, UserPage u → Present k2 u → u ∈ b :: q := by
      rintro u hu ⟨y, hy, hp⟩
      rw [hd2, Kernel.walkpgdir, hpgdir2] at hy
      rcases present_setPte hy hp with ⟨-, hfalse⟩ | ⟨hne, hold⟩
      · cases hfalse
      · have hmem := (h.present u).mpr ⟨hu, y, hold, hp⟩
        refine (List.mem_cons.mp hmem).resolve_left ?_
        rintro rfl
        exact hne (PTE_ADDR_div u).symm
    rcases swapPageIn_ok hin with ⟨-, rfl⟩ | ⟨i, b', k3, k4, y, -, hdeq3, h4, henq, -, -, -, hpgdir4⟩
    · exact ⟨b :: q, by simp, hgone⟩
    -- the exchange takes the next one away and brings the faulting page in
    have hfifo2 : Fifo k2.curproc k2.cur (b :: q) := by
      rw [h2.curproc]
      exact hfifo1.congr hcells2 hhead2
    have hpid2 : k2.cur.pid = k.cur.pid := by
      rw [h2.cur.pid, Kernel.setCur_cur, Proc.dequeued_pid]
    have hlocks2 : .cons ∉ k2.locks := by rw [h2.locks]; exact hlocks
    cases hq : q with
    | nil =>
      subst hq
      rw [hfifo2.dequeueFIFO_single (by omega) hlocks2] at hdeq3
      cases hdeq3
    | cons b2 q2 =>
      obtain ⟨c2, hdeq3', -⟩ := hfifo2.dequeueFIFO (by simp [hq]) hlocks2
      rw [hdeq3'] at hdeq3
      cases hdeq3
      have hlists := enqueueFIFO_lists henq
      have hd4 : k4.cur.pgdir = k2.cur.pgdir := by
        rw [h4.pgdir, Kernel.setCur_cur, Proc.dequeued_pgdir]
      have hpgdir' : k'.pgdir = k4.pgdir := by rw [hlists.rest]
      rw [Kernel.setCur_cur, Proc.dequeued_pgdir, Kernel.setCur_pgdir] at hpgdir4
      refine ⟨PTE_ADDR va :: b2 :: q2, by simp, ?_⟩
      rintro u hu ⟨z, hz, hp⟩
      rw [hlists.cur.pgdir, hd4, Kernel.walkpgdir, hpgdir', hpgdir4] at hz
      rcases present_setPte hz hp with ⟨-, hfalse⟩ | ⟨hneb, hz⟩
      · cases hfalse
      rcases present_setPte hz hp with ⟨hpage, -⟩ | ⟨-, hz⟩
      · have : u = PTE_ADDR va := by
          rw [← PTE_ADDR_of_aligned hu.1, PTE_ADDR, hpage, PTE_ADDR_div]
          rfl
        exact List.mem_cons.mpr (.inl this)
      · have hmem := hgone u hu ⟨z, hz, hp⟩
        rw [hq] at hmem
        refine List.mem_cons_of_mem _ ((List.mem_cons.mp hmem).resolve_left ?_)
        rintro rfl
        exact hneb rfl

/-- The list of a coherent state is no longer than any list of its present pages. -/
theorem Coherent.length_le {k : Kernel} {q s r : List Nat} (h : Coherent k q s)
    (hr : ∀ a, UserPage a → Present k a → a ∈ r) : q.length ≤ r.length := by
  have hsub : q ⊆ r := fun a ha => by
    obtain ⟨huser, hp⟩ := (h.present a).mp ha
    exact hr a huser hp
  exact (h.nodup.subperm hsub).length_le

/-- No page fault keeps the metadata coherent. -/
theorem fault_never_preserves {k : Kernel} {q s : List Nat} {va : Nat} (h : Coherent k q s)
    (hpid : 2 < k.cur.pid) (hva : PagedOut k va) : ¬ FaultPreserves k va q s := by
  rintro ⟨k', q', s', htrap, h', hq, -⟩
  obtain ⟨r, hr, hpresent⟩ := h.fault_drops hpid hva htrap
  have hle := h'.length_le hpresent
  omega

/-! ### Coherent states -/

theorem filterMap_getElem? {n : Nat} {s : List Nat} (h : s.length ≤ n) :
    (List.finRange n).filterMap (fun i => s[i.val]?) = s := by
  have hval : (List.finRange n).filterMap (fun i => s[i.val]?) =
      (List.range n).filterMap fun i => s[i]? := by
    rw [← List.map_coe_finRange_eq_range, List.filterMap_map]
    rfl
  have hfront : (List.range s.length).map (fun i => s[i]?) = s.map some := by
    refine List.ext_getElem (by simp) fun i hi _ => ?_
    have : i < s.length := by simpa using hi
    simp [this]
  have hback : ((List.range (n - s.length)).map (s.length + ·)).filterMap (fun i => s[i]?) = [] := by
    simp
  rw [hval, ← Nat.add_sub_of_le h, List.range_add, List.filterMap_append, hback,
    List.append_nil, ← Function.id_comp (fun i => s[i]?), ← List.filterMap_map, hfront,
    List.filterMap_map]
  simp

theorem Slots.slotAddresses_eq {x : Proc} {s : List Nat} (h : Slots x s) : slotAddresses x = s := by
  have hslot : (fun i : Fin MAX_PSYC_PAGES => if (x.pagesInSwapFile i).in_use then
      some (x.pagesInSwapFile i).address else none) = fun i => s[i.val]? := by
    funext i
    rw [h.2]
    cases s[i.val]? <;> rfl
  rw [slotAddresses, hslot, filterMap_getElem? h.1]

/-- The paging invariant with exact counters: the state of a process that
    took no page fault yet. -/
theorem Paged.coherent {g lim : Nat} {k : Kernel} {q s : List Nat} {m : Nat → UInt8}
    (h : Paged g k lim q s m) (hphy : k.cur.nPagesInPhyMemory = q.length)
    (hswap : k.cur.nPagesInSwapFile = s.length) : Coherent k q s := by
  have hlim : lim ≤ KERNBASE := h.mem.small.trans (by decide)
  have hpage : ∀ a ∈ q ++ s, UserPage a := fun a ha => by
    obtain ⟨hal, hlt⟩ := (h.mem.pages a).mp ha
    exact ⟨hal, Nat.lt_of_lt_of_le hlt hlim⟩
  -- an entry with a flag belongs to one of the pages
  have hlisted : ∀ {a x}, UserPage a → k.walkpgdir k.cur.pgdir a = some x → x ≠ .zero → a ∈ q ++ s :=
    fun {a x} hu hx hne => by
      refine (h.mem.pages a).mpr ⟨hu.1, Nat.lt_of_not_le fun hle => ?_⟩
      have hwalk : (k.view k.cur.pgdir).walk a = some x := hx
      rcases h.mem.unmapped a hu.1 hle with hnone | hzero
      · rw [hnone] at hwalk
        cases hwalk
      · rw [hzero] at hwalk
        cases hwalk
        exact hne rfl
  have hqx : ∀ {a x}, a ∈ q → k.walkpgdir k.cur.pgdir a = some x → x.p = true ∧ x.pg = false :=
    fun {a x} ha hx => by
      obtain ⟨y, hres⟩ := h.mem.resident a ha
      have hwalk : (k.view k.cur.pgdir).walk a = some x := hx
      rw [hres.walk] at hwalk
      cases hwalk
      exact ⟨hres.p, hres.pg⟩
  have hsx : ∀ {a x}, a ∈ s → k.walkpgdir k.cur.pgdir a = some x → x = .swapped := fun {a x} ha hx => by
    have hwalk : (k.view k.cur.pgdir).walk a = some x := hx
    rw [h.mem.swapped a ha] at hwalk
    exact (Option.some.inj hwalk).symm
  obtain ⟨hndq, hnds, -⟩ := List.nodup_append.mp h.mem.nodup
  refine ⟨h.fifo, hndq, fun a => ⟨fun ha => ?_, ?_⟩, hphy, h.slots.slotAddresses_eq, hnds,
    fun a => ⟨fun ha => ?_, ?_⟩, hswap⟩
  · obtain ⟨x, hres⟩ := h.mem.resident a ha
    exact ⟨hpage a (by simp [ha]), x, hres.walk, hres.p⟩
  · rintro ⟨hu, x, hx, hp⟩
    have hmem := hlisted hu hx (by rintro rfl; cases hp)
    refine (List.mem_append.mp hmem).resolve_right fun hs => ?_
    rw [hsx hs hx] at hp
    cases hp
  · exact ⟨hpage a (by simp [ha]), _, h.mem.swapped a ha, rfl⟩
  · rintro ⟨hu, x, hx, hpg⟩
    have hmem := hlisted hu hx (by rintro rfl; cases hpg)
    refine (List.mem_append.mp hmem).resolve_left fun hq => ?_
    rw [(hqx hq hx).2] at hpg
    cases hpg

/-! ### A coherent state in which a fault loses a page -/

theorem sixteenPages_coherent : Coherent sixteenPages fifteen [15 * PGSIZE] :=
  sixteenPages_paged.coherent rfl rfl

theorem sixteenPages_pagedOut : PagedOut sixteenPages (15 * PGSIZE) :=
  ⟨.swapped, by decide, rfl⟩

theorem fault_never_preserves_sixteen :
    ¬ FaultPreserves sixteenPages (15 * PGSIZE) fifteen [15 * PGSIZE] :=
  fault_never_preserves sixteenPages_coherent (by decide) sixteenPages_pagedOut

/-- The fault on the sixteenth page is handled, and what it leaves is not
    coherent with as many pages in memory. -/
theorem fault_loses_page :
    (∃ k', trapPgflt true sixteenPages (15 * PGSIZE) = .ok (.resumed, k')) ∧
    ¬ ∀ (k : Kernel) (q s : List Nat) (va : Nat), Coherent k q s → 2 < k.cur.pid → PagedOut k va →
      FaultPreserves k va q s := by
  obtain ⟨k', -, -, htrap, -⟩ :=
    sixteenPages_paged.fault (show PTE_ADDR (15 * PGSIZE) ∈ [15 * PGSIZE] by decide) (by decide)
      (by decide) true
  refine ⟨⟨k', htrap⟩, fun hall => ?_⟩
  obtain ⟨k'', q', s', htrap', h', hq, -⟩ :=
    hall _ _ _ _ sixteenPages_coherent (by decide) sixteenPages_pagedOut
  obtain ⟨r, hr, hpresent⟩ := sixteenPages_coherent.fault_drops (by decide) sixteenPages_pagedOut htrap'
  have hle := h'.length_le hpresent
  omega

end Paging
