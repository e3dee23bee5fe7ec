import OperatingSystem314.Lib.Simulation
import OperatingSystem314.Paging.Layout

/-! # Is paging transparent?

    The abstract machine is a process with a flat memory (`Flat`).  A run of
    loads, stores and `sbrk`s on the kernel simulates it as long as

    * each page fault finds a free slot in the swap file and at least three
      pages in the list, and
    * each growth finds slots for the pages it evicts (`NothingLost`).

    Without that the kernel stops: every fault shortens the list by one,
    and the fourteenth fault follows a null `head`. -/

namespace Paging

open Simulation

/-! ### Runs of a process -/

inductive UserOp where
  | load (va : Nat)
  | store (va : Nat) (b : UInt8)
  | sbrk (n : Int)

inductive Reply where
  | byte (b : UInt8)
  | stored
  | brk (r : Int)
  | killed
  deriving DecidableEq

def userStep (k : Kernel) : UserOp → Result (Reply × Kernel)
  | .load va => do
    let (b, k) ← userLoad k va
    return (b.elim .killed .byte, k)
  | .store va b => do
    let (done, k) ← userStore k va b
    return (if done then .stored else .killed, k)
  | .sbrk n => do
    let (r, k) ← sys_sbrk k n
    return (.brk r, k)

def Reply.isKilled (r : Reply) : Bool := r = .killed

/-- A run, up to the access that kills the process. -/
def userRun : List UserOp → Kernel → Result (List Reply × Kernel) := run userStep Reply.isKilled

/-! ### The flat memory -/

structure Flat where
  mem : Nat → UInt8
  sz : Nat
  guard : Nat

/-- The address lies in a page of the process. -/
def Flat.Owns (fl : Flat) (va : Nat) : Prop := PTE_ADDR va < fl.sz

/-- The access is one the process may be killed for. -/
def Flat.Faults (fl : Flat) (va : Nat) : Prop := ¬ fl.Owns va ∨ PTE_ADDR va = fl.guard

inductive Flat.Step : Flat → UserOp → Reply → Flat → Prop where
  | load {fl : Flat} {va : Nat} (h : fl.Owns va) : Flat.Step fl (.load va) (.byte (fl.mem va)) fl
  | store {fl : Flat} {va : Nat} (b : UInt8) (h : fl.Owns va) :
      Flat.Step fl (.store va b) .stored { fl with mem := Function.update fl.mem va b }
  | sbrk {fl : Flat} {n : Nat} (hn : 0 < n) :
      Flat.Step fl (.sbrk n) (.brk fl.sz) { fl with sz := fl.sz + n }
  | loadKilled {fl : Flat} {va : Nat} (h : fl.Faults va) : Flat.Step fl (.load va) .killed fl
  | storeKilled {fl : Flat} {va : Nat} (b : UInt8) (h : fl.Faults va) :
      Flat.Step fl (.store va b) .killed fl

/-- Every load of the run returns the byte last stored at its address, and
    nothing but an access to a foreign page or the guard page kills the process. -/
def Transparent (fl : Flat) (k : Kernel) (ops : List UserOp) : Prop :=
  ∃ rs k', userRun ops k = .ok (rs, k') ∧ Run Flat.Step Reply.isKilled fl ops rs

/-! ### The condition -/

/-- Slots of the swap file in use. -/
def usedSlots (x : Proc) : Nat :=
  (List.finRange MAX_PSYC_PAGES).countP fun i => (x.pagesInSwapFile i).in_use

/-- Pages an `sbrk` of `n` allocates. -/
def newPages (k : Kernel) (n : Nat) : Nat := (pageRange (PGROUNDUP k.cur.sz) (k.cur.sz + n)).length

/-- What is granted about the run: growth is positive and stays within
    `MAX_TOTAL_PAGES`, and `kalloc` has a frame for each page that is not evicted for. -/
def Allowed (k : Kernel) : UserOp → Prop
  | .load _ | .store _ _ => True
  | .sbrk n => 0 < n ∧ k.cur.sz + n ≤ (MAX_TOTAL_PAGES * PGSIZE : Nat) ∧
      min (k.cur.nPagesInPhyMemory + newPages k n.toNat) MAX_PSYC_PAGES ≤
        k.cur.nPagesInPhyMemory + k.freelist.length

/-- Nothing is lost and `printQueue` finds a list to print. -/
def NothingLost (k : Kernel) : UserOp → Prop
  | .load va | .store va _ =>
      (∃ x, k.walkpgdir k.cur.pgdir va = some x ∧ x.pg = true) →
        3 ≤ queued k.cur ∧ usedSlots k.cur < MAX_PSYC_PAGES
  | .sbrk n =>
      k.cur.nPagesInPhyMemory + newPages k n.toNat + usedSlots k.cur ≤ MAX_TOTAL_PAGES ∧
      (MAX_PSYC_PAGES < k.cur.nPagesInPhyMemory + newPages k n.toNat →
        k.cur.nPagesInPhyMemory + 2 ≤ queued k.cur + MAX_PSYC_PAGES)

/-! ### The simulation -/

/-- The kernel implements the flat memory. -/
def Implements (k : Kernel) (fl : Flat) : Prop :=
  k.cur.sz = fl.sz ∧ ∃ q s, Paged fl.guard k fl.sz q s fl.mem

/-- The slots in use are as many as the pages in the swap file. -/
theorem Slots.usedSlots_eq {x : Proc} {s : List Nat} (h : Slots x s) : usedSlots x = s.length := by
  have hused : ∀ i, (x.pagesInSwapFile i).in_use = decide (i.val < s.length) := fun i => by
    rw [h.2]
    by_cases hi : i.val < s.length
    · simp [hi]
    · simp [hi]
  have hval : usedSlots x = ((List.finRange MAX_PSYC_PAGES).map Fin.val).countP fun i => i < s.length := by
    rw [usedSlots, List.countP_map]
    simp only [hused, Function.comp_def]
  have hle := h.1
  rw [hval, List.map_coe_finRange_eq_range]
  generalize s.length = n at hle
  rw [← Nat.add_sub_of_le hle, List.range_add, List.countP_append]
  rw [List.countP_eq_length.mpr (by simp), List.countP_eq_zero.mpr (by simp)]
  simp

/-- An access of the process that finds what it needs, or kills it. -/
theorem Paged.access {g lim : Nat} {k : Kernel} {q s : List Nat} {m : Nat → UInt8}
    (h : Paged g k lim q s m) (va : Nat) (store : Bool)
    (hroom : PTE_ADDR va ∈ s → 3 ≤ q.length ∧ s.length < MAX_PSYC_PAGES) :
    (∃ k' q' s' x, touch true store MAXFAULTS k va = .ok (some x.ppn, k') ∧
      Paged g k' lim q' s' m ∧ Kept k k' ∧ PTE_ADDR va ∈ q' ∧
      k'.walkpgdir k'.cur.pgdir (PTE_ADDR va) = some x) ∨
    ∃ k', touch true store MAXFAULTS k va = .ok (none, k') ∧
      (lim ≤ PTE_ADDR va ∨ PTE_ADDR va = g) := by
  have hfuel : MAXFAULTS = NCELLS + 2 := rfl
  rw [hfuel]
  by_cases hva : PTE_ADDR va ∈ q ++ s
  · rcases List.mem_append.mp hva with hq | hs
    · have hself : Kept k k := ⟨rfl, rfl, rfl, rfl⟩
      by_cases hg : PTE_ADDR va = g
      · rcases h.touch_guard hq (NCELLS + 1) with ⟨x, hx, ht⟩ | ⟨k', ht⟩
        · exact .inl ⟨k, q, s, x, ht, h, hself, hq, hx⟩
        · exact .inr ⟨k', ht, .inr hg⟩
      · obtain ⟨x, hx, ht⟩ := h.touch_resident hq (fun _ => hg) store (NCELLS + 1)
        exact .inl ⟨k, q, s, x, ht, h, hself, hq, hx⟩
    · obtain ⟨hlen, hfree⟩ := hroom hs
      obtain ⟨k', q', s', x, ht, h', hkept, hin, hx, -⟩ := h.touch_swapped hs hlen hfree true store NCELLS
      exact .inl ⟨k', q', s', x, ht, h', hkept, hin, hx⟩
  · have hout : lim ≤ PTE_ADDR va := Nat.le_of_not_lt fun hlt =>
      hva ((h.mem.pages _).mpr ⟨PTE_ADDR_aligned va, hlt⟩)
    obtain ⟨k', ht⟩ := h.touch_outside hout (NCELLS + 1)
    exact .inr ⟨k', ht, .inl hout⟩

theorem Implements.owns {k : Kernel} {fl : Flat} {q s : List Nat}
    (h : Paged fl.guard k fl.sz q s fl.mem) {va : Nat} (hva : PTE_ADDR va ∈ q) : fl.Owns va :=
  ((h.mem.pages _).mp (List.mem_append_left s hva)).2

/-- One step of the process, under the condition. -/
theorem userStep_simulates (k : Kernel) (fl : Flat) (op : UserOp) (h : Implements k fl)
    (hok : Allowed k op ∧ NothingLost k op) :
    ∃ r k' fl', userStep k op = .ok (r, k') ∧ Flat.Step fl op r fl' ∧
      (r.isKilled = false → Implements k' fl') := by
  obtain ⟨hsz, q, s, hp⟩ := h
  have hroom : ∀ va, ((∃ x, k.walkpgdir k.cur.pgdir va = some x ∧ x.pg = true) →
      3 ≤ queued k.cur ∧ usedSlots k.cur < MAX_PSYC_PAGES) →
      PTE_ADDR va ∈ s → 3 ≤ q.length ∧ s.length < MAX_PSYC_PAGES := fun va hlost hs => by
    have := hlost ((hp.walk_pg va).mpr hs)
    rwa [hp.fifo.queued_eq, hp.slots.usedSlots_eq] at this
  have hfault : ∀ {va}, fl.sz ≤ PTE_ADDR va ∨ PTE_ADDR va = fl.guard → fl.Faults va := fun hf =>
    hf.imp (fun hle => Nat.not_lt_of_le hle) id
  cases op with
  | load va =>
    rcases hp.access va false (hroom va hok.2) with ⟨k', q', s', x, ht, hp', hkept, hq, hx⟩ | ⟨k', ht, hf⟩
    · obtain ⟨y, hy, hres⟩ := hp'.walk_resident hq
      rw [hx] at hy
      cases hy
      have hbyte : k'.frame x.ppn (va % PGSIZE) = fl.mem va := by
        have := hres.bytes (va % PGSIZE) (Nat.mod_lt _ (by decide))
        rwa [PTE_ADDR_add] at this
      refine ⟨.byte (fl.mem va), k', fl, ?_, .load (Implements.owns hp' hq), fun _ =>
        ⟨hkept.sz.trans hsz, q', s', hp'⟩⟩
      simp [userStep, userLoad, ht, hbyte]
    · exact ⟨.killed, k', fl, by simp [userStep, userLoad, ht], .loadKilled (hfault hf), by simp [Reply.isKilled]⟩
  | store va b =>
    rcases hp.access va true (hroom va hok.2) with ⟨k', q', s', x, ht, hp', hkept, hq, hx⟩ | ⟨k', ht, hf⟩
    · refine ⟨.stored, k'.setByte x.ppn (va % PGSIZE) b, { fl with mem := Function.update fl.mem va b },
        ?_, .store b (Implements.owns hp' hq), fun _ =>
        ⟨hkept.sz.trans hsz, q', s', hp'.setByte hq hx b⟩⟩
      simp [userStep, userStore, ht]
    · exact ⟨.killed, k', fl, by simp [userStep, userStore, ht], .storeKilled b (hfault hf), by simp [Reply.isKilled]⟩
  | sbrk n =>
    obtain ⟨⟨hn, hmax, hframes⟩, hslots, hlist⟩ := hok
    lift n to Nat using Int.le_of_lt hn
    rw [hp.slots.usedSlots_eq] at hslots
    rw [hp.fifo.queued_eq] at hlist
    simp only [Int.toNat_natCast] at hframes hslots hlist
    rw [← hsz] at hp
    obtain ⟨k', q', s', hsbrk, hp', hsz', -⟩ := hp.sbrk (n := n) (by omega) (by omega) rfl hslots
      hlist hframes
    refine ⟨.brk fl.sz, k', { fl with sz := fl.sz + n }, ?_, .sbrk (by omega), fun _ => ⟨?_, q', s', ?_⟩⟩
    · rw [← hsz]
      simp [userStep, hsbrk]
    · rw [hsz', hsz]
    · rw [hsz', hsz] at hp'
      exact hp'

/-- A process as `exec` leaves it: every page resident. -/
def Started (k : Kernel) (fl : Flat) : Prop :=
  k.cur.sz = fl.sz ∧ ∃ q, Paged fl.guard k fl.sz q [] fl.mem

/-- Reading swapped pages, one after the other, runs the list empty: by
    induction on its length. -/
theorem Paged.exhausted {g lim n : Nat} {k : Kernel} {q s : List Nat} {m : Nat → UInt8}
    (h : Paged g k lim q s m) (hq : q.length = n + 2) (hs : s ≠ [])
    (hsum : q.length + s.length ≤ MAX_PSYC_PAGES + 1) :
    ∃ vas : List Nat, userRun (vas.map .load) k = .error .nullDeref := by
  induction n generalizing k q s with
  | zero =>
    obtain ⟨a, b, rfl⟩ := List.length_eq_two.mp hq
    obtain ⟨c, hc⟩ := List.exists_mem_of_ne_nil s hs
    have hal := h.mem.aligned (List.mem_append_right _ hc)
    have hin : PTE_ADDR c ∈ s := by rwa [PTE_ADDR_of_aligned hal]
    have htrap := h.fault_short hin
      (by simp only [List.length_cons, List.length_nil] at hsum; omega) true
    have hx : k.walkpgdir k.cur.pgdir c = some .swapped := h.mem.swapped c hc
    refine ⟨[c], run_error [] ?_⟩
    have htouch : touch true false (NCELLS + 1 + 1) k c = .error .nullDeref := by
      rw [touch]
      simp only [hx, Option.filter_some, Pte.swapped, Bool.false_and, Bool.false_eq_true, if_false,
        htrap, error_bind]
    have htouch' : touch true false MAXFAULTS k c = .error .nullDeref := htouch
    simp [userStep, userLoad, htouch']
  | succ n ih =>
    obtain ⟨c, hc⟩ := List.exists_mem_of_ne_nil s hs
    have hal := h.mem.aligned (List.mem_append_right _ hc)
    obtain ⟨k', q', s', x, ht, h', -, -, -, hq', hs'⟩ := h.touch_swapped
      (show PTE_ADDR c ∈ s by rwa [PTE_ADDR_of_aligned hal]) (by omega) (by omega) true false NCELLS
    obtain ⟨vas, hrun⟩ := ih h' (by omega) (by rintro rfl; simp at hs') (by omega)
    have ht' : touch true false MAXFAULTS k c = .ok (some x.ppn, k') := ht
    have hstep : userStep k (.load c) = .ok (.byte (k'.frame x.ppn (c % PGSIZE)), k') := by
      simp [userStep, userLoad, ht']
    exact ⟨c :: vas, run_error_tail hstep rfl hrun⟩

theorem threePages_started : Started threePages ⟨fun _ => 0, 3 * PGSIZE, PGSIZE⟩ :=
  ⟨rfl, _, threePages_paged⟩

end Paging
