import OperatingSystem314.Lib.Spill
import OperatingSystem314.Paging.Coherent
import OperatingSystem314.Paging.CopyMemory
import OperatingSystem314.Paging.Mapped

/-! # Growth, within the capacity and beyond it

    A process keeps its pages in a store of the kind of `Spill`: the list
    of resident pages is its first place, the swap file the second one.
    Growing by a page is `push`.

    * `Swapping k lim st`: the pages of the current process below `lim`
      are where the store `st` has them.
    * `Swapping.growPage`, `Swapping.allocLoop`: a round of the loop of
      `allocuvm`, and the loop, as long as there are frames.
    * `allocuvm_grows`: within 30 pages nothing is lost. -/

namespace Paging

open Spill

abbrev PageStore : Type := Store Nat

namespace PageStore

/-- The store with room for a page in the list. -/
abbrev room (st : PageStore) : PageStore := st.makeRoom MAX_PSYC_PAGES MAX_PSYC_PAGES

/-- The store after the process grew by the pages `l`. -/
abbrev grown (st : PageStore) (l : List Nat) : PageStore := st.pushAll MAX_PSYC_PAGES MAX_PSYC_PAGES l

end PageStore

/-! ### The slots -/

/-- The slots in use are the first ones, and hold the addresses `s`. -/
structure SlotTable (x : Proc) (s : List Nat) : Prop where
  used : ∀ i, (x.pagesInSwapFile i).in_use = true ↔ i.val < s.length
  address : ∀ i a, s[i.val]? = some a → (x.pagesInSwapFile i).address = a
  length_le : s.length ≤ MAX_PSYC_PAGES

namespace SlotTable

variable {x : Proc} {s : List Nat} {a : Nat}

theorem congr {x' : Proc} (h : SlotTable x s) (hx : x'.pagesInSwapFile = x.pagesInSwapFile) : SlotTable x' s := by
  refine ⟨?_, ?_, h.length_le⟩
  · rw [hx]
    exact h.used
  · rw [hx]
    exact h.address

theorem of_slots (h : Slots x s) : SlotTable x s := by
  refine ⟨?_, ?_, h.1⟩
  · intro i
    rw [h.2]
    cases hi : s[i.val]? with
    | none => simpa using hi
    | some a => simpa using (List.getElem?_eq_some_iff.mp hi).1
  · intro i a hi
    rw [h.2, hi]
    rfl

theorem freeSlot_eq (h : SlotTable x s) (hlt : s.length < MAX_PSYC_PAGES) : freeSlot x = some ⟨s.length, hlt⟩ := by
  refine find?_finRange ?_ ?_
  · have := (h.used ⟨s.length, hlt⟩).not.mpr (Nat.lt_irrefl _)
    simpa using this
  · intro j hj
    have := (h.used j).mpr hj
    simp [this]

theorem freeSlot_full (h : SlotTable x s) (hfull : s.length = MAX_PSYC_PAGES) : freeSlot x = none := by
  refine List.find?_eq_none.mpr ?_
  intro i _
  have := (h.used i).mpr (by rw [hfull]; exact i.isLt)
  simp [this]

/-- The first free slot is taken. -/
theorem push (h : SlotTable x s) (hlt : s.length < MAX_PSYC_PAGES) (a : Nat) :
    SlotTable (x.setSlot ⟨s.length, hlt⟩ ⟨a, true⟩) (s ++ [a]) := by
  refine ⟨?_, ?_, ?_⟩
  · intro j
    rw [List.length_append, List.length_singleton, Proc.setSlot_pagesInSwapFile]
    by_cases hj : j = ⟨s.length, hlt⟩
    · rw [hj, Function.update_self]
      simp
    · have hne : j.val ≠ s.length := fun heq => hj (Fin.ext heq)
      rw [Function.update_of_ne hj, h.used]
      omega
  · intro j b hb
    rw [Proc.setSlot_pagesInSwapFile]
    by_cases hj : j = ⟨s.length, hlt⟩
    · rw [hj] at hb ⊢
      rw [Function.update_self]
      simpa using hb
    · have hne : j.val ≠ s.length := fun heq => hj (Fin.ext heq)
      rw [Function.update_of_ne hj]
      apply h.address
      have hlt' := (List.getElem?_eq_some_iff.mp hb).1
      rw [List.length_append, List.length_singleton] at hlt'
      rwa [List.getElem?_append_left (by omega)] at hb
  · rw [List.length_append, List.length_singleton]
    exact hlt

/-- What a slot in use holds. -/
theorem getElem?_eq (h : SlotTable x s) {i : Fin MAX_PSYC_PAGES} (hi : x.pagesInSwapFile i = ⟨a, true⟩) :
    s[i.val]? = some a := by
  have hlt := (h.used i).mp (by rw [hi])
  rw [List.getElem?_eq_getElem hlt]
  have := h.address i _ (List.getElem?_eq_getElem hlt)
  rw [hi] at this
  rw [← this]

theorem slotAddresses_eq (h : SlotTable x s) : slotAddresses x = s := by
  have hslot : (fun i : Fin MAX_PSYC_PAGES => if (x.pagesInSwapFile i).in_use then
      some (x.pagesInSwapFile i).address else none) = fun i => s[i.val]? := by
    funext i
    by_cases hi : i.val < s.length
    · rw [if_pos ((h.used i).mpr hi), List.getElem?_eq_getElem hi,
        h.address i _ (List.getElem?_eq_getElem hi)]
    · rw [if_neg ((h.used i).not.mpr hi), List.getElem?_eq_none (by omega)]
  rw [slotAddresses, hslot, filterMap_getElem? h.length_le]

end SlotTable

/-! ### The invariant -/

/-- Page `a` holds `bytes`, in its frame or in its slot. -/
def Holds (k : Kernel) (a : Nat) (bytes : Nat → UInt8) : Prop :=
  (∃ x, k.walkpgdir k.cur.pgdir a = some x ∧ x.p = true ∧ ∀ j < PGSIZE, k.frame x.ppn j = bytes j) ∨
  ∃ i f, k.cur.pagesInSwapFile i = ⟨a, true⟩ ∧ k.cur.swapFile = some f ∧
    ∀ j < PGSIZE, k.fs.slotByte f i j = bytes j

/-- The pages of the current process below `lim` are where `st` has them:
    in the list and present, in the slots and marked as swapped out, or
    marked as swapped out without a slot.  The counters count them. -/
structure Swapping (k : Kernel) (lim : Nat) (st : PageStore) : Prop where
  locks : k.locks = []
  pid : 2 < k.cur.pid
  fifo : Fifo k.curproc k.cur st.resident
  counted : k.cur.nPagesInPhyMemory = st.resident.length
  slots : SlotTable k.cur st.spilled
  slotsCounted : k.cur.nPagesInSwapFile = st.spilled.length + st.lost.length
  file : ∃ f, k.cur.swapFile = some f ∧ SwapFile k.fs f st.spilled.length
  mapped : Mapped (k.view k.cur.pgdir) lim st.resident (st.spilled ++ st.lost)

namespace Swapping

variable {k k' : Kernel} {lim a : Nat} {st : PageStore}

theorem cons (h : Swapping k lim st) : .cons ∉ k.locks := by
  rw [h.locks]
  exact List.not_mem_nil

theorem walk_resident (h : Swapping k lim st) (ha : a ∈ st.resident) :
    ∃ x, k.walkpgdir k.cur.pgdir a = some x ∧ x.p = true ∧ x.pg = false ∧ k.FrameOk x.ppn ∧ x.ppn ∉ k.freelist :=
  h.mapped.resident a ha

theorem walk_out (h : Swapping k lim st) (ha : a ∈ st.spilled ++ st.lost) :
    ∃ x, k.walkpgdir k.cur.pgdir a = some x ∧ x.p = false ∧ x.pg = true :=
  h.mapped.pagedOut a ha

/-- Only the pages below the limit matter. -/
theorem lim_congr {lim' : Nat} (h : Swapping k lim st) (hsmall : lim' ≤ KERNBASE)
    (hlim : ∀ a, a % PGSIZE = 0 → (a < lim ↔ a < lim')) : Swapping k lim' st :=
  { h with mapped := h.mapped.lim_congr hsmall hlim }

/-- A state in which nothing is lost is coherent. -/
theorem coherent {q s : List Nat} (h : Swapping k lim ⟨q, s, []⟩) : Coherent k q s := by
  have hnd := h.mapped.nodup
  have hsmall := h.mapped.small
  simp only [List.append_nil] at hnd
  have hpage : ∀ c, c ∈ q ++ s ↔ c % PGSIZE = 0 ∧ c < lim := by
    intro c
    have := h.mapped.pages c
    simpa using this
  -- an entry with a flag belongs to one of the pages
  have hlisted : ∀ {c x}, UserPage c → k.walkpgdir k.cur.pgdir c = some x → (x.p = true ∨ x.pg = true) →
      c ∈ q ++ s := by
    intro c x hu hx hflag
    refine (hpage c).mpr ⟨hu.1, ?_⟩
    by_contra hle
    obtain ⟨hp, hpg⟩ := h.mapped.unmapped c hu.1 (by omega) hu.2 x hx
    rw [hp, hpg] at hflag
    simp at hflag
  have huser : ∀ c ∈ q ++ s, UserPage c := by
    intro c hc
    obtain ⟨hal, hlt⟩ := (hpage c).mp hc
    exact ⟨hal, by omega⟩
  refine ⟨h.fifo, (List.nodup_append.mp hnd).1, ?_, h.counted, h.slots.slotAddresses_eq,
    (List.nodup_append.mp hnd).2.1, ?_, ?_⟩
  · intro c
    constructor
    · intro hc
      obtain ⟨x, hx, hp, -⟩ := h.walk_resident hc
      exact ⟨huser c (by simp [hc]), x, hx, hp⟩
    · rintro ⟨hu, x, hx, hp⟩
      refine (List.mem_append.mp (hlisted hu hx (.inl hp))).resolve_right ?_
      intro hs
      obtain ⟨y, hy, hyp, -⟩ := h.walk_out (a := c) (by simpa using hs)
      rw [hx] at hy
      cases hy
      rw [hp] at hyp
      cases hyp
  · intro c
    constructor
    · intro hc
      obtain ⟨x, hx, -, hpg⟩ := h.walk_out (a := c) (by simpa using hc)
      exact ⟨huser c (by simp [hc]), x, hx, hpg⟩
    · rintro ⟨hu, x, hx, hpg⟩
      refine (List.mem_append.mp (hlisted hu hx (.inr hpg))).resolve_left ?_
      intro hq
      obtain ⟨y, hy, -, hypg, -⟩ := h.walk_resident hq
      rw [hx] at hy
      cases hy
      rw [hpg] at hypg
      cases hypg
  · have := h.slotsCounted
    simpa using this

end Swapping

/-! ### Eviction -/

theorem Pgdir.pde_setPte (pd : Pgdir) (va i : Nat) (x : Pte) :
    (pd.setPte va x).pde i = none ↔ pd.pde i = none := by
  unfold Pgdir.setPte
  split
  · rfl
  next t ht =>
    by_cases hi : i = PDX va
    · simp [hi, ht]
    · simp [hi]

/-- `moveToSwapFile` of a resident page, with no slot free: nothing is written. -/
theorem moveToSwapFile_full {k : Kernel} {a : Nat} {x : Pte} (hlocks : k.locks = []) (ha : a % PGSIZE = 0)
    (hx : k.walkpgdir k.cur.pgdir a = some x) (hp : x.p = true) (hframe : k.FrameOk x.ppn)
    (hslot : freeSlot k.cur = none) :
    ∃ k', moveToSwapFile k a = .ok k' ∧ k'.locks = [] ∧ k'.curproc = k.curproc ∧ k'.fs = k.fs ∧
      k'.cur = k.cur.count (-1) 1 ∧
      k'.view k.cur.pgdir = ((k.view k.cur.pgdir).free x.ppn).setPte a .swapped := by
  have hne : x ≠ .zero := by
    rintro rfl
    simp [Pte.zero] at hp
  have hrec : recordPage k a x = .ok k := by simp only [recordPage, hslot]
  obtain ⟨k2, hkfree, hk2, hcur2⟩ : ∃ k2, kfree k x.ppn = .ok k2 ∧
      k2 = { k with freelist := x.ppn :: k.freelist, frame := Function.update k.frame x.ppn fun _ => 1 } ∧
      k2.cur = k.cur :=
    ⟨_, if_pos hframe, rfl, rfl⟩
  have hpgdir : k2.cur.pgdir = k.cur.pgdir := by rw [hcur2]
  simp only [moveToSwapFile, hx, deref_some, ok_bind, if_neg hne, hrec, PTE_ADDR_of_aligned ha, hp, if_true,
    hkfree, hpgdir, pure_eq_ok]
  subst hk2
  refine ⟨_, rfl, hlocks, rfl, rfl, ?_, ?_⟩
  · rw [Kernel.modCur_cur]
    rfl
  · simp [Kernel.view, Kernel.modCur, Kernel.setPte, MemView.setPte, MemView.free, MemView.setFrame]

/-- What the eviction of page `a`, in frame `x`, comes to: whether it was
    written to the swap file or not, its frame is freed. -/
structure WrittenOff (k k' : Kernel) (a : Nat) (x : Pte) : Prop where
  kept : Kept k k'
  view : k'.view k.cur.pgdir = ((k.view k.cur.pgdir).free x.ppn).setPte a .swapped
  swapFile : k'.cur.swapFile = k.cur.swapFile
  slots : ∀ i, (k.cur.pagesInSwapFile i).in_use = true → k'.cur.pagesInSwapFile i = k.cur.pagesInSwapFile i
  bytes : ∀ f, k.cur.swapFile = some f → ∀ i, (k.cur.pagesInSwapFile i).in_use = true → ∀ j < PGSIZE,
    k'.fs.slotByte f i j = k.fs.slotByte f i j

/-- The bytes of a frame that is not freed and of an entry that is not marked. -/
theorem WrittenOff.frame {k k' : Kernel} {a b : Nat} {x y : Pte} (h : WrittenOff k k' a x)
    (hy : k.walkpgdir k.cur.pgdir b = some y) (hpage : b / PGSIZE ≠ a / PGSIZE) (hframe : y.ppn ≠ x.ppn) :
    k'.walkpgdir k'.cur.pgdir b = some y ∧ k'.frame y.ppn = k.frame y.ppn := by
  constructor
  · rw [h.kept.pgdir]
    have hwalk : (k'.view k.cur.pgdir).walk b = k.walkpgdir k.cur.pgdir b := by
      rw [h.view, MemView.walk_setPte_ne hpage]
      rfl
    exact hwalk.trans hy
  · have hbytes : (k'.view k.cur.pgdir).frame y.ppn = k.frame y.ppn := by
      rw [h.view, MemView.setPte_frame, MemView.free_ne hframe]
      rfl
    exact hbytes

namespace Swapping

variable {k k' : Kernel} {lim a : Nat} {st : PageStore}

/-- The pages that are not written off keep what they hold. -/
theorem holds_writtenOff {q : List Nat} {x : Pte} {b : Nat} {bytes : Nat → UInt8} (h : Swapping k lim st)
    (hst : st.resident = a :: q) (hx : k.walkpgdir k.cur.pgdir a = some x) (hoff : WrittenOff k k' a x)
    (hb : b ∈ q ++ st.spilled) (hholds : Holds k b bytes) : Holds k' b bytes := by
  have hmapped := h.mapped
  rw [hst] at hmapped
  have hnd : a ∉ q ++ st.spilled := by
    have hnot := (List.nodup_cons.mp hmapped.nodup).1
    intro hmem
    apply hnot
    show a ∈ q ++ (st.spilled ++ st.lost)
    rw [← List.append_assoc]
    exact List.mem_append_left _ hmem
  have hne : b ≠ a := by
    rintro rfl
    exact hnd hb
  have hitem : b ∈ a :: q ++ (st.spilled ++ st.lost) := by
    rcases List.mem_append.mp hb with hq | hs
    · simp [hq]
    · simp [hs]
  rcases hholds with ⟨y, hy, hp, hbytes⟩ | ⟨i, f, hi, hf, hbytes⟩
  · left
    have hbq : b ∈ q := by
      refine (List.mem_append.mp hb).resolve_right ?_
      intro hs
      obtain ⟨z, hz, hzp, -⟩ := h.walk_out (List.mem_append_left st.lost hs)
      rw [hy] at hz
      cases hz
      rw [hp] at hzp
      cases hzp
    have hframe : y.ppn ≠ x.ppn := by
      intro heq
      exact hne (hmapped.inj b (by simp [hbq]) a (by simp) y x hy hx heq)
    obtain ⟨hy', hsame⟩ := hoff.frame hy (hmapped.page_ne hitem (by simp) hne) hframe
    exact ⟨y, hy', hp, by rw [hsame]; exact hbytes⟩
  · right
    have hused : (k.cur.pagesInSwapFile i).in_use = true := by rw [hi]
    refine ⟨i, f, ?_, ?_, ?_⟩
    · rw [hoff.slots i hused, hi]
    · rw [hoff.swapFile, hf]
    · intro j hj
      rw [hoff.bytes f hf i hused j hj, hbytes j hj]

/-- `swapPageOut` moves the oldest page to a slot, or loses it. -/
theorem evict {q : List Nat} (h : Swapping k lim st) (hst : st.resident = a :: q) (hq : q ≠ []) :
    ∃ k' x, swapPageOut k = .ok k' ∧ k.walkpgdir k.cur.pgdir a = some x ∧ WrittenOff k k' a x ∧
      Swapping k' lim (st.evict MAX_PSYC_PAGES) ∧
      ∀ b ∈ (st.evict MAX_PSYC_PAGES).resident ++ (st.evict MAX_PSYC_PAGES).spilled, ∀ bytes,
        Holds k b bytes → Holds k' b bytes := by
  obtain ⟨x, hx, hp, hpg, hok, htaken⟩ := h.walk_resident (by rw [hst]; simp : a ∈ st.resident)
  have hfifo0 := h.fifo
  have hmapped0 := h.mapped
  rw [hst] at hfifo0 hmapped0
  obtain ⟨c, hdeq, hfifo⟩ := hfifo0.dequeueFIFO hq h.cons
  have ha : a % PGSIZE = 0 := hmapped0.aligned (by simp : a ∈ a :: q ++ (st.spilled ++ st.lost))
  have hmapped := hmapped0.evict hx
  obtain ⟨f, hf, hfile⟩ := h.file
  have hcounted := h.counted
  have hswapped := h.slotsCounted
  rw [hst, List.length_cons] at hcounted
  set k1 := k.setCur (k.cur.dequeued c) with hk1
  have hcur1 : k1.cur = k.cur.dequeued c := Kernel.setCur_cur k _
  have hpgdir1 : k1.cur.pgdir = k.cur.pgdir := by simp [hcur1]
  have hslots1 : SlotTable k1.cur st.spilled := h.slots.congr (by simp [hcur1])
  have hx1 : k1.walkpgdir k1.cur.pgdir a = some x := by rw [hpgdir1]; exact hx
  by_cases hfree : st.spilled.length < MAX_PSYC_PAGES
  · -- the page is written to the first free slot
    set k2 := k1.modCur fun p => p.setSlot ⟨st.spilled.length, hfree⟩ ⟨a, true⟩ with hk2
    have hcur2 : k2.cur = (k.cur.dequeued c).setSlot ⟨st.spilled.length, hfree⟩ ⟨a, true⟩ := by
      rw [hk2, Kernel.modCur_cur, hcur1]
    obtain ⟨fs', hwrite, hfile', hbytes⟩ := writeToSwapFile_eq (k := k2) (by simpa [hcur2] using hf)
      h.locks hfile (Nat.le_refl st.spilled.length) hfree (k.frame x.ppn)
    obtain ⟨k', hmove, hlocks', hcurproc', hfs', hcur', hview'⟩ := moveToSwapFile_eq (k := k1) h.locks ha
      hx1 hp hok (hslots1.freeSlot_eq hfree) hwrite
    rw [hcur1] at hcur'
    have hpgdir' : k'.cur.pgdir = k.cur.pgdir := by simp [hcur']
    rw [hpgdir1] at hview'
    have hview : k'.view k.cur.pgdir = ((k.view k.cur.pgdir).free x.ppn).setPte a .swapped := hview'
    have hslots' : k'.cur.pagesInSwapFile =
        Function.update k.cur.pagesInSwapFile ⟨st.spilled.length, hfree⟩ ⟨a, true⟩ := by
      rw [hcur']
      rfl
    have hoff : WrittenOff k k' a x := by
      refine ⟨⟨hcurproc', ?_, hpgdir', ?_⟩, hview, ?_, ?_, ?_⟩
      · simp [hcur']
      · simp [hcur']
      · simp [hcur']
      · intro i hi
        have hlt := (h.slots.used i).mp hi
        rw [hslots', Function.update_of_ne]
        rintro rfl
        exact Nat.lt_irrefl _ hlt
      · intro f' hf' i hi j hj
        have hlt := (h.slots.used i).mp hi
        obtain rfl : f' = f := by
          rw [hf] at hf'
          exact (Option.some.inj hf').symm
        rw [hfs', hbytes i j hj, if_neg (by omega)]
        rfl
    refine ⟨k', x, by simp [swapPageOut, hdeq, hmove], hx, hoff, ?_, ?_⟩
    · rw [Store.evict_cons hst, if_pos hfree]
      refine ⟨hlocks', ?_, ?_, ?_, ?_, ?_, ⟨f, ?_, ?_⟩, ?_⟩
      · simpa [hcur'] using h.pid
      · rw [hcurproc', hcur']
        exact hfifo.congr (by simp) (by simp)
      · simp [hcur']
        omega
      · rw [hcur']
        exact (hslots1.push hfree a).congr (by simp [hcur1])
      · simp [hcur']
        omega
      · simpa [hcur'] using hf
      · rw [hfs']
        simpa using hfile'
      · rw [hpgdir', hview]
        apply hmapped.perm
        simp only [List.append_assoc]
        exact List.perm_append_comm.append_left _
    · rw [Store.evict_cons hst, if_pos hfree]
      intro b hb page hholds
      simp only [← List.append_assoc] at hb
      rcases List.mem_append.mp hb with hold | hnew
      · exact h.holds_writtenOff hst hx hoff hold hholds
      · rw [List.mem_singleton.mp hnew] at hholds ⊢
        refine .inr ⟨⟨st.spilled.length, hfree⟩, f, ?_, ?_, ?_⟩
        · rw [hslots', Function.update_self]
        · simpa [hcur'] using hf
        · intro j hj
          rw [hfs', hbytes _ j hj, if_pos rfl]
          rcases hholds with ⟨y, hy, -, hbytes'⟩ | ⟨i, f', hi, -⟩
          · rw [hx] at hy
            cases hy
            exact hbytes' j hj
          · -- no slot holds a resident page
            have hmem := List.mem_of_getElem? (h.slots.getElem?_eq hi)
            have hnd := (List.nodup_cons.mp hmapped0.nodup).1
            simp [hmem] at hnd
  · -- no slot is free
    have hfull : st.spilled.length = MAX_PSYC_PAGES := by
      have := h.slots.length_le
      omega
    obtain ⟨k', hmove, hlocks', hcurproc', hfs', hcur', hview'⟩ := moveToSwapFile_full (k := k1) h.locks ha
      hx1 hp hok (hslots1.freeSlot_full hfull)
    rw [hcur1] at hcur'
    have hpgdir' : k'.cur.pgdir = k.cur.pgdir := by simp [hcur']
    rw [hpgdir1] at hview'
    have hview : k'.view k.cur.pgdir = ((k.view k.cur.pgdir).free x.ppn).setPte a .swapped := hview'
    have hoff : WrittenOff k k' a x := by
      refine ⟨⟨hcurproc', ?_, hpgdir', ?_⟩, hview, ?_, ?_, ?_⟩
      · simp [hcur']
      · simp [hcur']
      · simp [hcur']
      · intro i _
        simp [hcur']
      · intro f' _ i _ j _
        rw [hfs']
        rfl
    refine ⟨k', x, by simp [swapPageOut, hdeq, hmove], hx, hoff, ?_, ?_⟩
    · rw [Store.evict_cons hst, if_neg hfree]
      refine ⟨hlocks', ?_, ?_, ?_, ?_, ?_, ⟨f, ?_, ?_⟩, ?_⟩
      · simpa [hcur'] using h.pid
      · rw [hcurproc', hcur']
        exact hfifo.congr (by simp) (by simp)
      · simp [hcur']
        omega
      · rw [hcur']
        exact hslots1.congr (by simp [hcur1])
      · simp [hcur']
        omega
      · simpa [hcur'] using hf
      · rw [hfs']
        exact hfile
      · rw [hpgdir', hview]
        simpa only [List.append_assoc] using hmapped
    · rw [Store.evict_cons hst, if_neg hfree]
      intro b hb page hholds
      exact h.holds_writtenOff hst hx hoff hb hholds

end Swapping

/-! ### Mapping a page -/

/-- The current process has page table `i`. -/
def Kernel.hasTable (k : Kernel) (i : Nat) : Bool := ((k.pgdir k.cur.pgdir).pde i).isSome

/-- How many page tables `walkpgdir` adds for the pages of a list, where
    `has` says which there are. -/
def newTables (has : Nat → Bool) : List Nat → Nat
  | [] => 0
  | a :: l => (if has (PDX a) then 0 else 1) + newTables (Function.update has (PDX a) true) l

theorem view_newTable (k : Kernel) (d va t : Nat) (rest : List Nat) :
    (k.newTable d va t rest).view d = { (k.view d).addTable va t with freelist := rest } := by
  simp [Kernel.newTable, Kernel.view, MemView.addTable]

/-- A kernel whose directory `d` has a table for `va`: `k` itself, or `k`
    with a new one. -/
structure TableReady (k km : Kernel) (d va : Nat) : Prop where
  rest : km = { k with freelist := km.freelist, pgdir := km.pgdir }
  walk : ∀ b y, k.walkpgdir d b = some y → km.walkpgdir d b = some y
  sub : ∀ f ∈ km.freelist, f ∈ k.freelist
  free : km.freelist.length + (if ((k.pgdir d).pde (PDX va)).isSome then 0 else 1) = k.freelist.length
  tables : ∀ i, ((km.pgdir d).pde i).isSome = Function.update (fun i => ((k.pgdir d).pde i).isSome) (PDX va) true i

/-- `mappages` of the page behind the last one, with a frame for the page
    table if there is none. -/
theorem Mapped.mappages {k : Kernel} {d lim : Nat} {q out : List Nat} (h : Mapped (k.view d) lim q out)
    (hlim : lim % PGSIZE = 0) (hsmall : lim < KERNBASE) (x : Pte)
    (hroom : (if ((k.pgdir d).pde (PDX lim)).isSome then 0 else 1) ≤ k.freelist.length) :
    ∃ km y, Paging.mappages k d lim x = .ok (0, km.setPte d lim { x with p := true }) ∧
      TableReady k km d lim ∧ Mapped (km.view d) lim q out ∧ km.walkpgdir d lim = some y := by
  cases htable : (k.pgdir d).pde (PDX lim) with
  | some t =>
    have hwalk : k.walkpgdir d lim = some (t.pte (PTX lim)) := by simp [Kernel.walkpgdir, Pgdir.walk, htable]
    have hp := (h.unmapped lim hlim (Nat.le_refl lim) hsmall _ hwalk).1
    refine ⟨k, _, mappages_eq hwalk hp, ⟨rfl, fun _ _ hy => hy, fun _ hf => hf, ?_, ?_⟩, h, hwalk⟩
    · simp [htable]
    · intro i
      by_cases hi : i = PDX lim
      · simp [hi, htable]
      · simp [hi]
  | none =>
    have hone : 1 ≤ k.freelist.length := by simpa [htable] using hroom
    obtain ⟨t, rest, hfree⟩ := List.exists_cons_of_length_pos hone
    have hview := view_newTable k d lim t rest
    have htake : Mapped { (k.view d).addTable lim t with freelist := rest } lim q out :=
      (h.addTable htable).take hfree
    refine ⟨k.newTable d lim t rest, .zero, mappages_newTable htable hfree, ⟨rfl, ?_, ?_, ?_, ?_⟩, ?_, ?_⟩
    · intro b y hy
      have hy' : (k.view d).walk b = some y := hy
      have hwalk : ((k.view d).addTable lim t).walk b = some y := by
        rw [MemView.walk_addTable_ne (MemView.PDX_ne (v := k.view d) htable hy'), hy']
      have heq : ((k.newTable d lim t rest).view d).walk b = some y := by
        rw [hview]
        exact hwalk
      exact heq
    · intro f hf
      rw [hfree]
      exact List.mem_cons_of_mem t hf
    · simp [htable, hfree, Kernel.newTable]
    · intro i
      by_cases hi : i = PDX lim
      · simp [hi, Kernel.newTable]
      · simp [hi, Kernel.newTable]
    · rw [hview]
      exact htake
    · have heq : ((k.newTable d lim t rest).view d).walk lim = some .zero := by
        rw [hview]
        exact MemView.walk_addTable_self rfl
      exact heq

namespace Swapping

variable {k k' : Kernel} {lim a : Nat} {st : PageStore}

/-- A page is mapped and enqueued, as long as the list has room for it. -/
theorem mapPage {f : Nat} {rest : List Nat} (h : Swapping k lim st) (hlim : lim % PGSIZE = 0)
    (hsmall : lim + PGSIZE ≤ KERNBASE) (hlen : st.resident.length < MAX_PSYC_PAGES)
    (hfree : k.freelist = f :: rest)
    (hroom : (if k.hasTable (PDX lim) then 0 else 1) ≤ rest.length) :
    let k1 := ({ k with freelist := rest } : Kernel).setFrame f fun _ => 0
    ∃ k2 k', mappages k1 k.cur.pgdir lim ⟨f, true, true, true, false⟩ = .ok (0, k2) ∧
      enqueueFIFO k2 (PTE_ADDR lim) = .ok k' ∧ Swapping k' (lim + PGSIZE) (st.enter lim) ∧ Kept k k' ∧
      k'.freelist.length + (if k.hasTable (PDX lim) then 0 else 1) = rest.length ∧
      k'.hasTable = Function.update k.hasTable (PDX lim) true ∧
      (∀ b ∈ st.resident ++ st.spilled, ∀ bytes, Holds k b bytes → Holds k' b bytes) ∧
      Holds k' lim fun _ => 0 := by
  intro k1
  have hnd := h.mapped.free
  have hnd' : (f :: rest).Nodup := hfree ▸ hnd
  obtain ⟨hf, -⟩ := List.nodup_cons.mp hnd'
  have hmapped1 : Mapped (k1.view k.cur.pgdir) lim st.resident (st.spilled ++ st.lost) :=
    (h.mapped.take hfree).setFrame f fun _ => 0
  have hKERN : lim < KERNBASE := by
    simp only [PGSIZE, KERNBASE] at *
    omega
  obtain ⟨km, y, hmap, hready, hmappedm, hwalkm⟩ := hmapped1.mappages hlim hKERN ⟨f, true, true, true, false⟩ hroom
  have hcurproc : km.curproc = k.curproc := by rw [hready.rest]; rfl
  have hcur : km.cur = k.cur := by
    unfold Kernel.cur
    rw [hcurproc, hready.rest]
    rfl
  have hlocks : km.locks = [] := by
    rw [hready.rest]
    exact h.locks
  have hfs : km.fs = k.fs := by rw [hready.rest]; rfl
  have hframe : km.frame = k1.frame := by rw [hready.rest]
  have hkend : km.kend = k.kend := by rw [hready.rest]; rfl
  set new : Pte := ⟨f, true, true, true, false⟩ with hnew
  set k2 := km.setPte k.cur.pgdir lim new with hk2
  have hcur2 : k2.cur = k.cur := hcur
  have hcurproc2 : k2.curproc = k.curproc := hcurproc
  have hfifo2 : Fifo k2.curproc k2.cur st.resident := by
    rw [hcur2, hcurproc2]
    exact h.fifo
  obtain ⟨t, e, henq, hfifo'⟩ := hfifo2.enqueueFIFO hlen (PTE_ADDR lim)
  set k' := k2.setCur (k2.cur.enqueued t e (PTE_ADDR lim)) with hk'
  have hcur' : k'.cur = k.cur.enqueued t e (PTE_ADDR lim) := by
    rw [hk', Kernel.setCur_cur, hcur2]
  have hpgdir' : k'.cur.pgdir = k.cur.pgdir := by rw [hcur', Proc.enqueued_pgdir]
  have hview : k'.view k.cur.pgdir = (km.view k.cur.pgdir).setPte lim new := by
    simp [hk', hk2, Kernel.view, Kernel.setPte, MemView.setPte]
  -- the new frame is not used for another page
  have hwalk : ∀ b z, k.walkpgdir k.cur.pgdir b = some z → km.walkpgdir k.cur.pgdir b = some z :=
    fun b z hz => hready.walk b z hz
  have htaken : f ∉ km.freelist := fun hmem => hf (hready.sub f hmem)
  have hown : ∀ b ∈ st.resident, ∀ z, (km.view k.cur.pgdir).walk b = some z → z.ppn ≠ f := by
    intro b hb z hz heq
    obtain ⟨w, hw, -, -, -, hwtaken⟩ := h.walk_resident hb
    have hz' : km.walkpgdir k.cur.pgdir b = some z := hz
    rw [hwalk b w hw] at hz'
    cases hz'
    exact hwtaken (by simp [hfree, heq])
  have hok : (km.view k.cur.pgdir).FrameOk f := by
    have hok := h.mapped.freeOk f (by simp [Kernel.view, hfree])
    show km.kend ≤ f ∧ _
    rw [hkend]
    exact hok
  have hmapped' := hmappedm.map hwalkm hlim hsmall hok htaken hown
  obtain ⟨b0, hb0, hfile⟩ := h.file
  have hcounted := h.counted
  refine ⟨k2, k', hmap, henq, ⟨?_, ?_, ?_, ?_, ?_, ?_, ⟨b0, ?_, ?_⟩, ?_⟩, ⟨hcurproc, ?_, hpgdir', ?_⟩, hready.free,
    ?_, ?_, ?_⟩
  · exact hlocks
  · rw [hcur', Proc.enqueued_pid]
    exact h.pid
  · rw [PTE_ADDR_of_aligned hlim] at hfifo'
    rw [hcur', ← hcur2, PTE_ADDR_of_aligned hlim]
    exact hfifo'
  · rw [hcur', Proc.enqueued_nPagesInPhyMemory]
    simp only [Store.enter, List.length_append, List.length_singleton]
    omega
  · rw [hcur']
    exact h.slots.congr (by simp)
  · rw [hcur', Proc.enqueued_nPagesInSwapFile]
    exact h.slotsCounted
  · rw [hcur', Proc.enqueued_swapFile, hb0]
  · have hfs' : k'.fs = k.fs := hfs
    rw [hfs']
    exact hfile
  · rw [hpgdir', hview]
    exact hmapped'
  · rw [hcur', Proc.enqueued_sz]
  · rw [hcur', Proc.enqueued_killed]
  · funext i
    have hpd : k'.pgdir k.cur.pgdir = (km.pgdir k.cur.pgdir).setPte lim new := congrArg MemView.pd hview
    have hpde : ((k'.pgdir k.cur.pgdir).pde i).isSome = ((km.pgdir k.cur.pgdir).pde i).isSome := by
      rw [hpd, Bool.eq_iff_iff, Option.isSome_iff_ne_none, Option.isSome_iff_ne_none, ne_eq, Pgdir.pde_setPte]
    unfold Kernel.hasTable
    rw [hpgdir', hpde]
    exact hready.tables i
  · intro b hb bytes hholds
    rcases hholds with ⟨z, hz, hp, hbytes⟩ | ⟨i, b1, hi, hb1, hbytes⟩
    · have hitem : b ∈ st.resident ++ (st.spilled ++ st.lost) := by
        rw [← List.append_assoc]
        exact List.mem_append_left _ hb
      have hbq : b ∈ st.resident := by
        refine (List.mem_append.mp hb).resolve_right ?_
        intro hs
        obtain ⟨w, hw, hwp, -⟩ := h.walk_out (List.mem_append_left st.lost hs)
        rw [hz] at hw
        cases hw
        rw [hp] at hwp
        cases hwp
      have hpage := (h.mapped.outside_ne hitem hlim (Nat.le_refl lim)).symm
      have hz' : (k'.view k.cur.pgdir).walk b = some z := by
        rw [hview, MemView.walk_setPte_ne hpage]
        exact hwalk b z hz
      refine .inl ⟨z, ?_, hp, ?_⟩
      · rw [hpgdir']
        exact hz'
      · intro j hj
        have hne : z.ppn ≠ f := hown b hbq z (hwalk b z hz)
        have hbytes' : k'.frame z.ppn = k.frame z.ppn := by
          show km.frame z.ppn = _
          rw [hframe]
          exact Function.update_of_ne hne _ _
        rw [hbytes', hbytes j hj]
    · refine .inr ⟨i, b1, ?_, ?_, ?_⟩
      · rw [hcur', Proc.enqueued_pagesInSwapFile, hi]
      · rw [hcur', Proc.enqueued_swapFile, hb1]
      · have hfs' : k'.fs = k.fs := hfs
        rw [hfs']
        exact hbytes
  · refine .inl ⟨new, ?_, rfl, ?_⟩
    · have hself : (k'.view k.cur.pgdir).walk lim = some new := by
        rw [hview]
        exact MemView.walk_setPte_self hwalkm
      rw [hpgdir']
      exact hself
    · intro j _
      show km.frame f j = 0
      rw [hframe]
      exact congrFun (Function.update_self f _ k.frame) j

/-- `makeRoom` leaves room for a page in the list. -/
theorem makeRoom (h : Swapping k lim st) :
    ∃ k', Paging.makeRoom k = .ok k' ∧ Swapping k' lim st.room ∧ Kept k k' ∧
      k'.freelist.length + st.room.resident.length = k.freelist.length + st.resident.length ∧
      k'.hasTable = k.hasTable ∧
      ∀ b ∈ st.room.resident ++ st.room.spilled, ∀ bytes, Holds k b bytes → Holds k' b bytes := by
  have hcounted := h.counted
  by_cases hfull : MAX_PSYC_PAGES ≤ st.resident.length
  · have hst : st.room = st.evict MAX_PSYC_PAGES := if_pos hfull
    obtain ⟨a, q, hq⟩ := List.exists_cons_of_length_pos (Nat.lt_of_lt_of_le (by decide) hfull)
    have hlen : st.resident.length = q.length + 1 := by rw [hq, List.length_cons]
    have hne : q ≠ [] := by
      rintro rfl
      simp only [List.length_nil, MAX_PSYC_PAGES] at *
      omega
    obtain ⟨k', x, hout, hx, hoff, h', hholds⟩ := h.evict hq hne
    have hroom : Paging.makeRoom k = .ok k' := by
      unfold Paging.makeRoom
      rw [if_pos (by omega), cprintf_ok h.locks, ok_bind, hout]
    rw [hst]
    refine ⟨k', hroom, h', hoff.kept, ?_, ?_, hholds⟩
    · have hfree : k'.freelist = x.ppn :: k.freelist := congrArg MemView.freelist hoff.view
      have hres : (st.evict MAX_PSYC_PAGES).resident = q := by
        rw [Store.evict_cons hq]
        split <;> rfl
      rw [hfree, hres, hlen, List.length_cons]
      omega
    · funext i
      have hpd : k'.pgdir k.cur.pgdir = (k.pgdir k.cur.pgdir).setPte a .swapped := congrArg MemView.pd hoff.view
      unfold Kernel.hasTable
      rw [hoff.kept.pgdir, hpd, Bool.eq_iff_iff, Option.isSome_iff_ne_none, Option.isSome_iff_ne_none, ne_eq,
        Pgdir.pde_setPte]
  · have hst : st.room = st := if_neg hfull
    have hroom : Paging.makeRoom k = .ok k := by
      unfold Paging.makeRoom
      rw [if_neg (by omega)]
    rw [hst]
    exact ⟨k, hroom, h, ⟨rfl, rfl, rfl, rfl⟩, rfl, rfl, fun _ _ _ hb => hb⟩

end Swapping

/-! ### The loop of `allocuvm` -/

/-- `n` pages from `lim` on. -/
def nextPages (lim n : Nat) : List Nat := (List.range n).map fun i => lim + i * PGSIZE

theorem pageRange_eq (lo hi : Nat) : pageRange lo hi = nextPages lo ((hi - lo + PGSIZE - 1) / PGSIZE) := rfl

@[simp] theorem nextPages_zero (lim : Nat) : nextPages lim 0 = [] := rfl

@[simp] theorem length_nextPages (lim n : Nat) : (nextPages lim n).length = n := by simp [nextPages]

theorem nextPages_succ (lim n : Nat) : nextPages lim (n + 1) = lim :: nextPages (lim + PGSIZE) n := by
  rw [nextPages, nextPages, List.range_succ_eq_map, List.map_cons, List.map_map, Nat.zero_mul, Nat.add_zero]
  refine congrArg _ (List.map_congr_left ?_)
  intro i _
  simp only [Function.comp_apply, Nat.succ_mul]
  omega

theorem nextPages_add (lim m n : Nat) : nextPages lim (m + n) = nextPages lim m ++ nextPages (lim + m * PGSIZE) n := by
  induction m generalizing lim with
  | zero => simp
  | succ m ih =>
    rw [Nat.succ_add, nextPages_succ, nextPages_succ, ih, List.cons_append, Nat.succ_mul]
    congr 3
    omega

theorem mem_nextPages {lim n a : Nat} (hlim : lim % PGSIZE = 0) :
    a ∈ nextPages lim n ↔ a % PGSIZE = 0 ∧ lim ≤ a ∧ a < lim + n * PGSIZE := by
  simp only [nextPages, List.mem_map, List.mem_range]
  constructor
  · rintro ⟨i, hi, rfl⟩
    have hlt : i * PGSIZE + PGSIZE ≤ n * PGSIZE := by
      rw [← Nat.succ_mul]
      exact Nat.mul_le_mul_right _ hi
    simp only [PGSIZE] at *
    omega
  · rintro ⟨ha, hle, hlt⟩
    refine ⟨(a - lim) / PGSIZE, ?_, ?_⟩
    · rw [Nat.div_lt_iff_lt_mul (by decide)]
      omega
    · simp only [PGSIZE] at *
      omega

/-- Frames that the process has or may take. -/
def Kernel.framesFor (k : Kernel) (st : PageStore) : Nat := k.freelist.length + st.resident.length

theorem newTables_append (has : Nat → Bool) (l l' : List Nat) :
    newTables has l ≤ newTables has (l ++ l') := by
  induction l generalizing has with
  | nil => exact Nat.zero_le _
  | cons a l ih =>
    simp only [newTables, List.cons_append]
    have := ih (Function.update has (PDX a) true)
    omega

namespace Swapping

variable {k k' : Kernel} {lim a n : Nat} {st : PageStore}

theorem items_nodup (h : Swapping k lim st) : st.items.Nodup := by
  have := h.mapped.nodup
  rwa [← List.append_assoc] at this

theorem mem_items (h : Swapping k lim st) : a ∈ st.items ↔ a % PGSIZE = 0 ∧ a < lim := by
  have := h.mapped.pages a
  rwa [← List.append_assoc] at this

/-- The round that grows the process by a page, with frames for the page
    and its page table. -/
theorem round (h : Swapping k lim st) (hok : st.Ok MAX_PSYC_PAGES MAX_PSYC_PAGES) (hlim : lim % PGSIZE = 0)
    (hsmall : lim + PGSIZE ≤ KERNBASE)
    (hframes : min (st.resident.length + 1) MAX_PSYC_PAGES + (if k.hasTable (PDX lim) then 0 else 1) ≤ k.framesFor st) :
    ∃ k', (∀ oldsz newsz rest, Paging.allocLoop k.cur.pgdir oldsz newsz (lim :: rest) k =
        Paging.allocLoop k.cur.pgdir oldsz newsz rest k') ∧
      Swapping k' (lim + PGSIZE) (st.grown [lim]) ∧ Kept k k' ∧
      k'.framesFor (st.grown [lim]) + (if k.hasTable (PDX lim) then 0 else 1) = k.framesFor st ∧
      k'.hasTable = Function.update k.hasTable (PDX lim) true ∧
      (∀ b ∈ st.room.resident ++ st.room.spilled, ∀ bytes, Holds k b bytes → Holds k' b bytes) ∧
      Holds k' lim fun _ => 0 := by
  obtain ⟨k1, hroom, h1, hkept1, hframes1, htable1, hholds1⟩ := h.makeRoom
  have hres := hok.resident_push (by decide : 0 < MAX_PSYC_PAGES) lim
  have henter : (st.grown [lim]).resident.length = st.room.resident.length + 1 := by
    show (st.room.enter lim).resident.length = _
    simp [Store.enter]
  have hres' : (st.grown [lim]).resident.length = min (st.resident.length + 1) MAX_PSYC_PAGES := hres
  unfold Kernel.framesFor at hframes ⊢
  obtain ⟨f, rest', hfree⟩ := List.exists_cons_of_length_pos (by omega : 0 < k1.freelist.length)
  have hlen : k1.freelist.length = rest'.length + 1 := by rw [hfree, List.length_cons]
  rw [← htable1] at hframes
  obtain ⟨k2, k3, hmap, henq, h3, hkept3, hfree3, htable3, hholds3, hnew⟩ :=
    h1.mapPage hlim hsmall (by omega) hfree (by omega)
  rw [htable1] at hfree3 htable3 hframes
  refine ⟨k3, ?_, h3, hkept1.trans hkept3, ?_, htable3, ?_, hnew⟩
  · intro oldsz newsz rest
    rw [Paging.allocLoop, hroom]
    simp only [ok_bind, kalloc, hfree]
    rw [hkept1.pgdir] at hmap
    rw [hmap]
    simp only [ok_bind, henq]
    rw [if_neg (by decide)]
    split
    · rw [cprintf_ok h3.locks, ok_bind]
    · rfl
  · rw [henter]
    omega
  · intro b hb bytes hbytes
    exact hholds3 b hb bytes (hholds1 b hb bytes hbytes)

/-- What is neither in the list nor in a slot after the growth is lost. -/
theorem mem_room (h : Swapping k lim (st.grown (a :: nextPages (a + PGSIZE) n))) {b : Nat}
    (hb : b ∈ st.resident ++ st.spilled)
    (hb' : b ∈ (st.grown (a :: nextPages (a + PGSIZE) n)).resident ++ (st.grown (a :: nextPages (a + PGSIZE) n)).spilled) :
    b ∈ st.room.resident ++ st.room.spilled := by
  have hitem : b ∈ st.room.items :=
    (Store.items_makeRoom MAX_PSYC_PAGES MAX_PSYC_PAGES st).mem_iff.mpr (List.mem_append_left _ hb)
  refine (List.mem_append.mp hitem).resolve_right ?_
  intro hlost
  have hlost' : b ∈ (st.grown (a :: nextPages (a + PGSIZE) n)).lost := by
    show b ∈ (PageStore.grown (st.room.enter a) (nextPages (a + PGSIZE) n)).lost
    exact Store.mem_lost_pushAll hlost
  exact (List.nodup_append.mp h.items_nodup).2.2 b hb' b hlost' rfl

/-- The loop over the first `n` pages, by induction on `n`, with frames for
    them and their page tables. -/
theorem allocLoop (h : Swapping k lim st) (hok : st.Ok MAX_PSYC_PAGES MAX_PSYC_PAGES) (hlim : lim % PGSIZE = 0)
    (hsmall : lim + n * PGSIZE ≤ KERNBASE)
    (hframes : n ≠ 0 → min (st.resident.length + n) MAX_PSYC_PAGES + newTables k.hasTable (nextPages lim n) ≤ k.framesFor st) :
    ∃ k', (∀ oldsz newsz rest, Paging.allocLoop k.cur.pgdir oldsz newsz (nextPages lim n ++ rest) k =
        Paging.allocLoop k.cur.pgdir oldsz newsz rest k') ∧
      Swapping k' (lim + n * PGSIZE) (st.grown (nextPages lim n)) ∧ Kept k k' ∧
      k'.framesFor (st.grown (nextPages lim n)) + newTables k.hasTable (nextPages lim n) = k.framesFor st ∧
      (∀ l, newTables k.hasTable (nextPages lim n ++ l) =
        newTables k.hasTable (nextPages lim n) + newTables k'.hasTable l) ∧
      ∀ b ∈ (st.grown (nextPages lim n)).resident ++ (st.grown (nextPages lim n)).spilled,
        (b ∈ st.resident ++ st.spilled → ∀ bytes, Holds k b bytes → Holds k' b bytes) ∧
        (b ∈ nextPages lim n → Holds k' b fun _ => 0) := by
  induction n generalizing k lim st with
  | zero =>
    refine ⟨k, fun _ _ _ => rfl, by simpa using h, ⟨rfl, rfl, rfl, rfl⟩, rfl, fun l => (Nat.zero_add _).symm, ?_⟩
    intro b _
    exact ⟨fun _ bytes hbytes => hbytes, nofun⟩
  | succ n ih =>
    have hlim' : lim + PGSIZE + n * PGSIZE = lim + (n + 1) * PGSIZE := by
      rw [Nat.succ_mul]
      omega
    have hroom : lim + PGSIZE ≤ KERNBASE := by
      rw [← hlim'] at hsmall
      exact Nat.le_trans (Nat.le_add_right _ _) hsmall
    have hall := hframes (Nat.succ_ne_zero n)
    rw [nextPages_succ] at hall ⊢
    simp only [newTables] at hall
    obtain ⟨k1, hloop1, h1, hkept1, hframes1, htable1, hholds1, hnew1⟩ := h.round hok hlim hroom (by omega)
    have hok1 : (st.grown [lim]).Ok MAX_PSYC_PAGES MAX_PSYC_PAGES := hok.pushAll (by decide)
    have hres1 : (st.grown [lim]).resident.length = min (st.resident.length + 1) MAX_PSYC_PAGES :=
      hok.resident_push (by decide) lim
    rw [← htable1] at hall
    obtain ⟨k2, hloop2, h2, hkept2, hframes2, htable2, hholds2⟩ := ih h1 hok1
      (by simp only [PGSIZE] at *; omega) (by rw [hlim']; exact hsmall) (by intro _; omega)
    rw [hkept1.pgdir] at hloop2
    have hgrown : st.grown (lim :: nextPages (lim + PGSIZE) n) = (st.grown [lim]).grown (nextPages (lim + PGSIZE) n) := rfl
    rw [hlim'] at h2
    refine ⟨k2, ?_, h2, hkept1.trans hkept2, ?_, ?_, ?_⟩
    · intro oldsz newsz rest
      rw [List.cons_append, hloop1, hloop2]
    · rw [hgrown]
      simp only [newTables]
      rw [← htable1]
      omega
    · intro l
      simp only [List.cons_append, newTables]
      rw [← htable1, htable2 l]
      omega
    · intro b hb
      obtain ⟨hold, hnew⟩ := hholds2 b hb
      refine ⟨?_, ?_⟩
      · intro hb' bytes hbytes
        have hmem := mem_room h2 hb' hb
        refine hold ?_ bytes (hholds1 b hmem bytes hbytes)
        rcases List.mem_append.mp hmem with hr | hs
        · exact List.mem_append_left _ (List.mem_append_left _ hr)
        · exact List.mem_append_right _ hs
      · intro hb'
        rcases List.mem_cons.mp hb' with rfl | hrest
        · refine hold ?_ _ hnew1
          exact List.mem_append_left _ (List.mem_append_right _ (List.mem_singleton_self b))
        · exact hnew hrest

end Swapping

/-! ### Growth within the capacity -/

/-- The pages below a limit, in order. -/
theorem Mapped.length_eq {v : MemView} {lim : Nat} {q out : List Nat} (h : Mapped v lim q out) :
    (q ++ out).length * PGSIZE = PGROUNDUP lim := by
  have hround : (PGROUNDUP lim / PGSIZE) * PGSIZE = PGROUNDUP lim :=
    Nat.div_mul_cancel (Nat.dvd_of_mod_eq_zero (PGROUNDUP_aligned lim))
  have hnd : (nextPages 0 (PGROUNDUP lim / PGSIZE)).Nodup := by
    apply List.nodup_range.map
    intro i j hij
    simp only [Nat.zero_add] at hij
    exact Nat.eq_of_mul_eq_mul_right (by decide) hij
  have hperm : (q ++ out).Perm (nextPages 0 (PGROUNDUP lim / PGSIZE)) := by
    refine (List.perm_ext_iff_of_nodup h.nodup hnd).mpr ?_
    intro a
    rw [h.pages, mem_nextPages rfl, Nat.zero_add, hround]
    constructor
    · rintro ⟨ha, hlt⟩
      exact ⟨ha, Nat.zero_le a, (lt_PGROUNDUP ha).mpr hlt⟩
    · rintro ⟨ha, -, hlt⟩
      exact ⟨ha, (lt_PGROUNDUP ha).mp hlt⟩
  rw [hperm.length_eq, length_nextPages, hround]

/-- `kalloc` finds a page each time, for the pages `l` and for the page
    tables they need. -/
def EnoughFrames (k : Kernel) (resident : Nat) (l : List Nat) : Prop :=
  l ≠ [] → min (resident + l.length) MAX_PSYC_PAGES + newTables k.hasTable l ≤ k.freelist.length + resident

instance (k : Kernel) (resident : Nat) (l : List Nat) : Decidable (EnoughFrames k resident l) := by
  unfold EnoughFrames; infer_instance

theorem PGROUNDUP_le_KERNBASE {sz : Nat} (h : sz ≤ KERNBASE) : PGROUNDUP sz ≤ KERNBASE := by
  simp only [PGROUNDUP, PGSIZE, KERNBASE] at *
  omega

namespace Swapping

variable {k k' : Kernel} {oldsz newsz a : Nat} {st : PageStore}

theorem round_up (h : Swapping k oldsz st) : Swapping k (PGROUNDUP oldsz) st :=
  h.lim_congr (PGROUNDUP_le_KERNBASE h.mapped.small) fun _ ha => (lt_PGROUNDUP ha).symm

/-- `allocuvm` with enough frames. -/
theorem allocuvm (h : Swapping k oldsz st) (hok : st.Ok MAX_PSYC_PAGES MAX_PSYC_PAGES) (hle : oldsz ≤ newsz)
    (hsmall : newsz < KERNBASE) {new : List Nat} (hnew : new = pageRange (PGROUNDUP oldsz) newsz)
    (hframes : EnoughFrames k st.resident.length new) :
    ∃ k', Paging.allocuvm k k.cur.pgdir oldsz newsz = .ok (newsz, k') ∧ Swapping k' newsz (st.grown new) ∧
      Kept k k' ∧
      ∀ b ∈ (st.grown new).resident ++ (st.grown new).spilled,
        (b ∈ st.resident ++ st.spilled → ∀ bytes, Holds k b bytes → Holds k' b bytes) ∧
        (b ∈ new → Holds k' b fun _ => 0) := by
  subst hnew
  rw [pageRange_eq] at hframes ⊢
  obtain ⟨n, hn⟩ : ∃ n, n = (newsz - PGROUNDUP oldsz + PGSIZE - 1) / PGSIZE := ⟨_, rfl⟩
  rw [← hn] at hframes ⊢
  have hend : PGROUNDUP oldsz + n * PGSIZE ≤ KERNBASE := by
    have hup := PGROUNDUP_le_KERNBASE h.mapped.small
    have hal := PGROUNDUP_aligned oldsz
    simp only [PGSIZE, KERNBASE] at hup hn hsmall hal ⊢
    omega
  have hframes' : n ≠ 0 → min (st.resident.length + n) MAX_PSYC_PAGES +
      newTables k.hasTable (nextPages (PGROUNDUP oldsz) n) ≤ k.framesFor st := by
    intro hne
    have := hframes (List.ne_nil_of_length_pos (by rw [length_nextPages]; omega))
    rwa [length_nextPages] at this
  obtain ⟨k', hloop, h', hkept, -, -, hholds⟩ :=
    h.round_up.allocLoop hok (PGROUNDUP_aligned oldsz) hend hframes'
  refine ⟨k', ?_, ?_, hkept, hholds⟩
  · have := hloop oldsz newsz []
    rw [List.append_nil] at this
    rw [Paging.allocuvm, if_neg (Nat.not_le.mpr hsmall), if_neg (Nat.not_lt.mpr hle), pageRange_eq, ← hn, this]
    rfl
  · apply h'.lim_congr (Nat.le_of_lt hsmall)
    intro b hb
    have hup : b < PGROUNDUP oldsz ↔ b < oldsz := lt_PGROUNDUP hb
    have hal := PGROUNDUP_aligned oldsz
    simp only [PGSIZE] at hn hal hb ⊢
    omega

end Swapping

/-- Within 30 pages, and with frames for them, `allocuvm` keeps the state
    coherent and every page: the oldest pages move to the swap file, in the
    order in which they entered the list, and the new ones are cleared. -/
theorem allocuvm_grows {k : Kernel} {q s new : List Nat} {newsz : Nat}
    (h : Swapping k k.cur.sz ⟨q, s, []⟩) (hlt : k.cur.sz < newsz)
    (hnew : new = pageRange (PGROUNDUP k.cur.sz) newsz)
    (hmax : q.length + s.length + new.length ≤ MAX_TOTAL_PAGES)
    (hkalloc : EnoughFrames k q.length new) :
    ∃ k' q' s', allocuvm k k.cur.pgdir k.cur.sz newsz = .ok (newsz, k') ∧
      Swapping k' newsz ⟨q', s', []⟩ ∧ Coherent k' q' s' ∧ q'.length ≤ MAX_PSYC_PAGES ∧
      (∀ a ∈ q ++ s, ∀ bytes, Holds k a bytes → Holds k' a bytes) ∧
      (∀ a ∈ new, Holds k' a fun _ => 0) ∧
      -- the pages evicted, and the others
      ∃ evicted, s' = s ++ evicted ∧ evicted ++ q' = q ++ new := by
  have hlen := h.mapped.length_eq
  have hq : q.length ≤ MAX_PSYC_PAGES := h.fifo.length_le
  have hs : s.length ≤ MAX_PSYC_PAGES := h.slots.length_le
  simp only [List.append_nil, List.length_append] at hlen
  have hok : (⟨q, s, []⟩ : PageStore).Ok MAX_PSYC_PAGES MAX_PSYC_PAGES := ⟨hq, hs, fun hne => absurd rfl hne⟩
  have hcount : new.length = (newsz - PGROUNDUP k.cur.sz + PGSIZE - 1) / PGSIZE := by
    rw [hnew, pageRange_eq, length_nextPages]
  have hsmall : newsz < KERNBASE := by
    simp only [PGSIZE, MAX_TOTAL_PAGES, KERNBASE] at hlen hcount hmax ⊢
    omega
  obtain ⟨k', hrun, h', -, hholds⟩ := h.allocuvm hok (Nat.le_of_lt hlt) hsmall hnew hkalloc
  have hlost : (PageStore.grown ⟨q, s, []⟩ new).lost = [] := hok.lost_eq_nil (by decide) rfl hmax
  have hitems : ∀ a, a ∈ (PageStore.grown ⟨q, s, []⟩ new).items ↔ a ∈ new ++ (q ++ s ++ []) := fun a =>
    Store.items_pushAll.mem_iff
  have heq := hok.pushAll_eq (l := new) (by decide)
  have hok' : (PageStore.grown ⟨q, s, []⟩ new).Ok MAX_PSYC_PAGES MAX_PSYC_PAGES := hok.pushAll (by decide)
  obtain ⟨e, he⟩ : ∃ e, e = (⟨q, s, []⟩ : PageStore).evicted MAX_PSYC_PAGES new.length := ⟨_, rfl⟩
  rw [← he] at heq
  -- there are slots for all the pages evicted
  have htake : ((q ++ new).take e).take (MAX_PSYC_PAGES - s.length) = (q ++ new).take e := by
    apply List.take_of_length_le
    simp only [List.length_take, Store.evicted, MAX_PSYC_PAGES, MAX_TOTAL_PAGES] at he hmax ⊢
    omega
  have hspilled : (PageStore.grown ⟨q, s, []⟩ new).spilled = s ++ (q ++ new).take e := by
    rw [← htake]
    exact congrArg Store.spilled heq
  have hresident : (PageStore.grown ⟨q, s, []⟩ new).resident = (q ++ new).drop e := congrArg Store.resident heq
  generalize PageStore.grown ⟨q, s, []⟩ new = st' at *
  obtain ⟨q', s', lost⟩ := st'
  simp only at hlost hspilled hresident
  subst hlost hspilled hresident
  have hmem : ∀ a, a ∈ q ++ s ∨ a ∈ new → a ∈ (q ++ new).drop e ++ (s ++ (q ++ new).take e) := by
    intro a ha
    have := (hitems a).mpr (by simpa [or_comm, or_assoc, or_left_comm] using ha)
    simpa [Store.items] using this
  refine ⟨k', _, _, hrun, h', h'.coherent, hok'.resident_le, ?_, ?_, _, rfl, List.take_append_drop e _⟩
  · intro a ha bytes hbytes
    exact (hholds a (hmem a (.inl ha))).1 ha bytes hbytes
  · intro a ha
    exact (hholds a (hmem a (.inr ha))).2 ha

/-! ### A process that grows -/

/-- The state of a process that took no page fault yet. -/
theorem Paged.swapping {g lim : Nat} {k : Kernel} {q s : List Nat} {m : Nat → UInt8} (h : Paged g k lim q s m)
    (hphy : k.cur.nPagesInPhyMemory = q.length) (hswap : k.cur.nPagesInSwapFile = s.length) (hkend : 0 < k.kend) :
    Swapping k lim ⟨q, s, []⟩ := by
  obtain ⟨f, hf, hback⟩ := h.backed
  refine ⟨h.locks, h.pid, h.fifo, hphy, .of_slots h.slots, ?_, ⟨f, hf, hback.file⟩, ?_⟩
  · simpa using hswap
  · rw [List.append_nil]
    refine ⟨h.mem.nodup, h.mem.pages, h.mem.small.trans (by decide), ?_, h.mem.inj, ?_, ?_, h.mem.free,
      h.mem.freeOk, hkend⟩
    · intro a ha
      obtain ⟨x, hx⟩ := h.mem.resident a ha
      exact ⟨x, hx.walk, hx.p, hx.pg, hx.frameOk, hx.taken⟩
    · intro a ha
      exact ⟨.swapped, h.mem.swapped a ha, rfl, rfl⟩
    · intro a ha hle _ x hx
      rcases h.mem.unmapped a ha hle with hnone | hzero
      · rw [hnone] at hx
        cases hx
      · rw [hzero] at hx
        cases hx
        exact ⟨rfl, rfl⟩

theorem threePages_swapping : Swapping threePages threePages.cur.sz ⟨[0, PGSIZE, 2 * PGSIZE], [], []⟩ :=
  threePages_paged.swapping rfl rfl (by decide)

/-- Three pages that become sixteen: the first one moves to the swap file. -/
theorem allocuvm_grows_sixteen : ∃ k' q' s',
    allocuvm threePages threePages.cur.pgdir threePages.cur.sz (16 * PGSIZE) = .ok (16 * PGSIZE, k') ∧
      Swapping k' (16 * PGSIZE) ⟨q', s', []⟩ ∧ Coherent k' q' s' ∧ q'.length ≤ MAX_PSYC_PAGES ∧
      (∀ a ∈ [0, PGSIZE, 2 * PGSIZE] ++ [], ∀ bytes, Holds threePages a bytes → Holds k' a bytes) ∧
      (∀ a ∈ pageRange (PGROUNDUP threePages.cur.sz) (16 * PGSIZE), Holds k' a fun _ => 0) ∧
      ∃ evicted, s' = [] ++ evicted ∧
        evicted ++ q' = [0, PGSIZE, 2 * PGSIZE] ++ pageRange (PGROUNDUP threePages.cur.sz) (16 * PGSIZE) :=
  allocuvm_grows threePages_swapping (by decide) rfl (by decide) (by decide +kernel)

end Paging
