import Mathlib.Data.List.Basic
import Mathlib.Data.List.FinRange
import Mathlib.Data.Fintype.Prod
import OperatingSystem314.Lib.LinkedSlots
import OperatingSystem314.Paging.State

/-! # The FIFO list of resident pages

    `enqueueFIFO`, `dequeueFIFO` and `printQueue` of `vm.c`.  The list is
    threaded through the array `pagesInPhyMem`, and its links are raw
    pointers: nothing but an invariant keeps them inside the array of the
    process that follows them.

    `Chain p x cells` says so for the list of process `p` with contents
    `x`; in a `Queue` there are no elements in use beside it, and
    `Fifo p x q` forgets the cells and keeps the addresses.  Under a chain
    the two routines touch the current process only, under a queue they
    are the operations of a FIFO queue. -/

namespace Paging

open LinkedSlots

/-! ### The routines -/

/-- `cprintf`: the only effect kept is that it takes `cons.lock`. -/
def cprintf (k : Kernel) : Result Unit :=
  if .cons ∈ k.locks then panic "acquire" else .ok ()

theorem cprintf_eq_ok {k : Kernel} {u : Unit} (h : cprintf k = .ok u) : .cons ∉ k.locks := by
  unfold cprintf at h
  split at h
  · cases h
  · assumption

/-- There are no more cells than this in the process table. -/
abbrev NCELLS : Nat := NPROC * MAX_PSYC_PAGES

def Kernel.next (k : Kernel) (c : Cell) : Option Cell := (k.cell c).next

/-- The walk `while(temp->next != 0) temp = temp->next`. -/
def tailCell (k : Kernel) (c : Cell) : Result Cell :=
  match tailFrom k.next (NCELLS + 1) c with
  | some t => .ok t
  | none => .error .hang

def printQueue (k : Kernel) : Result Unit := do
  if k.cur.pid ≠ 1 ∧ k.cur.pid ≠ 2 then
    let head ← deref k.cur.head
    let _ ← tailCell k head
    cprintf k

/-- The first element of `pagesInPhyMem` with `in_use == 0`. -/
def freeCell (x : Proc) : Option (Fin MAX_PSYC_PAGES) :=
  (List.finRange MAX_PSYC_PAGES).find? fun i => (x.pagesInPhyMem i).in_use = false

def enqueueFIFO (k : Kernel) (addr : Nat) : Result Kernel :=
  match freeCell k.cur with
  | none => .ok k
  | some i => do
    let c : Cell := ⟨k.curproc, i⟩
    let k ← match k.cur.head with
      | none => pure (k.modCur fun x => x.setHead (some c))
      | some head => do
        let temp ← tailCell k head
        pure (k.setCell temp { k.cell temp with next := some c })
    let k := k.setCell c { address := addr, next := none, in_use := true }
    return k.modCur fun x => x.count 1 0

/-- Returns `-1`, as a `uint`, on an empty list. -/
def dequeueFIFO (k : Kernel) : Result (Nat × Kernel) := do
  cprintf k
  printQueue k
  match k.cur.head with
  | none => return (2 ^ 32 - 1, k)
  | some head =>
    let addr := (k.cell head).address
    let k := k.setCell head { k.cell head with address := 0, in_use := false }
    let k := k.modCur fun x => x.setHead (k.next head)
    cprintf k
    printQueue k
    return (addr, k)

/-- The first index with a property, as the array scans of the kernel find it. -/
theorem find?_finRange {n : Nat} {P : Fin n → Bool} {i : Fin n} (hi : P i = true)
    (hlt : ∀ j < i, P j = false) : (List.finRange n).find? P = some i := by
  rw [List.find?_eq_some_iff_getElem]
  refine ⟨hi, i, by simp, by simp, fun j hj => ?_⟩
  simp [hlt ⟨j, by omega⟩ hj]

/-! ### Reading an updated kernel -/

namespace Kernel

@[simp] theorem setProc_self (k : Kernel) (p : ProcId) (x : Proc) : (k.setProc p x).proc p = x := by
  simp [setProc]

@[simp] theorem setProc_ne (k : Kernel) {p r : ProcId} (x : Proc) (h : r ≠ p) :
    (k.setProc p x).proc r = k.proc r := by
  simp [setProc, h]

@[simp] theorem setCur_cur (k : Kernel) (x : Proc) : (k.setCur x).cur = x := by
  simp [setCur, cur, setProc]

@[simp] theorem setCur_setCur (k : Kernel) (x y : Proc) : (k.setCur x).setCur y = k.setCur y := by
  simp [setCur, setProc]

@[simp] theorem modCur_cur (k : Kernel) (f : Proc → Proc) : (k.modCur f).cur = f k.cur := by
  simp [modCur]

@[simp] theorem modCur_modCur (k : Kernel) (f g : Proc → Proc) :
    (k.modCur f).modCur g = k.modCur fun x => g (f x) := by
  simp [modCur]

@[simp] theorem modCur_curproc (k : Kernel) (f : Proc → Proc) :
    (k.modCur f).curproc = k.curproc := rfl

theorem setCell_modCur (k : Kernel) (f : Proc → Proc) (i : Fin MAX_PSYC_PAGES) (c : PageInPhyMem) :
    (k.modCur f).setCell ⟨k.curproc, i⟩ c = k.modCur fun x => (f x).setCell i c := by
  simp [setCell, modCur, setCur, setProc]

@[simp] theorem setCur_self (k : Kernel) : k.setCur k.cur = k := by
  simp [setCur, setProc, cur]

@[simp] theorem setCur_curproc (k : Kernel) (x : Proc) : (k.setCur x).curproc = k.curproc := rfl
@[simp] theorem setCur_locks (k : Kernel) (x : Proc) : (k.setCur x).locks = k.locks := rfl
@[simp] theorem setCur_pgdir (k : Kernel) (x : Proc) : (k.setCur x).pgdir = k.pgdir := rfl
@[simp] theorem setCur_frame (k : Kernel) (x : Proc) : (k.setCur x).frame = k.frame := rfl
@[simp] theorem setCur_freelist (k : Kernel) (x : Proc) : (k.setCur x).freelist = k.freelist := rfl
@[simp] theorem setCur_kend (k : Kernel) (x : Proc) : (k.setCur x).kend = k.kend := rfl
@[simp] theorem setCur_fs (k : Kernel) (x : Proc) : (k.setCur x).fs = k.fs := rfl

@[simp] theorem setPte_cur (k : Kernel) (d va : Nat) (x : Pte) : (k.setPte d va x).cur = k.cur :=
  rfl

@[simp] theorem setFrame_cur (k : Kernel) (f : Nat) (bytes : Nat → UInt8) :
    (k.setFrame f bytes).cur = k.cur := rfl

theorem setCur_proc_ne (k : Kernel) {r : ProcId} (x : Proc) (h : r ≠ k.curproc) :
    (k.setCur x).proc r = k.proc r := by
  simp [setCur, h]

/-- A cell of the current process, read in its own array. -/
theorem cell_own (k : Kernel) {c : Cell} (h : c.owner = k.curproc) :
    k.cell c = k.cur.pagesInPhyMem c.slot := by
  simp [cell, cur, h]

/-- A write to a cell of the current process. -/
theorem setCell_own (k : Kernel) {c : Cell} (h : c.owner = k.curproc) (x : PageInPhyMem) :
    k.setCell c x = k.modCur fun p => p.setCell c.slot x := by
  simp [setCell, modCur, setCur, cur, h]

end Kernel

/-! ### The queue invariant -/

/-- The links of the cells, read in one process. -/
def Proc.next (x : Proc) (c : Cell) : Option Cell := (x.pagesInPhyMem c.slot).next

/-- The address a cell of the process holds. -/
def Proc.addr (x : Proc) (c : Cell) : Nat := (x.pagesInPhyMem c.slot).address

/-- The list from `head` stays in `p`'s own array, in elements in use. -/
structure Chain (p : ProcId) (x : Proc) (cells : List Cell) : Prop where
  linked : Linked x.next x.head cells
  owner : ∀ c ∈ cells, c.owner = p
  used : ∀ c ∈ cells, (x.pagesInPhyMem c.slot).in_use = true

/-- It visits all the elements in use. -/
structure Queue (p : ProcId) (x : Proc) (cells : List Cell) : Prop extends Chain p x cells where
  full : ∀ i, (x.pagesInPhyMem i).in_use = true → ⟨p, i⟩ ∈ cells

/-- The list of process `p` holds the addresses `q`, oldest first. -/
def Fifo (p : ProcId) (x : Proc) (q : List Nat) : Prop :=
  ∃ cells, Queue p x cells ∧ q = cells.map x.addr

/-- The list depends on the array and the head only. -/
theorem Fifo.congr {p : ProcId} {x x' : Proc} {q : List Nat} (h : Fifo p x q)
    (hcells : x'.pagesInPhyMem = x.pagesInPhyMem) (hhead : x'.head = x.head) : Fifo p x' q := by
  have hnext : x'.next = x.next := by unfold Proc.next; rw [hcells]
  have haddr : x'.addr = x.addr := by unfold Proc.addr; rw [hcells]
  obtain ⟨cells, hq, rfl⟩ := h
  refine ⟨cells, ⟨⟨?_, hq.owner, ?_⟩, ?_⟩, by rw [haddr]⟩
  · rw [hnext, hhead]
    exact hq.linked
  · rw [hcells]
    exact hq.used
  · rw [hcells]
    exact hq.full

namespace Chain

variable {p : ProcId} {x : Proc} {cells : List Cell}

theorem nodup (h : Chain p x cells) : cells.Nodup := h.linked.nodup

theorem slot_inj (h : Chain p x cells) {c d : Cell} (hc : c ∈ cells) (hd : d ∈ cells)
    (heq : c.slot = d.slot) : c = d := by
  have hoc := h.owner c hc
  have hod := h.owner d hd
  cases c; cases d
  simp_all

/-- Two cells outside and inside the list have different slots. -/
theorem slot_ne (h : Chain p x cells) {c : Cell} {i : Fin MAX_PSYC_PAGES} (hc : c ∈ cells)
    (hi : (⟨p, i⟩ : Cell) ∉ cells) : c.slot ≠ i := by
  rintro rfl
  have := h.owner c hc
  subst this
  exact hi hc

theorem length_le (h : Chain p x cells) : cells.length ≤ MAX_PSYC_PAGES := by
  have hnd : (cells.map Cell.slot).Nodup :=
    List.Nodup.map_on (fun c hc d hd heq => h.slot_inj hc hd heq) h.nodup
  simpa using List.Nodup.length_le_card hnd

/-- An element that is not in use is not in the list. -/
theorem not_mem (h : Chain p x cells) {i : Fin MAX_PSYC_PAGES}
    (hi : (x.pagesInPhyMem i).in_use = false) : (⟨p, i⟩ : Cell) ∉ cells := by
  intro hmem
  have hused := h.used _ hmem
  rw [hi] at hused
  cases hused

/-- The walk from the head ends at the last cell. -/
theorem tailCell_eq {k : Kernel} {l : List Cell} {c t : Cell} (h : Chain k.curproc k.cur (l ++ [t]))
    (hc : k.cur.head = some c) : tailCell k c = .ok t := by
  have hl : Linked k.next (some c) (l ++ [t]) := by
    rw [← hc]
    refine h.linked.congr fun d hd => ?_
    simp [Kernel.next, Proc.next, k.cell_own (h.owner d hd)]
  have hlen := h.length_le
  have hfuel : l.length < NCELLS + 1 := by
    simp only [List.length_append, List.length_singleton, MAX_PSYC_PAGES] at hlen
    simp only [NCELLS, NPROC, MAX_PSYC_PAGES]
    omega
  simp [tailCell, hl.tailFrom_eq hfuel]

theorem printQueue_ok {k : Kernel} (h : Chain k.curproc k.cur cells) (hne : cells ≠ [])
    (hlocks : .cons ∉ k.locks) : printQueue k = .ok () := by
  obtain ⟨l, t, rfl⟩ : ∃ l t, cells = l ++ [t] :=
    ⟨_, _, (List.dropLast_append_getLast hne).symm⟩
  cases hhead : k.cur.head with
  | none =>
    have := h.linked
    rw [hhead] at this
    exact absurd this.eq_nil (by simp)
  | some c =>
    have htail := h.tailCell_eq hhead
    simp only [printQueue, hhead, deref]
    split
    · simp [htail, cprintf, hlocks]
    · rfl

end Chain

/-! ### `enqueueFIFO` appends -/

/-- The process after `addr` was put into cell `c`, linked in behind `t?`. -/
def Proc.enqueued (x : Proc) (t? : Option Cell) (c : Cell) (addr : Nat) : Proc :=
  let linked := match t? with
    | none => x.setHead (some c)
    | some t => x.setCell t.slot { x.pagesInPhyMem t.slot with next := some c }
  (linked.setCell c.slot { address := addr, next := none, in_use := true }).count 1 0

section enqueued

variable (x : Proc) {t? : Option Cell} {t c : Cell} {j : Fin MAX_PSYC_PAGES} (addr : Nat)

@[simp] theorem Proc.enqueued_cell (p : ProcId) :
    (x.enqueued t? ⟨p, j⟩ addr).pagesInPhyMem j = ⟨addr, none, true⟩ := by
  simp [Proc.enqueued]

@[simp] theorem Proc.enqueued_sz : (x.enqueued t? c addr).sz = x.sz := by
  cases t? <;> rfl
@[simp] theorem Proc.enqueued_pid : (x.enqueued t? c addr).pid = x.pid := by
  cases t? <;> rfl
@[simp] theorem Proc.enqueued_pgdir : (x.enqueued t? c addr).pgdir = x.pgdir := by
  cases t? <;> rfl
@[simp] theorem Proc.enqueued_killed : (x.enqueued t? c addr).killed = x.killed := by
  cases t? <;> rfl
@[simp] theorem Proc.enqueued_swapFile : (x.enqueued t? c addr).swapFile = x.swapFile := by
  cases t? <;> rfl
@[simp] theorem Proc.enqueued_pagesInSwapFile :
    (x.enqueued t? c addr).pagesInSwapFile = x.pagesInSwapFile := by
  cases t? <;> rfl
@[simp] theorem Proc.enqueued_nPagesInPhyMemory :
    (x.enqueued t? c addr).nPagesInPhyMemory = x.nPagesInPhyMemory + 1 := by
  cases t? <;> rfl
@[simp] theorem Proc.enqueued_nPagesInSwapFile :
    (x.enqueued t? c addr).nPagesInSwapFile = x.nPagesInSwapFile := by
  cases t? <;> simp [Proc.enqueued]

theorem Proc.enqueued_tail (h : t.slot ≠ c.slot) :
    (x.enqueued (some t) c addr).pagesInPhyMem t.slot =
      { x.pagesInPhyMem t.slot with next := some c } := by
  simp [Proc.enqueued, h]

theorem Proc.enqueued_other (hc : j ≠ c.slot) (ht : ∀ t ∈ t?, j ≠ t.slot) :
    (x.enqueued t? c addr).pagesInPhyMem j = x.pagesInPhyMem j := by
  cases t? with
  | none => simp [Proc.enqueued, hc]
  | some t => simp [Proc.enqueued, hc, ht t rfl]

/-- Apart from the new cell only one link changes. -/
theorem Proc.enqueued_keeps (h : j ≠ c.slot) :
    ((x.enqueued t? c addr).pagesInPhyMem j).in_use = (x.pagesInPhyMem j).in_use ∧
      ((x.enqueued t? c addr).pagesInPhyMem j).address = (x.pagesInPhyMem j).address := by
  cases t? with
  | none => simp [Proc.enqueued_other x addr h]
  | some t =>
    by_cases hjt : j = t.slot
    · subst hjt; simp [Proc.enqueued_tail x addr h]
    · rw [Proc.enqueued_other x addr h (by simpa using hjt)]
      exact ⟨rfl, rfl⟩

end enqueued

namespace Chain

variable {p : ProcId} {x : Proc} {cells : List Cell}

theorem enqueued (h : Chain p x cells) {i : Fin MAX_PSYC_PAGES} (hi : (⟨p, i⟩ : Cell) ∉ cells)
    (addr : Nat) : Chain p (x.enqueued cells.getLast? ⟨p, i⟩ addr) (cells ++ [⟨p, i⟩]) := by
  refine ⟨?_, ?_, ?_⟩
  · obtain rfl | ⟨l, t, rfl⟩ := List.eq_nil_or_concat' cells
    · exact ⟨rfl, by simp [Proc.next]⟩
    · -- the old tail now points to the new cell, the other links are untouched
      have hti : t.slot ≠ i := h.slot_ne (by simp) hi
      rw [List.getLast?_concat, List.append_assoc]
      refine Linked.append_tail h.linked hi ?_ ?_ fun d hd => ?_
      · simp [Proc.next, Proc.enqueued_tail x addr (c := ⟨p, i⟩) hti]
      · simp [Proc.next]
      · have hdt : d.slot ≠ t.slot := fun heq => by
          have := h.slot_inj (List.mem_append_left _ hd) (by simp) heq
          subst this
          exact (List.nodup_append.mp h.nodup).2.2 d hd d (by simp) rfl
        have hdi : d.slot ≠ i := h.slot_ne (List.mem_append_left _ hd) hi
        simp only [Proc.next]
        rw [Proc.enqueued_other x addr hdi (by simpa using hdt)]
  · intro c hc
    rcases List.mem_append.mp hc with hc | hc
    · exact h.owner c hc
    · simp at hc; simp [hc]
  · intro c hc
    rcases List.mem_append.mp hc with hc | hc
    · rw [(Proc.enqueued_keeps x addr (c := ⟨p, i⟩) (h.slot_ne hc hi)).1]
      exact h.used c hc
    · rw [List.mem_singleton.mp hc, Proc.enqueued_cell]

/-- What `enqueueFIFO` does once it has found a free cell. -/
theorem enqueueFIFO_eq {k : Kernel} (h : Chain k.curproc k.cur cells) {i : Fin MAX_PSYC_PAGES}
    (hfree : freeCell k.cur = some i) (addr : Nat) :
    enqueueFIFO k addr = .ok (k.setCur (k.cur.enqueued cells.getLast? ⟨k.curproc, i⟩ addr)) := by
  simp only [enqueueFIFO, hfree]
  obtain rfl | ⟨l, t, rfl⟩ := List.eq_nil_or_concat' cells
  · have hhead : k.cur.head = none := h.linked
    simp only [hhead, pure_bind, Kernel.setCell_modCur, Kernel.modCur_modCur]
    rfl
  · cases hhead : k.cur.head with
    | none =>
      have := h.linked
      rw [hhead] at this
      exact absurd this.eq_nil (by simp)
    | some c =>
      have howner : t.owner = k.curproc := h.owner t (by simp)
      simp only [h.tailCell_eq hhead, bind, Except.bind, pure, Except.pure, Kernel.cell_own, howner,
        Kernel.setCell_own, Kernel.setCell_modCur, Kernel.modCur_modCur, List.getLast?_concat]
      rfl

/-- `enqueueFIFO` on a list in the process's own array: whether or not a
    cell is free, no other process changes. -/
theorem enqueueFIFO_ok {k k' : Kernel} {addr : Nat} (h : Chain k.curproc k.cur cells)
    (henq : enqueueFIFO k addr = .ok k') :
    ∃ x cells', k' = k.setCur x ∧ Chain k.curproc x cells' := by
  cases hfree : freeCell k.cur with
  | none =>
    simp only [enqueueFIFO, hfree] at henq
    cases henq
    exact ⟨k.cur, cells, (k.setCur_self).symm, h⟩
  | some i =>
    rw [h.enqueueFIFO_eq hfree] at henq
    cases henq
    have hi : (⟨k.curproc, i⟩ : Cell) ∉ cells := h.not_mem (by simpa using List.find?_some hfree)
    exact ⟨_, _, rfl, h.enqueued hi addr⟩

end Chain

namespace Queue

variable {p : ProcId} {x : Proc} {cells : List Cell}

/-- A queue that is not full leaves a cell free, and the search finds one. -/
theorem freeCell_eq (h : Queue p x cells) (hlen : cells.length < MAX_PSYC_PAGES) :
    ∃ i, freeCell x = some i ∧ (⟨p, i⟩ : Cell) ∉ cells := by
  cases hf : freeCell x with
  | some i =>
    have hfree := List.find?_some hf
    exact ⟨i, rfl, h.not_mem (by simpa using hfree)⟩
  | none =>
    -- every cell would be in use, and the queue would hold all of them
    have hall : ∀ i, (⟨p, i⟩ : Cell) ∈ cells := by
      intro i
      have := List.find?_eq_none.mp hf i (List.mem_finRange i)
      exact h.full i (by simpa using this)
    have hsub : (List.finRange MAX_PSYC_PAGES).map (Cell.mk p) ⊆ cells := by
      intro c hc
      obtain ⟨i, -, rfl⟩ := List.mem_map.mp hc
      exact hall i
    have hnd : ((List.finRange MAX_PSYC_PAGES).map (Cell.mk p)).Nodup :=
      (List.nodup_finRange _).map fun i j hij => by simpa using hij
    have hle := (hnd.subperm hsub).length_le
    simp at hle
    omega

theorem enqueued (h : Queue p x cells) {i : Fin MAX_PSYC_PAGES} (hi : (⟨p, i⟩ : Cell) ∉ cells)
    (addr : Nat) : Queue p (x.enqueued cells.getLast? ⟨p, i⟩ addr) (cells ++ [⟨p, i⟩]) := by
  refine ⟨h.toChain.enqueued hi addr, fun j hj => ?_⟩
  by_cases hji : j = i
  · subst hji
    simp
  · rw [(Proc.enqueued_keeps x addr (c := ⟨p, i⟩) hji).1] at hj
    exact List.mem_append_left _ (h.full j hj)

end Queue

/-- `enqueueFIFO` on a queue that is not full appends the address. -/
theorem Fifo.enqueueFIFO {k : Kernel} {q : List Nat} (h : Fifo k.curproc k.cur q)
    (hlen : q.length < MAX_PSYC_PAGES) (addr : Nat) :
    ∃ t c, Paging.enqueueFIFO k addr = .ok (k.setCur (k.cur.enqueued t c addr)) ∧
      Fifo k.curproc (k.cur.enqueued t c addr) (q ++ [addr]) := by
  obtain ⟨cells, hq, rfl⟩ := h
  obtain ⟨i, hfree, hi⟩ := hq.freeCell_eq (by simpa using hlen)
  refine ⟨_, _, hq.enqueueFIFO_eq hfree addr, cells ++ [⟨k.curproc, i⟩], hq.enqueued hi addr, ?_⟩
  have hold : ∀ c ∈ cells, (k.cur.enqueued cells.getLast? ⟨k.curproc, i⟩ addr).addr c = k.cur.addr c :=
    fun c hc => (Proc.enqueued_keeps _ addr (hq.slot_ne hc hi)).2
  simp only [List.map_append, List.map_cons, List.map_nil, List.map_congr_left hold]
  simp [Proc.addr]

/-! ### `dequeueFIFO` removes the oldest entry -/

/-- The process after the head cell `c` was given up. -/
def Proc.dequeued (x : Proc) (c : Cell) : Proc :=
  (x.setCell c.slot { x.pagesInPhyMem c.slot with address := 0, in_use := false }).setHead
    (x.pagesInPhyMem c.slot).next

section dequeued

variable (x : Proc) (c : Cell)

@[simp] theorem Proc.dequeued_sz : (x.dequeued c).sz = x.sz := rfl
@[simp] theorem Proc.dequeued_pid : (x.dequeued c).pid = x.pid := rfl
@[simp] theorem Proc.dequeued_pgdir : (x.dequeued c).pgdir = x.pgdir := rfl
@[simp] theorem Proc.dequeued_killed : (x.dequeued c).killed = x.killed := rfl
@[simp] theorem Proc.dequeued_swapFile : (x.dequeued c).swapFile = x.swapFile := rfl
@[simp] theorem Proc.dequeued_pagesInSwapFile :
    (x.dequeued c).pagesInSwapFile = x.pagesInSwapFile := rfl
@[simp] theorem Proc.dequeued_nPagesInPhyMemory :
    (x.dequeued c).nPagesInPhyMemory = x.nPagesInPhyMemory := rfl
@[simp] theorem Proc.dequeued_nPagesInSwapFile :
    (x.dequeued c).nPagesInSwapFile = x.nPagesInSwapFile := rfl

end dequeued

namespace Chain

variable {p : ProcId} {x : Proc} {cells : List Cell} {c : Cell}

theorem not_mem_slot (h : Chain p x (c :: cells)) {d : Cell} (hd : d ∈ cells) : d.slot ≠ c.slot := by
  intro heq
  have := h.slot_inj (by simp [hd]) (by simp) heq
  subst this
  exact (List.nodup_cons.mp h.nodup).1 hd

theorem dequeued (h : Chain p x (c :: cells)) : Chain p (x.dequeued c) cells := by
  have hother : ∀ d ∈ cells, (x.dequeued c).next d = x.next d := fun d hd => by
    simp [Proc.next, Proc.dequeued, h.not_mem_slot hd]
  refine ⟨h.linked.2.congr hother, fun d hd => h.owner d (by simp [hd]), fun d hd => ?_⟩
  have hused := h.used d (by simp [hd])
  simpa [Proc.dequeued, h.not_mem_slot hd] using hused

theorem dequeued_addr (h : Chain p x (c :: cells)) {d : Cell} (hd : d ∈ cells) :
    (x.dequeued c).addr d = x.addr d := by
  simp [Proc.addr, Proc.dequeued, h.not_mem_slot hd]

/-- What `dequeueFIFO` does before it prints the remaining list. -/
theorem dequeueFIFO_eq {k : Kernel} (h : Chain k.curproc k.cur (c :: cells)) (hlocks : .cons ∉ k.locks) :
    dequeueFIFO k = (do
      printQueue (k.setCur (k.cur.dequeued c))
      return (k.cur.addr c, k.setCur (k.cur.dequeued c))) := by
  have howner : c.owner = k.curproc := h.owner c (by simp)
  have hprint := h.printQueue_ok (by simp) hlocks
  have hhead : k.cur.head = some c := h.linked.1
  have hprintf : ∀ k' : Kernel, .cons ∉ k'.locks → cprintf k' = .ok () := fun k' h' => by
    simp [cprintf, h']
  have hnext : ∀ cell, (k.modCur fun x => x.setCell c.slot cell).next c = cell.next := fun cell => by
    rw [Kernel.next, Kernel.cell_own _ (by simpa using howner)]
    simp
  simp only [dequeueFIFO, hprintf k hlocks, hprint, hhead, bind, Except.bind, Kernel.cell_own, howner,
    Kernel.setCell_own, Kernel.modCur_modCur, hnext]
  simp [Kernel.modCur, hprintf, hlocks, Proc.dequeued, Proc.addr]

/-- `dequeueFIFO` of a list in the process's own array. -/
theorem dequeueFIFO_ok {k k' : Kernel} {cells : List Cell} {addr : Nat}
    (h : Chain k.curproc k.cur cells) (hdeq : dequeueFIFO k = .ok (addr, k')) :
    ∃ x cells', k' = k.setCur x ∧ Chain k.curproc x cells' := by
  cases cells with
  | nil =>
    have hhead : k.cur.head = none := h.linked
    simp only [dequeueFIFO, hhead, bind_eq_ok] at hdeq
    obtain ⟨-, -, -, -, hdeq⟩ := hdeq
    cases hdeq
    exact ⟨k.cur, [], (k.setCur_self).symm, h⟩
  | cons c cells =>
    have hlocks : .cons ∉ k.locks := by
      simp only [dequeueFIFO, bind_eq_ok] at hdeq
      obtain ⟨u, hprint, -⟩ := hdeq
      exact cprintf_eq_ok hprint
    rw [h.dequeueFIFO_eq hlocks] at hdeq
    simp only [bind_eq_ok] at hdeq
    obtain ⟨-, -, hdeq⟩ := hdeq
    cases hdeq
    exact ⟨_, cells, rfl, h.dequeued⟩

end Chain

/-- A queue without its head. -/
theorem Queue.dequeued {p : ProcId} {x : Proc} {cells : List Cell} {c : Cell}
    (h : Queue p x (c :: cells)) : Queue p (x.dequeued c) cells := by
  refine ⟨h.toChain.dequeued, fun j hj => ?_⟩
  by_cases hjc : j = c.slot
  · -- the cell given up is not in use
    subst hjc
    simp [Proc.dequeued] at hj
  · have hmem := h.full j (by simpa [Proc.dequeued, hjc] using hj)
    refine (List.mem_cons.mp hmem).resolve_left ?_
    rintro rfl
    exact hjc rfl

/-- `dequeueFIFO` on a queue of at least two entries returns the oldest. -/
theorem Fifo.dequeueFIFO {k : Kernel} {a : Nat} {q : List Nat} (h : Fifo k.curproc k.cur (a :: q))
    (hne : q ≠ []) (hlocks : .cons ∉ k.locks) :
    ∃ c, Paging.dequeueFIFO k = .ok (a, k.setCur (k.cur.dequeued c)) ∧
      Fifo k.curproc (k.cur.dequeued c) q := by
  obtain ⟨cells, hq, heq⟩ := h
  cases cells with
  | nil => simp at heq
  | cons c cells =>
    simp only [List.map_cons, List.cons.injEq] at heq
    obtain ⟨rfl, rfl⟩ := heq
    have hrest := hq.dequeued
    have hcells : cells ≠ [] := by simpa using hne
    have hprint : printQueue (k.setCur (k.cur.dequeued c)) = .ok () :=
      Chain.printQueue_ok (by simpa using hrest.toChain) hcells hlocks
    refine ⟨c, by simp [hq.dequeueFIFO_eq hlocks, hprint], cells, hrest, ?_⟩
    exact List.map_congr_left fun d hd => (hq.dequeued_addr hd).symm

/-- `dequeueFIFO` on a queue of one entry follows a null head when it
    prints what is left. -/
theorem Fifo.dequeueFIFO_single {k : Kernel} {a : Nat} (h : Fifo k.curproc k.cur [a])
    (hpid : k.cur.pid ≠ 1 ∧ k.cur.pid ≠ 2) (hlocks : .cons ∉ k.locks) :
    Paging.dequeueFIFO k = .error .nullDeref := by
  obtain ⟨cells, hq, heq⟩ := h
  obtain ⟨c, rfl⟩ : ∃ c, cells = [c] := by
    have := congrArg List.length heq
    exact List.length_eq_one_iff.mp (by simpa using this.symm)
  have hrest := hq.dequeued
  have hhead : (k.cur.dequeued c).head = none := hrest.linked
  simp [hq.dequeueFIFO_eq hlocks, printQueue, hhead, hpid]

/-- `dequeueFIFO` on an empty queue follows the null head at once. -/
theorem Fifo.dequeueFIFO_nil {k : Kernel} (h : Fifo k.curproc k.cur [])
    (hpid : k.cur.pid ≠ 1 ∧ k.cur.pid ≠ 2) (hlocks : .cons ∉ k.locks) :
    Paging.dequeueFIFO k = .error .nullDeref := by
  obtain ⟨cells, hq, heq⟩ := h
  obtain rfl : cells = [] := by simpa using heq.symm
  have hhead : k.cur.head = none := hq.linked
  simp [Paging.dequeueFIFO, printQueue, cprintf, hlocks, hhead, hpid]

theorem Fifo.length_le {p : ProcId} {x : Proc} {q : List Nat} (h : Fifo p x q) :
    q.length ≤ MAX_PSYC_PAGES := by
  obtain ⟨cells, hq, rfl⟩ := h
  simpa using hq.length_le

/-- Elements of `pagesInPhyMem` in use. -/
def queued (x : Proc) : Nat := (List.finRange MAX_PSYC_PAGES).countP fun i => (x.pagesInPhyMem i).in_use

theorem Fifo.queued_eq {p : ProcId} {x : Proc} {q : List Nat} (h : Fifo p x q) :
    queued x = q.length := by
  obtain ⟨cells, hq, rfl⟩ := h
  have hnd : (cells.map Cell.slot).Nodup :=
    List.Nodup.map_on (fun c hc d hd heq => hq.slot_inj hc hd heq) hq.nodup
  have hperm : ((List.finRange MAX_PSYC_PAGES).filter fun i => (x.pagesInPhyMem i).in_use).Perm
      (cells.map Cell.slot) := by
    refine (List.perm_ext_iff_of_nodup ((List.nodup_finRange _).filter _) hnd).mpr fun i => ?_
    simp only [List.mem_filter, List.mem_finRange, true_and, List.mem_map]
    constructor
    · exact fun hi => ⟨_, hq.full i hi, rfl⟩
    · rintro ⟨c, hc, rfl⟩
      exact hq.used c hc
  rw [queued, List.countP_eq_length_filter, hperm.length_eq]
  simp

end Paging
