import Mathlib.Logic.Relation
import OperatingSystem314.Paging.ForkMemory

/-! # The queues of parent and child after `fork`

    `fork` copies `head` and the links as they are.  If the parent has a
    list, the child's list is the parent's: it starts in the parent's
    array.  If the parent has none, both lists stay in the array of their
    owner (`Chain`) whatever the two processes do, and neither changes the
    other's metadata. -/

namespace Paging

open Relation (ReflTransGen)

/-! ### Calls by two processes -/

inductive PagingCall where
  | enqueueFIFO (addr : Nat)
  | dequeueFIFO
  | swapPageOut
  | swapPageIn (fault_addr : Nat)

/-- A call by the current process. -/
def PagingCall.run (k : Kernel) : PagingCall → Result Kernel
  | .enqueueFIFO addr => Paging.enqueueFIFO k addr
  | .dequeueFIFO => do
    let (_, k) ← Paging.dequeueFIFO k
    return k
  | .swapPageOut => Paging.swapPageOut k
  | .swapPageIn fault_addr => Paging.swapPageIn k fault_addr

def Kernel.switchTo (k : Kernel) (p : ProcId) : Kernel := { k with curproc := p }

/-- One of the two processes is scheduled and makes a call. -/
def Turn (p c : ProcId) (k k' : Kernel) : Prop :=
  ∃ who call, (who = p ∨ who = c) ∧ PagingCall.run (k.switchTo who) call = .ok k'

/-- The list, the array and the counters are the same. -/
def SameMetadata (x y : Proc) : Prop :=
  y.pagesInPhyMem = x.pagesInPhyMem ∧ y.head = x.head ∧
    y.nPagesInPhyMemory = x.nPagesInPhyMemory ∧ y.nPagesInSwapFile = x.nPagesInSwapFile

/-- The queues of the parent `p` and the child `c` have nothing to do with each other. -/
structure Independent (k : Kernel) (p c : ProcId) : Prop where
  /-- the child's list lies in its own array -/
  own : ∀ h cell, (k.proc c).head = some h → ReflTransGen (fun a b => k.next a = some b) h cell →
    cell.owner = c
  /-- whatever the two did before, a call by one does not change the other -/
  apart : ∀ k1 k2 who other call, ReflTransGen (Turn p c) k k1 →
    (who = p ∧ other = c ∨ who = c ∧ other = p) →
    PagingCall.run (k1.switchTo who) call = .ok k2 → SameMetadata (k1.proc other) (k2.proc other)

/-! ### Lists that stay in their owner's array -/

theorem Chain.congr {p : ProcId} {x y : Proc} {cells : List Cell} (h : Chain p x cells)
    (hcells : y.pagesInPhyMem = x.pagesInPhyMem) (hhead : y.head = x.head) : Chain p y cells := by
  have hnext : y.next = x.next := by unfold Proc.next; rw [hcells]
  refine ⟨?_, h.owner, ?_⟩
  · rw [hnext, hhead]
    exact h.linked
  · rw [hcells]
    exact h.used

/-- The list of process `p` lies in `p`'s array. -/
def OwnList (k : Kernel) (p : ProcId) : Prop := ∃ cells, Chain p (k.proc p) cells

/-- Only the current process changes, and its list stays where it was. -/
structure StaysHome (k k' : Kernel) : Prop where
  curproc : k'.curproc = k.curproc
  others : ∀ p, p ≠ k.curproc → k'.proc p = k.proc p
  list : OwnList k' k.curproc

theorem StaysHome.trans {k k' k'' : Kernel} (h : StaysHome k k') (h' : StaysHome k' k'') :
    StaysHome k k'' := by
  refine ⟨h'.curproc.trans h.curproc, ?_, ?_⟩
  · intro p hp
    rw [h'.others p (by rwa [h.curproc]), h.others p hp]
  · rw [← h.curproc]
    exact h'.list

theorem StaysHome.setCur (k : Kernel) {x : Proc} {cells : List Cell} (h : Chain k.curproc x cells) :
    StaysHome k (k.setCur x) := by
  refine ⟨rfl, ?_, cells, ?_⟩
  · intro p hp
    exact k.setCur_proc_ne x hp
  · have : (k.setCur x).proc k.curproc = x := k.setCur_cur x
    rw [this]
    exact h

/-- What leaves the list alone. -/
theorem StaysHome.of_onlyCur {k k' : Kernel} (hlist : OwnList k k.curproc) (h : OnlyCur k k')
    (hcells : k'.cur.pagesInPhyMem = k.cur.pagesInPhyMem) (hhead : k'.cur.head = k.cur.head) :
    StaysHome k k' := by
  obtain ⟨cells, hchain⟩ := hlist
  refine ⟨h.curproc, h.same, cells, ?_⟩
  have hcur : k'.cur = k'.proc k.curproc := by rw [Kernel.cur, h.curproc]
  rw [hcur] at hcells hhead
  exact hchain.congr hcells hhead

theorem enqueueFIFO_home {k k' : Kernel} {addr : Nat} (hlist : OwnList k k.curproc)
    (h : enqueueFIFO k addr = .ok k') : StaysHome k k' := by
  obtain ⟨cells, hchain⟩ := hlist
  obtain ⟨x, cells', rfl, hx⟩ := hchain.enqueueFIFO_ok h
  exact .setCur k hx

theorem dequeueFIFO_home {k k' : Kernel} {addr : Nat} (hlist : OwnList k k.curproc)
    (h : dequeueFIFO k = .ok (addr, k')) : StaysHome k k' := by
  obtain ⟨cells, hchain⟩ := hlist
  obtain ⟨x, cells', rfl, hx⟩ := hchain.dequeueFIFO_ok h
  exact .setCur k hx

theorem OwnList.next {k k' : Kernel} (h : StaysHome k k') : OwnList k' k'.curproc := by
  rw [h.curproc]
  exact h.list

theorem swapPageOut_home {k k' : Kernel} (hlist : OwnList k k.curproc) (h : swapPageOut k = .ok k') :
    StaysHome k k' := by
  obtain ⟨a, k1, hdeq, hmove⟩ := swapPageOut_ok h
  have h1 := dequeueFIFO_home hlist hdeq
  obtain ⟨h2, hcells, hhead, -⟩ := moveToSwapFile_ok hmove
  exact h1.trans (.of_onlyCur (.next h1) h2 hcells hhead)

theorem swapPageIn_home {k k' : Kernel} {va : Nat} (hlist : OwnList k k.curproc)
    (h : swapPageIn k va = .ok k') : StaysHome k k' := by
  rcases swapPageIn_ok h with ⟨-, rfl⟩ | ⟨i, b, k1, k2, y, -, hdeq, h2, henq, hcells, hhead, -⟩
  · exact ⟨rfl, fun _ _ => rfl, hlist⟩
  · have h1 := dequeueFIFO_home hlist hdeq
    have h12 := h1.trans (.of_onlyCur (.next h1) h2 hcells hhead)
    exact h12.trans (enqueueFIFO_home (.next h12) henq)

theorem PagingCall.run_home {k k' : Kernel} {call : PagingCall} (hlist : OwnList k k.curproc)
    (h : call.run k = .ok k') : StaysHome k k' := by
  cases call with
  | enqueueFIFO addr => exact enqueueFIFO_home hlist h
  | dequeueFIFO =>
    simp only [PagingCall.run, bind_eq_ok] at h
    obtain ⟨⟨addr, k1⟩, hdeq, h⟩ := h
    cases h
    exact dequeueFIFO_home hlist hdeq
  | swapPageOut => exact swapPageOut_home hlist h
  | swapPageIn va => exact swapPageIn_home hlist h

/-! ### Runs of the two processes -/

/-- A call keeps both lists in their arrays. -/
theorem ownLists_turn {p c : ProcId} {k k' : Kernel} (hp : OwnList k p) (hc : OwnList k c)
    (hturn : Turn p c k k') : OwnList k' p ∧ OwnList k' c := by
  obtain ⟨who, call, hwho, hrun⟩ := hturn
  have hlist : OwnList k who := by
    rcases hwho with rfl | rfl
    · exact hp
    · exact hc
  have h := PagingCall.run_home (k := k.switchTo who) hlist hrun
  have hkeep : ∀ {r : ProcId}, OwnList k r → OwnList k' r := by
    intro r hr
    by_cases hrw : r = who
    · subst hrw
      exact h.list
    · have hsame : k'.proc r = k.proc r := h.others r hrw
      unfold OwnList
      rw [hsame]
      exact hr
  exact ⟨hkeep hp, hkeep hc⟩

theorem ownLists_run {p c : ProcId} {k k' : Kernel} (hp : OwnList k p) (hc : OwnList k c)
    (hrun : ReflTransGen (Turn p c) k k') : OwnList k' p ∧ OwnList k' c := by
  induction hrun with
  | refl => exact ⟨hp, hc⟩
  | tail _ hturn ih => exact ownLists_turn ih.1 ih.2 hturn

/-- Lists in their owners' arrays stay independent. -/
theorem independent_of_ownLists {k : Kernel} {p c : ProcId} (hne : p ≠ c) (hp : OwnList k p)
    (hc : OwnList k c) (hhead : (k.proc c).head = none) : Independent k p c := by
  refine ⟨?_, ?_⟩
  · intro h cell hsome
    rw [hhead] at hsome
    cases hsome
  · intro k1 k2 who other call hrun hwho hcall
    obtain ⟨hp1, hc1⟩ := ownLists_run hp hc hrun
    have hsame : k2.proc other = k1.proc other := by
      rcases hwho with ⟨rfl, rfl⟩ | ⟨rfl, rfl⟩
      · exact (PagingCall.run_home (k := k1.switchTo who) hp1 hcall).others other (Ne.symm hne)
      · exact (PagingCall.run_home (k := k1.switchTo who) hc1 hcall).others other hne
    rw [hsame]
    exact ⟨rfl, rfl, rfl, rfl⟩

/-- An empty list lies wherever one likes. -/
theorem OwnList.of_empty {k : Kernel} {p : ProcId} (h : (k.proc p).head = none) : OwnList k p := by
  refine ⟨[], h, ?_, ?_⟩
  · intro c hc
    cases hc
  · intro c hc
    cases hc

/-- After `fork` the queues are independent just when the parent's was empty. -/
theorem fork_independent_iff {k k' : Kernel} {r : Int} {np : ProcId} (hlive : k.cur.state ≠ .UNUSED)
    (hpid : 2 < k.cur.pid) (hlist : ∀ c, k.cur.head = some c → (k.proc c.owner).state ≠ .UNUSED)
    (hnp : freeProc k = some np) (hfork : fork k = .ok (r, k')) (hr : r ≠ -1) :
    Independent k' k.curproc np ↔ k.cur.head = none := by
  obtain ⟨np', hnp', hne, -, honly, -, hhead⟩ := fork_child hlive hpid hfork hr
  rw [hnp] at hnp'
  cases hnp'
  have hcur : (k'.proc k.curproc) = k.cur := honly.others _ hne
  constructor
  · intro hind
    cases hc : k.cur.head with
    | none => rfl
    | some c =>
      -- the child's head is an element of an entry that was in use before
      have howner := hind.own c c (hhead.trans hc) .refl
      have hused := hlist c hc
      rw [howner] at hused
      exact absurd (freeProc_unused hnp) hused
  · intro hnone
    apply independent_of_ownLists hne
    · apply OwnList.of_empty
      rw [hcur]
      exact hnone
    · apply OwnList.of_empty
      rw [hhead]
      exact hnone
    · rw [hhead]
      exact hnone

/-- A process with three resident pages forks. -/
theorem threePages_fork : ∃ k', fork threePages = .ok (4, k') := by
  have hall : ∀ i < npages threePages.cur.sz, PresentAt threePages threePages.cur.pgdir i := by
    intro i hi
    obtain ⟨x, hx⟩ := threePages_paged.mem.resident (i * PGSIZE) (by
      have : i < 3 := hi
      simp only [List.mem_cons, List.not_mem_nil, or_false, PGSIZE]
      omega)
    exact ⟨x, hx.walk, hx.p⟩
  obtain ⟨k', -, -, hfork, -⟩ := fork_copies (layout_forkState threePages_paged)
    (layout_forkRoom threePages_paged (by decide)) (by decide) hall
  exact ⟨k', hfork⟩

theorem threePages_live : threePages.cur.state ≠ .UNUSED := by
  have : threePages.cur.state = .RUNNING := rfl
  rw [this]
  exact nofun

/-- The list of `threePages` lies in its own array. -/
theorem threePages_list : ∀ c, threePages.cur.head = some c → (threePages.proc c.owner).state ≠ .UNUSED := by
  intro c hc
  cases hc
  exact threePages_live

theorem fork_independent_threePages : ∃ k', fork threePages = .ok (4, k') ∧
    (Independent k' threePages.curproc 3 ↔ threePages.cur.head = none) := by
  obtain ⟨k', hfork⟩ := threePages_fork
  refine ⟨k', hfork, ?_⟩
  exact fork_independent_iff threePages_live (by decide) threePages_list rfl hfork (by decide)

/-- The child of `threePages` has its list in the array of its parent. -/
theorem fork_not_independent : ∃ k', fork threePages = .ok (4, k') ∧ ¬ Independent k' threePages.curproc 3 := by
  obtain ⟨k', hfork⟩ := threePages_fork
  refine ⟨k', hfork, ?_⟩
  intro hind
  obtain ⟨np, hnp, -, -, -, -, hhead⟩ := fork_child threePages_live (by decide) hfork (by decide)
  have hnp3 : freeProc threePages = some 3 := rfl
  rw [hnp3] at hnp
  cases hnp
  have howner := hind.own _ _ (hhead.trans rfl) .refl
  exact absurd howner (by decide)

end Paging
