import OperatingSystem314.Paging.Layout

/-! # Runs of the list routines

    Any sequence of `enqueueFIFO` and `dequeueFIFO` by one process that
    starts from empty metadata and keeps within the capacity: the list
    that the links thread through the array is the queue of the addresses
    put in and not yet taken out (`queue_is_fifo`).

    Elements are handed out first-fit, so the order of the array says
    nothing about the order of the queue, and an element that was given up
    keeps its old link until it is used again. -/

namespace Paging

open LinkedSlots

inductive QueueCall where
  | enqueueFIFO (addr : Nat)
  | dequeueFIFO
  deriving DecidableEq, Repr

/-- From `n` entries on, an address is only put in while there is room and
    only taken out while another one stays. -/
def Fits : (n : Nat) → List QueueCall → Prop
  | _, [] => True
  | n, .enqueueFIFO _ :: calls => n < MAX_PSYC_PAGES ∧ Fits (n + 1) calls
  | n, .dequeueFIFO :: calls => 2 ≤ n ∧ Fits (n - 1) calls

/-- The addresses put in, oldest first. -/
def putIn : List QueueCall → List Nat
  | [] => []
  | .enqueueFIFO addr :: calls => addr :: putIn calls
  | .dequeueFIFO :: calls => putIn calls

/-- The calls of the current process, and the addresses taken out. -/
def runQueue : List QueueCall → Kernel → Result (List Nat × Kernel)
  | [], k => .ok ([], k)
  | .enqueueFIFO addr :: calls, k => do
    let k ← enqueueFIFO k addr
    runQueue calls k
  | .dequeueFIFO :: calls, k => do
    let (addr, k) ← dequeueFIFO k
    let (out, k) ← runQueue calls k
    return (addr :: out, k)

/-- No element is in use.  What the links hold does not matter. -/
structure EmptyMetadata (x : Proc) : Prop where
  head : x.head = none
  unused : ∀ i, (x.pagesInPhyMem i).in_use = false

/-- Following the links from `head` ends, visits `cells` in this order, no
    element twice, and all the elements in use. -/
structure Visits (k : Kernel) (cells : List Cell) : Prop where
  linked : Linked k.next k.cur.head cells
  nodup : cells.Nodup
  inUse : ∀ c, c ∈ cells ↔ c.owner = k.curproc ∧ (k.cell c).in_use = true

theorem EmptyMetadata.fifo {p : ProcId} {x : Proc} (h : EmptyMetadata x) : Fifo p x [] := by
  refine ⟨[], ⟨⟨h.head, by simp, by simp⟩, ?_⟩, rfl⟩
  intro i hi
  rw [h.unused i] at hi
  cases hi

theorem Fifo.visits {k : Kernel} {q : List Nat} (h : Fifo k.curproc k.cur q) :
    ∃ cells, Visits k cells ∧ q = cells.map fun c => (k.cell c).address := by
  obtain ⟨cells, hq, rfl⟩ := h
  have hcell : ∀ c ∈ cells, k.cell c = k.cur.pagesInPhyMem c.slot := fun c hc =>
    k.cell_own (hq.owner c hc)
  refine ⟨cells, ⟨hq.linked.congr fun c hc => ?_, hq.nodup, fun c => ⟨fun hc => ?_, ?_⟩⟩, ?_⟩
  · rw [Kernel.next, hcell c hc]
    rfl
  · refine ⟨hq.owner c hc, ?_⟩
    rw [hcell c hc]
    exact hq.used c hc
  · rintro ⟨howner, hused⟩
    rw [k.cell_own howner] at hused
    have hmem := hq.full c.slot hused
    rwa [← howner] at hmem
  · exact List.map_congr_left fun c hc => by rw [hcell c hc]; rfl

/-- By induction on the calls, for a process whose list holds `q`. -/
theorem Fifo.runQueue {k : Kernel} {q : List Nat} {calls : List QueueCall}
    (h : Fifo k.curproc k.cur q) (hfits : Fits q.length calls) :
    (.cons ∉ k.locks → ∃ out k', Paging.runQueue calls k = .ok (out, k')) ∧
    ∀ out k', Paging.runQueue calls k = .ok (out, k') →
      ∃ r, Fifo k'.curproc k'.cur r ∧ q ++ putIn calls = out ++ r := by
  induction calls generalizing k q with
  | nil =>
    refine ⟨fun _ => ⟨[], k, rfl⟩, ?_⟩
    intro out k' hrun
    cases hrun
    exact ⟨q, h, by simp [putIn]⟩
  | cons call calls ih =>
    cases call with
    | enqueueFIFO addr =>
      obtain ⟨hroom, hrest⟩ := hfits
      obtain ⟨t, c, henq, hfifo⟩ := h.enqueueFIFO hroom addr
      set k1 := k.setCur (k.cur.enqueued t c addr) with hk1
      have h1 : Fifo k1.curproc k1.cur (q ++ [addr]) := by
        rw [hk1, Kernel.setCur_cur]
        exact hfifo
      obtain ⟨hreturns, hqueue⟩ := ih h1 (by simpa using hrest)
      have hstep : Paging.runQueue (.enqueueFIFO addr :: calls) k = Paging.runQueue calls k1 := by
        rw [Paging.runQueue, henq, ok_bind]
      rw [hstep]
      refine ⟨hreturns, ?_⟩
      intro out k' hrun
      obtain ⟨r, hr, heq⟩ := hqueue out k' hrun
      refine ⟨r, hr, ?_⟩
      rw [← heq, putIn, List.append_assoc]
      rfl
    | dequeueFIFO =>
      obtain ⟨htwo, hrest⟩ := hfits
      obtain ⟨a, b, q, rfl⟩ : ∃ a b q', q = a :: b :: q' := by
        match q, htwo with
        | a :: b :: q', _ => exact ⟨a, b, q', rfl⟩
      by_cases hlocks : .cons ∈ k.locks
      · -- `cprintf` takes the lock that is held already
        have hpanics : Paging.runQueue (.dequeueFIFO :: calls) k = panic "acquire" := by
          simp [Paging.runQueue, Paging.dequeueFIFO, cprintf, hlocks]
        refine ⟨fun hno => absurd hlocks hno, ?_⟩
        intro out k' hrun
        rw [hpanics] at hrun
        cases hrun
      · obtain ⟨c, hdeq, hfifo⟩ := h.dequeueFIFO (by simp) hlocks
        set k1 := k.setCur (k.cur.dequeued c) with hk1
        have h1 : Fifo k1.curproc k1.cur (b :: q) := by
          rw [hk1, Kernel.setCur_cur]
          exact hfifo
        obtain ⟨hreturns, hqueue⟩ := ih h1 (by simpa using hrest)
        have hstep : Paging.runQueue (.dequeueFIFO :: calls) k = (do
            let (out, k) ← Paging.runQueue calls k1
            return (a :: out, k)) := by
          rw [Paging.runQueue, hdeq, ok_bind]
        rw [hstep]
        refine ⟨fun _ => ?_, ?_⟩
        · obtain ⟨out, k', hrun⟩ := hreturns hlocks
          exact ⟨a :: out, k', by rw [hrun]; rfl⟩
        · intro out k' hrun
          rw [bind_eq_ok] at hrun
          obtain ⟨⟨out1, k2⟩, hrun, hout⟩ := hrun
          cases hout
          obtain ⟨r, hr, heq⟩ := hqueue out1 _ hrun
          exact ⟨r, hr, congrArg (a :: ·) heq⟩

/-- The calls return (but for the lock that `cprintf` takes), and the list
    is the queue of what was put in and not taken out. -/
theorem queue_is_fifo {k : Kernel} {calls : List QueueCall} (hempty : EmptyMetadata k.cur)
    (hfits : Fits 0 calls) :
    (.cons ∉ k.locks → ∃ out k', runQueue calls k = .ok (out, k')) ∧
    ∀ out k', runQueue calls k = .ok (out, k') →
      ∃ cells, Visits k' cells ∧ putIn calls = out ++ cells.map fun c => (k'.cell c).address := by
  have hfifo : Fifo k.curproc k.cur [] := hempty.fifo
  obtain ⟨hreturns, hqueue⟩ := hfifo.runQueue hfits
  refine ⟨hreturns, ?_⟩
  intro out k' hrun
  obtain ⟨r, hr, heq⟩ := hqueue out k' hrun
  obtain ⟨cells, hvisits, rfl⟩ := hr.visits
  exact ⟨cells, hvisits, by simpa using heq⟩

/-- Three addresses are put in, one is taken out, and the next one gets its element. -/
def reuse : List QueueCall :=
  [.enqueueFIFO 0, .enqueueFIFO PGSIZE, .enqueueFIFO (2 * PGSIZE), .dequeueFIFO, .enqueueFIFO (3 * PGSIZE)]

theorem queue_is_fifo_reuse : let k := layout 0 [] [] fun _ => 0
    (.cons ∉ k.locks → ∃ out k', runQueue reuse k = .ok (out, k')) ∧
    ∀ out k', runQueue reuse k = .ok (out, k') →
      ∃ cells, Visits k' cells ∧ putIn reuse = out ++ cells.map fun c => (k'.cell c).address := by
  intro k
  exact queue_is_fifo (k := k) ⟨rfl, by decide⟩ (by simp [Fits, reuse, MAX_PSYC_PAGES])

/-- The address that came last stands in front of the others in the array. -/
example : ((runQueue reuse (layout 0 [] [] fun _ => 0)).toOption.map fun (out, k) =>
    (out, k.cur.head, (k.cur.pagesInPhyMem 0).address)) = some ([0], some (Layout.cellAt 1), 3 * PGSIZE) := by
  decide +kernel

end Paging
