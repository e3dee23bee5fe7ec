import OperatingSystem314.Paging.Swap

/-! # Growing a process (`allocuvm` of `vm.c`, `growproc` of `proc.c`)

    `allocuvm` works on the directory it is given, but its eviction and
    its queue are those of the current process. -/

namespace Paging

/-- Evicts a page if the process has as many in memory as it may. -/
def makeRoom (k : Kernel) : Result Kernel :=
  if (MAX_PSYC_PAGES : Int) ≤ k.cur.nPagesInPhyMemory then do
    cprintf k
    swapPageOut k
  else .ok k

/-- The loop of `allocuvm` over the pages still to be allocated. -/
def allocLoop (d oldsz newsz : Nat) : List Nat → Kernel → Result (Nat × Kernel)
  | [], k => .ok (newsz, k)
  | a :: rest, k => do
    let k ← makeRoom k
    match kalloc k with
    | (none, k) => do
      cprintf k
      let (_, k) ← deallocuvm k d newsz oldsz
      return (0, k)
    | (some mem, k) => do
      let k := k.setFrame mem fun _ => 0
      let (r, k) ← mappages k d a ⟨mem, true, true, true, false⟩
      if r < 0 then
        cprintf k
        let (_, k) ← deallocuvm k d newsz oldsz
        let k ← kfree k mem
        return (0, k)
      else
        let k ← enqueueFIFO k (PTE_ADDR a)
        if k.cur.pid ≠ 1 ∧ k.cur.pid ≠ 2 then cprintf k
        allocLoop d oldsz newsz rest k

/-- One round of the loop, when it returns: there is no frame for the page,
    there is none for its page table, or the page is mapped and enqueued. -/
theorem allocLoop_cons {d oldsz newsz a n : Nat} {rest : List Nat} {k k' : Kernel}
    (h : allocLoop d oldsz newsz (a :: rest) k = .ok (n, k')) : ∃ k1, makeRoom k = .ok k1 ∧
    ((k1.freelist = [] ∧ n = 0 ∧ ∃ m, deallocuvm k1 d newsz oldsz = .ok (m, k')) ∨
    ∃ f free r k2, k1.freelist = f :: free ∧
      mappages (({ k1 with freelist := free } : Kernel).setFrame f fun _ => 0) d a ⟨f, true, true, true, false⟩ =
        .ok (r, k2) ∧
      ((r < 0 ∧ n = 0 ∧ ∃ m k3, deallocuvm k2 d newsz oldsz = .ok (m, k3) ∧ kfree k3 f = .ok k') ∨
        (¬ r < 0 ∧ ∃ k3, enqueueFIFO k2 (PTE_ADDR a) = .ok k3 ∧ allocLoop d oldsz newsz rest k3 = .ok (n, k')))) := by
  simp only [allocLoop, bind_eq_ok] at h
  obtain ⟨k1, hroom, h⟩ := h
  refine ⟨k1, hroom, ?_⟩
  unfold kalloc at h
  cases hfree : k1.freelist with
  | nil =>
    simp only [hfree, bind_eq_ok] at h
    obtain ⟨-, -, ⟨m, k2⟩, hdealloc, h⟩ := h
    cases h
    exact .inl ⟨rfl, rfl, m, hdealloc⟩
  | cons f free =>
    right
    simp only [hfree, bind_eq_ok] at h
    obtain ⟨⟨r, k2⟩, hmap, h⟩ := h
    refine ⟨f, free, r, k2, rfl, hmap, ?_⟩
    split at h
    next hr =>
      simp only [bind_eq_ok] at h
      obtain ⟨-, -, ⟨m, k3⟩, hdealloc, k4, hkfree, h⟩ := h
      cases h
      exact .inl ⟨hr, rfl, m, k3, hdealloc, hkfree⟩
    next hr =>
      rw [bind_eq_ok] at h
      obtain ⟨k3, henq, h⟩ := h
      refine .inr ⟨hr, k3, henq, ?_⟩
      split at h
      · rw [bind_eq_ok] at h
        obtain ⟨-, -, h⟩ := h
        exact h
      · exact h

/-- Returns `0` on failure. -/
def allocuvm (k : Kernel) (d oldsz newsz : Nat) : Result (Nat × Kernel) :=
  if newsz ≥ KERNBASE then .ok (0, k)
  else if newsz < oldsz then .ok (oldsz, k)
  else allocLoop d oldsz newsz (pageRange (PGROUNDUP oldsz) newsz) k

def Kernel.setSz (k : Kernel) (sz : Nat) : Kernel := k.modCur fun x => { x with sz }

/-- Sizes are `uint`s: `sz + n` wraps. -/
def growproc (k : Kernel) (n : Int) : Result (Int × Kernel) := do
  let sz := k.cur.sz
  let newsz := ((sz + n) % 2 ^ 32).toNat
  let (sz, k) ← if 0 < n then allocuvm k k.cur.pgdir sz newsz
    else if n < 0 then deallocuvm k k.cur.pgdir sz newsz
    else pure (sz, k)
  if n ≠ 0 ∧ sz = 0 then return (-1, k) else return (0, k.setSz sz)

/-- `sys_sbrk`: the old size, or `-1`. -/
def sys_sbrk (k : Kernel) (n : Int) : Result (Int × Kernel) := do
  let addr := k.cur.sz
  let (r, k) ← growproc k n
  return (if r < 0 then -1 else addr, k)

end Paging
