import Mathlib.Data.List.Range
import OperatingSystem314.Paging.State

/-! # Frames and page tables (`kalloc.c`, the page table half of `vm.c`)

    The frame allocator, `walkpgdir`, `mappages`, `setupkvm`, `deallocuvm`
    and `freevm`.

    Page directories and page tables are values kept apart from
    `Kernel.frame`, so a stray write through a wrong frame number cannot
    reach them; the physical pages they occupy are still taken from and
    given back to the free list.  The kernel half of a directory is the
    same everywhere and is reduced to the pages it occupies. -/

namespace Paging

/-! ### The frame allocator -/

/-- A physical page `kfree` accepts. -/
def Kernel.FrameOk (k : Kernel) (f : Nat) : Prop := k.kend ≤ f ∧ f < PHYSTOP / PGSIZE

instance (k : Kernel) (f : Nat) : Decidable (k.FrameOk f) := by
  unfold Kernel.FrameOk; infer_instance

/-- Fills the page with junk and puts it on the free list. -/
def kfree (k : Kernel) (f : Nat) : Result Kernel :=
  if k.FrameOk f then .ok { k.setFrame f (fun _ => 1) with freelist := f :: k.freelist }
  else panic "kfree"

/-- `none` is the null pointer: no page is left. -/
def kalloc (k : Kernel) : Option Nat × Kernel :=
  match k.freelist with
  | [] => (none, k)
  | f :: rest => (some f, { k with freelist := rest })

/-! ### Page tables -/

/-- `walkpgdir(pgdir, va, 1)`: makes sure the page table exists; `false`
    when no page is left for it. -/
def walkpgdirAlloc (k : Kernel) (d va : Nat) : Bool × Kernel :=
  match (k.pgdir d).pde (PDX va) with
  | some _ => (true, k)
  | none =>
    match kalloc k with
    | (none, k) => (false, k)
    | (some t, k) =>
      let pd := k.pgdir d
      let pd := { pd with pde := Function.update pd.pde (PDX va) (some ⟨t, fun _ => .zero⟩) }
      (true, { k with pgdir := Function.update k.pgdir d pd })

/-- `mappages` of one page: `x` carries the frame and the permission bits. -/
def mappages (k : Kernel) (d va : Nat) (x : Pte) : Result (Int × Kernel) :=
  match walkpgdirAlloc k d va with
  | (false, k) => .ok (-1, k)
  | (true, k) => do
    let pte ← deref (k.walkpgdir d va)
    if pte.p then panic "remap" else return (0, k.setPte d va { x with p := true })

/-- The addresses `for(a = lo; a < hi; a += PGSIZE)` visits. -/
def pageRange (lo hi : Nat) : List Nat :=
  (List.range ((hi - lo + PGSIZE - 1) / PGSIZE)).map fun i => lo + i * PGSIZE

/-- One round of `deallocuvm`. -/
def deallocPage (d : Nat) (k : Kernel) (a : Nat) : Result Kernel :=
  match k.walkpgdir d a with
  | none => .ok k
  | some pte =>
    if pte.p then
      if pte.ppn = 0 then panic "kfree"
      else do
        let k ← kfree k pte.ppn
        return k.setPte d a .zero
    else .ok k

/-- `deallocuvm`.  The source jumps over page tables that do not exist;
    here their entries are visited one by one, to no effect. -/
def deallocuvm (k : Kernel) (d oldsz newsz : Nat) : Result (Nat × Kernel) :=
  if newsz ≥ oldsz then .ok (oldsz, k)
  else do
    let k ← (pageRange (PGROUNDUP newsz) oldsz).foldlM (deallocPage d) k
    return (newsz, k)

/-- The pages that hold the page tables of a directory. -/
def Pgdir.tables (pd : Pgdir) : List Nat :=
  ((List.range (KERNBASE / PGSIZE / 1024)).filterMap fun i => (pd.pde i).map PageTable.ppn) ++ pd.kern

def freevm (k : Kernel) (d : Nat) : Result Kernel :=
  if d = 0 then panic "freevm: no pgdir"
  else do
    let (_, k) ← deallocuvm k d KERNBASE 0
    let k ← (k.pgdir d).tables.foldlM kfree k
    kfree k d

/-- A new directory with the kernel mappings: one `kalloc` for it and one
    for each of its page tables. -/
def setupkvm (k : Kernel) : Result (Option Nat × Kernel) :=
  match kalloc k with
  | (none, k) => .ok (none, k)
  | (some d, k) => do
    let kern := k.freelist.take NKERNTABLES
    let k := { k with
      freelist := k.freelist.drop NKERNTABLES
      pgdir := Function.update k.pgdir d { kern, pde := fun _ => none } }
    if kern.length = NKERNTABLES then return (some d, k)
    else
      let k ← freevm k d
      return (none, k)

/-! ### Addresses and pages -/

theorem PTE_ADDR_div (va : Nat) : PTE_ADDR va / PGSIZE = va / PGSIZE := by
  simp [PTE_ADDR]

theorem PTE_ADDR_of_aligned {a : Nat} (h : a % PGSIZE = 0) : PTE_ADDR a = a := by
  unfold PTE_ADDR
  exact Nat.div_mul_cancel (Nat.dvd_of_mod_eq_zero h)

theorem PTE_ADDR_aligned (va : Nat) : PTE_ADDR va % PGSIZE = 0 := by
  simp [PTE_ADDR]

theorem PTE_ADDR_add (va : Nat) : PTE_ADDR va + va % PGSIZE = va := by
  unfold PTE_ADDR
  rw [Nat.mul_comm]
  exact Nat.div_add_mod va PGSIZE

/-- Distinct page addresses lie in distinct pages. -/
theorem page_ne {a b : Nat} (ha : a % PGSIZE = 0) (hb : b % PGSIZE = 0) (h : a ≠ b) :
    a / PGSIZE ≠ b / PGSIZE := by
  intro heq
  apply h
  rw [← PTE_ADDR_of_aligned ha, ← PTE_ADDR_of_aligned hb, PTE_ADDR, PTE_ADDR, heq]

namespace Pgdir

variable (pd : Pgdir) {va va' : Nat} {x : Pte}

/-- An entry is found by the page, not by the offset in it. -/
theorem walk_congr (h : va / PGSIZE = va' / PGSIZE) : pd.walk va = pd.walk va' := by
  simp only [walk, PDX, PTX, h]

theorem walk_PTE_ADDR : pd.walk (PTE_ADDR va) = pd.walk va :=
  pd.walk_congr (PTE_ADDR_div va)

theorem pde_of_walk (h : pd.walk va = some x) :
    ∃ t, pd.pde (PDX va) = some t ∧ t.pte (PTX va) = x := by
  simpa [walk, Option.map_eq_some_iff] using h

theorem walk_setPte_self {y : Pte} (h : pd.walk va = some y) : (pd.setPte va x).walk va = some x := by
  obtain ⟨t, ht, -⟩ := pd.pde_of_walk h
  simp [walk, setPte, ht]

theorem walk_setPte_ne (h : va' / PGSIZE ≠ va / PGSIZE) : (pd.setPte va x).walk va' = pd.walk va' := by
  unfold setPte
  split
  · rfl
  · next t ht =>
    simp only [walk]
    by_cases hd : PDX va' = PDX va
    · -- the same table, another index
      have hx : PTX va' ≠ PTX va := by
        unfold PDX at hd
        unfold PTX
        omega
      simp [hd, ht, hx]
    · simp [hd]

theorem walk_setPte_same (h : va' / PGSIZE = va / PGSIZE) {y : Pte} (hy : pd.walk va = some y) :
    (pd.setPte va x).walk va' = some x := by
  rw [walk_congr _ h]
  exact pd.walk_setPte_self hy

/-- The entry that was written, or one that was there. -/
theorem walk_setPte_cases {a : Nat} {y : Pte} (hy : (pd.setPte va x).walk a = some y) :
    (a / PGSIZE = va / PGSIZE ∧ y = x) ∨ (a / PGSIZE ≠ va / PGSIZE ∧ pd.walk a = some y) := by
  by_cases hpage : a / PGSIZE = va / PGSIZE
  · left
    refine ⟨hpage, ?_⟩
    rw [walk_congr _ hpage] at hy
    cases hold : pd.walk va with
    | some z =>
      rw [pd.walk_setPte_self hold] at hy
      exact (Option.some.inj hy).symm
    | none =>
      -- without a page table there is no entry to read
      have hnone : (pd.setPte va x).walk va = none := by
        cases ht : pd.pde (PDX va) <;> simp_all [walk, setPte]
      rw [hnone] at hy
      cases hy
  · exact .inr ⟨hpage, by rwa [pd.walk_setPte_ne hpage] at hy⟩

theorem setPte_setPte (y : Pte) : (pd.setPte va x).setPte va y = pd.setPte va y := by
  cases ht : pd.pde (PDX va) <;> simp [setPte, ht]

end Pgdir

section walk

variable {k : Kernel} {d e va va' : Nat} {x y : Pte}

theorem walkpgdir_setPte_self (h : k.walkpgdir d va = some y) :
    (k.setPte d va x).walkpgdir d va = some x := by
  simp only [Kernel.walkpgdir, Kernel.setPte, Function.update_self]
  exact Pgdir.walk_setPte_self _ h

theorem walkpgdir_setPte_same (hva : va' / PGSIZE = va / PGSIZE) (h : k.walkpgdir d va = some y) :
    (k.setPte d va x).walkpgdir d va' = some x := by
  simp only [Kernel.walkpgdir, Kernel.setPte, Function.update_self]
  exact Pgdir.walk_setPte_same _ hva h

theorem walkpgdir_setPte_ne (h : va' / PGSIZE ≠ va / PGSIZE) :
    (k.setPte d va x).walkpgdir e va' = k.walkpgdir e va' := by
  simp only [Kernel.walkpgdir, Kernel.setPte]
  by_cases he : e = d
  · subst he
    rw [Function.update_self]
    exact Pgdir.walk_setPte_ne _ h
  · rw [Function.update_of_ne he]

theorem walkpgdir_setPte_dir (h : e ≠ d) : (k.setPte d va x).walkpgdir e va' = k.walkpgdir e va' := by
  simp [Kernel.walkpgdir, Kernel.setPte, h]

/-- An entry of the directory that was written. -/
theorem walkpgdir_setPte_cases (hy : (k.setPte d va x).walkpgdir d va' = some y) :
    (va' / PGSIZE = va / PGSIZE ∧ y = x) ∨ (va' / PGSIZE ≠ va / PGSIZE ∧ k.walkpgdir d va' = some y) := by
  have hupd : (k.setPte d va x).pgdir d = (k.pgdir d).setPte va x := Function.update_self _ _ _
  unfold Kernel.walkpgdir at hy ⊢
  rw [hupd] at hy
  exact Pgdir.walk_setPte_cases _ hy

theorem walkpgdir_congr (h : va / PGSIZE = va' / PGSIZE) : k.walkpgdir d va = k.walkpgdir d va' :=
  Pgdir.walk_congr _ h

theorem walkpgdir_PTE_ADDR : k.walkpgdir d (PTE_ADDR va) = k.walkpgdir d va :=
  Pgdir.walk_PTE_ADDR _

end walk

/-- Mapping a page whose table exists and whose entry is not present. -/
theorem mappages_eq {k : Kernel} {d va : Nat} {x y : Pte} (h : k.walkpgdir d va = some y)
    (hp : y.p = false) : mappages k d va x = .ok (0, k.setPte d va { x with p := true }) := by
  obtain ⟨t, ht, -⟩ := Pgdir.pde_of_walk _ h
  simp [mappages, walkpgdirAlloc, ht, h, hp]

/-- The pages of a range, one after the other. -/
theorem pageRange_succ {lo hi : Nat} (h : lo < hi) :
    pageRange lo hi = lo :: pageRange (lo + PGSIZE) hi := by
  have hcount : (hi - lo + PGSIZE - 1) / PGSIZE = (hi - (lo + PGSIZE) + PGSIZE - 1) / PGSIZE + 1 := by
    simp only [PGSIZE]
    omega
  rw [pageRange, pageRange, hcount, List.range_succ_eq_map, List.map_cons, List.map_map,
    Nat.zero_mul, Nat.add_zero]
  refine congrArg _ (List.map_congr_left fun i _ => ?_)
  simp only [Function.comp_apply, Nat.succ_mul]
  omega

theorem pageRange_nil {lo hi : Nat} (h : hi ≤ lo) : pageRange lo hi = [] := by
  have : (hi - lo + PGSIZE - 1) / PGSIZE = 0 := by
    simp only [PGSIZE]
    omega
  rw [pageRange, this]
  rfl

theorem PGROUNDUP_aligned (sz : Nat) : PGROUNDUP sz % PGSIZE = 0 := by
  simp [PGROUNDUP]

/-- A page starts below a size just when it starts below the size rounded up. -/
theorem lt_PGROUNDUP {a sz : Nat} (ha : a % PGSIZE = 0) : a < PGROUNDUP sz ↔ a < sz := by
  simp only [PGROUNDUP, PGSIZE] at *
  omega

theorem le_PGROUNDUP (sz : Nat) : sz ≤ PGROUNDUP sz := by
  simp only [PGROUNDUP, PGSIZE]
  omega

end Paging
