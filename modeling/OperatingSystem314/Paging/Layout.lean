import Mathlib.Data.List.Basic
import OperatingSystem314.Paging.Paged

/-! # Every layout occurs

    `layout g q s m`: a kernel whose current process has the pages `q`
    resident, in that order, and the pages `s` in its swap file, with the
    contents `m`.  `layout_paged` shows that it satisfies the paging
    invariant, so nothing that assumes the invariant is vacuous. -/

namespace Paging

namespace Layout

/-- The slot of the process, its directory, the first frame of its pages,
    and the first free frame. -/
abbrev SELF : ProcId := 2
abbrev DIR : Nat := 1000
abbrev FRAMES : Nat := 2000
abbrev FREE : Nat := 4000

/-- The inode of its swap file, `/.swap3`. -/
abbrev SWAPINO : Nat := 5

/-- The pages nobody uses. -/
@[irreducible] def freeFrames : List Nat := List.range' FREE 1000

theorem mem_freeFrames {f : Nat} : f ∈ freeFrames ↔ FREE ≤ f ∧ f < FREE + 1000 := by
  rw [freeFrames, List.mem_range'_1]

theorem nodup_freeFrames : freeFrames.Nodup := by
  rw [freeFrames]
  exact List.nodup_range'

def cellAt (i : Nat) : Cell := ⟨SELF, Fin.ofNat MAX_PSYC_PAGES i⟩

/-- The list visits the array from the front. -/
def cells (q : List Nat) (i : Fin MAX_PSYC_PAGES) : PageInPhyMem :=
  match q[i.val]? with
  | some a => ⟨a, if i.val + 1 < q.length then some (cellAt (i.val + 1)) else none, true⟩
  | none => ⟨0, none, false⟩

def slots (s : List Nat) (i : Fin MAX_PSYC_PAGES) : PageInSwapFile :=
  (s[i.val]?).elim ⟨0, false⟩ fun a => ⟨a, true⟩

def proc (q s : List Nat) : Proc where
  sz := (q ++ s).length * PGSIZE
  pgdir := DIR
  kstack := 1001
  state := .RUNNING
  pid := 3
  parent := some 1
  tf := ⟨0, 0, 0⟩
  killed := false
  ofile := fun _ => none
  cwd := ROOTINO
  swapFile := some 0
  nPagesInPhyMemory := q.length
  nPagesInSwapFile := s.length
  pagesInPhyMem := cells q
  pagesInSwapFile := slots s
  head := if 0 < q.length then some (cellAt 0) else none

/-- An entry of the process table nobody uses. -/
def unused : Proc where
  sz := 0
  pgdir := 0
  kstack := 0
  state := .UNUSED
  pid := 0
  parent := none
  tf := ⟨0, 0, 0⟩
  killed := false
  ofile := fun _ => none
  cwd := 0
  swapFile := none
  nPagesInPhyMemory := 0
  nPagesInSwapFile := 0
  pagesInPhyMem := fun _ => ⟨0, none, false⟩
  pagesInSwapFile := fun _ => ⟨0, false⟩
  head := none

/-- `init` and the first shell: neither has a swap file. -/
def early (pid : Nat) : Proc := { unused with state := .SLEEPING, pid, pgdir := pid, cwd := ROOTINO }

def pte (g : Nat) (q s : List Nat) (n : Nat) : Pte :=
  let a := n * PGSIZE
  if a ∈ q then ⟨FRAMES + n, true, true, decide (a ≠ g), false⟩
  else if a ∈ s then .swapped
  else .zero

def pgdir (g : Nat) (q s : List Nat) : Pgdir where
  kern := (List.range NKERNTABLES).map (1100 + ·)
  pde := fun i => if i = 0 then some ⟨1002, pte g q s⟩ else none

def inode (s : List Nat) (m : Nat → UInt8) (n : Nat) : Inode :=
  if n = ROOTINO then
    { type := .T_DIR, major := 0, nlink := 1, size := 0, data := fun _ => 0
      dents := [⟨1, ['.']⟩, ⟨1, ['.', '.']⟩, ⟨SWAPINO, ['.', 's', 'w', 'a', 'p', '3']⟩] }
  else if n = SWAPINO then
    { type := .T_FILE, major := 0, nlink := 1, size := s.length * PGSIZE
      data := fun j => m ((s[j / PGSIZE]?).getD 0 + j % PGSIZE), dents := [] }
  else { type := .free, major := 0, nlink := 0, size := 0, data := fun _ => 0, dents := [] }

def fs (s : List Nat) (m : Nat → UInt8) : Fs where
  ninodes := 200
  inode := inode s m
  iref := fun n => if n = ROOTINO then 3 else if n = SWAPINO then 1 else 0
  ivalid := fun n => n = ROOTINO || n = SWAPINO
  ftable := fun f =>
    if f = 0 then ⟨.FD_INODE, 1, true, true, 0, SWAPINO, 0⟩
    else ⟨.FD_NONE, 0, false, false, 0, 0, 0⟩
  freeBlocks := 900

end Layout

open Layout

/-- A kernel that runs a process with the pages `q` resident and `s`
    swapped out, with contents `m` and guard page `g`. -/
def layout (g : Nat) (q s : List Nat) (m : Nat → UInt8) : Kernel where
  proc := fun p =>
    if p = SELF then Layout.proc q s else if p = 0 then early 1 else if p = 1 then early 2 else unused
  curproc := SELF
  initproc := 0
  nextpid := 4
  kend := DIR
  freelist := freeFrames
  frame := fun f j => m ((f - FRAMES) * PGSIZE + j)
  pgdir := fun _ => Layout.pgdir g q s
  fs := Layout.fs s m
  pipe := fun _ => ⟨fun _ => 0, 0, 0, false, false⟩
  input := ⟨fun _ => 0, 0, 0, 0⟩
  locks := []

variable {g : Nat} {q s : List Nat} {m : Nat → UInt8}

theorem layout_cur : (layout g q s m).cur = Layout.proc q s := rfl

theorem layout_linked {n : Nat} (hq : q.length ≤ MAX_PSYC_PAGES) :
    ∀ j, j + n = q.length →
      LinkedSlots.Linked (Layout.proc q s).next (if j < q.length then some (cellAt j) else none)
        ((List.range' j n).map cellAt) := by
  induction n with
  | zero =>
    intro j hj
    rw [if_neg (by omega)]
    rfl
  | succ n ih =>
    intro j hj
    have hlt : j < q.length := by omega
    have hmod : j % MAX_PSYC_PAGES = j := Nat.mod_eq_of_lt (by omega)
    rw [if_pos hlt, List.range'_succ, List.map_cons]
    refine ⟨rfl, ?_⟩
    have hnext : (Layout.proc q s).next (cellAt j) =
        if j + 1 < q.length then some (cellAt (j + 1)) else none := by
      simp [Proc.next, Layout.proc, cells, cellAt, hmod, List.getElem?_eq_getElem hlt]
    rw [hnext]
    exact ih (j + 1) (by omega)

theorem layout_fifo (hq : q.length ≤ MAX_PSYC_PAGES) : Fifo SELF (Layout.proc q s) q := by
  refine ⟨(List.range' 0 q.length).map cellAt, ⟨⟨?_, ?_, ?_⟩, fun i hused => ?_⟩, ?_⟩
  · exact layout_linked hq 0 (by omega)
  · intro c hc
    obtain ⟨i, -, rfl⟩ := List.mem_map.mp hc
    rfl
  · intro c hc
    obtain ⟨i, hi, rfl⟩ := List.mem_map.mp hc
    rw [List.mem_range'_1] at hi
    have hmod : i % MAX_PSYC_PAGES = i := Nat.mod_eq_of_lt (by omega)
    simp [Layout.proc, cells, cellAt, hmod, List.getElem?_eq_getElem (by omega : i < q.length)]
  · have hlt : i.val < q.length := by
      by_contra hge
      simp [Layout.proc, cells, List.getElem?_eq_none (by omega : q.length ≤ i.val)] at hused
    refine List.mem_map.mpr ⟨i, List.mem_range'_1.mpr ⟨by omega, by omega⟩, ?_⟩
    simp [cellAt]
  · refine List.ext_getElem (by simp) fun i hi _ => ?_
    have hmod : i % MAX_PSYC_PAGES = i := Nat.mod_eq_of_lt (by omega)
    simp [Proc.addr, Layout.proc, cells, cellAt, hmod, List.getElem?_eq_getElem hi]

theorem layout_walk {a : Nat} (ha : a < MAX_TOTAL_PAGES * PGSIZE) :
    ((layout g q s m).view DIR).walk a = some (pte g q s (a / PGSIZE)) := by
  have hdx : PDX a = 0 := by
    simp only [PDX, PGSIZE, MAX_TOTAL_PAGES] at *
    omega
  have htx : PTX a = a / PGSIZE := by
    simp only [PTX, PGSIZE, MAX_TOTAL_PAGES] at *
    omega
  simp [MemView.walk, Kernel.view, Pgdir.walk, layout, Layout.pgdir, hdx, htx]

theorem layout_backed : Backed (Layout.fs s m) 0 s m := by
  have hblocks : SWAPBLOCKS ≤ 900 := by decide
  refine ⟨⟨rfl, rfl, rfl, rfl, Nat.le_refl _, ?_⟩, fun i a hi j hj => ?_⟩
  · exact hblocks.trans (Nat.le_add_left _ _)
  · have hdiv : (i * PGSIZE + j) / PGSIZE = i := by
      simp only [PGSIZE] at *
      omega
    have hmod : (i * PGSIZE + j) % PGSIZE = j := by
      simp only [PGSIZE] at *
      omega
    show m ((s[(i * PGSIZE + j) / PGSIZE]?).getD 0 + (i * PGSIZE + j) % PGSIZE) = m (a + j)
    rw [hdiv, hmod, hi]
    rfl

theorem layout_mem (hnd : (q ++ s).Nodup)
    (hpages : ∀ a, a ∈ q ++ s ↔ a % PGSIZE = 0 ∧ a < (q ++ s).length * PGSIZE)
    (hlen : (q ++ s).length ≤ MAX_TOTAL_PAGES)
    (hzero : ∀ va, (q ++ s).length * PGSIZE ≤ PTE_ADDR va → m va = 0) :
    Mem g ((layout g q s m).view DIR) ((q ++ s).length * PGSIZE) q s m := by
  have hsmall : (q ++ s).length * PGSIZE ≤ MAX_TOTAL_PAGES * PGSIZE := Nat.mul_le_mul_right _ hlen
  have hback : ∀ {a}, a % PGSIZE = 0 → a / PGSIZE * PGSIZE = a := fun ha =>
    Nat.div_mul_cancel (Nat.dvd_of_mod_eq_zero ha)
  have hpage : ∀ a ∈ q ++ s, a % PGSIZE = 0 ∧ a / PGSIZE < MAX_TOTAL_PAGES ∧
      a < MAX_TOTAL_PAGES * PGSIZE := fun a ha => by
    obtain ⟨hal, hlt⟩ := (hpages a).mp ha
    have hlt' := Nat.lt_of_lt_of_le hlt hsmall
    exact ⟨hal, Nat.div_lt_of_lt_mul (by rwa [Nat.mul_comm]), hlt'⟩
  have hres : ∀ a ∈ q, ((layout g q s m).view DIR).walk a =
      some ⟨FRAMES + a / PGSIZE, true, true, decide (a ≠ g), false⟩ := fun a ha => by
    obtain ⟨hal, -, hlt⟩ := hpage a (by simp [ha])
    rw [layout_walk hlt, pte, hback hal, if_pos ha]
  refine ⟨hnd, hpages, hsmall, ⟨_, rfl⟩, fun a ha => ?_, fun a ha b hb x y hx hy heq => ?_,
    fun a ha => ?_, fun a hal hle => ?_, hzero, ?_, fun f hf => ?_⟩
  · obtain ⟨hal, hn, -⟩ := hpage a (by simp [ha])
    refine ⟨_, hres a ha, rfl, rfl, rfl, fun hne => decide_eq_true hne, ⟨?_, ?_⟩, fun hmem => ?_,
      fun j hj => ?_⟩
    · show DIR ≤ FRAMES + a / PGSIZE
      exact Nat.le_add_right_of_le (by decide)
    · show FRAMES + a / PGSIZE < PHYSTOP / PGSIZE
      have : FRAMES + MAX_TOTAL_PAGES ≤ PHYSTOP / PGSIZE := by decide
      omega
    · have hmem' : FRAMES + a / PGSIZE ∈ freeFrames := hmem
      have : FRAMES + MAX_TOTAL_PAGES ≤ FREE := by decide
      have := (mem_freeFrames.mp hmem').1
      omega
    · show m ((FRAMES + a / PGSIZE - FRAMES) * PGSIZE + j) = m (a + j)
      rw [Nat.add_sub_cancel_left, hback hal]
  · rw [hres a ha] at hx
    rw [hres b hb] at hy
    cases hx
    cases hy
    have hdiv : a / PGSIZE = b / PGSIZE := Nat.add_left_cancel heq
    rw [← hback (hpage a (by simp [ha])).1, ← hback (hpage b (by simp [hb])).1, hdiv]
  · obtain ⟨hal, -, hlt⟩ := hpage a (by simp [ha])
    have hq : a ∉ q := fun hq => (List.nodup_append.mp hnd).2.2 a hq a ha rfl
    rw [layout_walk hlt, pte, hback hal, if_neg hq, if_pos ha]
  · have hout : a ∉ q ++ s := fun hmem => by
      have := ((hpages a).mp hmem).2
      omega
    rw [List.mem_append, not_or] at hout
    by_cases hdx : PDX a = 0
    · right
      have htx : PTX a = a / PGSIZE := Nat.mod_eq_of_lt (by
        rw [PDX, Nat.div_eq_zero_iff] at hdx
        omega)
      simp [MemView.walk, Kernel.view, Pgdir.walk, layout, Layout.pgdir, hdx, htx, pte, hback hal, hout]
    · left
      simp [MemView.walk, Kernel.view, Pgdir.walk, layout, Layout.pgdir, hdx]
  · exact nodup_freeFrames
  · obtain ⟨hlo, hhi⟩ := mem_freeFrames.mp hf
    have : FREE + 1000 ≤ PHYSTOP / PGSIZE := by decide
    exact ⟨Nat.le_trans (by show DIR ≤ FREE; decide) hlo, by omega⟩

/-- The layouts satisfy the paging invariant. -/
theorem layout_paged (hnd : (q ++ s).Nodup)
    (hpages : ∀ a, a ∈ q ++ s ↔ a % PGSIZE = 0 ∧ a < (q ++ s).length * PGSIZE)
    (hq : q.length ≤ MAX_PSYC_PAGES) (hs : s.length ≤ MAX_PSYC_PAGES)
    (hzero : ∀ va, (q ++ s).length * PGSIZE ≤ PTE_ADDR va → m va = 0) :
    Paged g (layout g q s m) ((q ++ s).length * PGSIZE) q s m where
  locks := rfl
  pid := Nat.lt_succ_self 2
  fifo := layout_fifo hq
  slots := ⟨hs, fun _ => rfl⟩
  backed := ⟨0, rfl, layout_backed⟩
  mem := by
    refine layout_mem hnd hpages ?_ hzero
    simp only [List.length_append, MAX_TOTAL_PAGES, MAX_PSYC_PAGES] at *
    omega
  counted := Int.le_refl _
  bounded := by
    rw [layout_cur]
    exact Int.ofNat_le.mpr hq

/-! ### Two layouts -/

/-- Three pages, as a small program has after `exec`: text, guard, stack. -/
def threePages : Kernel := layout PGSIZE [0, PGSIZE, 2 * PGSIZE] [] fun _ => 0

theorem threePages_paged :
    Paged PGSIZE threePages (3 * PGSIZE) [0, PGSIZE, 2 * PGSIZE] [] fun _ => 0 := by
  refine layout_paged (by decide) (fun a => ?_) (by decide) (by decide) fun _ _ => rfl
  simp only [List.append_nil, List.mem_cons, List.not_mem_nil, or_false, List.length_cons,
    List.length_nil, PGSIZE]
  omega

/-- Three pages, and memory for one more. -/
def oneFrame : Kernel := { threePages with freelist := [FREE] }

def fifteen : List Nat := (List.range 15).map (· * PGSIZE)

/-- Fifteen pages in memory and one in the swap file. -/
def sixteenPages : Kernel := layout PGSIZE fifteen [15 * PGSIZE] fun _ => 0

theorem sixteenPages_paged :
    Paged PGSIZE sixteenPages (16 * PGSIZE) fifteen [15 * PGSIZE] fun _ => 0 := by
  refine layout_paged (by decide) (fun a => ?_) (by decide) (by decide) fun _ _ => rfl
  simp only [fifteen, List.mem_append, List.mem_map, List.mem_range, List.mem_singleton,
    List.length_append, List.length_map, List.length_range, List.length_singleton, PGSIZE]
  constructor
  · rintro (⟨i, hi, rfl⟩ | rfl)
    · omega
    · omega
  · rintro ⟨hal, hlt⟩
    by_cases h15 : a / 4096 = 15
    · right
      omega
    · left
      exact ⟨a / 4096, by omega, by omega⟩

/-! ### Runs from a layout -/

/-- The kernel after a routine that returns. -/
def reached {α : Type} : Result (α × Kernel) → Option Kernel
  | .ok (_, k) => some k
  | .error _ => none

theorem of_reached {α : Type} {r : Result (α × Kernel)} {k : Kernel} (h : reached r = some k) :
    ∃ a, r = .ok (a, k) := by
  unfold reached at h
  split at h
  · cases h
    exact ⟨_, rfl⟩
  · cases h

end Paging
