import OperatingSystem314.Paging.Layout
import OperatingSystem314.Paging.PhaseCalls

/-! # The first process (`userinit`, `inituvm`)

    `main` builds the free list and makes the first process while
    interrupts are still disabled.  `userinit_phased`: from there the phases
    start, with one process alive and every other entry free. -/

namespace Paging

open Relation (ReflTransGen)

/-! ### The code -/

/-- `inituvm`: `init` holds the `sz` bytes of `initcode`. -/
def inituvm (k : Kernel) (d : Nat) (init : Nat → UInt8) (sz : Nat) : Result Kernel :=
  if PGSIZE ≤ sz then panic "inituvm: more than a page"
  else
    match kalloc k with
    -- `memset` follows the null pointer
    | (none, _) => .error .nullDeref
    | (some mem, k) => do
      -- what `mappages` returns is not looked at
      let (_, k) ← mappages (k.setFrame mem fun _ => 0) d 0 ⟨mem, true, true, true, false⟩
      return k.setFrame mem fun j => if j < sz then init j else 0

def userinit (k : Kernel) (init : Nat → UInt8) (sz : Nat) : Result Kernel := do
  let (p, k) ← allocproc k
  let p ← deref p
  let (d, k) ← setupkvm { k with initproc := p }
  match d with
  | none => panic "userinit: out of memory?"
  | some d =>
    let k ← inituvm (k.setProc p { k.proc p with pgdir := d }) d init sz
    let k := k.setProc p { k.proc p with sz := PGSIZE, tf := ⟨0, PGSIZE, 0⟩ }
    let (cwd, fs) ← k.fs.namei k.cur.cwd ['/']
    let cwd ← deref cwd
    let k : Kernel := { k with fs }
    let k := k.setProc p { k.proc p with cwd }
    return k.setProc p { k.proc p with state := .RUNNABLE }

/-- Before `userinit`: the free list is built, and there is no process. -/
structure Fresh (k : Kernel) : Prop where
  kend : 0 < k.kend
  nodup : k.freelist.Nodup
  frames : ∀ f ∈ k.freelist, k.FrameOk f
  unused : ∀ p, (k.proc p).state = .UNUSED

/-- After `userinit`. -/
def boot (k : Kernel) : System :=
  ⟨k, Function.update (fun _ => .free) k.initproc (.alive (k.proc k.initproc).pgdir)⟩

/-! ### The phases start -/

theorem Fresh.phased {k : Kernel} (h : Fresh k) : Phased ⟨k, fun _ => .free⟩ := by
  refine ⟨fun p => ⟨h.unused p, nofun⟩, ?_⟩
  have hnil : gather (fun _ => []) = [] := by simp [gather]
  have hempty : ∀ i f, inUse k.pgdir [] [] i ≠ some f := by
    rintro (⟨d, part⟩ | g) f hi
    · exact nomatch (inUse_inl.mp hi).1
    · exact nomatch (inUse_inr.mp hi).1
  show InUse (gather fun _ => []) (gather fun _ => []) k
  rw [hnil]
  exact {
    kend := h.kend
    dirs := List.nodup_nil
    held := List.nodup_nil
    absent := nofun
    inv := {
      once := fun i _ f hi _ => absurd hi (hempty i f)
      taken := fun i f hi => absurd hi (hempty i f)
      ownOk := fun i f hi => absurd hi (hempty i f)
      nodup := h.nodup
      freeOk := h.frames } }

/-- The entry that `allocproc` returns. -/
theorem allocproc_embryo {k k' : Kernel} {np : ProcId} (h : allocproc k = .ok (some np, k')) :
    (k'.proc np).state = .EMBRYO := by
  unfold allocproc at h
  split at h
  · cases h
  next p hfree =>
    simp only [] at h
    split at h
    · cases h
    next f k1 hk1 =>
      rw [bind_eq_ok] at h
      obtain ⟨k2, hinit, h⟩ := h
      cases h
      rcases ((initPaging_elsewhere hinit).procs np).state with heq | ⟨hactive, -⟩
      · rw [heq, Kernel.setProc_self, (kalloc_mem hk1).proc, Kernel.setProc_self]
      · rw [Kernel.setProc_self, (kalloc_mem hk1).proc, Kernel.setProc_self] at hactive
        simp [ProcState.Active] at hactive

theorem Phased.allocproc {s : System} {k' : Kernel} {np : ProcId} (h : Phased s) (c : ProcId)
    (hok : Paging.allocproc s.k = .ok (some np, k')) : Phased (s.enter k' np (.stacked c)) := by
  obtain ⟨hfree, honly, -⟩ := allocproc_ok hok
  have hphase := h.phase_free hfree
  apply h.enter
  · intro q hq
    exact .of_eq (honly.others q hq)
  · exact ⟨allocproc_embryo hok, nofun⟩
  · have h1 := h.pages hphase
    exact (h1.allocproc hok).2.2 np rfl

/-- The first page of a process, for a directory in use. -/
theorem Phased.inituvm {s : System} {k' : Kernel} {d sz : Nat} {init : Nat → UInt8} (h : Phased s)
    (hok : Paging.inituvm s.k d init sz = .ok k') : Phased ⟨k', s.phase⟩ ∧ OnlyMem s.k k' := by
  unfold Paging.inituvm at hok
  split at hok
  · cases hok
  · cases hfree : s.k.freelist with
    | nil =>
      unfold kalloc at hok
      rw [hfree] at hok
      cases hok
    | cons mem rest =>
      unfold kalloc at hok
      simp only [hfree, bind_eq_ok] at hok
      obtain ⟨⟨r, k1⟩, hmap, hok⟩ := hok
      cases hok
      have h1 : InUse s.dirs (mem :: s.kstacks)
          (({ s.k with freelist := rest } : Kernel).setFrame mem fun _ => 0) :=
        (h.inUse.kalloc hfree).congr rfl rfl rfl
      have hmem : OnlyMem s.k k1 := OnlyMem.trans ⟨_, _, _, rfl⟩ (mappages_mem hmap)
      have h2 : InUse s.dirs s.kstacks k1 := by
        rcases InUse.mappages (x := ⟨mem, true, true, true, false⟩) h1 hmap with ⟨-, rfl⟩ | ⟨-, h2⟩
        · -- nothing is mapped, and the page is lost
          exact h1.forget
        · exact h2
      have hall : OnlyMem s.k (k1.setFrame mem fun j => if j < sz then init j else 0) :=
        hmem.trans (.setFrame k1 mem _)
      refine ⟨h.stay ?_ (h2.congr rfl rfl rfl), hall⟩
      intro q
      rw [hall.proc]
      exact .refl _

theorem userinit_phased {k k' : Kernel} {init : Nat → UInt8} {sz : Nat} (h : Fresh k)
    (hok : userinit k init sz = .ok k') : Phased (boot k') := by
  simp only [userinit, bind_eq_ok, deref_eq_ok] at hok
  obtain ⟨⟨r, k1⟩, halloc, p, rfl, ⟨d, k2⟩, hsetup, hok⟩ := hok
  cases d with
  | none => cases hok
  | some d =>
    simp only [bind_eq_ok] at hok
    obtain ⟨k3, hinit, ⟨cwd, fs⟩, -, ip, -, hok⟩ := hok
    -- the phases of a child, with `p` in the place of the parent
    obtain ⟨s0, hs0⟩ : ∃ s0 : System, s0 = ⟨k, fun _ => .free⟩ := ⟨_, rfl⟩
    have h1 : Phased (s0.enter k1 p (.stacked p)) := by
      rw [hs0]
      exact h.phased.allocproc p halloc
    have h2 : Phased (s0.enter { k1 with initproc := p } p (.stacked p)) :=
      h1.stay (fun _ => .refl _) (h1.inUse.congr rfl rfl rfl)
    have h3 : Phased (s0.enter k2 p (.copying p d [])) := by
      have hnew : Phased ((s0.enter { k1 with initproc := p } p (.stacked p)).enter k2 p (.copying p d [])) :=
        h2.newDir (System.enter_phase s0) hsetup
      rwa [System.enter_enter] at hnew
    have h4 : Phased (s0.enter (k2.setProc p { k2.proc p with pgdir := d }) p (.child p d)) := by
      have hstore := h3.store (System.enter_phase s0)
      rwa [System.enter_enter] at hstore
    obtain ⟨h5, hmem⟩ := h4.inituvm hinit
    have h5 : Phased (s0.enter k3 p (.child p d)) := h5
    have hinitproc : k3.initproc = p := by
      obtain ⟨_, _, _, rfl⟩ := hmem
      obtain ⟨_, _, _, rfl⟩ := setupkvm_mem hsetup
      rfl
    obtain ⟨k4, hk4⟩ : ∃ k4 : Kernel, k4 =
        { k3.setProc p { k3.proc p with sz := PGSIZE, tf := ⟨0, PGSIZE, 0⟩ } with fs } := ⟨_, rfl⟩
    obtain ⟨k5, hk5⟩ : ∃ k5, k5 = k4.setProc p { k4.proc p with cwd := ip } := ⟨_, rfl⟩
    have helse : Elsewhere k3 k5 := by
      have hfile : Elsewhere k3 k4 := by
        have hregs : Elsewhere k3 (k3.setProc p { k3.proc p with sz := PGSIZE, tf := ⟨0, PGSIZE, 0⟩ }) :=
          .setProc ⟨rfl, rfl, .inl rfl⟩
        rw [hk4]
        exact hregs.trans (.of_fs fs)
      rw [hk5]
      exact hfile.trans (.setProc ⟨rfl, rfl, .inl rfl⟩)
    have hlast : k' = k5.setProc p { k5.proc p with state := .RUNNABLE } := by
      rw [hk5, hk4]
      exact (Except.ok.inj hok).symm
    have hinitproc5 : k5.initproc = p := by
      rw [hk5, hk4]
      exact hinitproc
    have h6 : Phased (s0.enter k5 p (.child p d)) :=
      h5.stay helse.procs (h5.inUse.congr helse.kend helse.pgdir helse.freelist)
    have h7 := h6.ready (System.enter_phase s0)
    rw [System.enter_enter] at h7
    have hboot : boot k' = s0.enter k' p (.alive d) := by
      have hdir : (k5.proc p).pgdir = d := (h6.agree (System.enter_phase s0)).pgdir d rfl
      have hp : k'.initproc = p := by
        rw [hlast]
        exact hinitproc5
      unfold boot
      rw [hp, hs0, hlast, Kernel.setProc_self, hdir]
      rfl
    rw [hboot, hlast]
    exact h7

/-! ### One boot -/

/-- A hundred free pages, and no process. -/
def freshKernel : Kernel :=
  { threePages with
    proc := fun _ => Layout.unused
    curproc := 0
    initproc := 0
    nextpid := 1
    freelist := List.range' Layout.FREE 100 }

theorem freshKernel_fresh : Fresh freshKernel where
  kend := by decide
  nodup := List.nodup_range'
  frames := by decide
  unused := fun _ => rfl

/-- What `userinit` makes of it: process 0 can run, and entry 1 is the next
    to be claimed. -/
theorem freshKernel_boot : ∃ k, userinit freshKernel (fun _ => 0) 44 = .ok k ∧
    k.initproc = 0 ∧ k.curproc = 0 ∧ freeProc k = some 1 ∧ (k.proc 1).pgdir = 0 := by
  have hrun : (userinit freshKernel (fun _ => 0) 44).toOption.map
      (fun k => (k.initproc, k.curproc, freeProc k, (k.proc 1).pgdir)) = some (0, 0, some 1, 0) := by
    decide +kernel
  cases hk : userinit freshKernel (fun _ => 0) 44 with
  | error e =>
    rw [hk] at hrun
    cases hrun
  | ok k =>
    rw [hk] at hrun
    have hfields := Option.some.inj hrun
    simp only [Prod.mk.injEq] at hfields
    exact ⟨k, rfl, hfields⟩

end Paging
