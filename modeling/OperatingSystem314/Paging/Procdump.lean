import OperatingSystem314.Paging.Userinit

/-! # What `procdump` walks (`procdump` of `proc.c`)

    The console interrupt prints the process table, with the page tables of
    every entry that is not `UNUSED`, whatever its state.  Between the claim
    of an entry and the store of its directory `p->pgdir` is what the last
    process of the entry has left there: `wait` does not clear it.

    * `procdump`: what is printed, and which pages are read for it.
    * `DumpLive`: each of these pages belongs to the process.
    * `procdump_live_iff`: that is so at exactly those points of a run at
      which no entry has been claimed without having a directory yet, or has
      lost its directory without being free yet. -/

namespace Paging

open Relation (ReflTransGen)

/-! ### The code -/

abbrev NPDENTRIES : Nat := 1024

/-- Lines that are printed, and pages that are read.  The name of the process
    and the call stack of a sleeping one are left out. -/
inductive DumpEvent where
  | process (pid : Nat) (state : String)
  /-- memory location of page directory -/
  | location (pgDir : Nat)
  /-- the entries of the directory are read -/
  | readDir (p : ProcId) (pgDir : Nat)
  /-- entry `i` of the directory, and its page table -/
  | pde (i pde_ppn : Nat)
  /-- the entries of the page table are read -/
  | readTable (p : ProcId) (pgTable : Nat)
  /-- entry `j` of the page table -/
  | pte (j pte_ppn : Nat)
  /-- the same under "Page Mappings" -/
  | mapping (j pte_ppn : Nat)
  deriving DecidableEq

def states : ProcState → String
  | .UNUSED => "unused"
  | .EMBRYO => "embryo"
  | .SLEEPING => "sleep "
  | .RUNNABLE => "runble"
  | .RUNNING => "run   "
  | .ZOMBIE => "zombie"

/-- One of the two loops over a page table. -/
def dumpEntries (line : Nat → Nat → DumpEvent) (t : PageTable) : List DumpEvent :=
  (List.range NPDENTRIES).filterMap fun j =>
    if (t.pte j).p ∧ (t.pte j).u then some (line j (t.pte j).ppn) else none

def dumpTable (p : ProcId) (i : Nat) (t : PageTable) : List DumpEvent :=
  .pde i t.ppn :: .readTable p t.ppn :: (dumpEntries .pte t ++ dumpEntries .mapping t)

/-- The walk.  What it finds behind a null pointer is not modelled; behind a
    directory that has been freed it finds the last one that was there. -/
def dumpDir (k : Kernel) (p : ProcId) (pgDir : Nat) : List DumpEvent :=
  .readDir p pgDir :: if pgDir = 0 then [] else
    (List.range (NPDENTRIES / 2)).flatMap fun i => ((k.pgdir pgDir).pde i).elim [] (dumpTable p i)

def dumpProc (k : Kernel) (p : ProcId) : List DumpEvent :=
  if (k.proc p).state = .UNUSED then []
  else
    .process (k.proc p).pid (states (k.proc p).state) :: .location (k.proc p).pgdir ::
      dumpDir k p (k.proc p).pgdir

def procdump (k : Kernel) : List DumpEvent := (List.finRange NPROC).flatMap (dumpProc k)

/-! ### What is read -/

/-- For process `p` the walk reads a directory or a page table in page `f`. -/
def Dereferences (k : Kernel) (p : ProcId) (f : Nat) : Prop :=
  .readDir p f ∈ procdump k ∨ .readTable p f ∈ procdump k

section walk

variable {k : Kernel} {p q : ProcId} {f i : Nat} {e : DumpEvent} {t : PageTable}

theorem dumpEntries_line {line : Nat → Nat → DumpEvent} (h : e ∈ dumpEntries line t) :
    ∃ j ppn, e = line j ppn := by
  obtain ⟨j, -, hj⟩ := List.mem_filterMap.mp h
  split at hj
  · exact ⟨j, _, (Option.some.inj hj).symm⟩
  · cases hj

theorem readTable_mem_dumpTable : .readTable p f ∈ dumpTable q i t ↔ q = p ∧ t.ppn = f := by
  constructor
  · intro h
    simp only [dumpTable, List.mem_cons, List.mem_append, reduceCtorEq, false_or] at h
    rcases h with h | h | h
    · cases h
      exact ⟨rfl, rfl⟩
    · obtain ⟨_, _, h⟩ := dumpEntries_line h
      cases h
    · obtain ⟨_, _, h⟩ := dumpEntries_line h
      cases h
  · rintro ⟨rfl, rfl⟩
    simp [dumpTable]

theorem readDir_not_mem_dumpTable : .readDir p f ∉ dumpTable q i t := by
  intro h
  simp only [dumpTable, List.mem_cons, List.mem_append, reduceCtorEq, false_or] at h
  rcases h with h | h
  · obtain ⟨_, _, h⟩ := dumpEntries_line h
    cases h
  · obtain ⟨_, _, h⟩ := dumpEntries_line h
    cases h

/-- Behind the first read of `dumpDir` there are page tables only. -/
theorem mem_tables (h : e ∈ if f = 0 then [] else
    (List.range (NPDENTRIES / 2)).flatMap fun i => ((k.pgdir f).pde i).elim [] (dumpTable q i)) :
    f ≠ 0 ∧ ∃ i t, (k.pgdir f).pde i = some t ∧ e ∈ dumpTable q i t := by
  split at h
  · cases h
  next hf =>
    obtain ⟨i, -, hi⟩ := List.mem_flatMap.mp h
    cases ht : (k.pgdir f).pde i with
    | none =>
      rw [ht] at hi
      cases hi
    | some t =>
      rw [ht] at hi
      exact ⟨hf, i, t, ht, hi⟩

/-- The directory is the one of the entry. -/
theorem readDir_mem_dumpProc : .readDir p f ∈ dumpProc k q ↔
    q = p ∧ (k.proc p).state ≠ .UNUSED ∧ (k.proc p).pgdir = f := by
  unfold dumpProc
  split
  next hunused =>
    constructor
    · exact nofun
    · rintro ⟨rfl, hused, -⟩
      exact absurd hunused hused
  next hused =>
    constructor
    · intro h
      simp only [dumpDir, List.mem_cons, reduceCtorEq, false_or] at h
      rcases h with h | h
      · cases h
        exact ⟨rfl, hused, rfl⟩
      · obtain ⟨-, i, t, -, ht⟩ := mem_tables h
        exact absurd ht readDir_not_mem_dumpTable
    · rintro ⟨rfl, -, rfl⟩
      simp [dumpDir]

/-- The page tables are those of that directory. -/
theorem readTable_mem_dumpProc (h : .readTable p f ∈ dumpProc k q) :
    q = p ∧ (k.proc p).state ≠ .UNUSED ∧ ∃ i t, (k.pgdir (k.proc p).pgdir).pde i = some t ∧ t.ppn = f := by
  unfold dumpProc at h
  split at h
  · cases h
  next hused =>
    simp only [dumpDir, List.mem_cons, reduceCtorEq, false_or] at h
    obtain ⟨-, i, t, ht, hmem⟩ := mem_tables h
    obtain ⟨rfl, hf⟩ := readTable_mem_dumpTable.mp hmem
    exact ⟨rfl, hused, i, t, ht, hf⟩

/-- The directory of every entry in use is read, whatever its state. -/
theorem dereferences_pgdir (hused : (k.proc p).state ≠ .UNUSED) : Dereferences k p (k.proc p).pgdir :=
  .inl (List.mem_flatMap.mpr ⟨p, List.mem_finRange p, readDir_mem_dumpProc.mpr ⟨rfl, hused, rfl⟩⟩)

theorem Dereferences.cases (h : Dereferences k p f) : (k.proc p).state ≠ .UNUSED ∧
    ((k.proc p).pgdir = f ∨ ∃ i t, (k.pgdir (k.proc p).pgdir).pde i = some t ∧ t.ppn = f) := by
  rcases h with h | h
  · obtain ⟨q, -, hq⟩ := List.mem_flatMap.mp h
    obtain ⟨-, hused, hf⟩ := readDir_mem_dumpProc.mp hq
    exact ⟨hused, .inl hf⟩
  · obtain ⟨q, -, hq⟩ := List.mem_flatMap.mp h
    obtain ⟨-, hused, ht⟩ := readTable_mem_dumpProc hq
    exact ⟨hused, .inr ht⟩

end walk

/-! ### Live page tables -/

/-- Page `f` holds the directory of `p` or one of its page tables. -/
def System.Owns (s : System) (p : ProcId) (f : Nat) : Prop :=
  ∃ d, (s.phase p).dir = some d ∧ (d = f ∨ ∃ i t, (s.k.pgdir d).pde i = some t ∧ t.ppn = f)

/-- Whatever the walk reads for a process belongs to this process and to no
    other; it is not behind a null pointer, and it is not free. -/
def DumpLive (s : System) : Prop :=
  ∀ p f, Dereferences s.k p f → s.Owns p f ∧ (∀ q, s.Owns q f → q = p) ∧ f ≠ 0 ∧ f ∉ s.k.freelist

/-- The entry is in use and has no directory: `fork` is between the claim of
    the entry and the store of the directory, or `wait` is between the end of
    `freevm` and `UNUSED`. -/
def Phase.window : Phase → Bool
  | .claimed _ | .stacked _ | .copying _ _ _ | .failed _ | .reaped _ => true
  | _ => false

/-- With one CPU no interrupt is taken while `wait` holds the lock of the
    process table. -/
def CanFire (s : System) : Prop := ∀ p c, s.phase p ≠ .reaped c

/-- The directory is the last page that `freevm` frees. -/
theorem freevm_freed {k k' : Kernel} {d : Nat} (h : freevm k d = .ok k') : d ∈ k'.freelist := by
  unfold freevm at h
  split at h
  · cases h
  · simp only [bind_eq_ok] at h
    obtain ⟨-, -, k1, -, h⟩ := h
    rw [kfree_ok h]
    exact List.mem_cons_self

namespace Phased

variable {s : System} {p q : ProcId} {f : Nat}

/-- Where a page of a process is counted. -/
theorem owns_place (h : Phased s) (hown : s.Owns p f) :
    ∃ d part, (s.phase p).dir = some d ∧
      Paging.inUse s.k.pgdir s.dirs s.kstacks (.inl (d, part)) = some f := by
  obtain ⟨d, hd, hf⟩ := hown
  have hmem : d ∈ s.dirs := by
    have hdir := (h.agrees p).pgdir d hd
    rw [← hdir]
    exact h.pgdir_mem rfl hd
  rcases hf with rfl | ⟨i, t, ht, rfl⟩
  · exact ⟨d, .dir, hd, inUse_inl.mpr ⟨hmem, rfl⟩⟩
  · refine ⟨d, .table i, hd, inUse_inl.mpr ⟨hmem, ?_⟩⟩
    simp [Pgdir.part, ht]

theorem owns_once (h : Phased s) (hp : s.Owns p f) (hq : s.Owns q f) : q = p := by
  obtain ⟨d, part, hd, hplace⟩ := h.owns_place hp
  obtain ⟨e, part', he, hplace'⟩ := h.owns_place hq
  have hplaces := h.inUse.inv.once _ _ f hplace hplace'
  obtain rfl : d = e := congrArg Prod.fst (Sum.inl.inj hplaces)
  -- one directory belongs to one phase
  have hdirs : ∀ r, (s.phase r).dir = some d → d ∈ (s.phase r).dirs := by
    intro r hr
    cases hphase : s.phase r <;> rw [hphase] at hr <;> cases hr <;> simp [Phase.dirs]
  exact gather_owner h.inUse.dirs (hdirs q he) (hdirs p hd)

/-- A page of a process is one that `kalloc` has given out. -/
theorem owns_live (h : Phased s) (hown : s.Owns p f) : f ≠ 0 ∧ f ∉ s.k.freelist := by
  obtain ⟨d, part, -, hplace⟩ := h.owns_place hown
  constructor
  · rintro rfl
    have hle := (h.inUse.inv.ownOk _ _ hplace).1
    have := h.inUse.kend
    omega
  · exact h.inUse.inv.taken _ _ hplace

/-- An entry in use without a directory is an entry in a window. -/
theorem window_of_dir (h : Phased s) (hused : (s.k.proc p).state ≠ .UNUSED) (hdir : (s.phase p).dir = none) :
    (s.phase p).window = true := by
  have hstate := (h.agrees p).state
  cases hphase : s.phase p <;> rw [hphase] at hstate hdir
  case free => exact absurd hstate hused
  all_goals first | rfl | cases hdir

theorem window_used (h : Phased s) (hwindow : (s.phase p).window = true) :
    (s.k.proc p).state ≠ .UNUSED ∧ (s.phase p).dir = none := by
  have hstate := (h.agrees p).state
  cases hphase : s.phase p <;> rw [hphase] at hstate hwindow <;> cases hwindow <;>
    exact ⟨by rw [hstate]; decide, rfl⟩

theorem dumpLive_iff (h : Phased s) : DumpLive s ↔ ∀ p, (s.phase p).window = false := by
  constructor
  · intro hlive p
    by_contra hne
    have hwindow : (s.phase p).window = true := by simpa using hne
    obtain ⟨hused, hdir⟩ := h.window_used hwindow
    obtain ⟨⟨d, hd, -⟩, -⟩ := hlive p _ (dereferences_pgdir hused)
    rw [hdir] at hd
    cases hd
  · intro hwindow p f hderef
    obtain ⟨hused, hf⟩ := hderef.cases
    have hown : s.Owns p f := by
      cases hdir : (s.phase p).dir with
      | none =>
        have hin := h.window_of_dir hused hdir
        rw [hwindow p] at hin
        cases hin
      | some d =>
        refine ⟨d, hdir, ?_⟩
        rwa [(h.agrees p).pgdir d hdir] at hf
    obtain ⟨hnull, hfree⟩ := h.owns_live hown
    exact ⟨hown, fun q hq => h.owns_once hown hq, hnull, hfree⟩

/-- `wait` leaves the pointer behind, to a directory that is free. -/
theorem waitFree_stale {d : Nat} {k' : Kernel} (h : Phased s) (hp : s.phase p = .zombie d)
    (hok : waitFree s.k p = .ok k') : Dereferences k' p d ∧ d ∈ k'.freelist := by
  obtain ⟨h', hdir⟩ := h.reap (c := p) hp hok
  constructor
  · have hstate := (h'.agree (System.enter_phase s)).state
    rw [← hdir]
    apply dereferences_pgdir
    rw [show (k'.proc p).state = .ZOMBIE from hstate]
    decide
  · simp only [waitFree, bind_eq_ok] at hok
    obtain ⟨k1, hkfree, hfree⟩ := hok
    have hproc : ((k1.setProc p { k1.proc p with kstack := 0 }).proc p).pgdir = d := by
      rw [Kernel.setProc_self, (kfree_mem hkfree).proc]
      exact (h.agree hp).pgdir d rfl
    rw [hproc] at hfree
    exact freevm_freed hfree

end Phased

/-- The walk is over live page tables at exactly those points of a run at
    which no entry is in a window. -/
theorem procdump_live_iff {k k0 : Kernel} {init : Nat → UInt8} {sz : Nat} {s : System} (hfresh : Fresh k)
    (hboot : userinit k init sz = .ok k0) (hrun : PhaseRun (boot k0) s) :
    DumpLive s ↔ ∀ p, (s.phase p).window = false := by
  have h0 := userinit_phased hfresh hboot
  exact (hrun.phased h0).dumpLive_iff

/-! ### The first `fork` -/

/-- The first process calls `fork`, and `allocproc` claims entry 1, which has
    never been used. -/
theorem first_claim : ∃ k0 s, userinit freshKernel (fun _ => 0) 44 = .ok k0 ∧ PhaseRun (boot k0) s ∧
    CanFire s ∧ (s.k.proc 1).state = .EMBRYO ∧ (s.k.proc 1).pgdir = 0 ∧ s.phase 1 = .claimed 0 := by
  obtain ⟨k0, hboot, hinit, hcur, hfree, hdir⟩ := freshKernel_boot
  have hphase : ∀ p, (boot k0).phase p = if p = 0 then .alive (k0.proc 0).pgdir else .free := by
    intro p
    simp only [boot, hinit, Function.update_apply]
  have hidle : (boot k0).Idle := by
    constructor
    · exact ⟨_, (hphase _).trans (if_pos hcur)⟩
    · intro p
      rw [hphase p]
      split <;> nofun
  have hclaim := PhaseStep.claim hidle (p := 1) hfree
  have hcurproc : (boot k0).k.curproc = 0 := hcur
  rw [hcurproc] at hclaim
  refine ⟨k0, _, hboot, .single hclaim, ?_, ?_, ?_, System.enter_phase _⟩
  · intro p c hreaped
    by_cases hp : p = 1
    · rw [hp, System.enter_phase] at hreaped
      cases hreaped
    · rw [System.enter_ne _ hp, hphase p] at hreaped
      split at hreaped <;> cases hreaped
  · show ((claimProc k0 1).proc 1).state = .EMBRYO
    rw [claimProc, Kernel.setProc_self]
  · show ((claimProc k0 1).proc 1).pgdir = 0
    rw [claimProc, Kernel.setProc_self]
    exact hdir

theorem procdump_live_iff_first_claim : ∃ k0 s, PhaseRun (boot k0) s ∧
    (DumpLive s ↔ ∀ p, (s.phase p).window = false) := by
  obtain ⟨k0, s, hboot, hrun, -⟩ := first_claim
  exact ⟨k0, s, hrun, procdump_live_iff freshKernel_fresh hboot hrun⟩

/-- The console interrupt finds an `EMBRYO`, and follows its null pointer. -/
theorem procdump_null_pgdir : ∃ k0 s, userinit freshKernel (fun _ => 0) 44 = .ok k0 ∧ PhaseRun (boot k0) s ∧
    CanFire s ∧ (s.k.proc 1).state = .EMBRYO ∧ Dereferences s.k 1 0 ∧ ¬ DumpLive s := by
  obtain ⟨k0, s, hboot, hrun, hfire, hstate, hdir, -⟩ := first_claim
  have hused : (s.k.proc 1).state ≠ .UNUSED := by
    rw [hstate]
    decide
  have hnull : Dereferences s.k 1 0 := by
    rw [← hdir]
    exact dereferences_pgdir hused
  refine ⟨k0, s, hboot, hrun, hfire, hstate, hnull, ?_⟩
  intro hlive
  exact (hlive 1 0 hnull).2.2.1 rfl

end Paging
