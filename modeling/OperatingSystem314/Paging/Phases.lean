import OperatingSystem314.Paging.Calls

/-! # The life of a process, step by step

    `allocproc`, `fork`, `exec` and `wait` give a process a directory and
    take it away while interrupts are enabled, other processes run and the
    entry of the process table is half filled in.  A `Phase` says how far an
    entry has come, and what belongs to it.  `PhaseStep` cuts the calls at
    every point where what `p->state` and `p->pgdir` say may be looked at;
    steps of different calls interleave freely.

    * `Phase`: from `UNUSED` to `UNUSED`.
    * `PhaseStep`: one step of one process.
    * `Phased`: the entries agree with their phases, and the pages of all
      phases are in use, each by one of them.
    * `PhaseStep.phased`, `PhaseRun.phased`: every step keeps it. -/

namespace Paging

open Relation (ReflTransGen)

/-! ### Phases -/

/-- The states in which a process has been created and has not exited. -/
def ProcState.Active (st : ProcState) : Prop := st = .SLEEPING ∨ st = .RUNNABLE ∨ st = .RUNNING

/-- How far an entry of the process table has come.  `parent` is the process
    whose call is under way. -/
inductive Phase where
  | free
  /-- `allocproc` has claimed the entry -/
  | claimed (parent : ProcId)
  /-- it has a kernel stack -/
  | stacked (parent : ProcId)
  /-- `copyuvm` fills directory `d`; `pages` are still to be copied -/
  | copying (parent : ProcId) (d : Nat) (pages : List Nat)
  /-- `copyuvm` has returned a null pointer -/
  | failed (parent : ProcId)
  /-- `fork` has stored the directory -/
  | child (parent : ProcId) (d : Nat)
  | alive (d : Nat)
  /-- `exec` of the process fills the directory `new` -/
  | loading (d new : Nat)
  /-- `exec` has stored `d`, and `old` is still to be freed -/
  | replaced (d old : Nat)
  | zombie (d : Nat)
  /-- `wait` has freed the stack and the directory -/
  | reaped (parent : ProcId)

namespace Phase

/-- The directory that belongs to the process. -/
def dir : Phase → Option Nat
  | .child _ d | .alive d | .loading d _ | .replaced d _ | .zombie d => some d
  | _ => none

/-- The directories that the process, or the call under way, has to free. -/
def dirs : Phase → List Nat
  | .copying _ d _ | .child _ d | .alive d | .zombie d => [d]
  | .loading d new => [new, d]
  | .replaced d old => [old, d]
  | _ => []

/-- The kernel stack. -/
def stack (x : Proc) : Phase → List Nat
  | .free | .claimed _ | .reaped _ => []
  | _ => [x.kstack]

/-- The call that works on the entry from outside. -/
def caller : Phase → Option ProcId
  | .claimed c | .stacked c | .copying c _ _ | .failed c | .child c _ | .reaped c => some c
  | _ => none

/-- What `p->state` is in a phase. -/
def Allows : Phase → ProcState → Prop
  | .free, st => st = .UNUSED
  | .claimed _, st | .stacked _, st | .copying _ _ _, st | .failed _, st | .child _ _, st => st = .EMBRYO
  | .alive _, st | .loading _ _, st | .replaced _ _, st => st.Active
  | .zombie _, st | .reaped _, st => st = .ZOMBIE

/-- What the entry says in a phase. -/
structure Agrees (φ : Phase) (x : Proc) : Prop where
  state : φ.Allows x.state
  pgdir : ∀ d, φ.dir = some d → x.pgdir = d

end Phase

/-- The same kernel stack and directory, and no change of state but those of
    the scheduler. -/
structure Proc.SameLife (x y : Proc) : Prop where
  kstack : y.kstack = x.kstack
  pgdir : y.pgdir = x.pgdir
  state : y.state = x.state ∨ x.state.Active ∧ y.state.Active

namespace Proc.SameLife

variable {x y : Proc}

theorem refl (x : Proc) : x.SameLife x := ⟨rfl, rfl, .inl rfl⟩

theorem trans {z : Proc} (h : x.SameLife y) (h' : y.SameLife z) : x.SameLife z := by
  refine ⟨h'.kstack.trans h.kstack, h'.pgdir.trans h.pgdir, ?_⟩
  rcases h.state with heq | ⟨hx, hy⟩
  · rw [← heq]
    exact h'.state
  · rcases h'.state with heq' | ⟨-, hz⟩
    · exact .inr ⟨hx, heq' ▸ hy⟩
    · exact .inr ⟨hx, hz⟩

theorem of_eq (h : y = x) : x.SameLife y := by
  rw [h]
  exact .refl x

theorem of_paging (h : x.SameButPaging y) : x.SameLife y := by
  obtain ⟨_, _, _, _, _, rfl⟩ := h
  exact ⟨rfl, rfl, .inl rfl⟩

end Proc.SameLife

namespace Phase

variable {φ : Phase} {x y : Proc}

theorem Agrees.of_sameLife (h : φ.Agrees x) (hsame : x.SameLife y) : φ.Agrees y := by
  refine ⟨?_, fun d hd => by rw [hsame.pgdir, h.pgdir d hd]⟩
  rcases hsame.state with heq | ⟨hx, hy⟩
  · rw [heq]
    exact h.state
  · -- only the phases of a running process allow an active state
    have hold := h.state
    cases φ <;> first | exact hy | (simp only [Allows] at hold; simp [hold, ProcState.Active] at hx)

theorem stack_sameLife (h : x.SameLife y) : φ.stack y = φ.stack x := by
  cases φ <;> simp only [stack, h.kstack]

end Phase

/-! ### Steps -/

/-- The kernel, and how far each entry has come. -/
structure System where
  k : Kernel
  phase : ProcId → Phase

namespace System

/-- Entry `p` enters phase `φ`. -/
def enter (s : System) (k : Kernel) (p : ProcId) (φ : Phase) : System :=
  ⟨k, Function.update s.phase p φ⟩

@[simp] theorem enter_phase (s : System) {k : Kernel} {p : ProcId} {φ : Phase} : (s.enter k p φ).phase p = φ := by
  simp [enter]

theorem enter_ne (s : System) {k : Kernel} {p q : ProcId} {φ : Phase} (hq : q ≠ p) :
    (s.enter k p φ).phase q = s.phase q :=
  Function.update_of_ne hq _ _

/-- The current process has no call under way that is cut into steps. -/
structure Idle (s : System) : Prop where
  alive : ∃ d, s.phase s.k.curproc = .alive d
  none : ∀ p, (s.phase p).caller ≠ some s.k.curproc

end System

/-- Whatever leaves page tables and the free list alone, with the directory,
    the stack and the state of every process: the file system, the
    scheduler, signals, another process becoming current. -/
structure Elsewhere (k k' : Kernel) : Prop where
  kend : k'.kend = k.kend
  freelist : k'.freelist = k.freelist
  pgdir : k'.pgdir = k.pgdir
  procs : ∀ p, (k.proc p).SameLife (k'.proc p)

/-- `allocproc` claims entry `p`, holding the lock of the table. -/
def claimProc (k : Kernel) (p : ProcId) : Kernel :=
  { k with nextpid := k.nextpid + 1 }.setProc p { k.proc p with state := .EMBRYO, pid := k.nextpid }

/-- What `wait` frees of the child `c`. -/
def waitFree (k : Kernel) (c : ProcId) : Result Kernel := do
  let k ← kfree k (k.proc c).kstack
  let k := k.setProc c { k.proc c with kstack := 0 }
  freevm k (k.proc c).pgdir

/-- What `wait` clears of the child `c` after that. -/
def waitClear (k : Kernel) (c : ProcId) : Kernel :=
  k.setProc c { k.proc c with pid := 0, parent := none, killed := false, state := .UNUSED }

/-- One step.  The current process takes it, except for `other`. -/
inductive PhaseStep : System → System → Prop where
  | other {s : System} {k' : Kernel} (h : Elsewhere s.k k') : PhaseStep s ⟨k', s.phase⟩
  /-- `allocproc` -/
  | claim {s : System} {p : ProcId} (hidle : s.Idle) (hfree : freeProc s.k = some p) :
      PhaseStep s (s.enter (claimProc s.k p) p (.claimed s.k.curproc))
  | noStack {s : System} {p : ProcId} {k' : Kernel} (hp : s.phase p = .claimed s.k.curproc)
      (h : kalloc s.k = (none, k')) :
      PhaseStep s (s.enter (k'.setProc p { k'.proc p with kstack := 0, state := .UNUSED }) p .free)
  | stack {s : System} {p : ProcId} {k' : Kernel} {f : Nat} (hp : s.phase p = .claimed s.k.curproc)
      (h : kalloc s.k = (some f, k')) :
      PhaseStep s (s.enter (k'.setProc p { k'.proc p with kstack := f }) p (.stacked s.k.curproc))
  /-- `np->pgdir = copyuvm(...)` -/
  | noDir {s : System} {p : ProcId} {k' : Kernel} (hp : s.phase p = .stacked s.k.curproc)
      (h : setupkvm s.k = .ok (none, k')) :
      PhaseStep s (s.enter (k'.setProc p { k'.proc p with pgdir := 0 }) p (.failed s.k.curproc))
  | newDir {s : System} {p : ProcId} {k' : Kernel} {d : Nat} (hp : s.phase p = .stacked s.k.curproc)
      (h : setupkvm s.k = .ok (some d, k')) :
      PhaseStep s (s.enter k' p (.copying s.k.curproc d (pageRange 0 s.k.cur.sz)))
  | copyPage {s : System} {p : ProcId} {k' : Kernel} {d i : Nat} {pages : List Nat}
      (hp : s.phase p = .copying s.k.curproc d (i :: pages))
      (h : copyPage d s.k.cur.pgdir s.k i = .ok (true, k')) :
      PhaseStep s (s.enter k' p (.copying s.k.curproc d pages))
  | noPage {s : System} {p : ProcId} {k1 k' : Kernel} {d i : Nat} {pages : List Nat}
      (hp : s.phase p = .copying s.k.curproc d (i :: pages))
      (h : copyPage d s.k.cur.pgdir s.k i = .ok (false, k1)) (hfree : freevm k1 d = .ok k') :
      PhaseStep s (s.enter (k'.setProc p { k'.proc p with pgdir := 0 }) p (.failed s.k.curproc))
  | store {s : System} {p : ProcId} {d : Nat} (hp : s.phase p = .copying s.k.curproc d []) :
      PhaseStep s (s.enter (s.k.setProc p { s.k.proc p with pgdir := d }) p (.child s.k.curproc d))
  /-- the two ends of `fork` -/
  | giveUp {s : System} {p : ProcId} {k' : Kernel} (hp : s.phase p = .failed s.k.curproc)
      (h : kfree s.k (s.k.proc p).kstack = .ok k') :
      PhaseStep s (s.enter (k'.setProc p { k'.proc p with kstack := 0, state := .UNUSED }) p .free)
  | ready {s : System} {p : ProcId} {d : Nat} (hp : s.phase p = .child s.k.curproc d) :
      PhaseStep s (s.enter (s.k.setProc p { s.k.proc p with state := .RUNNABLE }) p (.alive d))
  /-- `exec` -/
  | noImage {s : System} {k' : Kernel} (hidle : s.Idle) (h : setupkvm s.k = .ok (none, k')) :
      PhaseStep s ⟨k', s.phase⟩
  | newImage {s : System} {k' : Kernel} {d new : Nat} (hidle : s.Idle)
      (hp : s.phase s.k.curproc = .alive d) (h : setupkvm s.k = .ok (some new, k')) :
      PhaseStep s (s.enter k' s.k.curproc (.loading d new))
  | load {s : System} {k' : Kernel} {d new : Nat} (hp : s.phase s.k.curproc = .loading d new)
      (h : LoadStep new s.k k') : PhaseStep s ⟨k', s.phase⟩
  | bad {s : System} {k' : Kernel} {d new : Nat} (hp : s.phase s.k.curproc = .loading d new)
      (h : freevm s.k new = .ok k') : PhaseStep s (s.enter k' s.k.curproc (.alive d))
  | commit {s : System} {d new : Nat} (hp : s.phase s.k.curproc = .loading d new) :
      PhaseStep s (s.enter (s.k.modCur fun x => { x with pgdir := new }) s.k.curproc
        (.replaced new s.k.cur.pgdir))
  | freeOld {s : System} {k' : Kernel} {d old : Nat} (hp : s.phase s.k.curproc = .replaced d old)
      (h : freevm s.k old = .ok k') : PhaseStep s (s.enter k' s.k.curproc (.alive d))
  /-- `sbrk`, and the page faults of system calls -/
  | work {s : System} {k' : Kernel} (hidle : s.Idle) (h : LoadStep s.k.cur.pgdir s.k k') :
      PhaseStep s ⟨k', s.phase⟩
  | fault {s : System} {k' : Kernel} {va : Nat} {e : FaultEnd} (hidle : s.Idle)
      (h : trapPgflt true s.k va = .ok (e, k')) : PhaseStep s ⟨k', s.phase⟩
  /-- `exit`, once the files are closed -/
  | exit {s : System} {d : Nat} (hidle : s.Idle) (hp : s.phase s.k.curproc = .alive d) :
      PhaseStep s (s.enter (s.k.modCur fun x => { x with state := .ZOMBIE }) s.k.curproc (.zombie d))
  /-- `wait`, holding the lock of the table from here to `release` -/
  | reap {s : System} {c : ProcId} {k' : Kernel} {d : Nat} (hidle : s.Idle) (hp : s.phase c = .zombie d)
      (hparent : (s.k.proc c).parent = some s.k.curproc) (h : waitFree s.k c = .ok k') :
      PhaseStep s (s.enter k' c (.reaped s.k.curproc))
  | release {s : System} {c : ProcId} (hp : s.phase c = .reaped s.k.curproc) :
      PhaseStep s (s.enter (waitClear s.k c) c .free)

abbrev PhaseRun : System → System → Prop := ReflTransGen PhaseStep

/-! ### What belongs to all phases -/

/-- The pages of every process, one process after the other. -/
def gather (f : ProcId → List Nat) : List Nat := (List.finRange NPROC).flatMap f

/-- Those of the other processes. -/
def gatherBut (p : ProcId) (f : ProcId → List Nat) : List Nat := ((List.finRange NPROC).erase p).flatMap f

section gather

variable {f g : ProcId → List Nat} {p q : ProcId} {n : Nat}

theorem gather_perm (f : ProcId → List Nat) (p : ProcId) : (gather f).Perm (f p ++ gatherBut p f) :=
  (List.perm_cons_erase (List.mem_finRange p)).flatMap_right f

theorem gatherBut_congr (h : ∀ q, q ≠ p → f q = g q) : gatherBut p f = gatherBut p g := by
  apply List.flatMap_congr
  intro q hq
  exact h q ((List.nodup_finRange NPROC).mem_erase_iff.mp hq).1

theorem mem_gather (h : n ∈ f p) : n ∈ gather f :=
  List.mem_flatMap.mpr ⟨p, List.mem_finRange p, h⟩

/-- No page is gathered from two processes. -/
theorem gather_owner (hnd : (gather f).Nodup) (hp : n ∈ f p) (hq : n ∈ f q) : p = q := by
  by_contra hne
  have hsplit := (gather_perm f p).nodup_iff.mp hnd
  refine (List.nodup_append.mp hsplit).2.2 n hp n ?_ rfl
  refine List.mem_flatMap.mpr ⟨q, ?_, hq⟩
  exact (List.nodup_finRange NPROC).mem_erase_iff.mpr ⟨fun h => hne h.symm, List.mem_finRange q⟩

end gather

namespace System

variable (s : System) (p : ProcId)

def dirs : List Nat := gather fun q => (s.phase q).dirs
def kstacks : List Nat := gather fun q => (s.phase q).stack (s.k.proc q)
def dirsBut : List Nat := gatherBut p fun q => (s.phase q).dirs
def kstacksBut : List Nat := gatherBut p fun q => (s.phase q).stack (s.k.proc q)

end System

/-- Every entry agrees with its phase, and no page belongs to two phases. -/
structure Phased (s : System) : Prop where
  agrees : ∀ p, (s.phase p).Agrees (s.k.proc p)
  inUse : InUse s.dirs s.kstacks s.k

/-- The order of the pages that are held does not matter. -/
theorem InUse.perm_held {ds hs hs' : List Nat} {k : Kernel} (h : InUse ds hs k) (hperm : hs.Perm hs') :
    InUse ds hs' k := by
  refine ⟨h.kend, h.dirs, hperm.nodup_iff.mp h.held, h.absent, h.inv.mono ?_⟩
  rintro (⟨e, part⟩ | g) f hi
  · exact inUse_inl.mpr (inUse_inl.mp hi)
  · obtain ⟨hg, heq⟩ := inUse_inr.mp hi
    exact inUse_inr.mpr ⟨hperm.mem_iff.mpr hg, heq⟩

namespace Phased

variable {s : System} {k' : Kernel} {p : ProcId} {φ : Phase}

theorem agree (h : Phased s) (hp : s.phase p = φ) : φ.Agrees (s.k.proc p) := hp ▸ h.agrees p

/-- The pages of one phase, and the rest. -/
theorem pages (h : Phased s) (hp : s.phase p = φ) :
    InUse (φ.dirs ++ s.dirsBut p) (φ.stack (s.k.proc p) ++ s.kstacksBut p) s.k := by
  rw [← hp]
  exact (h.inUse.perm (gather_perm _ p)).perm_held (gather_perm _ p)

/-- One entry enters a phase. -/
theorem enter (h : Phased s) (hothers : ∀ q, q ≠ p → (s.k.proc q).SameLife (k'.proc q))
    (hself : φ.Agrees (k'.proc p))
    (hin : InUse (φ.dirs ++ s.dirsBut p) (φ.stack (k'.proc p) ++ s.kstacksBut p) k') :
    Phased (s.enter k' p φ) := by
  constructor
  · intro q
    by_cases hq : q = p
    · subst hq
      rw [System.enter_phase]
      exact hself
    · rw [System.enter_ne s hq]
      exact (h.agrees q).of_sameLife (hothers q hq)
  · have hdirs : (φ.dirs ++ s.dirsBut p).Perm (s.enter k' p φ).dirs := by
      have hperm := gather_perm (fun q => ((s.enter k' p φ).phase q).dirs) p
      rw [gatherBut_congr (g := fun q => (s.phase q).dirs)] at hperm
      · simpa [System.dirs, System.dirsBut] using hperm.symm
      · intro q hq
        rw [System.enter_ne s hq]
    have hstacks : (φ.stack (k'.proc p) ++ s.kstacksBut p).Perm (s.enter k' p φ).kstacks := by
      have hperm := gather_perm (fun q => ((s.enter k' p φ).phase q).stack ((s.enter k' p φ).k.proc q)) p
      rw [gatherBut_congr (g := fun q => (s.phase q).stack (s.k.proc q))] at hperm
      · rw [System.enter_phase] at hperm
        exact hperm.symm
      · intro q hq
        rw [System.enter_ne s hq]
        exact Phase.stack_sameLife (hothers q hq)
    exact (hin.perm hdirs).perm_held hstacks

/-- Every entry stays in its phase. -/
theorem stay (h : Phased s) (hothers : ∀ q, (s.k.proc q).SameLife (k'.proc q)) (hin : InUse s.dirs s.kstacks k') :
    Phased ⟨k', s.phase⟩ := by
  refine ⟨fun q => (h.agrees q).of_sameLife (hothers q), ?_⟩
  have hstacks : (⟨k', s.phase⟩ : System).kstacks = s.kstacks := by
    unfold System.kstacks
    congr
    funext q
    exact Phase.stack_sameLife (hothers q)
  rw [hstacks]
  exact hin

/-- Memory changes, and perhaps entry `p`. -/
theorem others_of_mem {k1 : Kernel} {x : Proc} (h : OnlyMem s.k k1) (q : ProcId) (hq : q ≠ p) :
    (s.k.proc q).SameLife ((k1.setProc p x).proc q) := by
  apply Proc.SameLife.of_eq
  rw [Kernel.setProc_ne _ _ hq, h.proc]

/-! ### `allocproc` -/

/-- Only a free entry is unused. -/
theorem phase_free (h : Phased s) (hfree : freeProc s.k = some p) : s.phase p = .free := by
  have hstate := (h.agrees p).state
  rw [freeProc_unused hfree] at hstate
  cases hp : s.phase p <;> rw [hp] at hstate <;> first | rfl | simp [Phase.Allows, ProcState.Active] at hstate

theorem claim (h : Phased s) (hfree : freeProc s.k = some p) :
    Phased (s.enter (claimProc s.k p) p (.claimed s.k.curproc)) := by
  have hphase := h.phase_free hfree
  apply h.enter
  · intro q hq
    apply Proc.SameLife.of_eq
    exact Kernel.setProc_ne _ _ hq
  · refine ⟨?_, nofun⟩
    unfold claimProc
    rw [Kernel.setProc_self]
    rfl
  · have h1 := h.pages hphase
    exact h1.congr rfl rfl rfl

theorem noStack {c : ProcId} (h : Phased s) (hp : s.phase p = .claimed c) (hk : Paging.kalloc s.k = (none, k')) :
    Phased (s.enter (k'.setProc p { k'.proc p with kstack := 0, state := .UNUSED }) p .free) := by
  apply h.enter (others_of_mem (kalloc_mem hk))
  · refine ⟨?_, nofun⟩
    rw [Kernel.setProc_self]
    rfl
  · have h1 := h.pages hp
    unfold Paging.kalloc at hk
    split at hk
    · cases hk
      exact h1.congr rfl rfl rfl
    · cases hk

theorem stack {c : ProcId} {f : Nat} (h : Phased s) (hp : s.phase p = .claimed c)
    (hk : Paging.kalloc s.k = (some f, k')) :
    Phased (s.enter (k'.setProc p { k'.proc p with kstack := f }) p (.stacked c)) := by
  apply h.enter (others_of_mem (kalloc_mem hk))
  · refine ⟨?_, nofun⟩
    have hstate := (h.agree hp).state
    rw [Kernel.setProc_self, (kalloc_mem hk).proc]
    exact hstate
  · have h1 := h.pages hp
    unfold Paging.kalloc at hk
    split at hk
    · cases hk
    next g rest hfree =>
      cases hk
      rw [Kernel.setProc_self]
      exact (h1.kalloc hfree).congr rfl rfl rfl

/-! ### `fork` -/

theorem noDir {c : ProcId} (h : Phased s) (hp : s.phase p = .stacked c)
    (hk : Paging.setupkvm s.k = .ok (none, k')) :
    Phased (s.enter (k'.setProc p { k'.proc p with pgdir := 0 }) p (.failed c)) := by
  have hmem := setupkvm_mem hk
  apply h.enter (others_of_mem hmem)
  · refine ⟨?_, nofun⟩
    have hstate := (h.agree hp).state
    rw [Kernel.setProc_self, hmem.proc]
    exact hstate
  · have h1 := h.pages hp
    rw [Kernel.setProc_self, hmem.proc]
    exact ((h1.setupkvm hk).1 rfl).congr rfl rfl rfl

theorem newDir {c : ProcId} {d : Nat} {pages : List Nat} (h : Phased s) (hp : s.phase p = .stacked c)
    (hk : Paging.setupkvm s.k = .ok (some d, k')) : Phased (s.enter k' p (.copying c d pages)) := by
  have hmem := setupkvm_mem hk
  apply h.enter
  · intro q _
    rw [hmem.proc]
    exact .refl _
  · refine ⟨?_, nofun⟩
    have hstate := (h.agree hp).state
    rw [hmem.proc]
    exact hstate
  · have h1 := h.pages hp
    rw [hmem.proc]
    exact ((h1.setupkvm hk).2 d rfl).2

theorem copyPage {c : ProcId} {d i pg : Nat} {pages : List Nat} (h : Phased s)
    (hp : s.phase p = .copying c d (i :: pages)) (hk : Paging.copyPage d pg s.k i = .ok (true, k')) :
    Phased (s.enter k' p (.copying c d pages)) := by
  have hmem := (copyPage_mem hk).1
  apply h.enter
  · intro q _
    rw [hmem.proc]
    exact .refl _
  · refine ⟨?_, nofun⟩
    have hstate := (h.agree hp).state
    rw [hmem.proc]
    exact hstate
  · have h1 := h.pages hp
    rw [hmem.proc]
    exact h1.copyPage hk

theorem noPage {c : ProcId} {d i pg : Nat} {pages : List Nat} {k1 : Kernel} (h : Phased s)
    (hp : s.phase p = .copying c d (i :: pages)) (hk : Paging.copyPage d pg s.k i = .ok (false, k1))
    (hfree : Paging.freevm k1 d = .ok k') :
    Phased (s.enter (k'.setProc p { k'.proc p with pgdir := 0 }) p (.failed c)) := by
  have hmem := (copyPage_mem hk).1.trans (freevm_mem hfree)
  apply h.enter (others_of_mem hmem)
  · refine ⟨?_, nofun⟩
    have hstate := (h.agree hp).state
    rw [Kernel.setProc_self, hmem.proc]
    exact hstate
  · have h1 := h.pages hp
    rw [Kernel.setProc_self, hmem.proc]
    exact ((h1.copyPage hk).freevm hfree).congr rfl rfl rfl

theorem store {c : ProcId} {d : Nat} (h : Phased s) (hp : s.phase p = .copying c d []) :
    Phased (s.enter (s.k.setProc p { s.k.proc p with pgdir := d }) p (.child c d)) := by
  apply h.enter (others_of_mem (.refl s.k))
  · rw [Kernel.setProc_self]
    refine ⟨?_, ?_⟩
    · have hstate := (h.agree hp).state
      exact hstate
    · intro e he
      exact Option.some.inj he
  · have h1 := h.pages hp
    rw [Kernel.setProc_self]
    exact h1.congr rfl rfl rfl

theorem giveUp {c : ProcId} (h : Phased s) (hp : s.phase p = .failed c)
    (hk : Paging.kfree s.k (s.k.proc p).kstack = .ok k') :
    Phased (s.enter (k'.setProc p { k'.proc p with kstack := 0, state := .UNUSED }) p .free) := by
  apply h.enter (others_of_mem (kfree_mem hk))
  · refine ⟨?_, nofun⟩
    rw [Kernel.setProc_self]
    rfl
  · have h1 := h.pages hp
    exact (h1.kfree hk).congr rfl rfl rfl

theorem ready {c : ProcId} {d : Nat} (h : Phased s) (hp : s.phase p = .child c d) :
    Phased (s.enter (s.k.setProc p { s.k.proc p with state := .RUNNABLE }) p (.alive d)) := by
  apply h.enter (others_of_mem (.refl s.k))
  · rw [Kernel.setProc_self]
    refine ⟨.inr (.inl rfl), ?_⟩
    exact (h.agree hp).pgdir
  · have h1 := h.pages hp
    rw [Kernel.setProc_self]
    exact h1.congr rfl rfl rfl

/-! ### `exec` -/

theorem newImage {d new : Nat} (h : Phased s) (hp : s.phase p = .alive d)
    (hk : Paging.setupkvm s.k = .ok (some new, k')) : Phased (s.enter k' p (.loading d new)) := by
  have hmem := setupkvm_mem hk
  apply h.enter
  · intro q _
    rw [hmem.proc]
    exact .refl _
  · rw [hmem.proc]
    exact ⟨(h.agree hp).state, (h.agree hp).pgdir⟩
  · have h1 := h.pages hp
    rw [hmem.proc]
    exact ((h1.setupkvm hk).2 new rfl).2

theorem bad {d new : Nat} (h : Phased s) (hp : s.phase p = .loading d new)
    (hk : Paging.freevm s.k new = .ok k') : Phased (s.enter k' p (.alive d)) := by
  have hmem := freevm_mem hk
  apply h.enter
  · intro q _
    rw [hmem.proc]
    exact .refl _
  · rw [hmem.proc]
    exact ⟨(h.agree hp).state, (h.agree hp).pgdir⟩
  · have h1 := h.pages hp
    rw [hmem.proc]
    exact h1.freevm hk

theorem commit {d new : Nat} (h : Phased s) (hp : s.phase p = .loading d new) :
    Phased (s.enter (s.k.setProc p { s.k.proc p with pgdir := new }) p (.replaced new (s.k.proc p).pgdir)) := by
  apply h.enter (others_of_mem (.refl s.k))
  · rw [Kernel.setProc_self]
    refine ⟨(h.agree hp).state, ?_⟩
    intro e he
    exact Option.some.inj he
  · -- the old directory is now the one to free
    have h1 := h.pages hp
    rw [Kernel.setProc_self, (h.agree hp).pgdir d rfl]
    exact (h1.perm (.swap d new _)).congr rfl rfl rfl

theorem freeOld {d old : Nat} (h : Phased s) (hp : s.phase p = .replaced d old)
    (hk : Paging.freevm s.k old = .ok k') : Phased (s.enter k' p (.alive d)) := by
  have hmem := freevm_mem hk
  apply h.enter
  · intro q _
    rw [hmem.proc]
    exact .refl _
  · rw [hmem.proc]
    exact ⟨(h.agree hp).state, (h.agree hp).pgdir⟩
  · have h1 := h.pages hp
    rw [hmem.proc]
    exact h1.freevm hk

/-- The directories of a phase are among those in use. -/
theorem mem_dirs {d : Nat} (hp : s.phase p = φ) (hd : d ∈ φ.dirs) : d ∈ s.dirs := by
  apply mem_gather (p := p)
  rw [hp]
  exact hd

/-- The directory of the process belongs to its phase. -/
theorem pgdir_mem {d : Nat} (h : Phased s) (hp : s.phase p = φ) (hdir : φ.dir = some d) :
    (s.k.proc p).pgdir ∈ s.dirs := by
  apply mem_dirs hp
  rw [(h.agree hp).pgdir d hdir]
  cases φ <;> cases hdir <;> simp [Phase.dirs]

/-- Loading, for a directory in use. -/
theorem loadStep {d e : Nat} (h : Phased s) (hp : s.phase s.k.curproc = φ) (hdir : φ.dir = some d)
    (he : e ∈ s.dirs) (hk : LoadStep e s.k k') : Phased ⟨k', s.phase⟩ := by
  have hcur : s.k.cur.pgdir ∈ s.dirs := h.pgdir_mem hp hdir
  have hds : OnlyDirs s.dirs s.k k' := hk.dirs he hcur
  apply h.stay
  · intro q
    exact .of_paging (hds.procs q)
  · exact h.inUse.loadStep he hcur hk

theorem fault {d va : Nat} {user : Bool} {e : FaultEnd} (h : Phased s) (hp : s.phase s.k.curproc = .alive d)
    (hk : Paging.trapPgflt user s.k va = .ok (e, k')) : Phased ⟨k', s.phase⟩ := by
  have hcur : s.k.cur.pgdir ∈ s.dirs := h.pgdir_mem hp rfl
  refine h.stay ?_ (h.inUse.trapPgflt hcur hk)
  intro q
  obtain ⟨-, ⟨-, -, k1, hout, hin⟩ | ⟨-, -, -, rfl⟩⟩ := trapPgflt_ok hk
  · exact .of_paging (((swapPageOut_swaps hout).trans (swapPageIn_swaps hin)).procs q)
  · -- the process is killed
    by_cases hq : q = s.k.curproc
    · subst hq
      rw [Kernel.modCur, Kernel.setCur, Kernel.setProc_self]
      exact ⟨rfl, rfl, .inl rfl⟩
    · apply Proc.SameLife.of_eq
      exact Kernel.setProc_ne _ _ hq

/-! ### `exit` and `wait` -/

theorem exit {d : Nat} (h : Phased s) (hp : s.phase p = .alive d) :
    Phased (s.enter (s.k.setProc p { s.k.proc p with state := .ZOMBIE }) p (.zombie d)) := by
  apply h.enter (others_of_mem (.refl s.k))
  · rw [Kernel.setProc_self]
    exact ⟨rfl, (h.agree hp).pgdir⟩
  · have h1 := h.pages hp
    rw [Kernel.setProc_self]
    exact h1.congr rfl rfl rfl

/-- What `wait` frees belongs to nobody afterwards, and `p->pgdir` still says
    where it was. -/
theorem reap {c : ProcId} {d : Nat} (h : Phased s) (hp : s.phase p = .zombie d)
    (hk : waitFree s.k p = .ok k') : Phased (s.enter k' p (.reaped c)) ∧ (k'.proc p).pgdir = d := by
  simp only [waitFree, bind_eq_ok] at hk
  obtain ⟨k1, hkfree, hk⟩ := hk
  have hproc1 := (kfree_mem hkfree).proc
  have hmem := freevm_mem hk
  have hself : k'.proc p = { s.k.proc p with kstack := 0 } := by
    rw [hmem.proc, Kernel.setProc_self, hproc1]
  refine ⟨?_, ?_⟩
  · apply h.enter
    · intro q hq
      apply Proc.SameLife.of_eq
      rw [hmem.proc, Kernel.setProc_ne _ _ hq, hproc1]
    · rw [hself]
      exact ⟨(h.agree hp).state, nofun⟩
    · have h1 := h.pages hp
      have h2 : InUse (d :: s.dirsBut p) (s.kstacksBut p) (k1.setProc p { k1.proc p with kstack := 0 }) :=
        (h1.kfree hkfree).congr rfl rfl rfl
      have hdir : ((k1.setProc p { k1.proc p with kstack := 0 }).proc p).pgdir = d := by
        rw [Kernel.setProc_self, hproc1]
        exact (h.agree hp).pgdir d rfl
      rw [hdir] at hk
      exact h2.freevm hk
  · rw [hself]
    exact (h.agree hp).pgdir d rfl

theorem release {c : ProcId} (h : Phased s) (hp : s.phase p = .reaped c) :
    Phased (s.enter (waitClear s.k p) p .free) := by
  apply h.enter
  · intro q hq
    apply Proc.SameLife.of_eq
    exact Kernel.setProc_ne _ _ hq
  · refine ⟨?_, nofun⟩
    unfold waitClear
    rw [Kernel.setProc_self]
    rfl
  · have h1 := h.pages hp
    exact h1.congr rfl rfl rfl

end Phased

/-! ### Runs -/

theorem PhaseStep.phased {s s' : System} (hstep : PhaseStep s s') (h : Phased s) : Phased s' := by
  cases hstep with
  | other helse => exact h.stay helse.procs (h.inUse.congr helse.kend helse.pgdir helse.freelist)
  | claim hidle hfree => exact h.claim hfree
  | noStack hp hk => exact h.noStack hp hk
  | stack hp hk => exact h.stack hp hk
  | noDir hp hk => exact h.noDir hp hk
  | newDir hp hk => exact h.newDir hp hk
  | copyPage hp hk => exact h.copyPage hp hk
  | noPage hp hk hfree => exact h.noPage hp hk hfree
  | store hp => exact h.store hp
  | giveUp hp hk => exact h.giveUp hp hk
  | ready hp => exact h.ready hp
  | noImage hidle hk =>
    refine h.stay ?_ ((h.inUse.setupkvm hk).1 rfl)
    intro q
    rw [(setupkvm_mem hk).proc]
    exact .refl _
  | newImage hidle hp hk => exact h.newImage hp hk
  | load hp hk => exact h.loadStep hp rfl (Phased.mem_dirs hp (by simp [Phase.dirs])) hk
  | bad hp hk => exact h.bad hp hk
  | commit hp => exact h.commit hp
  | freeOld hp hk => exact h.freeOld hp hk
  | work hidle hk =>
    obtain ⟨d, hp⟩ := hidle.alive
    exact h.loadStep hp rfl (h.pgdir_mem hp rfl) hk
  | fault hidle hk =>
    obtain ⟨d, hp⟩ := hidle.alive
    exact h.fault hp hk
  | exit hidle hp => exact h.exit hp
  | reap hidle hp hparent hk => exact (h.reap hp hk).1
  | release hp => exact h.release hp

/-- Along a whole run. -/
theorem PhaseRun.phased {s s' : System} (hrun : PhaseRun s s') (h : Phased s) : Phased s' := by
  induction hrun with
  | refl => exact h
  | tail _ hstep ih => exact hstep.phased ih

end Paging
