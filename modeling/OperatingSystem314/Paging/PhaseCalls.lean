import OperatingSystem314.Paging.Phases

/-! # The calls, cut into steps

    `fork`, `exec` and `sbrk` of the model are runs of `PhaseStep`s of the
    process that makes them, when no other process takes a step meanwhile:
    what the steps say of every interleaving they say of these calls.

    * `fork_run`: the child ends up alive, or nothing is left of it.
    * `exec_run`: the process ends up with the old directory or a new one.
    * `sbrk_run`: the process keeps its directory. -/

namespace Paging

open Relation (ReflTransGen)

namespace System

variable (s : System) {k k' : Kernel} {p : ProcId} {φ ψ : Phase}

@[simp] theorem enter_enter : (s.enter k p φ).enter k' p ψ = s.enter k' p ψ := by
  simp [enter]

/-- An entry that is back in its phase. -/
theorem enter_back (hp : s.phase p = φ) : s.enter k p φ = ⟨k, s.phase⟩ := by
  rw [enter, ← hp, Function.update_eq_self]

end System

/-! ### `fork` -/

theorem Elsewhere.of_fs {k : Kernel} (fs : Fs) : Elsewhere k { k with fs } :=
  ⟨rfl, rfl, rfl, fun _ => .refl _⟩

theorem Elsewhere.trans {k k' k'' : Kernel} (h : Elsewhere k k') (h' : Elsewhere k' k'') : Elsewhere k k'' where
  kend := h'.kend.trans h.kend
  freelist := h'.freelist.trans h.freelist
  pgdir := h'.pgdir.trans h.pgdir
  procs := fun p => (h.procs p).trans (h'.procs p)

/-- An entry keeps its directory, its stack and its state. -/
theorem Elsewhere.setProc {k : Kernel} {p : ProcId} {x : Proc} (h : (k.proc p).SameLife x) :
    Elsewhere k (k.setProc p x) := by
  refine ⟨rfl, rfl, rfl, fun q => ?_⟩
  by_cases hq : q = p
  · subst hq
    rw [Kernel.setProc_self]
    exact h
  · rw [Kernel.setProc_ne _ _ hq]
    exact .refl _

theorem initPaging_elsewhere {k k' : Kernel} {p : ProcId} (h : initPaging k p = .ok k') : Elsewhere k k' := by
  unfold initPaging at h
  split at h
  · simp only [bind_eq_ok] at h
    obtain ⟨k1, hcreate, -, -, -, -, h⟩ := h
    obtain ⟨fs, f, rfl⟩ := createSwapFile_ok hcreate
    cases h
    have hfile : Elsewhere k (({ k with fs } : Kernel).setProc p { k.proc p with swapFile := some f }) :=
      (Elsewhere.of_fs fs).trans (.setProc ⟨rfl, rfl, .inl rfl⟩)
    exact hfile.trans (.setProc ⟨rfl, rfl, .inl rfl⟩)
  · cases h
    exact ⟨rfl, rfl, rfl, fun _ => .refl _⟩

/-- `allocproc` claims an entry, and may have to let it go. -/
theorem allocproc_run {s : System} {k' : Kernel} {r : Option ProcId} (h : Phased s) (hidle : s.Idle)
    (hok : allocproc s.k = .ok (r, k')) :
    (r = none → PhaseRun s ⟨k', s.phase⟩) ∧
      ∀ np, r = some np → PhaseRun s (s.enter k' np (.stacked s.k.curproc)) := by
  unfold allocproc at hok
  split at hok
  · cases hok
    exact ⟨fun _ => .refl, nofun⟩
  next p hfree =>
    have hclaim := PhaseStep.claim hidle hfree
    have hphase := System.enter_phase s (k := claimProc s.k p) (p := p) (φ := .claimed s.k.curproc)
    simp only [] at hok
    split at hok
    next k1 hk1 =>
      cases hok
      refine ⟨fun _ => ?_, nofun⟩
      have hlast := PhaseStep.noStack hphase hk1
      rw [System.enter_enter, System.enter_back s (h.phase_free hfree)] at hlast
      exact (ReflTransGen.single hclaim).tail hlast
    next f k1 hk1 =>
      rw [bind_eq_ok] at hok
      obtain ⟨k2, hinit, hok⟩ := hok
      cases hok
      refine ⟨nofun, ?_⟩
      intro np hnp
      cases hnp
      have hstack := PhaseStep.stack hphase hk1
      rw [System.enter_enter] at hstack
      exact ((ReflTransGen.single hclaim).tail hstack).tail (.other (initPaging_elsewhere hinit))

/-- The rounds of `copyuvm` that are left. -/
theorem copyLoop_run {s : System} {k' : Kernel} {p : ProcId} {d : Nat} {pages : List Nat} {r : Option Nat}
    (hp : s.phase p = .copying s.k.curproc d pages)
    (hok : copyLoop d s.k.cur.pgdir pages s.k = .ok (r, k')) :
    (r = none → PhaseRun s (s.enter (k'.setProc p { k'.proc p with pgdir := 0 }) p (.failed s.k.curproc))) ∧
      (r ≠ none → PhaseRun s (s.enter k' p (.copying s.k.curproc d []))) := by
  induction pages generalizing s with
  | nil =>
    cases hok
    refine ⟨nofun, fun _ => ?_⟩
    rw [System.enter_back s hp]
  | cons i rest ih =>
    simp only [copyLoop, bind_eq_ok] at hok
    obtain ⟨⟨b, k1⟩, hpage, hok⟩ := hok
    have hmem := (copyPage_mem hpage).1
    simp only [] at hok
    split at hok
    next hb =>
      obtain rfl : b = true := hb
      have hstep := PhaseStep.copyPage hp hpage
      obtain ⟨hfail, hcopied⟩ := ih (s := s.enter k1 p (.copying s.k.curproc d rest))
        (by rw [System.enter_phase]; exact congrArg (Phase.copying · d rest) hmem.curproc.symm)
        (by rw [← hok]; exact congrArg (copyLoop d · rest k1) (congrArg Proc.pgdir hmem.cur))
      have hcur : (s.enter k1 p (.copying s.k.curproc d rest)).k.curproc = s.k.curproc := hmem.curproc
      simp only [hcur, System.enter_enter] at hfail hcopied
      exact ⟨fun hr => .head hstep (hfail hr), fun hr => .head hstep (hcopied hr)⟩
    next hb =>
      obtain rfl : b = false := by simpa using hb
      rw [bind_eq_ok] at hok
      obtain ⟨k2, hfree, hok⟩ := hok
      cases hok
      exact ⟨fun _ => .single (.noPage hp hpage hfree), fun hne => absurd rfl hne⟩

theorem copyuvm_run {s : System} {k' : Kernel} {p : ProcId} {r : Option Nat}
    (hp : s.phase p = .stacked s.k.curproc) (hok : copyuvm s.k s.k.cur.pgdir s.k.cur.sz = .ok (r, k')) :
    (r = none → PhaseRun s (s.enter (k'.setProc p { k'.proc p with pgdir := 0 }) p (.failed s.k.curproc))) ∧
      ∀ d, r = some d → PhaseRun s (s.enter k' p (.copying s.k.curproc d [])) := by
  simp only [copyuvm, bind_eq_ok] at hok
  obtain ⟨⟨d, k1⟩, hsetup, hok⟩ := hok
  have hmem := setupkvm_mem hsetup
  cases d with
  | none =>
    cases hok
    exact ⟨fun _ => .single (.noDir hp hsetup), by simp⟩
  | some d =>
    simp only [] at hok
    have hstep := PhaseStep.newDir hp hsetup
    have hcur : (s.enter k1 p (.copying s.k.curproc d (pageRange 0 s.k.cur.sz))).k.curproc = s.k.curproc :=
      hmem.curproc
    have hpages := copyLoop_run (s := s.enter k1 p (.copying s.k.curproc d (pageRange 0 s.k.cur.sz)))
      (by rw [System.enter_phase, hcur])
      (by rw [← hok]; exact congrArg (copyLoop d · _ k1) (congrArg Proc.pgdir hmem.cur))
    simp only [hcur, System.enter_enter] at hpages
    refine ⟨fun hr => .head hstep (hpages.1 hr), ?_⟩
    intro e he
    rcases (copyLoop_beside hok).2 with hr | hr
    · rw [hr] at he
      cases he
    · obtain rfl : d = e := Option.some.inj (hr.symm.trans he)
      exact .head hstep (hpages.2 (by rw [he]; simp))

/-- Between the store of the directory and the last assignment `fork` does
    nothing to the life of any process. -/
theorem forkChild_elsewhere {k k' : Kernel} {np : ProcId} {d : Nat} {r : Int}
    (h : forkChild k np d = .ok (r, k')) :
    ∃ k1, Elsewhere (k.setProc np { k.proc np with pgdir := d }) k1 ∧
      k' = k1.setProc np { k1.proc np with state := .RUNNABLE } := by
  simp only [forkChild, bind_eq_ok] at h
  obtain ⟨fs, -, h⟩ := h
  set k1 : Kernel := { k.setProc np ((k.proc np).childOf k.cur k.curproc d) with
    fs := fs.idup (k.setProc np ((k.proc np).childOf k.cur k.curproc d)).cur.cwd } with hk1
  have hchild : k1 = { (k.setProc np { k.proc np with pgdir := d }).setProc np
      ((k.proc np).childOf k.cur k.curproc d) with fs := k1.fs } := by
    simp [hk1, Kernel.setProc]
  have h1 : Elsewhere (k.setProc np { k.proc np with pgdir := d }) k1 := by
    rw [hchild]
    refine (Elsewhere.setProc ?_).trans (.of_fs k1.fs)
    rw [Kernel.setProc_self]
    exact ⟨rfl, rfl, .inl rfl⟩
  split at h
  · -- the metadata and the swap file are copied
    rw [bind_eq_ok] at h
    obtain ⟨k2, hcopy, h⟩ := h
    cases h
    have h2 : Elsewhere k1 (k1.setProc np ((k1.proc np).copyPaging k1.cur)) :=
      .setProc ⟨rfl, rfl, .inl rfl⟩
    have h3 : Elsewhere (k1.setProc np ((k1.proc np).copyPaging k1.cur)) k2 := by
      rw [copySwapFile_ok hcopy]
      exact .of_fs _
    exact ⟨k2, (h1.trans h2).trans h3, rfl⟩
  · cases h
    exact ⟨k1, h1, rfl⟩

theorem kfree_setProc {k k' : Kernel} {f : Nat} (p : ProcId) (x : Proc) (h : kfree k f = .ok k') :
    kfree (k.setProc p x) f = .ok (k'.setProc p x) := by
  unfold kfree at h ⊢
  split at h
  next hf =>
    cases h
    rw [if_pos (show (k.setProc p x).FrameOk f from hf)]
    rfl
  · cases h

/-- The end of a `fork` that fails. -/
theorem giveUp_step {s : System} {k k' : Kernel} {np : ProcId} (hphase : s.phase np = .free)
    (hkfree : kfree k (k.proc np).kstack = .ok k') :
    PhaseStep (s.enter (k.setProc np { k.proc np with pgdir := 0 }) np (.failed k.curproc))
      ⟨k'.setProc np { k'.proc np with pgdir := 0, kstack := 0, state := .UNUSED }, s.phase⟩ := by
  have hproc := (kfree_mem hkfree).proc
  have hfree : kfree (k.setProc np { k.proc np with pgdir := 0 })
      ((k.setProc np { k.proc np with pgdir := 0 }).proc np).kstack =
        .ok (k'.setProc np { k.proc np with pgdir := 0 }) := by
    rw [Kernel.setProc_self]
    exact kfree_setProc np _ hkfree
  have hstep := PhaseStep.giveUp
    (s := s.enter (k.setProc np { k.proc np with pgdir := 0 }) np (.failed k.curproc)) (System.enter_phase s) hfree
  rw [System.enter_enter, System.enter_back s hphase, Kernel.setProc_self] at hstep
  convert hstep using 2
  simp [Kernel.setProc, hproc]

/-- The end of a `fork` that succeeds. -/
theorem forkChild_run {s : System} {k k' : Kernel} {np : ProcId} {d : Nat} {r : Int}
    (hok : forkChild k np d = .ok (r, k')) :
    PhaseRun (s.enter k np (.copying k.curproc d [])) (s.enter k' np (.alive d)) := by
  obtain ⟨k1, helse, rfl⟩ := forkChild_elsewhere hok
  have hcurproc : k1.curproc = k.curproc := (forkChild_dir hok).1.curproc
  have hstore := PhaseStep.store (s := s.enter k np (.copying k.curproc d [])) (System.enter_phase s)
  rw [System.enter_enter] at hstore
  have hchild : (s.enter k1 np (.child k.curproc d)).phase np = .child k1.curproc d := by
    rw [System.enter_phase, hcurproc]
  have hready := PhaseStep.ready hchild
  rw [System.enter_enter] at hready
  exact ((ReflTransGen.single hstore).tail (.other helse)).tail hready

/-- The child ends up alive, or nothing is left of it. -/
theorem fork_run {s : System} {k' : Kernel} {r : Int} (h : Phased s) (hidle : s.Idle)
    (hok : fork s.k = .ok (r, k')) :
    PhaseRun s ⟨k', s.phase⟩ ∨ ∃ np d, PhaseRun s (s.enter k' np (.alive d)) := by
  simp only [fork, bind_eq_ok] at hok
  obtain ⟨⟨np, k1⟩, halloc, hok⟩ := hok
  obtain ⟨hnone, hsome⟩ := allocproc_run h hidle halloc
  cases np with
  | none =>
    cases hok
    exact .inl (hnone rfl)
  | some np =>
    obtain ⟨hfree, honly, -⟩ := allocproc_ok halloc
    have hphase := h.phase_free hfree
    have hne : s.k.curproc ≠ np := by
      intro heq
      obtain ⟨d, hd⟩ := hidle.alive
      rw [heq, hphase] at hd
      cases hd
    have hcurproc1 : k1.curproc = s.k.curproc := honly.curproc
    simp only [bind_eq_ok] at hok
    obtain ⟨⟨d, k2⟩, hcopy, hok⟩ := hok
    have hcurproc2 : k2.curproc = s.k.curproc := (copyuvm_mem hcopy).curproc.trans hcurproc1
    have hphase1 : (s.enter k1 np (.stacked s.k.curproc)).phase np = .stacked k1.curproc := by
      rw [System.enter_phase, hcurproc1]
    obtain ⟨hfail, hcopied⟩ := copyuvm_run hphase1 hcopy
    rw [System.enter_enter] at hfail
    simp only [System.enter_enter] at hcopied
    have hcurproc : (s.enter k1 np (.stacked s.k.curproc)).k.curproc = k2.curproc :=
      hcurproc1.trans hcurproc2.symm
    rw [hcurproc] at hfail hcopied
    cases d with
    | none =>
      simp only [bind_eq_ok] at hok
      obtain ⟨k3, hkfree, hok⟩ := hok
      cases hok
      left
      exact ((hsome np rfl).trans (hfail rfl)).tail (giveUp_step hphase hkfree)
    | some d =>
      right
      exact ⟨np, d, ((hsome np rfl).trans (hcopied d rfl)).trans (forkChild_run hok)⟩

/-! ### `sbrk` and `exec` -/

/-- Loading changes neither the current process nor its directory. -/
theorem Loads.same {k k' : Kernel} {d : Nat} (h : Loads d k k') :
    k'.curproc = k.curproc ∧ k'.cur.pgdir = k.cur.pgdir := by
  have hds : OnlyDirs [d, k.cur.pgdir] k k' := h.dirs (by simp) (by simp)
  exact ⟨hds.curproc, hds.pgdir⟩

theorem System.Idle.stay {s : System} {k' : Kernel} (h : s.Idle) (hcur : k'.curproc = s.k.curproc) :
    (⟨k', s.phase⟩ : System).Idle := by
  refine ⟨?_, ?_⟩
  · show ∃ d, s.phase k'.curproc = .alive d
    rw [hcur]
    exact h.alive
  · intro p
    show (s.phase p).caller ≠ some k'.curproc
    rw [hcur]
    exact h.none p

theorem loads_work {s : System} {k' : Kernel} (hidle : s.Idle) (h : Loads s.k.cur.pgdir s.k k') :
    PhaseRun s ⟨k', s.phase⟩ := by
  induction h with
  | refl => exact .refl
  | @tail k1 k2 hinit hstep ih =>
    obtain ⟨hcur, hdir⟩ := Loads.same hinit
    rw [← hdir] at hstep
    exact ih.tail (.work (s := ⟨k1, s.phase⟩) (hidle.stay hcur) hstep)

theorem loads_load {s : System} {k' : Kernel} {d new : Nat} (hp : s.phase s.k.curproc = .loading d new)
    (h : Loads new s.k k') : PhaseRun s ⟨k', s.phase⟩ := by
  induction h with
  | refl => exact .refl
  | @tail k1 k2 hinit hstep ih =>
    have hcur := (Loads.same hinit).1
    refine ih.tail (.load (s := ⟨k1, s.phase⟩) (d := d) ?_ hstep)
    rw [← hp]
    exact congrArg s.phase hcur

theorem Elsewhere.modCur {k : Kernel} {f : Proc → Proc} (h : k.cur.SameLife (f k.cur)) :
    Elsewhere k (k.modCur f) := .setProc h

/-- The process keeps its directory. -/
theorem sbrk_run {s : System} {k' : Kernel} {n r : Int} (hidle : s.Idle) (hok : sys_sbrk s.k n = .ok (r, k')) :
    PhaseRun s ⟨k', s.phase⟩ := by
  obtain ⟨k1, hquiet, rfl | ⟨sz, rfl⟩⟩ := sys_sbrk_quiet hok
  · exact loads_work hidle hquiet.loads
  · have hsz : Elsewhere k1 (k1.setSz sz) := .modCur ⟨rfl, rfl, .inl rfl⟩
    exact (loads_work hidle hquiet.loads).tail (.other hsz)

/-- A load of `exec`, from the new directory on. -/
theorem execLoad_run {s : System} {k' : Kernel} {d new ip : Nat} {argv : List Nat} {r : Option Image}
    (hp : s.phase s.k.curproc = .loading d new) (hok : execLoad s.k new ip argv = .ok (r, k')) :
    (r = none → PhaseRun s (s.enter k' s.k.curproc (.alive d))) ∧
      ∀ img, r = some img → img.pgdir = new ∧ k'.curproc = s.k.curproc ∧ PhaseRun s ⟨k', s.phase⟩ := by
  have hreset : PhaseStep s ⟨s.k.modCur Proc.resetPaging, s.phase⟩ :=
    .other (.modCur ⟨rfl, rfl, .inl rfl⟩)
  cases r with
  | none =>
    obtain ⟨k1, k2, hloads, hfree, hk'⟩ := execLoad_none hok
    have hcur : k1.curproc = s.k.curproc := (Loads.same hloads).1
    have hrun := loads_load (s := ⟨s.k.modCur Proc.resetPaging, s.phase⟩) hp hloads
    have hp1 : (⟨k1, s.phase⟩ : System).phase k1.curproc = .loading d new := by
      rw [hcur]
      exact hp
    have hbad := PhaseStep.bad hp1 hfree
    refine ⟨fun _ => ?_, nofun⟩
    rw [hk', ← hcur]
    exact ((hrun.head hreset).tail hbad).tail (.other (.of_fs _))
  | some img =>
    refine ⟨nofun, ?_⟩
    intro img' himg
    cases himg
    have hloads := execLoad_loads hok
    refine ⟨(execLoad_some hok).1, (Loads.same hloads).1, ?_⟩
    exact (loads_load (s := ⟨s.k.modCur Proc.resetPaging, s.phase⟩) hp hloads).head hreset

/-- The commit of `exec`: the new directory is stored before the old one is freed. -/
theorem execCommit_run {s : System} {k' : Kernel} {d path : Nat} {img : Image}
    (hp : s.phase s.k.curproc = .loading d img.pgdir) (hok : execCommit s.k img path = .ok k') :
    PhaseRun s (s.enter k' s.k.curproc (.alive img.pgdir)) := by
  obtain ⟨k1, hquiet, hfree⟩ : ∃ k1, Quiet img.pgdir s.k k1 ∧ _ := execCommit_ok hok
  have hcur : k1.curproc = s.k.curproc := (Loads.same hquiet.loads).1
  have hp1 : (⟨k1, s.phase⟩ : System).phase k1.curproc = .loading d img.pgdir := by
    rw [hcur]
    exact hp
  have hcommit := PhaseStep.commit hp1
  -- size and registers are set together with the directory
  obtain ⟨k2, hk2⟩ : ∃ k2, k2 = k1.modCur fun x => { x with pgdir := img.pgdir } := ⟨_, rfl⟩
  have hset : (k1.modCur fun x =>
      { x with pgdir := img.pgdir, sz := img.sz, tf := { x.tf with eip := img.entry, esp := img.sp } }) =
      k2.modCur fun x => { x with sz := img.sz, tf := { x.tf with eip := img.entry, esp := img.sp } } := by
    rw [hk2]
    simp [Kernel.modCur, Kernel.setCur, Kernel.setProc, Kernel.cur]
  rw [hset] at hfree
  have helse : Elsewhere k2
      (k2.modCur fun x => { x with sz := img.sz, tf := { x.tf with eip := img.entry, esp := img.sp } }) :=
    .modCur ⟨rfl, rfl, .inl rfl⟩
  obtain ⟨k3, hk3⟩ : ∃ k3, k3 =
    k2.modCur fun x => { x with sz := img.sz, tf := { x.tf with eip := img.entry, esp := img.sp } } := ⟨_, rfl⟩
  rw [← hk3] at hfree helse
  rw [← hk2] at hcommit
  have hcur3 : k3.curproc = k1.curproc := by
    rw [hk3, hk2]
    rfl
  have hp3 : ((⟨k1, s.phase⟩ : System).enter k3 k1.curproc (.replaced img.pgdir k1.cur.pgdir)).phase k3.curproc =
      .replaced img.pgdir k1.cur.pgdir := by
    rw [hcur3, System.enter_phase]
  have hlast := PhaseStep.freeOld hp3 hfree
  have hend : ((⟨k1, s.phase⟩ : System).enter k3 k1.curproc (.replaced img.pgdir k1.cur.pgdir)).enter k'
      k3.curproc (.alive img.pgdir) = s.enter k' s.k.curproc (.alive img.pgdir) := by
    rw [hcur3, System.enter_enter, hcur]
    rfl
  exact (((loads_load hp hquiet.loads).tail hcommit).tail (.other helse)).tail (hend ▸ hlast)

/-- The process keeps its directory, or has a new one. -/
theorem exec_run {s : System} {k' : Kernel} {path : Nat} {argv : List Nat} {r : Int} (hidle : s.Idle)
    (hok : exec s.k path argv = .ok (r, k')) :
    PhaseRun s ⟨k', s.phase⟩ ∨ ∃ new, PhaseRun s (s.enter k' s.k.curproc (.alive new)) := by
  unfold exec at hok
  rw [bind_eq_ok] at hok
  obtain ⟨⟨img, k1⟩, himage, hok⟩ := hok
  rcases execImage_ok himage with ⟨q, k2, k3, hinode, hfail, rfl, hk1⟩ | ⟨ip, k2, new, k3, hinode, -, hsetup, hload⟩
  · -- nothing has been built yet
    cases hok
    have hloads : Loads s.k.cur.pgdir s.k k2 := execInode_loads hinode
    have h1 := loads_work hidle hloads
    left
    rw [hk1]
    have h3 : PhaseRun s ⟨k3, s.phase⟩ := by
      rcases hfail with ⟨-, rfl⟩ | ⟨ip, -, ⟨-, rfl⟩ | ⟨-, hsetup⟩⟩
      · exact h1
      · exact h1
      · exact h1.tail (.noImage (hidle.stay (Loads.same hloads).1) hsetup)
    exact h3.tail (.other (.of_fs _))
  · obtain ⟨d, hd⟩ := hidle.alive
    have hloads : Loads s.k.cur.pgdir s.k k2 := execInode_loads hinode
    have h1 := loads_work hidle hloads
    have hcur2 : k2.curproc = s.k.curproc := (Loads.same hloads).1
    have hd2 : (⟨k2, s.phase⟩ : System).phase k2.curproc = .alive d := by
      rw [hcur2]
      exact hd
    have hnew := PhaseStep.newImage (hidle.stay hcur2) hd2 hsetup
    obtain ⟨s3, hs3⟩ : ∃ s3, s3 = (⟨k2, s.phase⟩ : System).enter k3 k2.curproc (.loading d new) := ⟨_, rfl⟩
    have hcur3 : s3.k.curproc = s.k.curproc := by
      rw [hs3]
      exact (setupkvm_mem hsetup).curproc.trans hcur2
    have hp3 : s3.phase s3.k.curproc = .loading d new := by
      rw [hcur3, hs3, hcur2, System.enter_phase]
    have hload3 : execLoad s3.k new ip argv = .ok (img, k1) := by
      rw [hs3]
      exact hload
    rw [← hs3] at hnew
    have h3 : PhaseRun s s3 := h1.tail hnew
    have henter : ∀ {k : Kernel} {φ : Phase}, s3.enter k s3.k.curproc φ = s.enter k s.k.curproc φ := by
      intro k φ
      rw [hcur3, hs3, hcur2, System.enter_enter]
      rfl
    obtain ⟨hbad, hgood⟩ := execLoad_run hp3 hload3
    cases img with
    | none =>
      cases hok
      left
      have hrun := h3.trans (hbad rfl)
      rwa [henter, System.enter_back s hd] at hrun
    | some img =>
      simp only [bind_eq_ok] at hok
      obtain ⟨k4, hcommit, hok⟩ := hok
      cases hok
      obtain ⟨rfl, hcur1, hrun⟩ := hgood img rfl
      right
      refine ⟨img.pgdir, ?_⟩
      have hp1 : (⟨k1, s3.phase⟩ : System).phase k1.curproc = .loading d img.pgdir := by
        rw [hcur1]
        exact hp3
      have hend := (h3.trans hrun).trans (execCommit_run hp1 hcommit)
      have hsame : (⟨k1, s3.phase⟩ : System).enter k' k1.curproc (.alive img.pgdir) =
          s3.enter k' s3.k.curproc (.alive img.pgdir) := by
        rw [hcur1]
        rfl
      rw [hsame, henter] at hend
      exact hend

end Paging
