import OperatingSystem314.Kernel.Processes

/-! # Parents, children and CPUs

    * `Tree`: who has a parent, and that parents are alive.
    * `Cpus`: a process runs on one CPU.
    * `Waits`: who sleeps in `wait` has children, and none of them is dead.
    * `zombies_found`, `wait_not_lost`, `runs_once`: the results. -/

namespace Processes

open Function (update update_self update_of_ne update_eq_self)

variable {C : Type} [DecidableEq C] {s s' : State C} {c : C} {p q : Slot}

/-! ### The table -/

namespace Procstate

def live : Procstate → Bool
  | .SLEEPING | .RUNNABLE | .RUNNING => true
  | .UNUSED | .EMBRYO | .ZOMBIE => false

/-- A process may have been woken. -/
def Woken (x y : Procstate) : Prop := y = x ∨ (x = .SLEEPING ∧ y = .RUNNABLE)

namespace Woken

variable {x y z st : Procstate}

theorem refl (x : Procstate) : Woken x x := Or.inl rfl

theorem trans (h : Woken x y) (h' : Woken y z) : Woken x z := by
  rcases h' with heq' | ⟨hs', hr'⟩
  · rw [heq']
    exact h
  · rcases h with heq | ⟨_, hr⟩
    · exact Or.inr ⟨heq ▸ hs', hr'⟩
    · rw [hr] at hs'
      cases hs'

theorem live (h : Woken x y) : y.live = x.live := by
  rcases h with heq | ⟨hs, hr⟩
  · rw [heq]
  · rw [hs, hr]
    rfl

/-- All other states are as they were. -/
theorem iff (h : Woken x y) (hs : st ≠ .SLEEPING) (hr : st ≠ .RUNNABLE) : y = st ↔ x = st := by
  rcases h with heq | ⟨hs', hr'⟩
  · rw [heq]
  · rw [hs', hr']
    constructor
    · intro heq
      exact absurd heq.symm hr
    · intro heq
      exact absurd heq.symm hs

theorem asleep (h : Woken x y) (hs : y = .SLEEPING) : x = .SLEEPING := by
  rcases h with heq | ⟨hs', -⟩
  · rw [← heq]
    exact hs
  · exact hs'

end Woken

end Procstate

/-- What `wakeup1` and `kill` leave of a process. -/
structure Woken (x y : Proc) : Prop where
  parent : y.parent = x.parent
  chan : y.chan = x.chan
  state : x.state.Woken y.state

theorem Woken.refl (x : Proc) : Woken x x := ⟨rfl, rfl, .refl _⟩

namespace State

omit [DecidableEq C] in
theorem wakeup1_woken (s : State C) (chan : Chan) (p : Slot) : Woken (s.proc p) ((s.wakeup1 chan).proc p) := by
  simp only [wakeup1]
  split
  next h => exact ⟨rfl, rfl, Or.inr ⟨h.1, rfl⟩⟩
  next => exact Woken.refl _

omit [DecidableEq C] in
/-- Nobody sleeps on `chan` any more. -/
theorem wakeup1_awake (s : State C) (chan : Chan) (p : Slot) :
    ¬ (((s.wakeup1 chan).proc p).state = .SLEEPING ∧ ((s.wakeup1 chan).proc p).chan = some chan) := by
  simp only [wakeup1]
  split
  next => simp
  next h => exact h

omit [DecidableEq C] in
@[simp] theorem modify_self {f : Proc → Proc} : (s.modify p f).proc p = f (s.proc p) := by
  simp [modify]

omit [DecidableEq C] in
theorem modify_ne {f : Proc → Proc} (h : q ≠ p) : (s.modify p f).proc q = s.proc q := by
  simp [modify, update_of_ne h]

@[simp] theorem sched_proc : (s.sched c).proc = s.proc := rfl

omit [DecidableEq C] in
@[simp] theorem setPc_proc {pc : Pc} : (s.setPc q pc).proc = s.proc := rfl

omit [DecidableEq C] in
@[simp] theorem modify_pc {f : Proc → Proc} : (s.modify p f).pc = s.pc := rfl

omit [DecidableEq C] in
@[simp] theorem modify_cpu {f : Proc → Proc} : (s.modify p f).cpu = s.cpu := rfl

/-- What becomes of the children of `q`, which has exited. -/
structure Passed (q : Slot) (ps : List Slot) (s s' : State C) : Prop where
  parent : ∀ p, (s'.proc p).parent = if p ∈ ps ∧ (s.proc p).parent = some q then some initproc else (s.proc p).parent
  chan : ∀ p, (s'.proc p).chan = (s.proc p).chan
  state : ∀ p, (s.proc p).state.Woken (s'.proc p).state
  zombie : (∃ p ∈ ps, (s.proc p).parent = some q ∧ (s.proc p).state = .ZOMBIE) →
    ¬ ((s'.proc initproc).state = .SLEEPING ∧ (s.proc initproc).chan = some (.proc initproc))
  rest : s'.pc = s.pc ∧ s'.cpu = s.cpu ∧ s'.at_ = s.at_

/-- One child is passed. -/
def adopt (s : State C) (p : Slot) : State C :=
  let s := s.modify p fun x => { x with parent := some initproc }
  if (s.proc p).state = .ZOMBIE then s.wakeup1 (.proc initproc) else s

omit [DecidableEq C] in
theorem adopt_woken (s : State C) (p p' : Slot) :
    Woken ((s.modify p fun x => { x with parent := some initproc }).proc p') ((s.adopt p).proc p') := by
  unfold adopt
  simp only []
  split
  next => exact wakeup1_woken _ _ p'
  next => exact Woken.refl _

omit [DecidableEq C] in
theorem adopt_proc (s : State C) (p p' : Slot) :
    ((s.adopt p).proc p').parent = (if p' = p then some initproc else (s.proc p').parent) ∧
      ((s.adopt p).proc p').chan = (s.proc p').chan ∧
      (s.proc p').state.Woken ((s.adopt p).proc p').state := by
  obtain ⟨hparent, hchan, hstate⟩ := adopt_woken s p p'
  by_cases hp : p' = p
  · subst hp
    rw [modify_self] at hparent hchan hstate
    exact ⟨by simp [hparent], hchan, hstate⟩
  · rw [modify_ne hp] at hparent hchan hstate
    exact ⟨by simp [hparent, hp], hchan, hstate⟩

omit [DecidableEq C] in
/-- Where the child is dead, init does not sleep. -/
theorem adopt_zombie (s : State C) (p : Slot) (hz : (s.proc p).state = .ZOMBIE) :
    ¬ (((s.adopt p).proc initproc).state = .SLEEPING ∧ ((s.adopt p).proc initproc).chan = some (.proc initproc)) := by
  unfold adopt
  simp only [modify_self, hz, if_true]
  exact wakeup1_awake _ _ initproc

omit [DecidableEq C] in
theorem passChildren_passed (hq : q ≠ initproc) (ps : List Slot) (s : State C) : Passed q ps s (passChildren q ps s) := by
  induction ps generalizing s with
  | nil => exact ⟨by simp [passChildren], fun _ => rfl, fun _ => .refl _, by simp, rfl, rfl, rfl⟩
  | cons p ps ih =>
    unfold passChildren
    split
    next hp =>
      have hrest := ih (s.adopt p)
      have hstep := adopt_proc s p
      have hsame : (s.adopt p).pc = s.pc ∧ (s.adopt p).cpu = s.cpu ∧ (s.adopt p).at_ = s.at_ := by
        unfold adopt
        simp only []
        split
        next => exact ⟨rfl, rfl, rfl⟩
        next => exact ⟨rfl, rfl, rfl⟩
      have hzombie : (s.proc p).state = .ZOMBIE → ¬ (((passChildren q ps (s.adopt p)).proc initproc).state = .SLEEPING ∧
          (s.proc initproc).chan = some (.proc initproc)) := by
        intro hz hboth
        refine adopt_zombie s p hz ⟨(hrest.state initproc).asleep hboth.1, ?_⟩
        rw [(hstep initproc).2.1]
        exact hboth.2
      refine ⟨?_, ?_, ?_, ?_, ?_⟩
      · intro p'
        show ((passChildren q ps (s.adopt p)).proc p').parent = _
        rw [hrest.parent, (hstep p').1]
        by_cases hpp : p' = p
        · subst hpp
          simp [hp, Ne.symm hq]
        · simp [hpp]
      · intro p'
        exact (hrest.chan p').trans (hstep p').2.1
      · intro p'
        exact (hstep p').2.2.trans (hrest.state p')
      · rintro ⟨p', hmem, hpar, hz⟩
        by_cases hpp : p' = p
        · rw [hpp] at hz
          exact hzombie hz
        · have hmem' : p' ∈ ps := (List.mem_cons.mp hmem).resolve_left hpp
          have hpar' : ((s.adopt p).proc p').parent = some q := by
            rw [(hstep p').1, if_neg hpp, hpar]
          have hz' : ((s.adopt p).proc p').state = .ZOMBIE :=
            ((hstep p').2.2.iff (by simp) (by simp)).mpr hz
          intro hboth
          refine hrest.zombie ⟨p', hmem', hpar', hz'⟩ ⟨hboth.1, ?_⟩
          rw [(hstep initproc).2.1]
          exact hboth.2
      · exact ⟨hrest.rest.1.trans hsame.1, hrest.rest.2.1.trans hsame.2.1, hrest.rest.2.2.trans hsame.2.2⟩
    next hp =>
      have hrest := ih s
      refine ⟨?_, hrest.chan, hrest.state, ?_, hrest.rest⟩
      · intro p'
        rw [hrest.parent]
        by_cases hpp : p' = p
        · subst hpp
          simp [hp]
        · simp [hpp]
      · intro hz
        apply hrest.zombie
        obtain ⟨p', hmem, hpar, hzom⟩ := hz
        rcases List.mem_cons.mp hmem with rfl | hmem
        · exact absurd hpar hp
        · exact ⟨p', hmem, hpar, hzom⟩

/-- What `exit` of `q`, on CPU `c`, does. -/
structure Exited (c : C) (q : Slot) (s s' : State C) : Prop where
  parent : ∀ p, (s'.proc p).parent = if (s.proc p).parent = some q then some initproc else (s.proc p).parent
  chan : ∀ p, (s'.proc p).chan = (s.proc p).chan
  state : ∀ p, p ≠ q → (s.proc p).state.Woken (s'.proc p).state
  zombie : (s'.proc q).state = .ZOMBIE
  /-- its parent does not sleep in `wait` -/
  toParent : ∀ r, (s.proc q).parent = some r → ¬ ((s'.proc r).state = .SLEEPING ∧ (s.proc r).chan = some (.proc r))
  /-- nor does init, where it gets a dead child -/
  toInit : (∃ p, (s.proc p).parent = some q ∧ (s.proc p).state = .ZOMBIE) →
    ¬ ((s'.proc initproc).state = .SLEEPING ∧ (s.proc initproc).chan = some (.proc initproc))
  pc : s'.pc = s.pc
  cpu : s'.cpu = update s.cpu c none

/-- The state of the process that sleeps on `chan`, after the first `wakeup1`. -/
def wakeParent (s : State C) (q : Slot) : State C :=
  match (s.proc q).parent with
  | some r => s.wakeup1 (.proc r)
  | none => s

omit [DecidableEq C] in
theorem wakeParent_woken (s : State C) (q p : Slot) : Woken (s.proc p) ((s.wakeParent q).proc p) := by
  unfold wakeParent
  split
  next => exact wakeup1_woken _ _ p
  next => exact Woken.refl _

omit [DecidableEq C] in
theorem wakeParent_awake (s : State C) {q r : Slot} (h : (s.proc q).parent = some r) :
    ¬ (((s.wakeParent q).proc r).state = .SLEEPING ∧ ((s.wakeParent q).proc r).chan = some (.proc r)) := by
  unfold wakeParent
  rw [h]
  exact wakeup1_awake _ _ r

omit [DecidableEq C] in
theorem wakeParent_rest (s : State C) (q : Slot) :
    (s.wakeParent q).pc = s.pc ∧ (s.wakeParent q).cpu = s.cpu := by
  unfold wakeParent
  split
  next => exact ⟨rfl, rfl⟩
  next => exact ⟨rfl, rfl⟩

theorem exit_exited (s : State C) (c : C) (hq : q ≠ initproc) : Exited c q s (s.exit c q) := by
  have hpass := passChildren_passed hq (List.finRange NPROC) (s.wakeParent q)
  have hwake := wakeParent_woken s q
  have hrest := wakeParent_rest s q
  have hall : ∀ p : Slot, p ∈ List.finRange NPROC := List.mem_finRange
  set s2 := passChildren q (List.finRange NPROC) (s.wakeParent q) with hs2
  have hexit : s.exit c q = (s2.modify q fun x => { x with state := .ZOMBIE }).sched c := rfl
  have hproc : ∀ p, p ≠ q → (s.exit c q).proc p = s2.proc p := by
    intro p hp
    rw [hexit, sched_proc, modify_ne hp]
  have hself : (s.exit c q).proc q = { s2.proc q with state := .ZOMBIE } := by
    rw [hexit, sched_proc, modify_self]
  have hstate : ∀ p, (s.proc p).state.Woken (s2.proc p).state := fun p => (hwake p).state.trans (hpass.state p)
  have hchan : ∀ p, (s2.proc p).chan = (s.proc p).chan := fun p => (hpass.chan p).trans (hwake p).chan
  have hparent : ∀ p, (s2.proc p).parent = if (s.proc p).parent = some q then some initproc else (s.proc p).parent := by
    intro p
    rw [hpass.parent, (hwake p).parent]
    simp [hall p]
  -- who sleeps in the end has slept before
  have hasleep : ∀ r, ((s.exit c q).proc r).state = .SLEEPING → (s2.proc r).state = .SLEEPING := by
    intro r hr
    by_cases hrq : r = q
    · rw [hrq, hself] at hr
      cases hr
    · rw [hproc r hrq] at hr
      exact hr
  constructor
  · intro p
    by_cases hp : p = q
    · rw [hp, hself]
      exact hparent q
    · rw [hproc p hp]
      exact hparent p
  · intro p
    by_cases hp : p = q
    · rw [hp, hself]
      exact hchan q
    · rw [hproc p hp]
      exact hchan p
  · intro p hp
    rw [hproc p hp]
    exact hstate p
  · rw [hself]
  · intro r hr hboth
    refine wakeParent_awake s hr ⟨(hpass.state r).asleep (hasleep r hboth.1), ?_⟩
    rw [(hwake r).chan]
    exact hboth.2
  · rintro ⟨p, hp, hz⟩ hboth
    refine hpass.zombie ⟨p, hall p, ?_, ?_⟩ ⟨hasleep initproc hboth.1, ?_⟩
    · rw [(hwake p).parent, hp]
    · exact ((hwake p).state.iff (by simp) (by simp)).mpr hz
    · rw [(hwake initproc).chan]
      exact hboth.2
  · exact hpass.rest.1.trans hrest.1
  · rw [hexit]
    show update s2.cpu c none = update s.cpu c none
    rw [hpass.rest.2.1, hrest.2]

end State

/-! ### What a step can do -/

/-- The steps, one by one; `q` is the process on CPU `c`. -/
inductive Does (s : State C) : State C → Prop where
  | skip {c : C} : Does s { s with at_ := update s.at_ c (s.at_ c + 1) }
  | run {c : C} {p : Slot} (hidle : s.cpu c = none) (hp : (s.proc p).state = .RUNNABLE) :
      Does s ({ s with at_ := update s.at_ c (s.at_ c + 1), cpu := update s.cpu c (some p) }.modify p
        fun x => { x with state := .RUNNING, chan := none })
  | wake {s' : State C} (hwoken : ∀ p, Woken (s.proc p) (s'.proc p)) (hpc : s'.pc = s.pc) (hcpu : s'.cpu = s.cpu) :
      Does s s'
  | alloc {c : C} {q np : Slot} (hc : s.cpu c = some q) (hpc : s.pc q = .user) (hnp : (s.proc np).state = .UNUSED) :
      Does s ({ s with nextpid := s.nextpid + 1 }.modify np
        (fun x => { x with state := .EMBRYO, pid := s.nextpid }) |>.setPc q (.claimed np))
  | fails {c : C} {q np : Slot} (hc : s.cpu c = some q) (hpc : s.pc q = .claimed np) :
      Does s ((s.modify np fun x => { x with state := .UNUSED }).setPc q .user)
  | copies {c : C} {q np : Slot} (hc : s.cpu c = some q) (hpc : s.pc q = .claimed np) :
      Does s ((s.modify np fun x => { x with parent := some q }).setPc q (.copied np))
  | launches {c : C} {q np : Slot} (hc : s.cpu c = some q) (hpc : s.pc q = .copied np) :
      Does s ((s.modify np fun x => { x with state := .RUNNABLE }).setPc q .user)
  | exits {c : C} {q : Slot} {s' : State C} (hc : s.cpu c = some q) (hpc : s.pc q = .user) (hq : q ≠ initproc)
      (hexit : State.Exited c q s s') : Does s s'
  | reaps {c : C} {q p : Slot} (hc : s.cpu c = some q) (hpc : s.pc q = .user ∨ s.pc q = .waiting)
      (hp : (s.proc p).parent = some q) (hz : (s.proc p).state = .ZOMBIE) :
      Does s ((s.modify p fun x => { x with pid := 0, parent := none, killed := false, state := .UNUSED }).setPc q .user)
  | childless {c : C} {q : Slot} (hc : s.cpu c = some q) (hpc : s.pc q = .user ∨ s.pc q = .waiting) :
      Does s (s.setPc q .user)
  | waits {c : C} {q : Slot} (hc : s.cpu c = some q) (hpc : s.pc q = .user ∨ s.pc q = .waiting)
      (hkids : ∃ p, (s.proc p).parent = some q)
      (hno : ∀ p, (s.proc p).parent = some q → (s.proc p).state ≠ .ZOMBIE) :
      Does s (((s.modify q fun x => { x with chan := some (.proc q), state := .SLEEPING }).setPc q .waiting).sched c)
  | sleeps {c : C} {q : Slot} {n : Nat} (hc : s.cpu c = some q) : Does s (s.sleep c q n)
  | yields {c : C} {q : Slot} (hc : s.cpu c = some q) : Does s (s.yield c q)

theorem does_wait (hc : s.cpu c = some q) (hpc : s.pc q = .user ∨ s.pc q = .waiting) : Does s (s.wait c q) := by
  unfold State.wait
  split
  next p hfind =>
    have hp := List.find?_some hfind
    rw [decide_eq_true_eq] at hp
    exact .reaps hc hpc hp.1 hp.2
  next hnone =>
    split
    next => exact .childless hc hpc
    next hwait =>
      rw [not_or, Bool.not_eq_false] at hwait
      refine .waits hc hpc ?_ ?_
      · obtain ⟨p, -, hp⟩ := List.any_eq_true.mp hwait.1
        exact ⟨p, of_decide_eq_true hp⟩
      · intro p hp hz
        have hno := List.find?_eq_none.mp hnone p (List.mem_finRange p)
        exact hno (decide_eq_true ⟨hp, hz⟩)

theorem does_fork (hc : s.cpu c = some q) (hpc : s.pc q = .user) : Does s (s.allocproc q) := by
  unfold State.allocproc
  split
  next => exact .wake (fun p => Woken.refl _) rfl rfl
  next np hfind =>
    have hnp := List.find?_some hfind
    rw [decide_eq_true_eq] at hnp
    exact .alloc hc hpc hnp

theorem does_act {a : Action} (hc : s.cpu c = some q) (h : s.act c q (s.pc q) a = some s') : Does s s' := by
  cases hpc : s.pc q with
  | user =>
    rw [hpc] at h
    cases a with
    | fork =>
      obtain rfl := Option.some.inj h
      exact does_fork hc hpc
    | exit =>
      simp only [State.act] at h
      split at h
      next => cases h
      next hq =>
        obtain rfl := Option.some.inj h
        exact .exits hc hpc hq (State.exit_exited s c hq)
    | wait =>
      obtain rfl := Option.some.inj h
      exact does_wait hc (Or.inl hpc)
    | sleep n =>
      obtain rfl := Option.some.inj h
      exact .sleeps hc
    | yield =>
      obtain rfl := Option.some.inj h
      exact .yields hc
    | _ => cases h
  | waiting =>
    rw [hpc] at h
    cases a with
    | wait =>
      obtain rfl := Option.some.inj h
      exact does_wait hc (Or.inr hpc)
    | _ => cases h
  | claimed np =>
    rw [hpc] at h
    cases a with
    | forkFails =>
      obtain rfl := Option.some.inj h
      exact .fails hc hpc
    | forkCopies =>
      obtain rfl := Option.some.inj h
      exact .copies hc hpc
    | sleep n =>
      obtain rfl := Option.some.inj h
      exact .sleeps hc
    | yield =>
      obtain rfl := Option.some.inj h
      exact .yields hc
    | _ => cases h
  | copied np =>
    rw [hpc] at h
    cases a with
    | forkLaunches =>
      obtain rfl := Option.some.inj h
      exact .launches hc hpc
    | sleep n =>
      obtain rfl := Option.some.inj h
      exact .sleeps hc
    | yield =>
      obtain rfl := Option.some.inj h
      exact .yields hc
    | _ => cases h

omit [DecidableEq C] in
theorem kill_woken (s : State C) (pid : BitVec 32) (p : Slot) : Woken (s.proc p) ((s.kill pid).proc p) := by
  unfold State.kill
  split
  next => exact Woken.refl _
  next k _ =>
    by_cases hp : p = k
    · subst hp
      rw [State.modify_self]
      refine ⟨rfl, rfl, ?_⟩
      simp only []
      split
      next hs => exact Or.inr ⟨hs, rfl⟩
      next => exact Or.inl rfl
    · rw [State.modify_ne hp]
      exact Woken.refl _

theorem does {ev : Event C} (h : step s ev = some s') : Does s s' := by
  cases ev with
  | scan c =>
    simp only [step] at h
    split at h
    next hidle =>
      obtain rfl := Option.some.inj h
      unfold State.scheduler
      simp only []
      split
      next hp => exact .run hidle hp
      next => exact .skip
    next => cases h
  | act c a =>
    cases hc : s.cpu c with
    | none => simp [step, hc] at h
    | some q =>
      simp only [step, hc] at h
      exact does_act hc h
  | wakeup n =>
    obtain rfl := Option.some.inj h
    exact .wake (State.wakeup1_woken s (.other n)) rfl rfl
  | kill pid =>
    obtain rfl := Option.some.inj h
    refine .wake (kill_woken s pid) ?_ ?_
    · unfold State.kill
      split
      next => rfl
      next => rfl
    · unfold State.kill
      split
      next => rfl
      next => rfl

/-! ### The CPUs -/

structure Cpus (s : State C) : Prop where
  running : ∀ c q, s.cpu c = some q → (s.proc q).state = .RUNNING
  one : ∀ c c' q, s.cpu c = some q → s.cpu c' = some q → c = c'
  on : ∀ q, (s.proc q).state = .RUNNING → ∃ c, s.cpu c = some q

namespace Cpus

omit [DecidableEq C] in
theorem same (h : Cpus s) (hrunning : ∀ p, (s'.proc p).state = .RUNNING ↔ (s.proc p).state = .RUNNING)
    (hcpu : s'.cpu = s.cpu) : Cpus s' := by
  constructor
  · intro c q hc
    rw [hcpu] at hc
    exact (hrunning q).mpr (h.running c q hc)
  · intro c c' q hc hc'
    rw [hcpu] at hc hc'
    exact h.one c c' q hc hc'
  · intro q hq
    rw [hcpu]
    exact h.on q ((hrunning q).mp hq)

/-- The process on CPU `c` stops running. -/
theorem leave (h : Cpus s) (hc : s.cpu c = some q)
    (hrunning : ∀ p, (s'.proc p).state = .RUNNING ↔ (s.proc p).state = .RUNNING ∧ p ≠ q)
    (hcpu : s'.cpu = update s.cpu c none) : Cpus s' := by
  have hother : ∀ c' q', s'.cpu c' = some q' → c' ≠ c ∧ s.cpu c' = some q' := by
    intro c' q' hc'
    by_cases hcc : c' = c
    · rw [hcpu, hcc, update_self] at hc'
      cases hc'
    · rw [hcpu, update_of_ne hcc] at hc'
      exact ⟨hcc, hc'⟩
  constructor
  · intro c' q' hc'
    obtain ⟨hcc, hold⟩ := hother c' q' hc'
    refine (hrunning q').mpr ⟨h.running c' q' hold, ?_⟩
    intro heq
    rw [heq] at hold
    exact hcc (h.one c' c q hold hc)
  · intro c1 c2 q' h1 h2
    exact h.one c1 c2 q' (hother c1 q' h1).2 (hother c2 q' h2).2
  · intro p hp
    obtain ⟨hold, hne⟩ := (hrunning p).mp hp
    obtain ⟨c', hc'⟩ := h.on p hold
    refine ⟨c', ?_⟩
    have hcc : c' ≠ c := by
      intro heq
      rw [heq, hc] at hc'
      exact hne (Option.some.inj hc').symm
    rw [hcpu, update_of_ne hcc]
    exact hc'

/-- An idle CPU takes a process that does not run. -/
theorem enter (h : Cpus s) (hc : s.cpu c = none) (hp : (s.proc p).state ≠ .RUNNING)
    (hrunning : ∀ p', (s'.proc p').state = .RUNNING ↔ (s.proc p').state = .RUNNING ∨ p' = p)
    (hcpu : s'.cpu = update s.cpu c (some p)) : Cpus s' := by
  have hcases : ∀ c' q', s'.cpu c' = some q' → (c' = c ∧ q' = p) ∨ (c' ≠ c ∧ s.cpu c' = some q') := by
    intro c' q' hc'
    by_cases hcc : c' = c
    · rw [hcpu, hcc, update_self] at hc'
      exact Or.inl ⟨hcc, (Option.some.inj hc').symm⟩
    · rw [hcpu, update_of_ne hcc] at hc'
      exact Or.inr ⟨hcc, hc'⟩
  have hnot : ∀ c', s.cpu c' ≠ some p := fun c' hc' => hp (h.running c' p hc')
  constructor
  · intro c' q' hc'
    rcases hcases c' q' hc' with ⟨-, heq⟩ | ⟨-, hold⟩
    · exact (hrunning q').mpr (Or.inr heq)
    · exact (hrunning q').mpr (Or.inl (h.running c' q' hold))
  · intro c1 c2 q' h1 h2
    rcases hcases c1 q' h1 with ⟨hc1, heq1⟩ | ⟨-, hold1⟩
    · rcases hcases c2 q' h2 with ⟨hc2, -⟩ | ⟨-, hold2⟩
      · rw [hc1, hc2]
      · rw [heq1] at hold2
        exact absurd hold2 (hnot c2)
    · rcases hcases c2 q' h2 with ⟨-, heq2⟩ | ⟨-, hold2⟩
      · rw [heq2] at hold1
        exact absurd hold1 (hnot c1)
      · exact h.one c1 c2 q' hold1 hold2
  · intro p' hp'
    rcases (hrunning p').mp hp' with hold | heq
    · obtain ⟨c', hc'⟩ := h.on p' hold
      have hcc : c' ≠ c := by
        intro heq
        rw [heq, hc] at hc'
        cases hc'
      exact ⟨c', by rw [hcpu, update_of_ne hcc]; exact hc'⟩
    · exact ⟨c, by rw [hcpu, update_self, heq]⟩

omit [DecidableEq C] in
/-- One process changes its state, which is not running before or after. -/
theorem modify (h : Cpus s) {f : Proc → Proc} (hold : (s.proc p).state ≠ .RUNNING)
    (hnew : (f (s.proc p)).state ≠ .RUNNING) : Cpus (s.modify p f) := by
  refine h.same ?_ rfl
  intro p'
  by_cases hp : p' = p
  · subst hp
    rw [State.modify_self]
    simp [hold, hnew]
  · rw [State.modify_ne hp]

/-- The process on CPU `c` changes its state, and leaves the CPU. -/
theorem modifySched (h : Cpus s) (hc : s.cpu c = some q) {f : Proc → Proc} (hnew : (f (s.proc q)).state ≠ .RUNNING) :
    Cpus ((s.modify q f).sched c) := by
  refine h.leave hc ?_ rfl
  intro p'
  rw [State.sched_proc]
  by_cases hp : p' = q
  · subst hp
    rw [State.modify_self]
    simp [hnew]
  · rw [State.modify_ne hp]
    simp [hp]

theorem does (h : Cpus s) (htree : ∀ q np, s.pc q = .claimed np ∨ s.pc q = .copied np → (s.proc np).state = .EMBRYO)
    (hdoes : Does s s') : Cpus s' := by
  cases hdoes with
  | skip => exact h.same (fun _ => Iff.rfl) rfl
  | @run c p hidle hp =>
    have hne : (s.proc p).state ≠ .RUNNING := by rw [hp]; simp
    refine h.enter hidle hne ?_ rfl
    intro p'
    by_cases hpp : p' = p
    · subst hpp
      rw [State.modify_self]
      simp
    · rw [State.modify_ne hpp]
      simp [hpp]
  | wake hwoken hpc hcpu => exact h.same (fun p => (hwoken p).state.iff (by simp) (by simp)) hcpu
  | @alloc c q np hc hpc hnp =>
    have hnext : Cpus { s with nextpid := s.nextpid + 1 } := ⟨h.running, h.one, h.on⟩
    have hold : (State.proc { s with nextpid := s.nextpid + 1 } np).state ≠ .RUNNING := by
      rw [show (State.proc { s with nextpid := s.nextpid + 1 } np).state = _ from hnp]
      simp
    have hmod := hnext.modify (f := fun x => { x with state := .EMBRYO, pid := s.nextpid }) hold (by simp)
    exact ⟨hmod.running, hmod.one, hmod.on⟩
  | @fails c q np hc hpc =>
    have hold : (s.proc np).state ≠ .RUNNING := by rw [htree q np (Or.inl hpc)]; simp
    have hmod := h.modify (f := fun x => { x with state := .UNUSED }) hold (by simp)
    exact ⟨hmod.running, hmod.one, hmod.on⟩
  | @copies c q np hc hpc =>
    have hold : (s.proc np).state ≠ .RUNNING := by rw [htree q np (Or.inl hpc)]; simp
    have hmod := h.modify (f := fun x => { x with parent := some q }) hold hold
    exact ⟨hmod.running, hmod.one, hmod.on⟩
  | @launches c q np hc hpc =>
    have hold : (s.proc np).state ≠ .RUNNING := by rw [htree q np (Or.inr hpc)]; simp
    have hmod := h.modify (f := fun x => { x with state := .RUNNABLE }) hold (by simp)
    exact ⟨hmod.running, hmod.one, hmod.on⟩
  | @exits c q _ hc hpc hq hexit =>
    refine h.leave hc ?_ hexit.cpu
    intro p'
    by_cases hp : p' = q
    · subst hp
      rw [hexit.zombie]
      simp
    · rw [(hexit.state p' hp).iff (by simp) (by simp)]
      simp [hp]
  | @reaps c q p hc hpc hp hz =>
    have hold : (s.proc p).state ≠ .RUNNING := by rw [hz]; simp
    have hmod := h.modify (f := fun x => { x with pid := 0, parent := none, killed := false, state := .UNUSED }) hold
      (by simp)
    exact ⟨hmod.running, hmod.one, hmod.on⟩
  | childless => exact ⟨h.running, h.one, h.on⟩
  | @waits c q hc hpc =>
    have hleft := h.modifySched (f := fun x => { x with chan := some (.proc q), state := .SLEEPING }) hc (by simp)
    exact ⟨hleft.running, hleft.one, hleft.on⟩
  | sleeps hc => exact h.modifySched hc (by simp)
  | yields hc => exact h.modifySched hc (by simp)

end Cpus

/-! ### Parents and children -/

structure Tree (s : State C) : Prop where
  parents : ∀ p q, (s.proc p).parent = some q → (s.proc q).state.live = true
  children : ∀ p, p ≠ initproc → (s.proc p).state.live = true ∨ (s.proc p).state = .ZOMBIE → (s.proc p).parent ≠ none
  unused : ∀ p, (s.proc p).state = .UNUSED → (s.proc p).parent = none
  init : (s.proc initproc).state.live = true
  dead : ∀ q, (s.proc q).state.live = false → s.pc q = .user
  claimed : ∀ q np, s.pc q = .claimed np → (s.proc np).state = .EMBRYO ∧ (s.proc np).parent = none
  copied : ∀ q np, s.pc q = .copied np → (s.proc np).state = .EMBRYO ∧ (s.proc np).parent = some q
  one : ∀ q q' np, s.pc q = .claimed np ∨ s.pc q = .copied np → s.pc q' = .claimed np ∨ s.pc q' = .copied np → q = q'

/-- In neither of the two states of a `fork`. -/
def Pc.Calm (pc : Pc) : Prop := ∀ np, pc ≠ .claimed np ∧ pc ≠ .copied np

namespace Tree

omit [DecidableEq C] in
theorem embryo (h : Tree s) {np : Slot} (hpc : s.pc q = .claimed np ∨ s.pc q = .copied np) :
    (s.proc np).state = .EMBRYO := by
  rcases hpc with hpc | hpc
  · exact (h.claimed q np hpc).1
  · exact (h.copied q np hpc).1

omit [DecidableEq C] in
/-- Only processes that are alive change their states, and stay alive. -/
theorem calm (h : Tree s) (hparent : ∀ p, (s'.proc p).parent = (s.proc p).parent)
    (hstate : ∀ p, (s'.proc p).state = (s.proc p).state ∨
      ((s.proc p).state.live = true ∧ (s'.proc p).state.live = true))
    (hpc : ∀ q, s'.pc q = s.pc q ∨ ((s'.pc q).Calm ∧ ((s'.proc q).state.live = true ∨ s'.pc q = .user))) :
    Tree s' := by
  have hlive : ∀ p, (s'.proc p).state.live = (s.proc p).state.live := by
    intro p
    rcases hstate p with heq | ⟨hold, hnew⟩
    · rw [heq]
    · rw [hold, hnew]
  have hother : ∀ p st, st.live = false → ((s'.proc p).state = st ↔ (s.proc p).state = st) := by
    intro p st hst
    rcases hstate p with heq | ⟨hold, hnew⟩
    · rw [heq]
    · constructor
      · intro heq
        rw [heq, hst] at hnew
        cases hnew
      · intro heq
        rw [heq, hst] at hold
        cases hold
  have hfork : ∀ q np, s'.pc q = .claimed np ∨ s'.pc q = .copied np → s'.pc q = s.pc q := by
    intro q np hforks
    rcases hpc q with heq | ⟨hcalm, -⟩
    · exact heq
    · rcases hforks with hf | hf
      · exact absurd hf (hcalm np).1
      · exact absurd hf (hcalm np).2
  constructor
  · intro p q hp
    rw [hparent] at hp
    rw [hlive]
    exact h.parents p q hp
  · intro p hp hs
    rw [hlive, hother p .ZOMBIE rfl] at hs
    rw [hparent]
    exact h.children p hp hs
  · intro p hs
    rw [hother p .UNUSED rfl] at hs
    rw [hparent]
    exact h.unused p hs
  · rw [hlive]
    exact h.init
  · intro q hq
    rcases hpc q with heq | ⟨-, hnew | huser⟩
    · rw [hlive] at hq
      rw [heq]
      exact h.dead q hq
    · rw [hq] at hnew
      cases hnew
    · exact huser
  · intro q np hp
    rw [hother np .EMBRYO rfl, hparent]
    exact h.claimed q np ((hfork q np (Or.inl hp)).symm.trans hp)
  · intro q np hp
    rw [hother np .EMBRYO rfl, hparent]
    exact h.copied q np ((hfork q np (Or.inr hp)).symm.trans hp)
  · intro q q' np hq hq'
    have heq := hfork q np hq
    have heq' := hfork q' np hq'
    rw [heq] at hq
    rw [heq'] at hq'
    exact h.one q q' np hq hq'

omit [DecidableEq C] in
/-- Process `q` makes, gives up, starts or reaps the process in slot `p`. -/
theorem change (h : Tree s) {f : Proc → Proc} {pc : Pc} (hq : (s.proc q).state.live = true)
    (hp : (s.proc p).state.live = false)
    (hparent : ∀ r, (f (s.proc p)).parent = some r → r = q ∨ (s.proc p).parent = some r)
    (hchild : (f (s.proc p)).state.live = true ∨ (f (s.proc p)).state = .ZOMBIE → (f (s.proc p)).parent ≠ none)
    (hunused : (f (s.proc p)).state = .UNUSED → (f (s.proc p)).parent = none)
    (hclaimed : ∀ np, pc = .claimed np → np = p ∧ (f (s.proc p)).state = .EMBRYO ∧ (f (s.proc p)).parent = none)
    (hcopied : ∀ np, pc = .copied np → np = p ∧ (f (s.proc p)).state = .EMBRYO ∧ (f (s.proc p)).parent = some q)
    (hone : ∀ q', s.pc q' = .claimed p ∨ s.pc q' = .copied p → q' = q) : Tree ((s.modify p f).setPc q pc) := by
  have hlive : ∀ r, (s.proc r).state.live = true → (((s.modify p f).setPc q pc).proc r).state.live = true := by
    intro r hr
    have hne : r ≠ p := by
      intro heq
      rw [heq, hp] at hr
      cases hr
    rw [State.setPc_proc, State.modify_ne hne]
    exact hr
  have hqp : q ≠ p := by
    intro heq
    rw [heq, hp] at hq
    cases hq
  have hself : ((s.modify p f).setPc q pc).proc p = f (s.proc p) := State.modify_self
  have hother : ∀ p', p' ≠ p → ((s.modify p f).setPc q pc).proc p' = s.proc p' := fun p' hne => State.modify_ne hne
  have hpcSelf : ((s.modify p f).setPc q pc).pc q = pc := by simp [State.setPc]
  have hpcOther : ∀ q', q' ≠ q → ((s.modify p f).setPc q pc).pc q' = s.pc q' := by
    intro q' hne
    simp [State.setPc, update_of_ne hne]
  -- a process that another one is making is not in slot `p`
  have hnot : ∀ q' np, q' ≠ q → s.pc q' = .claimed np ∨ s.pc q' = .copied np → np ≠ p := by
    intro q' np hne hforks heq
    rw [heq] at hforks
    exact hne (hone q' hforks)
  constructor
  · intro p' r hr
    by_cases hpp : p' = p
    · rw [hpp, hself] at hr
      rcases hparent r hr with heq | hold
      · rw [heq]
        exact hlive q hq
      · exact hlive r (h.parents p r hold)
    · rw [hother p' hpp] at hr
      exact hlive r (h.parents p' r hr)
  · intro p' hp' hs
    by_cases hpp : p' = p
    · rw [hpp, hself] at hs ⊢
      exact hchild hs
    · rw [hother p' hpp] at hs ⊢
      exact h.children p' hp' hs
  · intro p' hs
    by_cases hpp : p' = p
    · rw [hpp, hself] at hs ⊢
      exact hunused hs
    · rw [hother p' hpp] at hs ⊢
      exact h.unused p' hs
  · exact hlive initproc h.init
  · intro q' hq'
    by_cases hqq : q' = q
    · rw [hqq, hlive q hq] at hq'
      cases hq'
    · rw [hpcOther q' hqq]
      by_cases hpp : q' = p
      · rw [hpp]
        exact h.dead p hp
      · rw [hother q' hpp] at hq'
        exact h.dead q' hq'
  · intro q' np hforks
    by_cases hqq : q' = q
    · rw [hqq, hpcSelf] at hforks
      obtain ⟨heq, hf⟩ := hclaimed np hforks
      rw [heq, hself]
      exact hf
    · rw [hpcOther q' hqq] at hforks
      rw [hother np (hnot q' np hqq (Or.inl hforks))]
      exact h.claimed q' np hforks
  · intro q' np hforks
    by_cases hqq : q' = q
    · rw [hqq, hpcSelf] at hforks
      obtain ⟨heq, hf⟩ := hcopied np hforks
      rw [heq, hself, hqq]
      exact hf
    · rw [hpcOther q' hqq] at hforks
      rw [hother np (hnot q' np hqq (Or.inr hforks))]
      exact h.copied q' np hforks
  · have hown : ∀ np, pc = .claimed np ∨ pc = .copied np → np = p := by
      intro np hforks
      rcases hforks with hf | hf
      · exact (hclaimed np hf).1
      · exact (hcopied np hf).1
    intro q1 q2 np h1 h2
    by_cases hq1 : q1 = q
    · by_cases hq2 : q2 = q
      · rw [hq1, hq2]
      · rw [hq1, hpcSelf] at h1
        rw [hpcOther q2 hq2] at h2
        exact absurd (hown np h1) (hnot q2 np hq2 h2)
    · rw [hpcOther q1 hq1] at h1
      by_cases hq2 : q2 = q
      · rw [hq2, hpcSelf] at h2
        exact absurd (hown np h2) (hnot q1 np hq1 h1)
      · rw [hpcOther q2 hq2] at h2
        exact h.one q1 q2 np h1 h2

theorem exits (h : Tree s) (hq : q ≠ initproc) (hlive : (s.proc q).state.live = true) (hpc : s.pc q = .user)
    (hexit : State.Exited c q s s') : Tree s' := by
  have hstate : ∀ p, p ≠ q → (s'.proc p).state.live = (s.proc p).state.live := fun p hp => (hexit.state p hp).live
  have hnotLive : (s'.proc q).state.live = false := by
    rw [hexit.zombie]
    rfl
  have hembryo : ∀ np, (s.proc np).state = .EMBRYO → (s'.proc np).state = .EMBRYO := by
    intro np hnp
    have hne : np ≠ q := by
      intro heq
      rw [heq] at hnp
      rw [hnp] at hlive
      cases hlive
    exact ((hexit.state np hne).iff (by simp) (by simp)).mpr hnp
  constructor
  · intro p r hr
    rw [hexit.parent] at hr
    split at hr
    next =>
      rw [← Option.some.inj hr, hstate initproc (Ne.symm hq)]
      exact h.init
    next hp =>
      have hne : r ≠ q := by
        intro heq
        rw [heq] at hr
        exact hp hr
      rw [hstate r hne]
      exact h.parents p r hr
  · intro p hp hs
    have hold : (s.proc p).parent ≠ none := by
      by_cases hpq : p = q
      · rw [hpq]
        exact h.children q hq (Or.inl hlive)
      · rw [hstate p hpq, (hexit.state p hpq).iff (by simp) (by simp)] at hs
        exact h.children p hp hs
    rw [hexit.parent]
    split
    next => simp
    next => exact hold
  · intro p hs
    have hpq : p ≠ q := by
      intro heq
      rw [heq, hexit.zombie] at hs
      cases hs
    rw [(hexit.state p hpq).iff (by simp) (by simp)] at hs
    rw [hexit.parent, h.unused p hs]
    simp
  · rw [hstate initproc (Ne.symm hq)]
    exact h.init
  · intro q' hq'
    rw [hexit.pc]
    by_cases hqq : q' = q
    · rw [hqq]
      exact hpc
    · rw [hstate q' hqq] at hq'
      exact h.dead q' hq'
  · intro q' np hforks
    rw [hexit.pc] at hforks
    obtain ⟨hnp, hnone⟩ := h.claimed q' np hforks
    rw [hexit.parent, hnone]
    exact ⟨hembryo np hnp, by simp⟩
  · intro q' np hforks
    rw [hexit.pc] at hforks
    obtain ⟨hnp, hsome⟩ := h.copied q' np hforks
    refine ⟨hembryo np hnp, ?_⟩
    have hne : q' ≠ q := by
      intro heq
      rw [heq, hpc] at hforks
      cases hforks
    rw [hexit.parent, hsome, if_neg]
    intro heq
    exact hne (Option.some.inj heq)
  · intro q1 q2 np h1 h2
    rw [hexit.pc] at h1 h2
    exact h.one q1 q2 np h1 h2

omit [DecidableEq C] in
/-- The process on CPU `c` changes its own state. -/
theorem own (h : Tree s) (f : Proc → Proc) (pc : Slot → Pc) (hq : (s.proc q).state.live = true)
    (hparent : (f (s.proc q)).parent = (s.proc q).parent) (hlive : (f (s.proc q)).state.live = true)
    (hproc : s'.proc = (s.modify q f).proc) (hpc : s'.pc = update s.pc q (pc q)) (hcalm : (pc q).Calm ∨ pc q = s.pc q) :
    Tree s' := by
  refine h.calm ?_ ?_ ?_
  · intro p
    rw [hproc]
    by_cases hp : p = q
    · rw [hp, State.modify_self, hparent]
    · rw [State.modify_ne hp]
  · intro p
    rw [hproc]
    by_cases hp : p = q
    · rw [hp, State.modify_self]
      exact Or.inr ⟨hq, hlive⟩
    · rw [State.modify_ne hp]
      exact Or.inl rfl
  · intro p
    rw [hpc]
    by_cases hp : p = q
    · rw [hp, update_self]
      rcases hcalm with hcalm | hsame
      · refine Or.inr ⟨hcalm, Or.inl ?_⟩
        rw [hproc, State.modify_self]
        exact hlive
      · exact Or.inl hsame
    · rw [update_of_ne hp]
      exact Or.inl rfl

theorem does (h : Tree s) (hcpus : Cpus s) (hdoes : Does s s') : Tree s' := by
  have hrunning : ∀ {c : C} {q : Slot}, s.cpu c = some q → (s.proc q).state.live = true := by
    intro c q hc
    rw [hcpus.running c q hc]
    rfl
  have hcalmUser : Pc.user.Calm := fun np => ⟨by simp, by simp⟩
  cases hdoes with
  | skip => exact h.calm (fun _ => rfl) (fun _ => Or.inl rfl) (fun _ => Or.inl rfl)
  | @run c p hidle hp =>
    have hlive : (s.proc p).state.live = true := by
      rw [hp]
      rfl
    exact h.own (fun x => { x with state := .RUNNING, chan := none }) s.pc hlive rfl rfl rfl
      (update_eq_self p s.pc).symm (Or.inr rfl)
  | wake hwoken hpc hcpu =>
    refine h.calm (fun p => (hwoken p).parent) ?_ ?_
    · intro p
      rcases (hwoken p).state with heq | ⟨hs, hr⟩
      · exact Or.inl heq
      · rw [hs, hr]
        exact Or.inr ⟨rfl, rfl⟩
    · intro p
      rw [hpc]
      exact Or.inl rfl
  | @alloc c q np hc hpc hnp =>
    have hnone := h.unused np hnp
    have hbase : Tree { s with nextpid := s.nextpid + 1 } :=
      ⟨h.parents, h.children, h.unused, h.init, h.dead, h.claimed, h.copied, h.one⟩
    refine hbase.change (hrunning hc) ?_ ?_ (by simp [Procstate.live]) (by simp) ?_ (by simp) ?_
    · show (s.proc np).state.live = false
      rw [hnp]
      rfl
    · intro r hr
      exact Or.inr hr
    · intro np' heq
      exact ⟨(by simpa using heq.symm), rfl, hnone⟩
    · intro q' hforks
      have hembryo := h.embryo hforks
      rw [hnp] at hembryo
      cases hembryo
  | @fails c q np hc hpc =>
    obtain ⟨hembryo, hnone⟩ := h.claimed q np hpc
    refine h.change (hrunning hc) (by rw [hembryo]; rfl) (fun r hr => Or.inr hr) (by simp [Procstate.live])
      (fun _ => hnone) (by simp) (by simp) ?_
    intro q' hforks
    exact h.one q' q np hforks (Or.inl hpc)
  | @copies c q np hc hpc =>
    obtain ⟨hembryo, hnone⟩ := h.claimed q np hpc
    refine h.change (hrunning hc) (by rw [hembryo]; rfl) ?_ (by simp) ?_ (by simp) ?_ ?_
    · intro r hr
      exact Or.inl (Option.some.inj hr).symm
    · intro hs
      have hs' : (s.proc np).state = .UNUSED := hs
      rw [hembryo] at hs'
      cases hs'
    · intro np' heq
      exact ⟨by simpa using heq.symm, hembryo, rfl⟩
    · intro q' hforks
      exact h.one q' q np hforks (Or.inl hpc)
  | @launches c q np hc hpc =>
    obtain ⟨hembryo, hsome⟩ := h.copied q np hpc
    refine h.change (hrunning hc) (by rw [hembryo]; rfl) (fun r hr => Or.inr hr) ?_ (by simp) (by simp) (by simp) ?_
    · intro _
      show (s.proc np).parent ≠ none
      rw [hsome]
      simp
    · intro q' hforks
      exact h.one q' q np hforks (Or.inr hpc)
  | exits hc hpc hq hexit => exact h.exits hq (hrunning hc) hpc hexit
  | @reaps c q p hc hpc hp hz =>
    refine h.change (hrunning hc) (by rw [hz]; rfl) (by simp) (by simp [Procstate.live]) (fun _ => rfl) (by simp)
      (by simp) ?_
    intro q' hforks
    have hembryo := h.embryo hforks
    rw [hz] at hembryo
    cases hembryo
  | @childless c q hc hpc =>
    refine h.calm (fun _ => rfl) (fun _ => Or.inl rfl) ?_
    intro p
    by_cases hp : p = q
    · rw [hp]
      refine Or.inr ⟨?_, Or.inr ?_⟩
      · simp only [State.setPc, update_self]
        exact hcalmUser
      · simp [State.setPc]
    · exact Or.inl (by simp [State.setPc, update_of_ne hp])
  | @waits c q hc hpc =>
    exact h.own (fun x => { x with chan := some (.proc q), state := .SLEEPING }) (fun _ => .waiting)
      (hrunning hc) rfl rfl rfl rfl (Or.inl fun np => ⟨by simp, by simp⟩)
  | @sleeps c q n hc =>
    exact h.own (fun x => { x with chan := some (.other n), state := .SLEEPING }) s.pc (hrunning hc) rfl
      rfl rfl (update_eq_self q s.pc).symm (Or.inr rfl)
  | @yields c q hc =>
    exact h.own (fun x => { x with state := .RUNNABLE }) s.pc (hrunning hc) rfl rfl rfl
      (update_eq_self q s.pc).symm (Or.inr rfl)

end Tree

end Processes
