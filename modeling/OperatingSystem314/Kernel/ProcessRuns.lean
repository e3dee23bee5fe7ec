import Mathlib.Logic.Relation
import OperatingSystem314.Kernel.ProcessTree

/-! # Waiting and scheduling

    * `Waits`: who sleeps in `wait` has children, and none of them is dead.
    * `Inv`: all invariants together, at every state of a run.
    * `zombies_found`, `descends`, `runs_once`: the process table.
    * `round_robin`: a process that is ready gets a CPU. -/

namespace Processes

open Function (update update_self update_of_ne)

variable {C : Type} [DecidableEq C] {s s' : State C} {c : C} {p q r : Slot}

/-! ### Sleeping in `wait` -/

/-- Sleeps in `wait`. -/
def State.InWait (s : State C) (q : Slot) : Prop :=
  (s.proc q).state = .SLEEPING ∧ (s.proc q).chan = some (.proc q)

structure Waits (s : State C) : Prop where
  own : ∀ q r, (s.proc q).state = .SLEEPING → (s.proc q).chan = some (.proc r) → r = q
  kids : ∀ q, s.InWait q → ∃ p, (s.proc p).parent = some q
  dead : ∀ p q, s.InWait q → (s.proc p).parent = some q → (s.proc p).state ≠ .ZOMBIE
  root : (s.proc initproc).parent = none
  own_child : ∀ p, (s.proc p).parent ≠ some p

namespace Waits

omit [DecidableEq C] in
/-- Nobody begins to wait, nobody dies, and who waits keeps its children. -/
theorem keep (h : Waits s)
    (hasleep : ∀ q, (s'.proc q).state = .SLEEPING →
      ((s.proc q).state = .SLEEPING ∧ (s'.proc q).chan = (s.proc q).chan) ∨ ∃ n, (s'.proc q).chan = some (.other n))
    (hparent : ∀ p q, s'.InWait q → ((s'.proc p).parent = some q ↔ (s.proc p).parent = some q))
    (hzombie : ∀ p, (s'.proc p).state = .ZOMBIE → (s.proc p).state = .ZOMBIE)
    (hroot : (s'.proc initproc).parent = (s.proc initproc).parent)
    (hown : ∀ p, (s'.proc p).parent = some p → (s.proc p).parent = some p) : Waits s' := by
  have hwait : ∀ q, s'.InWait q → s.InWait q := by
    intro q hq
    rcases hasleep q hq.1 with ⟨hs, hchan⟩ | ⟨n, hchan⟩
    · exact ⟨hs, hchan ▸ hq.2⟩
    · rw [hq.2] at hchan
      simp at hchan
  constructor
  · intro q r hq hr
    rcases hasleep q hq with ⟨hs, hchan⟩ | ⟨n, hchan⟩
    · rw [hchan] at hr
      exact h.own q r hs hr
    · rw [hr] at hchan
      simp at hchan
  · intro q hq
    obtain ⟨p, hp⟩ := h.kids q (hwait q hq)
    exact ⟨p, (hparent p q hq).mpr hp⟩
  · intro p q hq hp hz
    exact h.dead p q (hwait q hq) ((hparent p q hq).mp hp) (hzombie p hz)
  · rw [hroot]
    exact h.root
  · intro p hp
    exact h.own_child p (hown p hp)

omit [DecidableEq C] in
/-- Slot `p` changes; it did not sleep before, and neither dies nor waits. -/
theorem modify (h : Waits s) {f : Proc → Proc}
    (hasleep : (f (s.proc p)).state = .SLEEPING → ∃ n, (f (s.proc p)).chan = some (.other n))
    (hzombie : (f (s.proc p)).state = .ZOMBIE → (s.proc p).state = .ZOMBIE)
    (hparent : ∀ q, s.InWait q → ((f (s.proc p)).parent = some q ↔ (s.proc p).parent = some q))
    (hroot : p = initproc → (f (s.proc p)).parent = (s.proc p).parent)
    (hown : (f (s.proc p)).parent = some p → (s.proc p).parent = some p) (hproc : s'.proc = (s.modify p f).proc) :
    Waits s' := by
  refine h.keep ?_ ?_ ?_ ?_ ?_
  · intro q hq
    rw [hproc] at hq ⊢
    by_cases hqp : q = p
    · subst hqp
      rw [State.modify_self] at hq ⊢
      exact Or.inr (hasleep hq)
    · rw [State.modify_ne hqp] at hq ⊢
      exact Or.inl ⟨hq, rfl⟩
  · intro p' q hq
    unfold State.InWait at hq
    rw [hproc] at hq ⊢
    by_cases hpp : p' = p
    · subst hpp
      rw [State.modify_self]
      by_cases hqp : q = p'
      · subst hqp
        rw [State.modify_self] at hq
        obtain ⟨n, hn⟩ := hasleep hq.1
        rw [hq.2] at hn
        simp at hn
      · rw [State.modify_ne hqp] at hq
        exact hparent q hq
    · rw [State.modify_ne hpp]
  · intro p' hz
    rw [hproc] at hz
    by_cases hpp : p' = p
    · subst hpp
      rw [State.modify_self] at hz
      exact hzombie hz
    · rw [State.modify_ne hpp] at hz
      exact hz
  · rw [hproc]
    by_cases hp : initproc = p
    · subst hp
      rw [State.modify_self]
      exact hroot rfl
    · rw [State.modify_ne hp]
  · intro p' hp'
    rw [hproc] at hp'
    by_cases hpp : p' = p
    · subst hpp
      rw [State.modify_self] at hp'
      exact hown hp'
    · rw [State.modify_ne hpp] at hp'
      exact hp'

/-- The process on CPU `c` exits: whoever has to know is not in `wait`. -/
theorem exits (h : Waits s) (hq : q ≠ initproc) (hexit : State.Exited c q s s') : Waits s' := by
  have hself : ¬ s'.InWait q := by
    intro hw
    rw [State.InWait, hexit.zombie] at hw
    cases hw.1
  have hwait : ∀ r, s'.InWait r → r ≠ q ∧ s.InWait r := by
    intro r hr
    have hne : r ≠ q := by
      intro heq
      rw [heq] at hr
      exact hself hr
    exact ⟨hne, (hexit.state r hne).asleep hr.1, hexit.chan r ▸ hr.2⟩
  constructor
  · intro r r' hr hchan
    have hne : r ≠ q := by
      intro heq
      rw [heq, hexit.zombie] at hr
      cases hr
    rw [hexit.chan] at hchan
    exact h.own r r' ((hexit.state r hne).asleep hr) hchan
  · intro r hr
    obtain ⟨hne, hold⟩ := hwait r hr
    obtain ⟨p, hp⟩ := h.kids r hold
    refine ⟨p, ?_⟩
    rw [hexit.parent, hp, if_neg]
    intro heq
    exact hne (Option.some.inj heq)
  · intro p r hr hp hz
    obtain ⟨hne, hold⟩ := hwait r hr
    rw [hexit.parent] at hp
    split at hp
    next hpq =>
      -- a child of `q`, which init gets
      have heq : initproc = r := Option.some.inj hp
      subst heq
      by_cases hself' : p = q
      · subst hself'
        exact absurd hpq (h.own_child p)
      · have hdead := ((hexit.state p hself').iff (by simp) (by simp)).mp hz
        exact hexit.toInit ⟨p, hpq, hdead⟩ ⟨hr.1, hold.2⟩
    next hpq =>
      by_cases hpself : p = q
      · subst hpself
        exact hexit.toParent r hp ⟨hr.1, hold.2⟩
      · have hdead := ((hexit.state p hpself).iff (by simp) (by simp)).mp hz
        exact h.dead p r hold hp hdead
  · rw [hexit.parent, h.root]
    simp
  · intro p hp
    rw [hexit.parent] at hp
    split at hp
    next hpq =>
      rw [← Option.some.inj hp, h.root] at hpq
      cases hpq
    next => exact h.own_child p hp

omit [DecidableEq C] in
/-- Process `q` has children, none of them dead, and begins to wait. -/
theorem begins (h : Waits s) (hkids : ∃ p, (s.proc p).parent = some q)
    (hno : ∀ p, (s.proc p).parent = some q → (s.proc p).state ≠ .ZOMBIE)
    (hself : s'.proc q = { s.proc q with chan := some (.proc q), state := .SLEEPING })
    (hother : ∀ r, r ≠ q → s'.proc r = s.proc r) : Waits s' := by
  have hparent : ∀ p, (s'.proc p).parent = (s.proc p).parent := by
    intro p
    by_cases hp : p = q
    · rw [hp, hself]
    · rw [hother p hp]
  have hzombie : ∀ p, (s'.proc p).state = .ZOMBIE → (s.proc p).state = .ZOMBIE := by
    intro p hz
    by_cases hp : p = q
    · rw [hp, hself] at hz
      cases hz
    · rw [hother p hp] at hz
      exact hz
  have hwait : ∀ r, s'.InWait r → r = q ∨ s.InWait r := by
    intro r hr
    by_cases hrq : r = q
    · exact Or.inl hrq
    · rw [State.InWait, hother r hrq] at hr
      exact Or.inr hr
  constructor
  · intro r r' hr hchan
    by_cases hrq : r = q
    · rw [hrq, hself] at hchan
      rw [hrq]
      exact (Chan.proc.inj (Option.some.inj hchan)).symm
    · rw [hother r hrq] at hr hchan
      exact h.own r r' hr hchan
  · intro r hr
    rcases hwait r hr with heq | hold
    · obtain ⟨p, hp⟩ := hkids
      exact ⟨p, by rw [hparent, hp, heq]⟩
    · obtain ⟨p, hp⟩ := h.kids r hold
      exact ⟨p, by rw [hparent, hp]⟩
  · intro p r hr hp hz
    rw [hparent] at hp
    rcases hwait r hr with heq | hold
    · rw [heq] at hp
      exact hno p hp (hzombie p hz)
    · exact h.dead p r hold hp (hzombie p hz)
  · rw [hparent]
    exact h.root
  · intro p hp
    rw [hparent] at hp
    exact h.own_child p hp

theorem does (h : Waits s) (htree : Tree s) (hcpus : Cpus s) (hdoes : Does s s') : Waits s' := by
  cases hdoes with
  | skip => exact h.keep (fun _ hq => Or.inl ⟨hq, rfl⟩) (fun _ _ _ => Iff.rfl) (fun _ hz => hz) rfl (fun _ hp => hp)
  | @run c p hidle hp =>
    exact h.modify (f := fun x => { x with state := .RUNNING, chan := none }) (by simp) (by simp) (fun _ _ => Iff.rfl)
      (fun _ => rfl) (fun hp => hp) rfl
  | wake hwoken hpc hcpu =>
    refine h.keep ?_ ?_ ?_ (hwoken initproc).parent ?_
    · intro q hq
      exact Or.inl ⟨(hwoken q).state.asleep hq, (hwoken q).chan⟩
    · intro p q _
      rw [(hwoken p).parent]
    · intro p hz
      exact ((hwoken p).state.iff (by simp) (by simp)).mp hz
    · intro p hp
      rw [(hwoken p).parent] at hp
      exact hp
  | @alloc c q np hc hpc hnp =>
    exact h.modify (p := np) (f := fun x => { x with state := .EMBRYO, pid := s.nextpid }) (by simp) (by simp)
      (fun _ _ => Iff.rfl) (fun _ => rfl) (fun hp => hp) rfl
  | @fails c q np hc hpc =>
    exact h.modify (p := np) (f := fun x => { x with state := .UNUSED }) (by simp) (by simp) (fun _ _ => Iff.rfl)
      (fun _ => rfl) (fun hp => hp) rfl
  | @copies c q np hc hpc =>
    obtain ⟨hembryo, hnone⟩ := htree.claimed q np hpc
    have hrunning := hcpus.running c q hc
    refine h.modify (p := np) (f := fun x => { x with parent := some q }) ?_ ?_ ?_ ?_ ?_ rfl
    · intro hs
      rw [show (s.proc np).state = _ from hs] at hembryo
      cases hembryo
    · intro hz
      exact hz
    · -- the one with the new child is running
      intro r hr
      have hne : q ≠ r := by
        intro heq
        rw [heq, hr.1] at hrunning
        cases hrunning
      simp [hnone, hne]
    · intro heq
      rw [heq] at hembryo
      have hinit := htree.init
      rw [hembryo] at hinit
      cases hinit
    · intro heq
      rw [Option.some.inj heq, hembryo] at hrunning
      cases hrunning
  | @launches c q np hc hpc =>
    exact h.modify (p := np) (f := fun x => { x with state := .RUNNABLE }) (by simp) (by simp) (fun _ _ => Iff.rfl)
      (fun _ => rfl) (fun hp => hp) rfl
  | exits hc hpc hq hexit => exact h.exits hq hexit
  | @reaps c q p hc hpc hp hz =>
    refine h.modify (p := p) (f := fun x => { x with pid := 0, parent := none, killed := false, state := .UNUSED })
      (by simp) (by simp) ?_ ?_ (by simp) rfl
    · -- the one that loses its child is running
      intro r hr
      have hrunning := hcpus.running c q hc
      have hne : q ≠ r := by
        intro heq
        rw [heq, hr.1] at hrunning
        cases hrunning
      simp [hp, hne]
    · intro heq
      rw [heq, h.root] at hp
      cases hp
  | childless => exact ⟨h.own, h.kids, h.dead, h.root, h.own_child⟩
  | @waits c q hc hpc hkids hno =>
    refine h.begins hkids hno ?_ ?_
    · rw [State.sched_proc, State.setPc_proc, State.modify_self]
    · intro r hr
      rw [State.sched_proc, State.setPc_proc, State.modify_ne hr]
  | @sleeps c q n hc =>
    exact h.modify (p := q) (f := fun x => { x with chan := some (.other n), state := .SLEEPING })
      (fun _ => ⟨n, rfl⟩) (by simp) (fun _ _ => Iff.rfl) (fun _ => rfl) (fun hp => hp) rfl
  | @yields c q hc =>
    exact h.modify (p := q) (f := fun x => { x with state := .RUNNABLE }) (by simp) (by simp) (fun _ _ => Iff.rfl)
      (fun _ => rfl) (fun hp => hp) rfl

end Waits

/-! ### Descent from init -/

/-- `q` is the parent of `p`. -/
def State.ChildOf (s : State C) (p q : Slot) : Prop := (s.proc p).parent = some q

/-- The parents of `p`, one after the other, lead to init. -/
def State.Descends (s : State C) (p : Slot) : Prop := Relation.ReflTransGen s.ChildOf p initproc

def Rooted (s : State C) : Prop := ∀ p q, s.ChildOf p q → s.Descends p

namespace Rooted

omit [DecidableEq C] in
theorem keep (h : Rooted s) (hparent : ∀ p, (s'.proc p).parent = (s.proc p).parent) : Rooted s' := by
  have heq : s'.ChildOf = s.ChildOf := by
    funext p q
    rw [State.ChildOf, hparent, State.ChildOf]
  intro p q hp
  rw [State.Descends, heq]
  rw [heq] at hp
  exact h p q hp

omit [DecidableEq C] in
/-- Slot `p` changes, and keeps its parent. -/
theorem modify (h : Rooted s) {f : Proc → Proc} (hparent : (f (s.proc p)).parent = (s.proc p).parent)
    (hproc : s'.proc = (s.modify p f).proc) : Rooted s' := by
  refine h.keep ?_
  intro p'
  rw [hproc]
  by_cases hpp : p' = p
  · rw [hpp, State.modify_self, hparent]
  · rw [State.modify_ne hpp]

omit [DecidableEq C] in
theorem alive (h : Rooted s) (htree : Tree s) (hq : (s.proc q).state.live = true) : s.Descends q := by
  by_cases hinit : q = initproc
  · rw [hinit]
    exact .refl
  · obtain ⟨r, hr⟩ := Option.ne_none_iff_exists'.mp (htree.children q hinit (Or.inl hq))
    exact h q r hr

omit [DecidableEq C] in
/-- A process, `np`, gets the parent `q`. -/
theorem adds (h : Rooted s) {np : Slot} (hnone : (s.proc np).parent = none) (hq : s.Descends q)
    (hself : (s'.proc np).parent = some q) (hother : ∀ p, p ≠ np → (s'.proc p).parent = (s.proc p).parent) :
    Rooted s' := by
  have hsome : ∀ p r, s.ChildOf p r → s'.ChildOf p r := by
    intro p r hp
    have hne : p ≠ np := by
      intro heq
      rw [State.ChildOf, heq, hnone] at hp
      cases hp
    rw [State.ChildOf, hother p hne]
    exact hp
  have hold : ∀ p, s.Descends p → s'.Descends p := fun p hp => Relation.ReflTransGen.mono hsome p initproc hp
  intro p r hp
  by_cases hne : p = np
  · rw [hne]
    exact .head hself (hold q hq)
  · rw [State.ChildOf, hother p hne] at hp
    exact hold p (h p r hp)

/-- The children of `q` go to init: the ways through `q` get shorter. -/
theorem exits (h : Rooted s) (hexit : State.Exited c q s s') : Rooted s' := by
  have hold : ∀ p, s.Descends p → s'.Descends p := by
    intro p hp
    induction hp using Relation.ReflTransGen.head_induction_on with
    | refl => exact .refl
    | @head p p1 hstep _ ih =>
      by_cases heq : (s.proc p).parent = some q
      · refine .single ?_
        rw [State.ChildOf, hexit.parent, if_pos heq]
      · refine .head ?_ ih
        rw [State.ChildOf, hexit.parent, if_neg heq]
        exact hstep
  intro p r hp
  rw [State.ChildOf, hexit.parent] at hp
  split at hp
  next hpq => exact hold p (h p q hpq)
  next => exact hold p (h p r hp)

omit [DecidableEq C] in
/-- A process that has no children goes. -/
theorem leaves (h : Rooted s) (hchildless : ∀ r, (s.proc r).parent ≠ some p) (hself : (s'.proc p).parent = none)
    (hother : ∀ r, r ≠ p → (s'.proc r).parent = (s.proc r).parent) : Rooted s' := by
  have hold : ∀ r, s.Descends r → r ≠ p → s'.Descends r := by
    intro r hr
    induction hr using Relation.ReflTransGen.head_induction_on with
    | refl =>
      intro _
      exact .refl
    | @head r r1 hstep _ ih =>
      intro hne
      have hne1 : r1 ≠ p := by
        intro heq
        rw [heq] at hstep
        exact hchildless r hstep
      refine .head ?_ (ih hne1)
      rw [State.ChildOf, hother r hne]
      exact hstep
  intro r r1 hr
  have hne : r ≠ p := by
    intro heq
    rw [State.ChildOf, heq, hself] at hr
    cases hr
  rw [State.ChildOf, hother r hne] at hr
  exact hold r (h r r1 hr) hne

theorem does (h : Rooted s) (htree : Tree s) (hcpus : Cpus s) (hdoes : Does s s') : Rooted s' := by
  cases hdoes with
  | skip => exact h.keep fun _ => rfl
  | @run c p => exact h.modify (p := p) (f := fun x => { x with state := .RUNNING, chan := none }) rfl rfl
  | wake hwoken => exact h.keep fun p => (hwoken p).parent
  | @alloc c q np => exact h.modify (p := np) (f := fun x => { x with state := .EMBRYO, pid := s.nextpid }) rfl rfl
  | @fails c q np => exact h.modify (p := np) (f := fun x => { x with state := .UNUSED }) rfl rfl
  | @copies c q np hc hpc =>
    have hlive : (s.proc q).state.live = true := by
      rw [hcpus.running c q hc]
      rfl
    refine h.adds (htree.claimed q np hpc).2 (h.alive htree hlive) ?_ ?_
    · rw [State.setPc_proc, State.modify_self]
    · intro p hp
      rw [State.setPc_proc, State.modify_ne hp]
  | @launches c q np => exact h.modify (p := np) (f := fun x => { x with state := .RUNNABLE }) rfl rfl
  | exits hc hpc hq hexit => exact h.exits hexit
  | @reaps c q p hc hpc hp hz =>
    refine h.leaves (p := p) ?_ ?_ ?_
    · intro r hr
      have hlive := htree.parents r p hr
      rw [hz] at hlive
      cases hlive
    · rw [State.setPc_proc, State.modify_self]
    · intro r hr
      rw [State.setPc_proc, State.modify_ne hr]
  | childless => exact h.keep fun _ => rfl
  | @waits c q =>
    exact h.modify (p := q) (f := fun x => { x with chan := some (.proc q), state := .SLEEPING }) rfl rfl
  | @sleeps c q n =>
    exact h.modify (p := q) (f := fun x => { x with chan := some (.other n), state := .SLEEPING }) rfl rfl
  | @yields c q => exact h.modify (p := q) (f := fun x => { x with state := .RUNNABLE }) rfl rfl

end Rooted

/-! ### Runs -/

structure Inv (s : State C) : Prop where
  tree : Tree s
  cpus : Cpus s
  waits : Waits s
  rooted : Rooted s

theorem Inv.step {ev : Event C} (h : Inv s) (hstep : Processes.step s ev = some s') : Inv s' := by
  have hdoes := Processes.does hstep
  have hembryo : ∀ q np, s.pc q = .claimed np ∨ s.pc q = .copied np → (s.proc np).state = .EMBRYO :=
    fun q np hpc => h.tree.embryo hpc
  exact ⟨h.tree.does h.cpus hdoes, h.cpus.does hembryo hdoes, h.waits.does h.tree h.cpus hdoes,
    h.rooted.does h.tree h.cpus hdoes⟩

omit [DecidableEq C] in
theorem userinit_parent (p : Slot) : ((userinit (C := C)).proc p).parent = none := by
  simp only [userinit]
  split
  next => rfl
  next => rfl

omit [DecidableEq C] in
theorem userinit_state (p : Slot) :
    ((userinit (C := C)).proc p).state = if p = initproc then .RUNNABLE else .UNUSED := by
  simp only [userinit]
  split
  next => rfl
  next => rfl

omit [DecidableEq C] in
theorem userinit_inv : Inv (userinit (C := C)) := by
  have hstate := userinit_state (C := C)
  have hparent := userinit_parent (C := C)
  have hrunning : ∀ p, ((userinit (C := C)).proc p).state ≠ .RUNNING := by
    intro p
    rw [hstate]
    split
    next => simp
    next => simp
  have hsleeping : ∀ p, ((userinit (C := C)).proc p).state ≠ .SLEEPING := by
    intro p
    rw [hstate]
    split
    next => simp
    next => simp
  constructor
  · constructor
    · intro p q hp
      rw [hparent] at hp
      cases hp
    · intro p hp hs
      rw [hstate, if_neg hp] at hs
      simp [Procstate.live] at hs
    · intro p _
      exact hparent p
    · rw [hstate, if_pos rfl]
      rfl
    · intro q _
      rfl
    · intro q np hq
      cases hq
    · intro q np hq
      cases hq
    · intro q q' np hq
      rcases hq with hq | hq
      · cases hq
      · cases hq
  · constructor
    · intro c q hc
      cases hc
    · intro c c' q hc
      cases hc
    · intro q hq
      exact absurd hq (hrunning q)
  · constructor
    · intro q r hq
      exact absurd hq (hsleeping q)
    · intro q hq
      exact absurd hq.1 (hsleeping q)
    · intro p q hq
      exact absurd hq.1 (hsleeping q)
    · exact hparent initproc
    · intro p hp
      rw [hparent] at hp
      cases hp
  · intro p q hp
    rw [State.ChildOf, hparent] at hp
    cases hp

theorem reachable_inv (h : Reachable userinit s) : Inv s :=
  h.invariant userinit_inv fun _ _ _ hinv _ hstep => hinv.step hstep

/-! ### The process table -/

/-- A process that has not been reaped has a parent, which is alive; and
    where it is dead, its parent does not sleep in `wait`. -/
theorem zombies_found (h : Reachable userinit s) (hp : p ≠ initproc)
    (hs : (s.proc p).state.live = true ∨ (s.proc p).state = .ZOMBIE) :
    ∃ q, (s.proc p).parent = some q ∧ (s.proc q).state.live = true ∧
      ((s.proc p).state = .ZOMBIE → ¬ ((s.proc q).state = .SLEEPING ∧ ∃ r, (s.proc q).chan = some (.proc r))) := by
  have hinv := reachable_inv h
  obtain ⟨q, hq⟩ := Option.ne_none_iff_exists'.mp (hinv.tree.children p hp hs)
  refine ⟨q, hq, hinv.tree.parents p q hq, ?_⟩
  rintro hz ⟨hsleeps, r, hr⟩
  have heq := hinv.waits.own q r hsleeps hr
  rw [heq] at hr
  exact hinv.waits.dead p q ⟨hsleeps, hr⟩ hq hz

/-- init, on one CPU, waits for its child; the child, on the other, exits. -/
def childExits : List (Event Bool) :=
  [.scan false, .act false .fork, .act false .forkCopies, .act false .forkLaunches, .act false .wait,
    .scan true, .scan true, .act true .exit]

def afterExit : State Bool := ((Runs.exec step (fun _ _ => True) childExits userinit).getD userinit)

set_option maxRecDepth 10000 in
theorem childExits_runs : Runs.exec step (fun _ _ => True) childExits userinit = some afterExit := rfl

set_option maxRecDepth 10000 in
theorem afterExit_zombie : (afterExit.proc 1).state = .ZOMBIE := rfl

theorem zombies_found_exited : ∃ q, (afterExit.proc 1).parent = some q ∧ (afterExit.proc q).state.live = true ∧
    ((afterExit.proc 1).state = .ZOMBIE →
      ¬ ((afterExit.proc q).state = .SLEEPING ∧ ∃ r, (afterExit.proc q).chan = some (.proc r))) :=
  zombies_found (Runs.reachable_of_exec childExits_runs) (by decide) (Or.inr afterExit_zombie)

/-- From every process that has not been reaped the parents lead to init,
    which has none. -/
theorem all_descend (h : Reachable userinit s) (hs : (s.proc p).state.live = true ∨ (s.proc p).state = .ZOMBIE) :
    s.Descends p ∧ (s.proc initproc).parent = none := by
  have hinv := reachable_inv h
  refine ⟨?_, hinv.waits.root⟩
  by_cases hinit : p = initproc
  · rw [hinit]
    exact .refl
  · obtain ⟨q, hq⟩ := Option.ne_none_iff_exists'.mp (hinv.tree.children p hinit hs)
    exact hinv.rooted p q hq

theorem all_descend_exited : afterExit.Descends 1 ∧ (afterExit.proc initproc).parent = none :=
  all_descend (Runs.reachable_of_exec childExits_runs) (Or.inr afterExit_zombie)

/-- A process is `RUNNING` exactly while one CPU has it. -/
theorem runs_once (h : Reachable userinit s) (q : Slot) :
    (s.proc q).state = .RUNNING ↔ ∃! c, s.cpu c = some q := by
  have hcpus := (reachable_inv h).cpus
  constructor
  · intro hq
    obtain ⟨c, hc⟩ := hcpus.on q hq
    refine ⟨c, hc, ?_⟩
    intro c' hc'
    exact hcpus.one c' c q hc' hc
  · rintro ⟨c, hc, -⟩
    exact hcpus.running c q hc

theorem runs_once_exited : (afterExit.proc 0).state = .RUNNING ↔ ∃! c, afterExit.cpu c = some 0 :=
  runs_once (Runs.reachable_of_exec childExits_runs) 0

/-! ### Round robin -/

/-- The scheduler of CPU `c` looks at one entry. -/
def Event.isScan (c : C) : Event C → Bool
  | .scan c' => c' = c
  | _ => false

/-- Who is ready stays ready until it runs. -/
theorem ready_stays (h : Inv s) (hdoes : Does s s') (hp : (s.proc p).state = .RUNNABLE) :
    (s'.proc p).state = .RUNNABLE ∨ (s'.proc p).state = .RUNNING := by
  -- another slot is changed
  have hne : ∀ {p' : Slot}, (s.proc p').state ≠ .RUNNABLE → p ≠ p' := by
    intro p' hother heq
    rw [heq] at hp
    exact hother hp
  have hrunning : ∀ {c : C} {q : Slot}, s.cpu c = some q → (s.proc q).state ≠ .RUNNABLE := by
    intro c q hc
    rw [h.cpus.running c q hc]
    simp
  cases hdoes with
  | skip => exact Or.inl hp
  | @run c p' hidle hp' =>
    by_cases hpp : p = p'
    · right
      rw [hpp, State.modify_self]
    · left
      rw [State.modify_ne hpp]
      exact hp
  | wake hwoken =>
    rcases (hwoken p).state with heq | ⟨hsleeps, -⟩
    · exact Or.inl (heq.trans hp)
    · rw [hp] at hsleeps
      cases hsleeps
  | @alloc c q np hc hpc hnp =>
    have hother : (s.proc np).state ≠ .RUNNABLE := by rw [hnp]; simp
    left
    rw [State.setPc_proc, State.modify_ne (hne hother)]
    exact hp
  | @fails c q np hc hpc =>
    have hother : (s.proc np).state ≠ .RUNNABLE := by rw [h.tree.embryo (Or.inl hpc)]; simp
    left
    rw [State.setPc_proc, State.modify_ne (hne hother)]
    exact hp
  | @copies c q np hc hpc =>
    have hother : (s.proc np).state ≠ .RUNNABLE := by rw [h.tree.embryo (Or.inl hpc)]; simp
    left
    rw [State.setPc_proc, State.modify_ne (hne hother)]
    exact hp
  | @launches c q np hc hpc =>
    have hother : (s.proc np).state ≠ .RUNNABLE := by rw [h.tree.embryo (Or.inr hpc)]; simp
    left
    rw [State.setPc_proc, State.modify_ne (hne hother)]
    exact hp
  | @exits c q _ hc hpc hq hexit =>
    rcases hexit.state p (hne (hrunning hc)) with heq | ⟨hsleeps, -⟩
    · exact Or.inl (heq.trans hp)
    · rw [hp] at hsleeps
      cases hsleeps
  | @reaps c q p' hc hpc hp' hz =>
    have hother : (s.proc p').state ≠ .RUNNABLE := by rw [hz]; simp
    left
    rw [State.setPc_proc, State.modify_ne (hne hother)]
    exact hp
  | childless => exact Or.inl hp
  | waits hc =>
    left
    rw [State.sched_proc, State.setPc_proc, State.modify_ne (hne (hrunning hc))]
    exact hp
  | sleeps hc =>
    left
    rw [State.sleep, State.sched_proc, State.modify_ne (hne (hrunning hc))]
    exact hp
  | yields hc =>
    left
    rw [State.yield, State.sched_proc, State.modify_ne (hne (hrunning hc))]
    exact hp

omit [DecidableEq C] in
theorem passChildren_at (q : Slot) (ps : List Slot) (s : State C) : (State.passChildren q ps s).at_ = s.at_ := by
  induction ps generalizing s with
  | nil => rfl
  | cons p ps ih =>
    unfold State.passChildren
    split
    next =>
      rw [ih]
      split
      next => rfl
      next => rfl
    next => exact ih s

theorem exit_at (s : State C) (c : C) (q : Slot) : (s.exit c q).at_ = s.at_ := by
  have hpass := passChildren_at q (List.finRange NPROC) (s.wakeParent q)
  refine Eq.trans (b := (s.wakeParent q).at_) hpass ?_
  unfold State.wakeParent
  split
  next => rfl
  next => rfl

theorem wait_at (s : State C) (c : C) (q : Slot) : (s.wait c q).at_ = s.at_ := by
  unfold State.wait
  split
  next => rfl
  next =>
    split
    next => rfl
    next => rfl

theorem act_at {a : Action} {pc : Pc} (h : s.act c q pc a = some s') : s'.at_ = s.at_ := by
  unfold State.act at h
  split at h
  · obtain rfl := Option.some.inj h
    unfold State.allocproc
    split
    next => rfl
    next => rfl
  case h_5 =>
    split at h
    next => cases h
    next =>
      obtain rfl := Option.some.inj h
      exact exit_at s c q
  case h_6 =>
    obtain rfl := Option.some.inj h
    exact wait_at s c q
  case h_7 =>
    obtain rfl := Option.some.inj h
    exact wait_at s c q
  case h_14 => cases h
  all_goals
    obtain rfl := Option.some.inj h
    rfl

/-- Only the scheduler of CPU `c` moves the loop of CPU `c`. -/
theorem step_at {ev : Event C} (h : step s ev = some s') (hev : ev.isScan c = false) : s'.at_ c = s.at_ c := by
  cases ev with
  | scan c' =>
    have hne : c ≠ c' := by
      intro heq
      simp [Event.isScan, heq] at hev
    simp only [step] at h
    split at h
    next =>
      obtain rfl := Option.some.inj h
      unfold State.scheduler
      simp only []
      split
      next => simp [State.modify, update_of_ne hne]
      next => simp [update_of_ne hne]
    next => cases h
  | act c' a =>
    simp only [step] at h
    split at h
    next => cases h
    next => rw [act_at h]
  | wakeup n =>
    obtain rfl := Option.some.inj h
    rfl
  | kill pid =>
    obtain rfl := Option.some.inj h
    unfold State.kill
    split
    next => rfl
    next => rfl

theorem nearer (p a : Slot) (h : p ≠ a) : (p - (a + 1)).val + 1 = (p - a).val := by
  have hne : p.val ≠ a.val := fun heq => h (Fin.ext heq)
  have hp : p.val < 64 := p.isLt
  have ha : a.val < 64 := a.isLt
  have hone : (1 : Slot).val = 1 := rfl
  simp only [Fin.sub_def, Fin.add_def, NPROC]
  rw [hone]
  omega

/-- The loop of CPU `c` takes process `p`, or comes one entry nearer. -/
theorem scan_nearer (h : step s (.scan c) = some s') (hp : (s.proc p).state = .RUNNABLE) :
    (s'.proc p).state = .RUNNING ∨ (p - s'.at_ c).val + 1 = (p - s.at_ c).val := by
  simp only [step] at h
  split at h
  next =>
    obtain rfl := Option.some.inj h
    by_cases hat : p = s.at_ c
    · left
      unfold State.scheduler
      simp only []
      rw [← hat, if_pos hp, State.modify_self]
    · right
      have hmoved : (s.scheduler c).at_ c = s.at_ c + 1 := by
        unfold State.scheduler
        simp only []
        split
        next => simp [State.modify]
        next => simp
      rw [hmoved]
      exact nearer p (s.at_ c) hat
  next => cases h

theorem taken_within (evs : List (Event C)) (h : Inv s) (hrun : Runs.exec step (fun _ _ => True) evs s = some s')
    (hp : (s.proc p).state = .RUNNABLE) (hscans : (p - s.at_ c).val < evs.countP (Event.isScan c)) :
    ∃ evs1 evs2 s1, evs = evs1 ++ evs2 ∧ Runs.exec step (fun _ _ => True) evs1 s = some s1 ∧
      (s1.proc p).state = .RUNNING := by
  induction evs generalizing s with
  | nil => simp at hscans
  | cons ev evs ih =>
    simp only [Runs.exec, if_true] at hrun
    obtain ⟨s2, hstep, hrest⟩ := Option.bind_eq_some_iff.mp hrun
    have hinv := h.step hstep
    -- the rest of the run, from `s2`
    have hthen : (s2.proc p).state = .RUNNING ∨
        ((s2.proc p).state = .RUNNABLE ∧ (p - s2.at_ c).val < evs.countP (Event.isScan c)) := by
      rcases ready_stays h (does hstep) hp with hready | hruns
      · by_cases hev : ev.isScan c = true
        · have hscan : ev = .scan c := by
            cases ev with
            | scan c' => simpa [Event.isScan] using hev
            | _ => simp [Event.isScan] at hev
          rw [List.countP_cons_of_pos hev] at hscans
          rw [hscan] at hstep
          rcases scan_nearer hstep hp with hruns | hnear
          · exact Or.inl hruns
          · exact Or.inr ⟨hready, by omega⟩
        · rw [List.countP_cons_of_neg hev] at hscans
          rw [Bool.not_eq_true] at hev
          exact Or.inr ⟨hready, by rw [step_at hstep hev]; exact hscans⟩
      · exact Or.inl hruns
    rcases hthen with hruns | ⟨hready, hleft⟩
    · exact ⟨[ev], evs, s2, rfl, by simp [Runs.exec, hstep], hruns⟩
    · obtain ⟨evs1, evs2, s1, heq, hrun1, hruns⟩ := ih hinv hrest hready hleft
      refine ⟨ev :: evs1, evs2, s1, by rw [heq]; rfl, ?_, hruns⟩
      simp only [Runs.exec, if_true]
      rw [hstep]
      exact hrun1

/-- In any run a process that is `RUNNABLE` comes to run before the loop
    of a CPU is once round: as soon as it has reached the entry of the
    process, unless another CPU was quicker. -/
theorem round_robin (evs : List (Event C)) (h : Reachable userinit s)
    (hrun : Runs.exec step (fun _ _ => True) evs s = some s') (hp : (s.proc p).state = .RUNNABLE)
    (hscans : (p - s.at_ c).val < evs.countP (Event.isScan c)) :
    ∃ evs1 evs2 s1, evs = evs1 ++ evs2 ∧ Runs.exec step (fun _ _ => True) evs1 s = some s1 ∧
      (s1.proc p).state = .RUNNING :=
  taken_within evs (reachable_inv h) hrun hp hscans

def afterFork : State Bool := ((Runs.exec step (fun _ _ => True) (childExits.take 4) userinit).getD userinit)

set_option maxRecDepth 10000 in
theorem childExits_forks : Runs.exec step (fun _ _ => True) (childExits.take 4) userinit = some afterFork := rfl

set_option maxRecDepth 10000 in
theorem childExits_rest : Runs.exec step (fun _ _ => True) (childExits.drop 4) afterFork = some afterExit := rfl

set_option maxRecDepth 10000 in
theorem afterFork_ready : (afterFork.proc 1).state = .RUNNABLE := rfl

set_option maxRecDepth 10000 in
theorem round_robin_child : ∃ evs1 evs2 s1, childExits.drop 4 = evs1 ++ evs2 ∧
    Runs.exec step (fun _ _ => True) evs1 afterFork = some s1 ∧ (s1.proc 1).state = .RUNNING :=
  round_robin (c := true) (childExits.drop 4) (Runs.reachable_of_exec childExits_forks) childExits_rest
    afterFork_ready (by decide)

end Processes
