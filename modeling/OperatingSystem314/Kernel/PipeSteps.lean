import OperatingSystem314.Kernel.Pipe

/-! # The steps on a pipe

    * `Goes`: what a process can do, one case for each way through the code.
    * `Locked`: the lock protects what it is to protect.
    * `Ends`: who has a reference to an end, who closes it, and who frees
      the pipe. -/

namespace Ipc

open Function (update update_self update_of_ne)

variable {H : Type}

/-! ### Program points -/

namespace Pc

variable {p : Pc} {e e' : End}

/-- The process has the lock. -/
def holds : Pc → Bool
  | .holding _ | .copying _ _ => true
  | _ => false

/-- On the way through `pipeclose`. -/
def closes (e : End) : Pc → Bool
  | .acquiring (.pipeclose e') | .holding (.pipeclose e') | .sleeping (.pipeclose e') => e' = e
  | _ => false

/-- What `wakeup` and `kill` leave of a program point. -/
structure Alike (p q : Pc) : Prop where
  holds : p.holds = q.holds
  inCall : ∀ e, p.inCall e = q.inCall e
  closes : ∀ e, p.closes e = q.closes e
  freeing : p = .freeing ↔ q = .freeing
  holding : ∀ c, p = .holding c ↔ q = .holding c
  copying : ∀ n got, p = .copying n got ↔ q = .copying n got
  asleep : ∀ c, p = .sleeping c → q = .sleeping c

theorem Alike.refl (p : Pc) : Alike p p := ⟨rfl, fun _ => rfl, fun _ => rfl, .rfl, fun _ => .rfl, fun _ _ => .rfl, fun _ => id⟩

theorem Alike.acquiring (c : Call) : Alike (.acquiring c) (.sleeping c) := by
  refine ⟨rfl, ?_, ?_, by simp, by simp, by simp, by simp⟩
  · intro e
    cases c with
    | _ => rfl
  · intro e
    cases c with
    | _ => rfl

theorem wake_alike (e : End) (p : Pc) : Alike (p.wake e) p := by
  cases p with
  | sleeping c =>
    by_cases hc : c.side = e
    · simp only [wake, hc, if_true]
      exact Alike.acquiring c
    · simp only [wake, hc, if_false]
      exact Alike.refl _
  | _ => exact Alike.refl _

theorem rouse_alike (p : Pc) : Alike p.rouse p := by
  cases p with
  | sleeping c => exact Alike.acquiring c
  | _ => exact Alike.refl _

theorem idle_or_freeing (hcall : ∀ e, p.inCall e = false) (hclose : ∀ e, p.closes e = false) :
    p = .idle ∨ p = .freeing := by
  -- a call is on one of the ends
  have hnot : ∀ c, p ≠ .acquiring c ∧ p ≠ .holding c ∧ p ≠ .sleeping c := by
    intro c
    refine ⟨?_, ?_, ?_⟩ <;>
    · intro heq
      subst heq
      cases c with
      | pipewrite buf i => exact absurd (hcall .writing) (by simp [inCall, Call.side])
      | piperead n => exact absurd (hcall .reading) (by simp [inCall, Call.side])
      | pipeclose e => exact absurd (hclose e) (by simp [closes])
  cases p with
  | idle => exact Or.inl rfl
  | freeing => exact Or.inr rfl
  | acquiring c => exact absurd rfl (hnot c).1
  | holding c => exact absurd rfl (hnot c).2.1
  | sleeping c => exact absurd rfl (hnot c).2.2
  | copying n got => exact absurd (hcall .reading) (by simp [inCall])

/-- Who sleeps after a `wakeup` sleeps at the other end. -/
theorem wake_sleeping {c : Call} (h : p.wake e = .sleeping c) : c.side ≠ e := by
  cases p with
  | sleeping c' =>
    by_cases hc : c'.side = e
    · simp [wake, hc] at h
    · simp only [wake, hc, if_false, sleeping.injEq] at h
      rw [← h]
      exact hc
  | _ => simp [wake] at h

end Pc

variable [DecidableEq H] {s s' : State H} {h : H} {p : Pc} {e : End}

/-! ### What a step can do -/

namespace State

@[simp] theorem setPc_pc_self : (s.setPc h p).pc h = p := by
  simp [setPc]

@[simp] theorem leave_pc_self : (s.leave h p).pc h = p := by
  simp [leave]

variable {h' : H}

theorem setPc_pc_ne (hne : h' ≠ h) : (s.setPc h p).pc h' = s.pc h' := by
  simp [setPc, update_of_ne hne]

theorem leave_pc_ne (hne : h' ≠ h) : (s.leave h p).pc h' = s.pc h' := by
  simp [leave, update_of_ne hne]

theorem setPc_cases {q : Pc} (hq : (s.setPc h p).pc h' = q) : (h' = h ∧ p = q) ∨ (h' ≠ h ∧ s.pc h' = q) := by
  by_cases hh : h' = h
  · rw [hh, setPc_pc_self] at hq
    exact Or.inl ⟨hh, hq⟩
  · rw [setPc_pc_ne hh] at hq
    exact Or.inr ⟨hh, hq⟩

theorem leave_cases {q : Pc} (hq : (s.leave h p).pc h' = q) : (h' = h ∧ p = q) ∨ (h' ≠ h ∧ s.pc h' = q) := by
  by_cases hh : h' = h
  · rw [hh, leave_pc_self] at hq
    exact Or.inl ⟨hh, hq⟩
  · rw [leave_pc_ne hh] at hq
    exact Or.inr ⟨hh, hq⟩

end State

def Full (p : Pipe) : Prop := p.nwrite = p.nread + BitVec.ofNat 32 PIPESIZE

def End.other : End → End
  | .reading => .writing
  | .writing => .reading

def Pipe.shut (p : Pipe) : End → Pipe
  | .reading => { p with readopen := false }
  | .writing => { p with writeopen := false }

/-- The flag of an end is cleared, and those who wait at the other end wake up. -/
def State.shut (s : State H) (e : End) : State H := { s with pipe := s.pipe.shut e }.wakeup e.other

omit [DecidableEq H] in
/-- A process with the lock is not woken. -/
theorem State.wakeup_pc (hp : s.pc h = p) (hholds : p.holds = true) : (s.wakeup e).pc h = p := by
  show (s.pc h).wake e = p
  rw [hp]
  cases p with
  | sleeping c => cases hholds
  | _ => rfl

omit [DecidableEq H] in
theorem State.shut_pc (hp : s.pc h = p) (hholds : p.holds = true) : (s.shut e).pc h = p :=
  State.wakeup_pc (s := { s with pipe := s.pipe.shut e }) hp hholds

@[simp] theorem Pipe.isopen_shut_self (p : Pipe) : (p.shut e).isopen e = false := by
  cases e with
  | _ => rfl

theorem Pipe.isopen_shut_ne (p : Pipe) {e' : End} (hne : e' ≠ e) : (p.shut e).isopen e' = p.isopen e' := by
  cases e with
  | reading =>
    cases e' with
    | reading => exact absurd rfl hne
    | writing => rfl
  | writing =>
    cases e' with
    | reading => rfl
    | writing => exact absurd rfl hne

/-- The steps of a process, one by one. -/
inductive Goes (s : State H) (h : H) : State H → Prop where
  | acquire {c : Call} (hp : s.pc h = .acquiring c) (hfree : s.lock = none) :
      Goes s h { s with lock := some h, pc := update s.pc h (.holding c) }
  | giveUp {buf : List UInt8} {i : Nat} (hp : s.pc h = .holding (.pipewrite buf i)) :
      Goes s h ({ s with gaveUp := s.gaveUp || s.pipe.readopen }.leave h .idle)
  | waitRoom {buf : List UInt8} {i : Nat} (hp : s.pc h = .holding (.pipewrite buf i)) (hfull : Full s.pipe)
      (hopen : s.pipe.readopen = true) : Goes s h ((s.wakeup .reading).leave h (.sleeping (.pipewrite buf i)))
  | put {buf : List UInt8} {i : Nat} {x : UInt8} (hp : s.pc h = .holding (.pipewrite buf i))
      (hroom : ¬ Full s.pipe) :
      Goes s h ({ s with pipe := s.pipe.put x, written := s.written ++ [x] }.setPc h
        (.holding (.pipewrite buf (i + 1))))
  | written {buf : List UInt8} {i : Nat} (hp : s.pc h = .holding (.pipewrite buf i)) :
      Goes s h ((s.wakeup .reading).leave h .idle)
  | killedReader {n : Int} (hp : s.pc h = .holding (.piperead n)) : Goes s h (s.leave h .idle)
  | waitBytes {n : Int} (hp : s.pc h = .holding (.piperead n)) (hempty : s.pipe.nread = s.pipe.nwrite)
      (hopen : s.pipe.writeopen = true) : Goes s h (s.leave h (.sleeping (.piperead n)))
  | start {n : Int} (hp : s.pc h = .holding (.piperead n))
      (hsome : s.pipe.nread ≠ s.pipe.nwrite ∨ s.pipe.writeopen = false) : Goes s h (s.setPc h (.copying n []))
  | take {n : Int} {got : List UInt8} {x : UInt8} (hp : s.pc h = .copying n got)
      (hsome : s.pipe.nread ≠ s.pipe.nwrite)
      (hx : x = s.pipe.data (CircularQueue.place PIPESIZE s.pipe.nread)) :
      Goes s h ({ s with pipe := { s.pipe with nread := s.pipe.nread + 1 }, taken := s.taken ++ [x] }.setPc h
        (.copying n (got ++ [x])))
  | read {n : Int} {got : List UInt8} (hp : s.pc h = .copying n got) : Goes s h ((s.wakeup .writing).leave h .idle)
  | close {e : End} (hp : s.pc h = .holding (.pipeclose e)) (hother : ∃ e', (s.shut e).pipe.isopen e' = true) :
      Goes s h ((s.shut e).leave h .idle)
  | closeLast {e : End} (hp : s.pc h = .holding (.pipeclose e)) (hboth : ∀ e', (s.shut e).pipe.isopen e' = false) :
      Goes s h ((s.shut e).leave h .freeing)
  | kfree (hp : s.pc h = .freeing) : Goes s h ({ s with freed := true }.setPc h .idle)

theorem goes_pipewrite {buf : List UInt8} {i : Nat} (hp : s.pc h = .holding (.pipewrite buf i)) :
    Goes s h (s.pipewrite h buf i) := by
  unfold State.pipewrite
  cases hx : buf[i]? with
  | none => exact .written hp
  | some x =>
    simp only []
    split
    next hfull =>
      split
      next => exact .giveUp hp
      next hgo =>
        rw [not_or, Bool.not_eq_false] at hgo
        exact .waitRoom hp hfull hgo.1
    next hroom => exact .put hp hroom

theorem goes_piperead {n : Int} (hp : s.pc h = .holding (.piperead n)) : Goes s h (s.piperead h n) := by
  unfold State.piperead
  split
  next hempty =>
    split
    next => exact .killedReader hp
    next => exact .waitBytes hp hempty.1 hempty.2
  next hsome =>
    refine .start hp ?_
    by_cases heq : s.pipe.nread = s.pipe.nwrite
    · right
      simpa [heq] using hsome
    · exact Or.inl heq

theorem goes_copy {n : Int} {got : List UInt8} (hp : s.pc h = .copying n got) : Goes s h (s.copy h n got) := by
  unfold State.copy
  split
  next hsome => exact .take hp hsome.2 rfl
  next => exact .read hp

theorem goes_pipeclose (hp : s.pc h = .holding (.pipeclose e)) : Goes s h (s.pipeclose h e) := by
  have hshut : s.pipeclose h e = if (s.shut e).pipe.readopen = false ∧ (s.shut e).pipe.writeopen = false then
      (s.shut e).leave h .freeing else (s.shut e).leave h .idle := by
    cases e with
    | _ => rfl
  rw [hshut]
  split
  next hboth =>
    refine .closeLast hp ?_
    intro e'
    cases e' with
    | reading => exact hboth.1
    | writing => exact hboth.2
  next hother =>
    refine .close hp ?_
    by_contra hnone
    rw [not_exists] at hnone
    refine hother ⟨?_, ?_⟩
    · exact (Bool.not_eq_true _).mp (hnone .reading)
    · exact (Bool.not_eq_true _).mp (hnone .writing)

theorem goes (hgo : s.go h = some s') : Goes s h s' := by
  unfold State.go at hgo
  split at hgo
  · cases hgo
  · cases hgo
  next c hp =>
    split at hgo
    next hfree =>
      obtain rfl := Option.some.inj hgo
      exact .acquire hp hfree
    next => cases hgo
  next buf i hp =>
    obtain rfl := Option.some.inj hgo
    exact goes_pipewrite hp
  next n hp =>
    obtain rfl := Option.some.inj hgo
    exact goes_piperead hp
  next e hp =>
    obtain rfl := Option.some.inj hgo
    exact goes_pipeclose hp
  next n got hp =>
    obtain rfl := Option.some.inj hgo
    exact goes_copy hp
  next hp =>
    obtain rfl := Option.some.inj hgo
    exact .kfree hp

theorem kill_alike (s : State H) (h h' : H) : (update s.pc h (s.pc h).rouse h').Alike (s.pc h') := by
  by_cases hh : h' = h
  · rw [hh, update_self]
    exact Pc.rouse_alike _
  · rw [update_of_ne hh]
    exact Pc.Alike.refl _

/-! ### The lock -/

/-- Just the holder of the lock is in the part that it protects. -/
def Locked (s : State H) : Prop := ∀ h, (s.pc h).holds = true ↔ s.lock = some h

namespace Locked

omit [DecidableEq H] in
theorem wakeup (hl : Locked s) : Locked (s.wakeup e) := by
  intro h'
  have halike := (Pc.wake_alike e (s.pc h')).holds
  show ((s.pc h').wake e).holds = true ↔ s.lock = some h'
  rw [halike]
  exact hl h'

omit [DecidableEq H] in
theorem shut (hl : Locked s) : Locked (s.shut e) := wakeup (s := { s with pipe := s.pipe.shut e }) hl

theorem leave (hl : Locked s) (hp : (s.pc h).holds = true) (hnew : p.holds = false) : Locked (s.leave h p) := by
  have hlock := (hl h).mp hp
  intro h'
  show ((s.leave h p).pc h').holds = true ↔ none = some h'
  by_cases hh : h' = h
  · rw [hh, State.leave_pc_self]
    simp [hnew]
  · have hold := hl h'
    rw [hlock] at hold
    rw [State.leave_pc_ne hh, hold]
    simp [Ne.symm hh]

theorem setPc (hl : Locked s) (hnew : p.holds = (s.pc h).holds) : Locked (s.setPc h p) := by
  intro h'
  show ((s.setPc h p).pc h').holds = true ↔ s.lock = some h'
  by_cases hh : h' = h
  · rw [hh, State.setPc_pc_self, hnew]
    exact hl h
  · rw [State.setPc_pc_ne hh]
    exact hl h'

theorem go (hl : Locked s) (hgo : s.go h = some s') : Locked s' := by
  cases goes hgo with
  | acquire hp hfree => 
    intro h'
    have hold := hl h'
    rw [hfree] at hold
    show (update s.pc h _ h').holds = true ↔ some h = some h'
    by_cases hh : h' = h
    · subst hh
      simp [Pc.holds]
    · rw [update_of_ne hh, hold]
      simp [Ne.symm hh]
  | giveUp hp => exact leave (s := { s with gaveUp := s.gaveUp || s.pipe.readopen }) hl (by simp [hp, Pc.holds]) rfl
  | waitRoom hp => exact hl.wakeup.leave (by rw [State.wakeup_pc hp rfl]; rfl) rfl
  | put hp => exact setPc (s := { s with pipe := _, written := _ }) hl (by simp [hp, Pc.holds])
  | written hp => exact hl.wakeup.leave (by rw [State.wakeup_pc hp rfl]; rfl) rfl
  | killedReader hp => exact hl.leave (by simp [hp, Pc.holds]) rfl
  | waitBytes hp => exact hl.leave (by simp [hp, Pc.holds]) rfl
  | start hp => exact hl.setPc (by simp [hp, Pc.holds])
  | take hp => exact setPc (s := { s with pipe := _, taken := _ }) hl (by simp [hp, Pc.holds])
  | read hp => exact hl.wakeup.leave (by rw [State.wakeup_pc hp rfl]; rfl) rfl
  | close hp => exact hl.shut.leave (by rw [State.shut_pc hp rfl]; rfl) rfl
  | closeLast hp => exact hl.shut.leave (by rw [State.shut_pc hp rfl]; rfl) rfl
  | kfree hp => exact setPc (s := { s with freed := true }) hl (by simp [hp, Pc.holds])

theorem step (hl : Locked s) {ev : Event H} (hstep : Ipc.step s ev = some s') : Locked s' := by
  cases ev with
  | write h buf =>
    simp only [Ipc.step] at hstep
    split at hstep
    next hpre =>
      obtain rfl := Option.some.inj hstep
      exact hl.setPc (by rw [hpre.1]; rfl)
    next => cases hstep
  | read h n =>
    simp only [Ipc.step] at hstep
    split at hstep
    next hpre =>
      obtain rfl := Option.some.inj hstep
      exact hl.setPc (by rw [hpre.1]; rfl)
    next => cases hstep
  | close h e =>
    simp only [Ipc.step] at hstep
    split at hstep
    next hpre =>
      obtain rfl := Option.some.inj hstep
      exact setPc (s := { s with files := update s.files e false }) hl (by rw [hpre.1]; rfl)
    next => cases hstep
  | kill h =>
    obtain rfl := Option.some.inj hstep
    intro h'
    have halike := (kill_alike s h h').holds
    show (update s.pc h (s.pc h).rouse h').holds = true ↔ s.lock = some h'
    rw [halike]
    exact hl h'
  | go h => exact hl.go hstep

omit [DecidableEq H] in
/-- Two processes with the lock are one. -/
theorem unique (hl : Locked s) {h' : H} (hp : (s.pc h).holds = true) (hp' : (s.pc h').holds = true) : h' = h := by
  have hlock := (hl h).mp hp
  rw [(hl h').mp hp'] at hlock
  exact Option.some.inj hlock

end Locked

/-! ### The ends -/

structure Ends (s : State H) : Prop where
  inCall : ∀ h e, (s.pc h).inCall e = true → s.files e = true
  files : ∀ e, s.files e = true → s.pipe.isopen e = true
  closes : ∀ h e, (s.pc h).closes e = true → s.files e = false ∧ s.pipe.isopen e = true
  oneCloser : ∀ h h' e, (s.pc h).closes e = true → (s.pc h').closes e = true → h = h'
  freeing : ∀ h, s.pc h = .freeing → (∀ e, s.pipe.isopen e = false) ∧ s.freed = false
  oneFreeing : ∀ h h', s.pc h = .freeing → s.pc h' = .freeing → h = h'
  freed : s.freed = true → ∀ e, s.pipe.isopen e = false
  -- nothing is left undone
  opened : ∀ e, s.files e = false → s.pipe.isopen e = false ∨ ∃ h, (s.pc h).closes e = true
  shut : (∀ e, s.pipe.isopen e = false) → s.freed = true ∨ ∃ h, s.pc h = .freeing

/-- With respect to closing, a process is where it was. -/
structure Pc.Closes (p q : Pc) : Prop where
  closes : ∀ e, p.closes e = q.closes e
  freeing : p = .freeing ↔ q = .freeing

theorem Pc.Alike.toCloses {p q : Pc} (h : p.Alike q) : p.Closes q := ⟨h.closes, h.freeing⟩

/-- It neither closes nor has closed. -/
theorem Pc.Closes.of_not {p q q' : Pc} (hq : q = q') (hcloses : ∀ e, p.closes e = false ∧ q'.closes e = false)
    (hp : p ≠ .freeing ∧ q' ≠ .freeing) : p.Closes q := by
  rw [hq]
  constructor
  · intro e
    rw [(hcloses e).1, (hcloses e).2]
  · constructor
    · intro heq
      exact absurd heq hp.1
    · intro heq
      exact absurd heq hp.2

namespace Ends

omit [DecidableEq H] in
theorem mild (hends : Ends s) (hcalls : ∀ h e, (s'.pc h).inCall e = true → s.files e = true)
    (hpc : ∀ h, (s'.pc h).Closes (s.pc h)) (hfiles : s'.files = s.files)
    (hopen : ∀ e, s'.pipe.isopen e = s.pipe.isopen e) (hfreed : s'.freed = s.freed) : Ends s' where
  inCall := by
    intro h e he
    rw [hfiles]
    exact hcalls h e he
  files := by
    intro e he
    rw [hfiles] at he
    rw [hopen]
    exact hends.files e he
  closes := by
    intro h e he
    rw [(hpc h).closes] at he
    rw [hfiles, hopen]
    exact hends.closes h e he
  oneCloser := by
    intro h h' e he he'
    rw [(hpc h).closes] at he
    rw [(hpc h').closes] at he'
    exact hends.oneCloser h h' e he he'
  freeing := by
    intro h hp
    obtain ⟨hshut, hnot⟩ := hends.freeing h ((hpc h).freeing.mp hp)
    exact ⟨fun e => (hopen e).trans (hshut e), hfreed.trans hnot⟩
  oneFreeing := fun h h' hp hp' => hends.oneFreeing h h' ((hpc h).freeing.mp hp) ((hpc h').freeing.mp hp')
  freed := by
    intro hf e
    rw [hfreed] at hf
    rw [hopen]
    exact hends.freed hf e
  opened := by
    intro e he
    rw [hfiles] at he
    rw [hopen]
    rcases hends.opened e he with hshut | ⟨h, hc⟩
    · exact Or.inl hshut
    · exact Or.inr ⟨h, by rw [(hpc h).closes, hc]⟩
  shut := by
    intro hshut
    rw [hfreed]
    rcases hends.shut (fun e => (hopen e).symm.trans (hshut e)) with hf | ⟨h, hp⟩
    · exact Or.inl hf
    · exact Or.inr ⟨h, (hpc h).freeing.mpr hp⟩

omit [DecidableEq H] in
theorem alike (hends : Ends s) (hpc : ∀ h, (s'.pc h).Alike (s.pc h)) (hfiles : s'.files = s.files)
    (hopen : ∀ e, s'.pipe.isopen e = s.pipe.isopen e) (hfreed : s'.freed = s.freed) : Ends s' := by
  refine hends.mild ?_ (fun h => (hpc h).toCloses) hfiles hopen hfreed
  intro h e he
  rw [(hpc h).inCall e] at he
  exact hends.inCall h e he

omit [DecidableEq H] in
theorem same (hends : Ends s) (hpc : s'.pc = s.pc) (hfiles : s'.files = s.files)
    (hopen : ∀ e, s'.pipe.isopen e = s.pipe.isopen e) (hfreed : s'.freed = s.freed) : Ends s' := by
  refine hends.alike ?_ hfiles hopen hfreed
  intro h
  rw [hpc]
  exact Pc.Alike.refl _

omit [DecidableEq H] in
theorem wakeup (hends : Ends s) : Ends (s.wakeup e) :=
  hends.alike (fun h => Pc.wake_alike e (s.pc h)) rfl (fun _ => rfl) rfl

theorem setPc (hends : Ends s) (hcalls : ∀ e, p.inCall e = true → s.files e = true) (hp : p.Closes (s.pc h)) :
    Ends (s.setPc h p) := by
  refine hends.mild ?_ ?_ rfl (fun _ => rfl) rfl
  · intro h' e he
    by_cases hh : h' = h
    · rw [hh, State.setPc_pc_self] at he
      exact hcalls e he
    · rw [State.setPc_pc_ne hh] at he
      exact hends.inCall h' e he
  · intro h'
    by_cases hh : h' = h
    · rw [hh, State.setPc_pc_self]
      exact hp
    · rw [State.setPc_pc_ne hh]
      exact (Pc.Alike.refl _).toCloses

theorem leave (hends : Ends s) (hcalls : ∀ e, p.inCall e = true → s.files e = true) (hp : p.Closes (s.pc h)) :
    Ends (s.leave h p) :=
  setPc (s := { s with lock := none }) (hends.same rfl rfl (fun _ => rfl) rfl) hcalls hp

/-- The end of `pipeclose`: the pipe is freed by the one that closes the other end. -/
theorem shutLeave (hends : Ends s) (hp : s.pc h = .holding (.pipeclose e))
    (hnew : (p = .idle ∧ ∃ e', (s.shut e).pipe.isopen e' = true) ∨
      (p = .freeing ∧ ∀ e', (s.shut e).pipe.isopen e' = false)) : Ends ((s.shut e).leave h p) := by
  have hcloser : (s.pc h).closes e = true := by simp [hp, Pc.closes]
  obtain ⟨hfiles, hopen⟩ := hends.closes h e hcloser
  have hown : ∀ h' e', h' = h → (((s.shut e).leave h p).pc h').inCall e' = false ∧
      (((s.shut e).leave h p).pc h').closes e' = false := by
    intro h' e' hh
    rw [hh, State.leave_pc_self]
    rcases hnew with ⟨rfl, -⟩ | ⟨rfl, -⟩
    · exact ⟨rfl, rfl⟩
    · exact ⟨rfl, rfl⟩
  have hothers : ∀ h', h' ≠ h → (((s.shut e).leave h p).pc h').Alike (s.pc h') := by
    intro h' hh
    rw [State.leave_pc_ne hh]
    exact Pc.wake_alike e.other (s.pc h')
  have hisopen : ∀ e', e' ≠ e → ((s.shut e).leave h p).pipe.isopen e' = s.pipe.isopen e' :=
    fun e' he => Pipe.isopen_shut_ne s.pipe he
  -- up to now nobody is freeing, and nobody else closes this end
  have hnobody : ∀ h', s.pc h' ≠ .freeing := by
    intro h' heq
    rw [(hends.freeing h' heq).1 e] at hopen
    cases hopen
  have hlive : s.freed = false := by
    by_contra hfreed
    rw [hends.freed ((Bool.not_eq_false _).mp hfreed) e] at hopen
    cases hopen
  constructor
  · intro h' e' he
    by_cases hh : h' = h
    · rw [(hown h' e' hh).1] at he
      cases he
    · rw [(hothers h' hh).inCall] at he
      exact hends.inCall h' e' he
  · intro e' he
    have hne : e' ≠ e := by
      intro heq
      rw [heq] at he
      exact absurd he (by rw [show ((s.shut e).leave h p).files e = false from hfiles]; simp)
    rw [hisopen e' hne]
    exact hends.files e' he
  · intro h' e' he
    by_cases hh : h' = h
    · rw [(hown h' e' hh).2] at he
      cases he
    · rw [(hothers h' hh).closes] at he
      have hne : e' ≠ e := by
        intro heq
        rw [heq] at he
        exact hh (hends.oneCloser h' h e he hcloser)
      rw [hisopen e' hne]
      exact hends.closes h' e' he
  · intro h1 h2 e' he1 he2
    by_cases hh1 : h1 = h
    · rw [(hown h1 e' hh1).2] at he1
      cases he1
    · by_cases hh2 : h2 = h
      · rw [(hown h2 e' hh2).2] at he2
        cases he2
      · rw [(hothers h1 hh1).closes] at he1
        rw [(hothers h2 hh2).closes] at he2
        exact hends.oneCloser h1 h2 e' he1 he2
  · intro h' hfree
    by_cases hh : h' = h
    · rw [hh, State.leave_pc_self] at hfree
      rcases hnew with ⟨rfl, -⟩ | ⟨-, hboth⟩
      · cases hfree
      · exact ⟨hboth, hlive⟩
    · exact absurd ((hothers h' hh).freeing.mp hfree) (hnobody h')
  · intro h1 h2 hf1 hf2
    by_cases hh1 : h1 = h
    · by_cases hh2 : h2 = h
      · rw [hh1, hh2]
      · exact absurd ((hothers h2 hh2).freeing.mp hf2) (hnobody h2)
    · exact absurd ((hothers h1 hh1).freeing.mp hf1) (hnobody h1)
  · intro hfreed
    rw [show ((s.shut e).leave h p).freed = s.freed from rfl, hlive] at hfreed
    cases hfreed
  · intro e' he
    by_cases heq : e' = e
    · rw [heq]
      exact Or.inl (Pipe.isopen_shut_self s.pipe)
    · rw [hisopen e' heq]
      rcases hends.opened e' he with hshut | ⟨h', hc⟩
      · exact Or.inl hshut
      · have hh : h' ≠ h := by
          intro hsame
          rw [hsame, hp] at hc
          exact heq (of_decide_eq_true hc).symm
        exact Or.inr ⟨h', by rw [(hothers h' hh).closes, hc]⟩
  · intro hshut
    rcases hnew with ⟨-, e', he'⟩ | ⟨rfl, -⟩
    · exact absurd (hshut e') (by rw [show ((s.shut e).leave h p).pipe.isopen e' = true from he']; simp)
    · exact Or.inr ⟨h, State.leave_pc_self⟩

theorem isopen_pipe (q : Pipe) (x : UInt8) (n : BitVec 32) (e : End) :
    (q.put x).isopen e = q.isopen e ∧ { q with nread := n }.isopen e = q.isopen e := by
  cases e with
  | _ => exact ⟨rfl, rfl⟩

theorem go (hends : Ends s) (hgo : s.go h = some s') : Ends s' := by
  -- a process that stays in its call, or leaves it
  have hstay : ∀ {p : Pc}, (∀ e, p.inCall e = true → (s.pc h).inCall e = true) → ∀ e, p.inCall e = true → s.files e = true :=
    fun hp e he => hends.inCall h e (hp e he)
  have hidle : ∀ e, Pc.idle.inCall e = true → s.files e = true := by
    intro e he
    cases he
  cases goes hgo with
  | @acquire c hp hfree =>
    have hpc : State.pc { s with lock := some h } h = .acquiring c := hp
    refine setPc (s := { s with lock := some h }) (hends.same rfl rfl (fun _ => rfl) rfl) (hstay ?_) ?_
    · intro e he
      rw [hp]
      cases c with
      | _ => exact he
    · rw [hpc]
      refine ⟨?_, by simp⟩
      intro e
      cases c with
      | _ => rfl
  | giveUp hp =>
    exact leave (s := { s with gaveUp := s.gaveUp || s.pipe.readopen })
      (hends.same rfl rfl (fun _ => rfl) rfl) hidle (.of_not hp (fun _ => ⟨rfl, rfl⟩) (by simp))
  | waitRoom hp hfull hopen =>
    exact hends.wakeup.leave (hstay (by simp [hp, Pc.inCall])) (.of_not (State.wakeup_pc hp rfl) (fun _ => ⟨rfl, rfl⟩) (by simp))
  | put hp =>
    refine setPc (s := { s with pipe := _, written := _ })
      (hends.same rfl rfl (fun e => (isopen_pipe s.pipe _ 0 e).1) rfl) (hstay ?_) (.of_not hp (fun _ => ⟨rfl, rfl⟩) (by simp))
    intro e he
    rw [hp]
    exact he
  | written hp => exact hends.wakeup.leave hidle (.of_not (State.wakeup_pc hp rfl) (fun _ => ⟨rfl, rfl⟩) (by simp))
  | killedReader hp => exact hends.leave hidle (.of_not hp (fun _ => ⟨rfl, rfl⟩) (by simp))
  | waitBytes hp => exact hends.leave (hstay (by simp [hp, Pc.inCall])) (.of_not hp (fun _ => ⟨rfl, rfl⟩) (by simp))
  | start hp => exact hends.setPc (hstay (by simp [hp, Pc.inCall, Call.side])) (.of_not hp (fun _ => ⟨rfl, rfl⟩) (by simp))
  | take hp =>
    refine setPc (s := { s with pipe := _, taken := _ })
      (hends.same rfl rfl (fun e => (isopen_pipe s.pipe 0 _ e).2) rfl) (hstay (by simp [hp, Pc.inCall]))
      (.of_not hp (fun _ => ⟨rfl, rfl⟩) (by simp))
  | read hp => exact hends.wakeup.leave hidle (.of_not (State.wakeup_pc hp rfl) (fun _ => ⟨rfl, rfl⟩) (by simp))
  | close hp hother => exact hends.shutLeave hp (Or.inl ⟨rfl, hother⟩)
  | closeLast hp hboth => exact hends.shutLeave hp (Or.inr ⟨rfl, hboth⟩)
  | kfree hp =>
    obtain ⟨hshut, -⟩ := hends.freeing h hp
    have hothers : ∀ h', h' ≠ h → s.pc h' ≠ .freeing := fun h' hh hf => hh (hends.oneFreeing h' h hf hp)
    have hidles : ∀ h' q, (s.setPc h .idle).pc h' = q → q ≠ .idle → h' ≠ h ∧ s.pc h' = q := by
      intro h' q hq hne
      rcases State.setPc_cases hq with ⟨-, heq⟩ | hold
      · exact absurd heq.symm hne
      · exact hold
    have halike : ∀ h', (∀ e, ((s.setPc h .idle).pc h').inCall e = (s.pc h').inCall e ∧
        ((s.setPc h .idle).pc h').closes e = (s.pc h').closes e) := by
      intro h' e
      by_cases hh : h' = h
      · rw [hh, State.setPc_pc_self, hp]
        exact ⟨rfl, rfl⟩
      · rw [State.setPc_pc_ne hh]
        exact ⟨rfl, rfl⟩
    constructor
    · intro h' e he
      exact hends.inCall h' e ((halike h' e).1 ▸ he)
    · exact hends.files
    · intro h' e he
      exact hends.closes h' e ((halike h' e).2 ▸ he)
    · intro h1 h2 e he1 he2
      exact hends.oneCloser h1 h2 e ((halike h1 e).2 ▸ he1) ((halike h2 e).2 ▸ he2)
    · intro h' hf
      obtain ⟨hh, hold⟩ := hidles h' _ hf (by simp)
      exact absurd hold (hothers h' hh)
    · intro h1 h2 hf1
      obtain ⟨hh, hold⟩ := hidles h1 _ hf1 (by simp)
      exact absurd hold (hothers h1 hh)
    · intro _
      exact hshut
    · intro e _
      exact Or.inl (hshut e)
    · intro _
      exact Or.inl rfl

/-- A process starts to write or to read. -/
theorem enter (hends : Ends s) {c : Call} (hclose : ∀ e, c ≠ .pipeclose e) (hfiles : s.files c.side = true)
    (hidle : s.pc h = .idle) : Ends (s.setPc h (.acquiring c)) := by
  refine hends.setPc ?_ (.of_not hidle (fun e => ⟨?_, rfl⟩) (by simp))
  · intro e he
    cases c with
    | pipeclose e' => exact absurd rfl (hclose e')
    | pipewrite buf i =>
      rw [← of_decide_eq_true he]
      exact hfiles
    | piperead n =>
      rw [← of_decide_eq_true he]
      exact hfiles
  · cases c with
    | pipeclose e' => exact absurd rfl (hclose e')
    | _ => rfl

/-- The last reference to an end is gone. -/
theorem enterClose (hends : Ends s) (hfiles : s.files e = true) (hidle : s.pc h = .idle) (hlast : ∀ h, (s.pc h).inCall e = false)
    (hpc : ∀ h', h' ≠ h → s'.pc h' = s.pc h') (hself : s'.pc h = .acquiring (.pipeclose e))
    (hfiles' : s'.files = update s.files e false) (hpipe : s'.pipe = s.pipe) (hfreed : s'.freed = s.freed) :
    Ends s' := by
  have hopen := hends.files e hfiles
  -- nobody has closed the end before
  have hcloses : ∀ h' e', (s'.pc h').closes e' = true →
      (h' = h ∧ e' = e) ∨ (e' ≠ e ∧ (s.pc h').closes e' = true) := by
    intro h' e' he
    by_cases hh : h' = h
    · rw [hh, hself] at he
      exact Or.inl ⟨hh, (of_decide_eq_true he).symm⟩
    · rw [hpc h' hh] at he
      refine Or.inr ⟨?_, he⟩
      intro heq
      rw [heq] at he
      rw [(hends.closes h' e he).1] at hfiles
      cases hfiles
  have hfreeing : ∀ h', s'.pc h' = .freeing → s.pc h' = .freeing := by
    intro h' hf
    by_cases hh : h' = h
    · rw [hh, hself] at hf
      cases hf
    · rw [← hpc h' hh]
      exact hf
  constructor
  · intro h' e' he
    by_cases hh : h' = h
    · rw [hh, hself] at he
      cases he
    · rw [hpc h' hh] at he
      have hne : e' ≠ e := by
        intro heq
        rw [heq, hlast h'] at he
        cases he
      rw [hfiles', update_of_ne hne]
      exact hends.inCall h' e' he
  · intro e' he
    rw [hpipe]
    by_cases heq : e' = e
    · rw [heq]
      exact hopen
    · rw [hfiles', update_of_ne heq] at he
      exact hends.files e' he
  · intro h' e' he
    rw [hpipe]
    rcases hcloses h' e' he with ⟨-, rfl⟩ | ⟨hne, hold⟩
    · rw [hfiles']
      exact ⟨update_self _ _ _, hopen⟩
    · rw [hfiles', update_of_ne hne]
      exact hends.closes h' e' hold
  · intro h1 h2 e' he1 he2
    rcases hcloses h1 e' he1 with ⟨rfl, rfl⟩ | ⟨hne1, hold1⟩
    · rcases hcloses h2 e' he2 with ⟨rfl, -⟩ | ⟨hne2, -⟩
      · rfl
      · exact absurd rfl hne2
    · rcases hcloses h2 e' he2 with ⟨-, rfl⟩ | ⟨-, hold2⟩
      · exact absurd rfl hne1
      · exact hends.oneCloser h1 h2 e' hold1 hold2
  · intro h' hf
    rw [hpipe, hfreed]
    exact hends.freeing h' (hfreeing h' hf)
  · intro h1 h2 hf1 hf2
    exact hends.oneFreeing h1 h2 (hfreeing h1 hf1) (hfreeing h2 hf2)
  · intro hf
    rw [hfreed] at hf
    rw [hpipe]
    exact hends.freed hf
  · intro e' he
    by_cases heq : e' = e
    · exact Or.inr ⟨h, by rw [hself, heq]; exact decide_eq_true rfl⟩
    · rw [hfiles', update_of_ne heq] at he
      rw [hpipe]
      rcases hends.opened e' he with hshut | ⟨h', hc⟩
      · exact Or.inl hshut
      · have hh : h' ≠ h := by
          intro hsame
          rw [hsame, hidle] at hc
          cases hc
        exact Or.inr ⟨h', by rw [hpc h' hh]; exact hc⟩
  · intro hshut
    rw [hpipe] at hshut
    rw [hshut e] at hopen
    cases hopen

theorem step (hends : Ends s) {ev : Event H} (hallowed : Allowed s ev) (hstep : Ipc.step s ev = some s') : Ends s' := by
  cases ev with
  | write h buf =>
    simp only [Ipc.step] at hstep
    split at hstep
    next hpre =>
      obtain rfl := Option.some.inj hstep
      exact hends.enter (by simp) hpre.2 hpre.1
    next => cases hstep
  | read h n =>
    simp only [Ipc.step] at hstep
    split at hstep
    next hpre =>
      obtain rfl := Option.some.inj hstep
      exact hends.enter (by simp) hpre.2 hpre.1
    next => cases hstep
  | close h e =>
    simp only [Ipc.step] at hstep
    split at hstep
    next hpre =>
      obtain rfl := Option.some.inj hstep
      exact hends.enterClose hpre.2 hpre.1 hallowed (fun h' hh => State.setPc_pc_ne hh) State.setPc_pc_self rfl rfl rfl
    next => cases hstep
  | kill h =>
    obtain rfl := Option.some.inj hstep
    exact hends.alike (kill_alike s h) rfl (fun _ => rfl) rfl
  | go h => exact hends.go hstep

end Ends

end Ipc
