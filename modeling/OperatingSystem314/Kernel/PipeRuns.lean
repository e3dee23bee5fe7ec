import OperatingSystem314.Kernel.PipeSteps

/-! # What a pipe guarantees

    * `Queue`, `Copying`, `Sleepers`: what every step keeps of the bytes and
      of the processes that sleep.
    * `bytes_in_order`: readers get the bytes that were written, in order.
    * `stuck_asleep`: who sleeps has a reason to, unless a writer was killed.
    * `freed_last`: the pipe is freed once, when nobody can come to it. -/

namespace Ipc

open Function (update update_self update_of_ne)

variable {H : Type} [DecidableEq H] {s s' : State H} {h : H} {p : Pc} {e : End}

/-! ### The bytes -/

structure Queue (s : State H) : Prop where
  size : CircularQueue.used s.pipe.nread s.pipe.nwrite ≤ PIPESIZE
  fifo : s.written = s.taken ++ s.pipe.contents

/-- The places go on where the counters wrap. -/
theorem pipesize_dvd : PIPESIZE ∣ 2 ^ 32 := ⟨2 ^ 23, by decide⟩

theorem full_iff {q : Pipe} : Full q ↔ CircularQueue.used q.nread q.nwrite = PIPESIZE :=
  CircularQueue.eq_add_iff (by decide)

namespace Queue

omit [DecidableEq H] in
theorem same (hq : Queue s) (hcontents : s'.pipe.contents = s.pipe.contents) (hr : s'.pipe.nread = s.pipe.nread)
    (hw : s'.pipe.nwrite = s.pipe.nwrite) (hwritten : s'.written = s.written) (htaken : s'.taken = s.taken) :
    Queue s' := by
  refine ⟨?_, ?_⟩
  · rw [hr, hw]
    exact hq.size
  · rw [hcontents, hwritten, htaken]
    exact hq.fifo

omit [DecidableEq H] in
theorem shut (hq : Queue s) : Queue (s.shut e) := by
  cases e with
  | _ => exact hq.same rfl rfl rfl rfl rfl

theorem go (hq : Queue s) (hgo : s.go h = some s') : Queue s' := by
  cases goes hgo with
  | @put buf i x hp hroom =>
    have hlt : CircularQueue.used s.pipe.nread s.pipe.nwrite < PIPESIZE := by
      have hne := mt full_iff.mpr hroom
      have hle := hq.size
      omega
    have hone : CircularQueue.used s.pipe.nread s.pipe.nwrite + 1 < 2 ^ 32 := by
      simp only [PIPESIZE] at hlt
      omega
    constructor
    · show CircularQueue.used s.pipe.nread (s.pipe.nwrite + 1) ≤ PIPESIZE
      rw [CircularQueue.used_push hone]
      exact hlt
    · show s.written ++ [x] = s.taken ++ (s.pipe.put x).contents
      rw [hq.fifo, List.append_assoc]
      exact congrArg _ (CircularQueue.contents_push pipesize_dvd hlt hone).symm
  | @take n got x hp hsome hx =>
    have hused := CircularQueue.used_pop hsome
    constructor
    · show CircularQueue.used (s.pipe.nread + 1) s.pipe.nwrite ≤ PIPESIZE
      have hle := hq.size
      omega
    · have hpop : s.pipe.contents = x :: { s.pipe with nread := s.pipe.nread + 1 }.contents := by
        rw [hx]
        exact CircularQueue.contents_pop hsome
      show s.written = (s.taken ++ [x]) ++ { s.pipe with nread := s.pipe.nread + 1 }.contents
      rw [hq.fifo, hpop, List.append_assoc, List.singleton_append]
  | close => exact hq.shut.same rfl rfl rfl rfl rfl
  | closeLast => exact hq.shut.same rfl rfl rfl rfl rfl
  | _ => exact hq.same rfl rfl rfl rfl rfl

end Queue

/-! ### Who sleeps -/

/-- Who has just begun to copy has found something, or the end. -/
def Copying (s : State H) : Prop :=
  ∀ h n, s.pc h = .copying n [] → s.pipe.nread ≠ s.pipe.nwrite ∨ s.pipe.writeopen = false

structure Sleepers (s : State H) : Prop where
  readers : ∀ h n, s.pc h = .sleeping (.piperead n) → (s.pipe.nread = s.pipe.nwrite ∧ s.pipe.writeopen = true) ∨
    (∃ h buf i, s.pc h = .holding (.pipewrite buf i)) ∨ s.gaveUp = true
  writers : ∀ h buf i, s.pc h = .sleeping (.pipewrite buf i) → (Full s.pipe ∧ s.pipe.readopen = true) ∨
    ∃ h n got, s.pc h = .copying n got

omit [DecidableEq H] in
/-- A process at a point with the lock is the one that has the lock. -/
theorem Locked.not_at (hl : Locked s) (hp : (s.pc h).holds = true) {h' : H} {q : Pc} (hq : s.pc h' = q)
    (hholds : q.holds = true) : s.pc h = q := by
  have hh : h' = h := hl.unique hp (by rw [hq]; exact hholds)
  rw [← hh]
  exact hq

namespace Copying

omit [DecidableEq H] in
theorem same (hc : Copying s) (hcopying : ∀ h n, s'.pc h = .copying n [] → s.pc h = .copying n [])
    (hr : s'.pipe.nread = s.pipe.nread) (hw : s'.pipe.nwrite = s.pipe.nwrite)
    (hopen : s'.pipe.writeopen = s.pipe.writeopen) : Copying s' := by
  intro h n hp
  rw [hr, hw, hopen]
  exact hc h n (hcopying h n hp)

omit [DecidableEq H] in
theorem wakeup (hc : Copying s) : Copying (s.wakeup e) :=
  hc.same (fun h n hp => ((Pc.wake_alike e (s.pc h)).copying n []).mp hp) rfl rfl rfl

theorem leave (hc : Copying s) (hp : ∀ n, p ≠ .copying n []) : Copying (s.leave h p) := by
  refine hc.same ?_ rfl rfl rfl
  intro h' n hp'
  rcases State.leave_cases hp' with ⟨-, heq⟩ | ⟨-, hold⟩
  · exact absurd heq (hp n)
  · exact hold

theorem setPc (hc : Copying s) (hp : ∀ n, p ≠ .copying n []) : Copying (s.setPc h p) := by
  refine hc.same ?_ rfl rfl rfl
  intro h' n hp'
  rcases State.setPc_cases hp' with ⟨-, heq⟩ | ⟨-, hold⟩
  · exact absurd heq (hp n)
  · exact hold

omit [DecidableEq H] in
/-- Where the holder of the lock is not copying, nobody is. -/
theorem of_holder (hl : Locked s) (hp : (s.pc h).holds = true) (hnot : ∀ n, s.pc h ≠ .copying n [])
    (hpc : s'.pc = s.pc) : Copying s' := by
  intro h' n hp'
  rw [hpc] at hp'
  exact absurd (hl.not_at hp hp' rfl) (hnot n)

theorem go (hc : Copying s) (hl : Locked s) (hgo : s.go h = some s') : Copying s' := by
  cases goes hgo with
  | acquire => exact setPc (s := { s with lock := some h }) hc (by simp)
  | giveUp => exact leave (s := { s with gaveUp := s.gaveUp || s.pipe.readopen }) hc (by simp)
  | waitRoom => exact hc.wakeup.leave (by simp)
  | @put buf i x hp =>
    have hnobody : Copying { s with pipe := s.pipe.put x, written := s.written ++ [x] } :=
      of_holder hl (by rw [hp]; rfl) (by simp [hp]) rfl
    exact hnobody.setPc (by simp)
  | written => exact hc.wakeup.leave (by simp)
  | killedReader => exact hc.leave (by simp)
  | waitBytes => exact hc.leave (by simp)
  | start hp hsome =>
    intro h' n' hp'
    rcases State.setPc_cases hp' with ⟨-, -⟩ | ⟨-, hold⟩
    · exact hsome
    · exact hc h' n' hold
  | take hp hsome hx =>
    intro h' n' hp'
    rcases State.setPc_cases hp' with ⟨-, heq⟩ | ⟨hh, hold⟩
    · simp at heq
    · exact absurd (hl.unique (by rw [hp]; rfl) (by rw [show s.pc h' = _ from hold]; rfl)) hh
  | read => exact hc.wakeup.leave (by simp)
  | @close e hp =>
    have hnobody : Copying { s with pipe := s.pipe.shut e } := of_holder hl (by rw [hp]; rfl) (by simp [hp]) rfl
    exact hnobody.wakeup.leave (by simp)
  | @closeLast e hp =>
    have hnobody : Copying { s with pipe := s.pipe.shut e } := of_holder hl (by rw [hp]; rfl) (by simp [hp]) rfl
    exact hnobody.wakeup.leave (by simp)
  | kfree => exact setPc (s := { s with freed := true }) hc (by simp)

theorem step (hc : Copying s) (hl : Locked s) {ev : Event H} (hstep : Ipc.step s ev = some s') : Copying s' := by
  cases ev with
  | write h buf =>
    simp only [Ipc.step] at hstep
    split at hstep
    next =>
      obtain rfl := Option.some.inj hstep
      exact hc.setPc (by simp)
    next => cases hstep
  | read h n =>
    simp only [Ipc.step] at hstep
    split at hstep
    next =>
      obtain rfl := Option.some.inj hstep
      exact hc.setPc (by simp)
    next => cases hstep
  | close h e =>
    simp only [Ipc.step] at hstep
    split at hstep
    next =>
      obtain rfl := Option.some.inj hstep
      exact setPc (s := { s with files := update s.files e false }) hc (by simp)
    next => cases hstep
  | kill h =>
    obtain rfl := Option.some.inj hstep
    exact hc.same (fun h' n hp => ((kill_alike s h h').copying n []).mp hp) rfl rfl rfl
  | go h => exact hc.go hl hstep

end Copying

namespace Sleepers

omit [DecidableEq H] in
/-- Nothing that matters to those who sleep is different, and nobody has fallen asleep. -/
theorem keep (hs : Sleepers s) (hasleep : ∀ h c, s'.pc h = .sleeping c → s.pc h = .sleeping c)
    (hr : s'.pipe.nread = s.pipe.nread) (hw : s'.pipe.nwrite = s.pipe.nwrite)
    (hopen : ∀ e, s'.pipe.isopen e = s.pipe.isopen e) (hgaveUp : s'.gaveUp = s.gaveUp)
    (hholding : ∀ h c, s.pc h = .holding c → s'.pc h = .holding c)
    (hcopying : ∀ h n got, s.pc h = .copying n got → s'.pc h = .copying n got) : Sleepers s' := by
  constructor
  · intro h n hp
    rw [hr, hw, show s'.pipe.writeopen = s.pipe.writeopen from hopen .writing, hgaveUp]
    rcases hs.readers h n (hasleep h _ hp) with hright | ⟨h', buf, i, hp'⟩ | hgave
    · exact Or.inl hright
    · exact Or.inr (Or.inl ⟨h', buf, i, hholding h' _ hp'⟩)
    · exact Or.inr (Or.inr hgave)
  · intro h buf i hp
    unfold Full
    rw [hr, hw, show s'.pipe.readopen = s.pipe.readopen from hopen .reading]
    rcases hs.writers h buf i (hasleep h _ hp) with hright | ⟨h', n, got, hp'⟩
    · exact Or.inl hright
    · exact Or.inr ⟨h', n, got, hcopying h' _ _ hp'⟩

omit [DecidableEq H] in
/-- While another process than a writer has the lock. -/
theorem readers_of_holder (hs : Sleepers s) (hl : Locked s) (hp : (s.pc h).holds = true)
    (hnot : ∀ buf i, s.pc h ≠ .holding (.pipewrite buf i)) {h' : H} {n : Int}
    (hp' : s.pc h' = .sleeping (.piperead n)) :
    (s.pipe.nread = s.pipe.nwrite ∧ s.pipe.writeopen = true) ∨ s.gaveUp = true := by
  rcases hs.readers h' n hp' with hright | ⟨h2, buf, i, hp2⟩ | hgave
  · exact Or.inl hright
  · exact absurd (hl.not_at hp hp2 rfl) (hnot buf i)
  · exact Or.inr hgave

omit [DecidableEq H] in
theorem writers_of_holder (hs : Sleepers s) (hl : Locked s) (hp : (s.pc h).holds = true)
    (hnot : ∀ n got, s.pc h ≠ .copying n got) {h' : H} {buf : List UInt8} {i : Nat}
    (hp' : s.pc h' = .sleeping (.pipewrite buf i)) : Full s.pipe ∧ s.pipe.readopen = true := by
  rcases hs.writers h' buf i hp' with hright | ⟨h2, n, got, hp2⟩
  · exact hright
  · exact absurd (hl.not_at hp hp2 rfl) (hnot n got)

/-- A process without the lock does something that does not concern those who sleep. -/
theorem setPc (hs : Sleepers s) (hold : (s.pc h).holds = false) (hnew : ∀ c, p ≠ .sleeping c) :
    Sleepers (s.setPc h p) := by
  have hother : ∀ {h' : H} {q : Pc}, s.pc h' = q → q.holds = true → (s.setPc h p).pc h' = q := by
    intro h' q hq hholds
    have hne : h' ≠ h := by
      intro heq
      rw [heq] at hq
      rw [hq, hholds] at hold
      cases hold
    rw [State.setPc_pc_ne hne, hq]
  refine hs.keep ?_ rfl rfl (fun _ => rfl) rfl (fun h' c hq => hother hq rfl) (fun h' n got hq => hother hq rfl)
  intro h' c hp'
  rcases State.setPc_cases hp' with ⟨-, heq⟩ | ⟨-, hold'⟩
  · exact absurd heq (hnew c)
  · exact hold'

omit [DecidableEq H] in
/-- Whom a `wakeup` leaves asleep. -/
theorem asleep_of_wakeup {h' : H} {c : Call} (hp : (s.wakeup e).pc h' = .sleeping c) :
    s.pc h' = .sleeping c ∧ c.side ≠ e :=
  ⟨(Pc.wake_alike e (s.pc h')).asleep c hp, Pc.wake_sleeping hp⟩

/-- Those who wait for the other end have been woken. -/
theorem shutLeave (hs : Sleepers s) (hl : Locked s) (hp : s.pc h = .holding (.pipeclose e))
    (hnew : ∀ c, p ≠ .sleeping c) : Sleepers ((s.shut e).leave h p) := by
  constructor
  · intro h' n hp'
    rcases State.leave_cases hp' with ⟨-, heq⟩ | ⟨-, hold⟩
    · exact absurd heq (hnew _)
    · obtain ⟨hasleep, hside⟩ := asleep_of_wakeup hold
      rcases hs.readers_of_holder hl (by rw [hp]; rfl) (by simp [hp]) hasleep with hright | hgave
      · cases e with
        | reading => exact Or.inl hright
        | writing => exact absurd rfl hside
      · exact Or.inr (Or.inr hgave)
  · intro h' buf i hp'
    rcases State.leave_cases hp' with ⟨-, heq⟩ | ⟨-, hold⟩
    · exact absurd heq (hnew _)
    · obtain ⟨hasleep, hside⟩ := asleep_of_wakeup hold
      have hright := hs.writers_of_holder hl (by rw [hp]; rfl) (by simp [hp]) hasleep
      cases e with
      | reading => exact absurd rfl hside
      | writing => exact Or.inl hright

theorem go (hs : Sleepers s) (hl : Locked s) (hends : Ends s) (hgo : s.go h = some s') : Sleepers s' := by
  cases goes hgo with
  | @acquire c hp hfree =>
    have hlock : Sleepers { s with lock := some h } := ⟨hs.readers, hs.writers⟩
    exact hlock.setPc (by rw [show State.pc { s with lock := some h } h = _ from hp]; rfl) (by simp)
  | @giveUp buf i hp =>
    constructor
    · intro h' n hp'
      rcases State.leave_cases hp' with ⟨-, heq⟩ | ⟨-, hold⟩
      · cases heq
      · -- the reader has a reference to its end
        have hopen : s.pipe.readopen = true := by
          refine hends.files .reading (hends.inCall h' .reading ?_)
          rw [show s.pc h' = _ from hold]
          rfl
        refine Or.inr (Or.inr ?_)
        show (s.gaveUp || s.pipe.readopen) = true
        rw [hopen, Bool.or_true]
    · intro h' buf' i' hp'
      rcases State.leave_cases hp' with ⟨-, heq⟩ | ⟨-, hold⟩
      · cases heq
      · exact Or.inl (hs.writers_of_holder hl (by rw [hp]; rfl) (by simp [hp]) hold)
  | @waitRoom buf i hp hfull hopen =>
    constructor
    · intro h' n hp'
      rcases State.leave_cases hp' with ⟨-, heq⟩ | ⟨-, hold⟩
      · cases heq
      · exact absurd rfl (asleep_of_wakeup hold).2
    · intro h' buf' i' _
      exact Or.inl ⟨hfull, hopen⟩
  | @put buf i x hp hroom =>
    constructor
    · intro h' n _
      exact Or.inr (Or.inl ⟨h, buf, i + 1, State.setPc_pc_self⟩)
    · intro h' buf' i' hp'
      rcases State.setPc_cases hp' with ⟨-, heq⟩ | ⟨-, hold⟩
      · cases heq
      · exact absurd (hs.writers_of_holder hl (by rw [hp]; rfl) (by simp [hp]) hold).1 hroom
  | @written buf i hp =>
    constructor
    · intro h' n hp'
      rcases State.leave_cases hp' with ⟨-, heq⟩ | ⟨-, hold⟩
      · cases heq
      · exact absurd rfl (asleep_of_wakeup hold).2
    · intro h' buf' i' hp'
      rcases State.leave_cases hp' with ⟨-, heq⟩ | ⟨-, hold⟩
      · cases heq
      · exact Or.inl (hs.writers_of_holder hl (by rw [hp]; rfl) (by simp [hp]) (asleep_of_wakeup hold).1)
  | @killedReader n hp =>
    constructor
    · intro h' n' hp'
      rcases State.leave_cases hp' with ⟨-, heq⟩ | ⟨-, hold⟩
      · cases heq
      · rcases hs.readers_of_holder hl (by rw [hp]; rfl) (by simp [hp]) hold with hright | hgave
        · exact Or.inl hright
        · exact Or.inr (Or.inr hgave)
    · intro h' buf' i' hp'
      rcases State.leave_cases hp' with ⟨-, heq⟩ | ⟨-, hold⟩
      · cases heq
      · exact Or.inl (hs.writers_of_holder hl (by rw [hp]; rfl) (by simp [hp]) hold)
  | @waitBytes n hp hempty hopen =>
    constructor
    · intro h' n' _
      exact Or.inl ⟨hempty, hopen⟩
    · intro h' buf' i' hp'
      rcases State.leave_cases hp' with ⟨-, heq⟩ | ⟨-, hold⟩
      · cases heq
      · exact Or.inl (hs.writers_of_holder hl (by rw [hp]; rfl) (by simp [hp]) hold)
  | @start n hp hsome =>
    constructor
    · intro h' n' hp'
      rcases State.setPc_cases hp' with ⟨-, heq⟩ | ⟨-, hold⟩
      · cases heq
      · rcases hs.readers_of_holder hl (by rw [hp]; rfl) (by simp [hp]) hold with hright | hgave
        · exact Or.inl hright
        · exact Or.inr (Or.inr hgave)
    · intro h' buf' i' _
      exact Or.inr ⟨h, n, [], State.setPc_pc_self⟩
  | @take n got x hp hsome hx =>
    constructor
    · intro h' n' hp'
      rcases State.setPc_cases hp' with ⟨-, heq⟩ | ⟨-, hold⟩
      · cases heq
      · rcases hs.readers_of_holder hl (by rw [hp]; rfl) (by simp [hp]) hold with ⟨hempty, -⟩ | hgave
        · exact absurd hempty hsome
        · exact Or.inr (Or.inr hgave)
    · intro h' buf' i' _
      exact Or.inr ⟨h, n, got ++ [x], State.setPc_pc_self⟩
  | @read n got hp =>
    constructor
    · intro h' n' hp'
      rcases State.leave_cases hp' with ⟨-, heq⟩ | ⟨-, hold⟩
      · cases heq
      · rcases hs.readers_of_holder hl (by rw [hp]; rfl) (by simp [hp]) (asleep_of_wakeup hold).1 with hright | hgave
        · exact Or.inl hright
        · exact Or.inr (Or.inr hgave)
    · intro h' buf' i' hp'
      rcases State.leave_cases hp' with ⟨-, heq⟩ | ⟨-, hold⟩
      · cases heq
      · exact absurd rfl (asleep_of_wakeup hold).2
  | close hp => exact hs.shutLeave hl hp (by simp)
  | closeLast hp => exact hs.shutLeave hl hp (by simp)
  | kfree hp =>
    have hfreed : Sleepers { s with freed := true } := ⟨hs.readers, hs.writers⟩
    exact hfreed.setPc (by rw [show State.pc { s with freed := true } h = _ from hp]; rfl) (by simp)

theorem step (hs : Sleepers s) (hl : Locked s) (hends : Ends s) {ev : Event H} (hstep : Ipc.step s ev = some s') :
    Sleepers s' := by
  cases ev with
  | write h buf =>
    simp only [Ipc.step] at hstep
    split at hstep
    next hpre =>
      obtain rfl := Option.some.inj hstep
      exact hs.setPc (by rw [hpre.1]; rfl) (by simp)
    next => cases hstep
  | read h n =>
    simp only [Ipc.step] at hstep
    split at hstep
    next hpre =>
      obtain rfl := Option.some.inj hstep
      exact hs.setPc (by rw [hpre.1]; rfl) (by simp)
    next => cases hstep
  | close h e =>
    simp only [Ipc.step] at hstep
    split at hstep
    next hpre =>
      obtain rfl := Option.some.inj hstep
      have hfiles : Sleepers { s with files := update s.files e false } := ⟨hs.readers, hs.writers⟩
      refine hfiles.setPc ?_ (by simp)
      rw [show State.pc { s with files := update s.files e false } h = _ from hpre.1]
      rfl
    next => cases hstep
  | kill h =>
    obtain rfl := Option.some.inj hstep
    exact hs.keep (fun h' => (kill_alike s h h').asleep) rfl rfl (fun _ => rfl) rfl
      (fun h' c => ((kill_alike s h h').holding c).mpr) (fun h' n got => ((kill_alike s h h').copying n got).mpr)
  | go h => exact hs.go hl hends hstep

end Sleepers

/-- Only writers and readers fall asleep. -/
theorem Goes.asleep (hg : Goes s h s') {h' : H} {c : Call} (hp : s'.pc h' = .sleeping c) :
    s.pc h' = .sleeping c ∨ (∃ buf i, c = .pipewrite buf i) ∨ ∃ n, c = .piperead n := by
  have hset : ∀ {r : State H} {q : Pc}, (r.setPc h q).pc h' = .sleeping c → (∀ c, q ≠ .sleeping c) →
      r.pc h' = .sleeping c := by
    intro r q hq hne
    rcases State.setPc_cases hq with ⟨-, heq⟩ | ⟨-, hold⟩
    · exact absurd heq (hne c)
    · exact hold
  have hleave : ∀ {r : State H} {q : Pc}, (r.leave h q).pc h' = .sleeping c → (∀ c, q ≠ .sleeping c) →
      r.pc h' = .sleeping c := fun {r q} => hset (r := { r with lock := none }) (q := q)
  cases hg with
  | acquire => exact Or.inl (hset (r := { s with lock := some h }) hp (by simp))
  | giveUp => exact Or.inl (hleave (r := { s with gaveUp := s.gaveUp || s.pipe.readopen }) hp (by simp))
  | @waitRoom buf i =>
    rcases State.leave_cases hp with ⟨-, heq⟩ | ⟨-, hold⟩
    · exact Or.inr (Or.inl ⟨buf, i, by simpa using heq.symm⟩)
    · exact Or.inl (Sleepers.asleep_of_wakeup hold).1
  | put => exact Or.inl (hset (r := { s with pipe := _, written := _ }) hp (by simp))
  | written => exact Or.inl (Sleepers.asleep_of_wakeup (hleave hp (by simp))).1
  | killedReader => exact Or.inl (hleave hp (by simp))
  | @waitBytes n =>
    rcases State.leave_cases hp with ⟨-, heq⟩ | ⟨-, hold⟩
    · exact Or.inr (Or.inr ⟨n, by simpa using heq.symm⟩)
    · exact Or.inl hold
  | start => exact Or.inl (hset hp (by simp))
  | take => exact Or.inl (hset (r := { s with pipe := _, taken := _ }) hp (by simp))
  | read => exact Or.inl (Sleepers.asleep_of_wakeup (hleave hp (by simp))).1
  | @close e => exact Or.inl (Sleepers.asleep_of_wakeup (hleave (r := s.shut e) hp (by simp))).1
  | @closeLast e => exact Or.inl (Sleepers.asleep_of_wakeup (hleave (r := s.shut e) hp (by simp))).1
  | kfree => exact Or.inl (hset (r := { s with freed := true }) hp (by simp))

def NoCloserAsleep (s : State H) : Prop := ∀ h e, s.pc h ≠ .sleeping (.pipeclose e)

theorem NoCloserAsleep.step (hn : NoCloserAsleep s) {ev : Event H} (hstep : Ipc.step s ev = some s') :
    NoCloserAsleep s' := by
  intro h' e hp
  have hset : ∀ {r : State H} {h : H} {q : Pc}, r.pc = s.pc → (∀ c, q ≠ .sleeping c) →
      (r.setPc h q).pc h' ≠ .sleeping (.pipeclose e) := by
    intro r h q hr hne hq
    rcases State.setPc_cases hq with ⟨-, heq⟩ | ⟨-, hold⟩
    · exact hne _ heq
    · rw [hr] at hold
      exact hn h' e hold
  cases ev with
  | write h buf =>
    simp only [Ipc.step] at hstep
    split at hstep
    next =>
      obtain rfl := Option.some.inj hstep
      exact hset rfl (by simp) hp
    next => cases hstep
  | read h n =>
    simp only [Ipc.step] at hstep
    split at hstep
    next =>
      obtain rfl := Option.some.inj hstep
      exact hset rfl (by simp) hp
    next => cases hstep
  | close h e' =>
    simp only [Ipc.step] at hstep
    split at hstep
    next =>
      obtain rfl := Option.some.inj hstep
      exact hset (r := { s with files := update s.files e' false }) rfl (by simp) hp
    next => cases hstep
  | kill h =>
    obtain rfl := Option.some.inj hstep
    exact hn h' e ((kill_alike s h h').asleep _ hp)
  | go h =>
    rcases (goes hstep).asleep hp with hold | ⟨buf, i, heq⟩ | ⟨n, heq⟩
    · exact hn h' e hold
    · cases heq
    · cases heq

/-! ### Results -/

structure Inv (s : State H) : Prop where
  locked : Locked s
  ends : Ends s
  queue : Queue s
  copying : Copying s
  sleepers : Sleepers s
  closers : NoCloserAsleep s

omit [DecidableEq H] in
theorem pipealloc_inv : Inv (pipealloc : State H) where
  locked := by
    intro h
    simp [pipealloc, Pc.holds]
  ends := by
    constructor
    · intro _ _ _
      rfl
    · intro e _
      cases e with
      | _ => rfl
    · intro h e he
      cases he
    · intro h h' e he
      cases he
    · intro h hp
      cases hp
    · intro h h' hp
      cases hp
    · intro hf
      cases hf
    · intro e he
      cases he
    · intro hshut
      cases hshut .reading
  queue := ⟨by simp [pipealloc], by simp [pipealloc, Pipe.contents]⟩
  copying := by
    intro h n hp
    cases hp
  sleepers := by
    constructor
    · intro h n hp
      cases hp
    · intro h buf i hp
      cases hp
  closers := by
    intro h e hp
    cases hp

theorem Queue.step (hq : Queue s) {ev : Event H} (hstep : Ipc.step s ev = some s') : Queue s' := by
  cases ev with
  | go h => exact hq.go hstep
  | kill h =>
    obtain rfl := Option.some.inj hstep
    exact hq.same rfl rfl rfl rfl rfl
  | _ =>
    simp only [Ipc.step] at hstep
    split at hstep
    next =>
      obtain rfl := Option.some.inj hstep
      exact hq.same rfl rfl rfl rfl rfl
    next => cases hstep

theorem reachable_inv (hrun : Reachable (pipealloc : State H) s) : Inv s := by
  refine hrun.invariant pipealloc_inv ?_
  intro s ev s' hi hallowed hstep
  exact ⟨hi.locked.step hstep, hi.ends.step hallowed hstep, hi.queue.step hstep, hi.copying.step hi.locked hstep,
    hi.sleepers.step hi.locked hi.ends hstep, hi.closers.step hstep⟩

/-- Readers get the bytes that were written, in their order, and none twice;
    at most 512 are on the way.  Who finds nothing to copy has come to the
    end: all bytes have been read, and no writer is left. -/
theorem bytes_in_order (hrun : Reachable (pipealloc : State H) s) :
    s.written = s.taken ++ s.pipe.contents ∧ s.pipe.contents.length ≤ PIPESIZE ∧
      ∀ h n, s.pc h = .copying n [] → s.pipe.contents = [] →
        s.taken = s.written ∧ s.files .writing = false ∧ ∀ h', (s.pc h').inCall .writing = false := by
  have hi := reachable_inv hrun
  refine ⟨hi.queue.fifo, ?_, ?_⟩
  · rw [Pipe.contents, CircularQueue.length_contents]
    exact hi.queue.size
  · intro h n hp hempty
    have hused : s.pipe.nread = s.pipe.nwrite := by
      have hlen : s.pipe.contents.length = CircularQueue.used s.pipe.nread s.pipe.nwrite :=
        CircularQueue.length_contents
      rw [← CircularQueue.used_eq_zero, ← hlen, hempty]
      rfl
    have hshut : s.pipe.writeopen = false := by
      rcases hi.copying h n hp with hne | hshut
      · exact absurd hused hne
      · exact hshut
    have hfiles : s.files .writing = false := by
      by_contra hfiles
      have hopen := hi.ends.files .writing ((Bool.not_eq_false _).mp hfiles)
      rw [show s.pipe.isopen .writing = s.pipe.writeopen from rfl, hshut] at hopen
      cases hopen
    refine ⟨?_, hfiles, ?_⟩
    · rw [hi.queue.fifo, hempty, List.append_nil]
    · intro h'
      by_contra hcall
      rw [hi.ends.inCall h' .writing ((Bool.not_eq_false _).mp hcall)] at hfiles
      cases hfiles

/-- Where nobody can go on, whoever is in a call sleeps, and has to: a writer
    as the pipe is full, a reader as it is empty and may be written to; or a
    writer was killed in its call. -/
theorem stuck_asleep (hrun : Reachable (pipealloc : State H) s) (hstuck : ∀ h, s.go h = none) (h : H) :
    s.pc h = .idle ∨
      (∃ buf i, s.pc h = .sleeping (.pipewrite buf i) ∧ Full s.pipe ∧ s.pipe.readopen = true) ∨
      ∃ n, s.pc h = .sleeping (.piperead n) ∧
        ((s.pipe.contents = [] ∧ s.pipe.writeopen = true) ∨ s.gaveUp = true) := by
  have hi := reachable_inv hrun
  -- who has the lock could go on
  have hnot : ∀ h', (s.pc h').holds = false := by
    intro h'
    have hnone := hstuck h'
    unfold State.go at hnone
    cases hp : s.pc h' with
    | holding c =>
      rw [hp] at hnone
      cases c with
      | _ => cases hnone
    | copying n got =>
      rw [hp] at hnone
      cases hnone
    | _ => rfl
  have hfree : s.lock = none := by
    cases hlock : s.lock with
    | none => rfl
    | some h' =>
      have hholds := (hi.locked h').mpr hlock
      rw [hnot h'] at hholds
      cases hholds
  have hnone := hstuck h
  unfold State.go at hnone
  cases hp : s.pc h with
  | idle => exact Or.inl rfl
  | acquiring c =>
    rw [hp] at hnone
    simp [hfree] at hnone
  | holding c =>
    have hholds := hnot h
    rw [hp] at hholds
    cases hholds
  | copying n got =>
    have hholds := hnot h
    rw [hp] at hholds
    cases hholds
  | freeing =>
    rw [hp] at hnone
    cases hnone
  | sleeping c =>
    cases c with
    | pipewrite buf i =>
      refine Or.inr (Or.inl ⟨buf, i, rfl, ?_⟩)
      rcases hi.sleepers.writers h buf i hp with hright | ⟨h', n, got, hp'⟩
      · exact hright
      · have hholds := hnot h'
        rw [hp'] at hholds
        cases hholds
    | piperead n =>
      refine Or.inr (Or.inr ⟨n, rfl, ?_⟩)
      rcases hi.sleepers.readers h n hp with ⟨hempty, hopen⟩ | ⟨h', buf, i, hp'⟩ | hgave
      · refine Or.inl ⟨?_, hopen⟩
        rw [Pipe.contents, hempty, CircularQueue.contents_self]
      · have hholds := hnot h'
        rw [hp'] at hholds
        cases hholds
      · exact Or.inr hgave
    | pipeclose e => exact absurd hp (hi.closers h e)

/-- The pipe is freed once, by the last process that can come to it; and it
    is freed when both ends are closed and no process is left in a call. -/
theorem freed_last (hrun : Reachable (pipealloc : State H) s) :
    (s.freed = true → ∀ h, s.pc h = .idle) ∧
      (∀ h, s.pc h = .freeing → s.freed = false ∧ ∀ h', h' ≠ h → s.pc h' = .idle) ∧
      ((∀ e, s.files e = false) → (∀ h, s.pc h = .idle) → s.freed = true) := by
  have hends := (reachable_inv hrun).ends
  -- no process is in a call on an end that is shut
  have hout : (∀ e, s.pipe.isopen e = false) → ∀ h, s.pc h = .idle ∨ s.pc h = .freeing := by
    intro hshut h
    have hcall : ∀ e, (s.pc h).inCall e = false := by
      intro e
      by_contra hcall
      have hopen := hends.files e (hends.inCall h e ((Bool.not_eq_false _).mp hcall))
      rw [hshut e] at hopen
      cases hopen
    have hclose : ∀ e, (s.pc h).closes e = false := by
      intro e
      by_contra hclose
      have hopen := (hends.closes h e ((Bool.not_eq_false _).mp hclose)).2
      rw [hshut e] at hopen
      cases hopen
    exact Pc.idle_or_freeing hcall hclose
  refine ⟨?_, ?_, ?_⟩
  · intro hfreed h
    rcases hout (hends.freed hfreed) h with hp | hp
    · exact hp
    · rw [(hends.freeing h hp).2] at hfreed
      cases hfreed
  · intro h hp
    obtain ⟨hshut, hnot⟩ := hends.freeing h hp
    refine ⟨hnot, ?_⟩
    intro h' hh
    rcases hout hshut h' with hp' | hp'
    · exact hp'
    · exact absurd (hends.oneFreeing h' h hp' hp) hh
  · intro hfiles hidle
    have hshut : ∀ e, s.pipe.isopen e = false := by
      intro e
      rcases hends.opened e (hfiles e) with hshut | ⟨h, hc⟩
      · exact hshut
      · rw [hidle h] at hc
        cases hc
    rcases hends.shut hshut with hfreed | ⟨h, hp⟩
    · exact hfreed
    · rw [hidle h] at hp
      cases hp

/-! ### A reader that waits for a writer -/

instance allowedDecidable (s : State Bool) : (ev : Event Bool) → Decidable (Allowed s ev)
  | .close _ e => inferInstanceAs (Decidable (∀ h, (s.pc h).inCall e = false))
  | .write _ _ | .read _ _ | .kill _ | .go _ => isTrue trivial

/-- The reader finds nothing. -/
def early : List (Event Bool) := [.read false 4, .go false, .go false]

theorem early_runs : (Runs.exec step Allowed early pipealloc).isSome = true := rfl

def waiting : State Bool := (Runs.exec step Allowed early pipealloc).get early_runs

theorem waiting_reachable : Reachable pipealloc waiting := Runs.reachable_of_exec (Option.some_get _).symm

theorem waiting_stuck : ∀ h, waiting.go h = none := by
  intro h
  cases h with
  | _ => rfl

theorem stuck_asleep_waiting : waiting.pc false = .idle ∨
    (∃ buf i, waiting.pc false = .sleeping (.pipewrite buf i) ∧ Full waiting.pipe ∧ waiting.pipe.readopen = true) ∨
    ∃ n, waiting.pc false = .sleeping (.piperead n) ∧
      ((waiting.pipe.contents = [] ∧ waiting.pipe.writeopen = true) ∨ waiting.gaveUp = true) :=
  stuck_asleep waiting_reachable waiting_stuck false

/-- A writer comes, and the reader has got the first byte. -/
def late : List (Event Bool) :=
  [.write true [104, 105], .go true, .go true, .go true, .go true, .go false, .go false, .go false]

theorem late_runs : (Runs.exec step Allowed late waiting).isSome = true := rfl

def reading : State Bool := (Runs.exec step Allowed late waiting).get late_runs

theorem reading_reachable : Reachable pipealloc reading :=
  waiting_reachable.trans (Runs.reachable_of_exec (Option.some_get _).symm)

theorem bytes_in_order_reading : (reading.taken = [104] ∧ reading.pipe.contents = [105]) ∧
    reading.written = reading.taken ++ reading.pipe.contents ∧ reading.pipe.contents.length ≤ PIPESIZE ∧
      ∀ h n, reading.pc h = .copying n [] → reading.pipe.contents = [] →
        reading.taken = reading.written ∧ reading.files .writing = false ∧
          ∀ h', (reading.pc h').inCall .writing = false :=
  ⟨⟨rfl, rfl⟩, bytes_in_order reading_reachable⟩

/-- Both ends are closed. -/
def farewell : List (Event Bool) :=
  [.go false, .go false, .close true .writing, .close false .reading, .go false, .go false, .go true, .go true]

theorem farewell_runs : (Runs.exec step Allowed farewell reading).isSome = true := rfl

def closed : State Bool := (Runs.exec step Allowed farewell reading).get farewell_runs

theorem freed_last_closed : closed.pc true = .freeing ∧
    (closed.freed = true → ∀ h, closed.pc h = .idle) ∧
      (∀ h, closed.pc h = .freeing → closed.freed = false ∧ ∀ h', h' ≠ h → closed.pc h' = .idle) ∧
      ((∀ e, closed.files e = false) → (∀ h, closed.pc h = .idle) → closed.freed = true) :=
  ⟨rfl, freed_last (reading_reachable.trans (Runs.reachable_of_exec (Option.some_get _).symm))⟩

end Ipc
