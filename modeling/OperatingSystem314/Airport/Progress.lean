import OperatingSystem314.Airport.Priority

/-! # Progress in the VIP channel

    The two routines take `VIP_LR_mutex` and `VIP_RL_mutex` in opposite
    orders, and the decrement of `VIP_LR_waiting` is not protected against
    the increment and the test of the arrival block.  Each can make
    passengers wait for ever.

    * `Careful`: the steps that do not lead there.
    * `Flow`, `Apart`: what such steps keep, besides the priority gate.
    * `channel_progress`: where nobody in the channel's routines can take
      a step, nobody is there. -/

namespace Airport

open Threads

namespace At

/-- An LR passenger that holds `VIP_LR_mutex` and may take `VIP_RL_mutex`. -/
def joiningLR : At → Bool
  | .lr .read_entering | .lr (.write_entering _) | .lr .test_entered | .lr .unlock_priority
  | .lr .count_in | .lr .test_first | .lr .lock_RL => true
  | _ => false

/-- An RL passenger that holds `VIP_RL_mutex` and may take `VIP_LR_mutex`. -/
def joiningRL : At → Bool
  | .rl .count_in | .rl .test_first | .rl .lock_LR => true
  | _ => false

def testsArrived : At → Bool
  | .lr .test_arrived => true
  | _ => false

def testsEntered : At → Bool
  | .lr .test_entered => true
  | _ => false

/-- An LR passenger that shuts the gate. -/
def shuts : At → Bool
  | .lr .lock_priority => true
  | _ => false

end At

open At

variable {ι : Type}

/-- Whether a passenger at `a` may take its step while another is at `b`.
    Updates of `VIP_LR_waiting` do not overlap; it is neither incremented
    from `0` before the other has tested it for `0` nor decremented to `1`
    before the other has tested it for `1`; and a passenger takes the mutex
    of its own direction only if the other is not at the door of its own. -/
def harmless (a b : At) : Bool :=
  match a with
  | .lr .read_arriving => !b.writesEntering
  | .lr .read_entering => !b.writesArriving
  | .lr (.write_arriving seen) => seen ≠ 0 || !b.testsEntered
  | .lr (.write_entering seen) => seen ≠ 2 || !b.testsArrived
  | .lr .lock_LR => !b.joiningRL
  | .rl .lock_RL => !b.joiningLR
  | _ => true

/-- The steps after which no passengers wait for each other. -/
def Careful (s : State ι Channel At) (i : ι) : Prop := ∀ j, harmless (s.pc i) (s.pc j) = true

instance [Fintype ι] (s : State ι Channel At) (i : ι) : Decidable (Careful s i) :=
  inferInstanceAs (Decidable (∀ j, harmless (s.pc i) (s.pc j) = true))

theorem Careful.noLostUpdate {s : State ι Channel At} {i : ι} (h : Careful s i) : NoLostUpdate s i := by
  unfold NoLostUpdate
  split
  next hi =>
    intro j
    have hj := h j
    rw [hi] at hj
    simpa [harmless] using hj
  next hi =>
    intro j
    have hj := h j
    rw [hi] at hj
    simpa [harmless] using hj
  · trivial

/-! ### The doors -/

/-- Passengers of the two directions are not at their doors at once. -/
def Apart (s : State ι Channel At) : Prop :=
  ∀ i j, ¬ ((s.pc i).joiningLR = true ∧ (s.pc j).joiningRL = true)

theorem joiningLR_step {c c' : Channel} {a b : At} {call : Call}
    (h : channelStep c a call = some (c', b)) (hb : b.joiningLR = true) :
    a.joiningLR = true ∨ a = .lr .lock_LR := by
  rcases a with _ | a | a
  · cases call
    · cases h
      cases hb
    · cases h
      cases hb
  · cases a with
    | lock_LR => exact .inr rfl
    | read_entering | write_entering _ | test_entered | unlock_priority | count_in | test_first
    | lock_RL => exact .inl rfl
    | lock_waiting | lock_priority | exit_lock_LR =>
      obtain ⟨-, h⟩ := lockStep_eq_some.mp h
      cases h
      cases hb
    | test_arrived | test_empty =>
      cases h
      split at hb
      · cases hb
      · cases hb
    | _ =>
      cases h
      cases hb
  · cases a with
    | lock_priority | lock_RL | lock_LR | exit_lock_RL =>
      obtain ⟨-, h⟩ := lockStep_eq_some.mp h
      cases h
      cases hb
    | test_first | test_empty =>
      cases h
      split at hb
      · cases hb
      · cases hb
    | _ =>
      cases h
      cases hb

theorem joiningRL_step {c c' : Channel} {a b : At} {call : Call}
    (h : channelStep c a call = some (c', b)) (hb : b.joiningRL = true) :
    a.joiningRL = true ∨ a = .rl .lock_RL := by
  rcases a with _ | a | a
  · cases call
    · cases h
      cases hb
    · cases h
      cases hb
  · cases a with
    | lock_waiting | lock_priority | lock_LR | lock_RL | exit_lock_LR =>
      obtain ⟨-, h⟩ := lockStep_eq_some.mp h
      cases h
      cases hb
    | test_arrived | test_entered | test_first | test_empty =>
      cases h
      split at hb
      · cases hb
      · cases hb
    | _ =>
      cases h
      cases hb
  · cases a with
    | lock_RL => exact .inr rfl
    | count_in | test_first | lock_LR => exact .inl rfl
    | lock_priority | exit_lock_RL =>
      obtain ⟨-, h⟩ := lockStep_eq_some.mp h
      cases h
      cases hb
    | test_empty =>
      cases h
      split at hb
      · cases hb
      · cases hb
    | _ =>
      cases h
      cases hb

theorem apart_init : Apart (channelInit ι) := by
  intro i j h
  cases h.1

theorem Apart.next [DecidableEq ι] {s s' : State ι Channel At} (h : Apart s) {i : ι} {call : Call}
    (hguard : Careful s i) (hnext : next channelStep s i call = some s') : Apart s' := by
  obtain ⟨c, b, hstep, rfl⟩ := (next_eq_some channelStep).mp hnext
  -- nobody at the other door when a passenger comes to its own
  have hnew : ∀ j, j ≠ i → ¬ (b.joiningLR = true ∧ (s.pc j).joiningRL = true) ∧
      ¬ ((s.pc j).joiningLR = true ∧ b.joiningRL = true) := by
    intro j hj
    constructor
    · rintro ⟨hb, hother⟩
      rcases joiningLR_step hstep hb with hold | hlock
      · exact h i j ⟨hold, hother⟩
      · have hj' := hguard j
        rw [hlock] at hj'
        simp [harmless, hother] at hj'
    · rintro ⟨hother, hb⟩
      rcases joiningRL_step hstep hb with hold | hlock
      · exact h j i ⟨hother, hold⟩
      · have hj' := hguard j
        rw [hlock] at hj'
        simp [harmless, hother] at hj'
  intro j k
  show ¬ ((Function.update s.pc i b j).joiningLR = true ∧ (Function.update s.pc i b k).joiningRL = true)
  by_cases hj : j = i
  · subst hj
    rw [Function.update_self]
    by_cases hk : k = j
    · subst hk
      rw [Function.update_self]
      rintro ⟨hl, hr⟩
      rcases b with _ | b | b
      · cases hl
      · cases hr
      · cases hl
    · rw [Function.update_of_ne hk]
      exact (hnew k hk).1
  · rw [Function.update_of_ne hj]
    by_cases hk : k = i
    · subst hk
      rw [Function.update_self]
      exact (hnew j hj).2
    · rw [Function.update_of_ne hk]
      exact h j k

/-! ### The gate opens again -/

section flow

variable [Fintype ι]

/-- `held`: the gate is shut by a passenger that will open it or pass it on.
    `first`: who is to shut the gate is the first to wait.
    `tested`: who has decremented leaves the gate shut only for others. -/
structure Flow (s : State ι Channel At) : Prop where
  held : s.shared.VIP_priority_mutex.toNat ≤
    count passing s.pc + count shut s.pc + count entered s.pc
  first : 0 < count shuts s.pc → count shut s.pc = 0
  tested : 0 < count testsEntered s.pc → count waiting s.pc = 0 ∨ 0 < count shut s.pc

theorem flow_init : Flow (channelInit ι) := by
  have hzero : ∀ P : At → Bool, P .away = false → count P (channelInit ι).pc = 0 :=
    fun P hP => count_const At.away hP
  constructor
  · exact Nat.zero_le _
  · intro _
    exact hzero shut rfl
  · intro _
    exact .inl (hzero waiting rfl)

theorem waiting_eq (pc : ι → At) :
    count waiting pc = count shut pc + count testsArrived pc + count shuts pc := by
  unfold count
  rw [← Finset.sum_add_distrib, ← Finset.sum_add_distrib]
  apply Finset.sum_congr rfl
  intro i _
  rcases pc i with _ | a | a
  · rfl
  · cases a <;> rfl
  · rfl

theorem early_le (pc : ι → At) : count testsArrived pc + count shuts pc ≤ count arriving pc :=
  count_add_le fun a => by
    rcases a with _ | a | a
    · exact Nat.le_refl 0
    · cases a <;> simp [testsArrived, shuts, arriving]
    · exact Nat.le_refl 0

theorem testsEntered_le (pc : ι → At) : count testsEntered pc ≤ count entered pc :=
  count_le fun a ha => by
    unfold testsEntered at ha
    split at ha
    · rfl
    · cases ha

variable [DecidableEq ι] {s s' : State ι Channel At} {i : ι}

/-- A step that has nothing to do with the gate. -/
theorem Flow.frame (h : Flow s) {c : Channel} {b : At}
    (hp : c.VIP_priority_mutex = s.shared.VIP_priority_mutex)
    (hab : passing b = passing (s.pc i) ∧ shut b = shut (s.pc i) ∧ entered b = entered (s.pc i) ∧
      shuts b = shuts (s.pc i) ∧ waiting b = waiting (s.pc i) ∧
      testsEntered b = testsEntered (s.pc i)) : Flow ⟨c, Function.update s.pc i b⟩ := by
  have hcount : ∀ P : At → Bool, P b = P (s.pc i) →
      count P (Function.update s.pc i b) = count P s.pc := by
    intro P hP
    have := count_update P s.pc i b
    rw [hP] at this
    omega
  obtain ⟨h1, h2, h3, h4, h5, h6⟩ := hab
  obtain ⟨hheld, hfirst, htested⟩ := h
  constructor
  all_goals simp only [hcount _ h1, hcount _ h2, hcount _ h3, hcount _ h4, hcount _ h5,
    hcount _ h6, hp]
  all_goals assumption

/-- What a step to `b` does to the numbers of the gate. -/
theorem flow_numbers (pc : ι → At) (i : ι) (b : At) :
    let n := fun P => count P pc
    let n' := fun P => count P (Function.update pc i b)
    n' passing + (passing (pc i)).toNat = n passing + (passing b).toNat ∧
    n' shut + (shut (pc i)).toNat = n shut + (shut b).toNat ∧
    n' entered + (entered (pc i)).toNat = n entered + (entered b).toNat ∧
    n' shuts + (shuts (pc i)).toNat = n shuts + (shuts b).toNat ∧
    n' waiting + (waiting (pc i)).toNat = n waiting + (waiting b).toNat ∧
    n' testsEntered + (testsEntered (pc i)).toNat = n testsEntered + (testsEntered b).toNat :=
  ⟨count_update _ pc i b, count_update _ pc i b, count_update _ pc i b, count_update _ pc i b,
    count_update _ pc i b, count_update _ pc i b⟩

set_option linter.unusedSimpArgs false in
/-- Every careful step keeps the gate from staying shut. -/
theorem Flow.next (h : Flow s) (hsw : LightSwitch.Inv (view s) fromL) (hgate : Gate s)
    (hguard : Careful s i) {call : Call} (hnext : next channelStep s i call = some s') : Flow s' := by
  obtain ⟨c, b, hstep, rfl⟩ := (next_eq_some channelStep).mp hnext
  have hnum := flow_numbers s.pc i b
  have hframe := @Flow.frame ι _ _ s i h c b
  have hone := fun P => @one_le_count ι At _ P s.pc i
  have hnobody : ∀ P : At → Bool, (∀ j, P (s.pc j) = false) → count P s.pc = 0 := by
    intro P hP
    apply Finset.sum_eq_zero
    intro j _
    rw [hP j]
    rfl
  unfold Careful at hguard
  obtain ⟨hheld, hfirst, htested⟩ := h
  have hle := Bool.toNat_le s.shared.VIP_waiting_mutex
  have hle' := Bool.toNat_le s.shared.VIP_priority_mutex
  have w1 := waiting_eq s.pc
  have w2 := early_le s.pc
  have w3 := testsEntered_le s.pc
  have w4 := entering_le hsw
  have hw := hgate.waiting_mutex
  have hc := hgate.counted
  have hsaw := hgate.seen i
  generalize ha : s.pc i = a at *
  rcases a with _ | a | a
  · cases call
    all_goals
      cases hstep
      exact hframe rfl ⟨rfl, rfl, rfl, rfl, rfl, rfl⟩
  · cases a with
    | write_arriving seen =>
      cases hstep
      have hsame := hsaw seen rfl
      have hcareful : count waiting s.pc = 0 → count testsEntered s.pc = 0 := by
        intro hzero
        exact hnobody testsEntered fun j => by simpa [harmless, hsame, hc, hzero] using hguard j
      simp only [passing, shut, entered, shuts, waiting, testsEntered,
        Bool.toNat_true, Bool.toNat_false] at hnum
      constructor
      all_goals
        try simp only [Bool.toNat_true, Bool.toNat_false]
        omega
    | write_entering seen =>
      cases hstep
      have hsame := hsaw seen rfl
      have hshut := hone shut rfl
      have hwrites := hone writesEntering rfl
      have hcareful : count waiting s.pc = 2 → count testsArrived s.pc = 0 := by
        intro htwo
        exact hnobody testsArrived fun j => by simpa [harmless, hsame, hc, htwo] using hguard j
      simp only [passing, shut, entered, shuts, waiting, testsEntered,
        Bool.toNat_true, Bool.toNat_false] at hnum
      constructor
      all_goals
        try simp only [Bool.toNat_true, Bool.toNat_false]
        omega
    | test_arrived =>
      cases hstep
      have harrived := hone testsArrived rfl
      split at hnum
      next hfirst' =>
        rw [if_pos hfirst'] at *
        simp only [passing, shut, entered, shuts, waiting, testsEntered,
          Bool.toNat_true, Bool.toNat_false] at hnum
        constructor
        all_goals
          try simp only [Bool.toNat_true, Bool.toNat_false]
          omega
      next hmore =>
        rw [if_neg hmore] at *
        simp only [passing, shut, entered, shuts, waiting, testsEntered,
          Bool.toNat_true, Bool.toNat_false] at hnum
        constructor
        all_goals
          try simp only [Bool.toNat_true, Bool.toNat_false]
          omega
    | test_entered =>
      cases hstep
      have hentered := hone testsEntered rfl
      split at hnum
      next hnone =>
        rw [if_pos hnone] at *
        simp only [passing, shut, entered, shuts, waiting, testsEntered,
          Bool.toNat_true, Bool.toNat_false] at hnum
        constructor
        all_goals
          try simp only [Bool.toNat_true, Bool.toNat_false]
          omega
      next hmore =>
        rw [if_neg hmore] at *
        simp only [passing, shut, entered, shuts, waiting, testsEntered,
          Bool.toNat_true, Bool.toNat_false] at hnum
        constructor
        all_goals
          try simp only [Bool.toNat_true, Bool.toNat_false]
          omega
    | lock_priority =>
      obtain ⟨-, h⟩ := lockStep_eq_some.mp hstep
      cases h
      have hshuts := hone shuts rfl
      simp only [passing, shut, entered, shuts, waiting, testsEntered,
        Bool.toNat_true, Bool.toNat_false] at hnum
      constructor
      all_goals
        try simp only [Bool.toNat_true, Bool.toNat_false]
        omega
    | unlock_priority =>
      cases hstep
      have hentered := hone entered rfl
      simp only [passing, shut, entered, shuts, waiting, testsEntered,
        Bool.toNat_true, Bool.toNat_false] at hnum
      constructor
      all_goals
        try simp only [Bool.toNat_true, Bool.toNat_false]
        omega
    | lock_waiting | lock_LR | lock_RL | exit_lock_LR =>
      obtain ⟨-, h⟩ := lockStep_eq_some.mp hstep
      cases h
      exact hframe rfl ⟨rfl, rfl, rfl, rfl, rfl, rfl⟩
    | test_first =>
      by_cases hc : s.shared.VIP_LR_count = 1
      · simp only [channelStep, stepLR, hc, if_true] at hstep
        cases hstep
        exact hframe rfl ⟨rfl, rfl, rfl, rfl, rfl, rfl⟩
      · simp only [channelStep, stepLR, hc, if_false] at hstep
        cases hstep
        exact hframe rfl ⟨rfl, rfl, rfl, rfl, rfl, rfl⟩
    | test_empty =>
      by_cases hc : s.shared.VIP_LR_count = 0
      · simp only [channelStep, stepLR, hc, if_true] at hstep
        cases hstep
        exact hframe rfl ⟨rfl, rfl, rfl, rfl, rfl, rfl⟩
      · simp only [channelStep, stepLR, hc, if_false] at hstep
        cases hstep
        exact hframe rfl ⟨rfl, rfl, rfl, rfl, rfl, rfl⟩
    | _ =>
      cases hstep
      exact hframe rfl ⟨rfl, rfl, rfl, rfl, rfl, rfl⟩
  · cases a with
    | lock_priority =>
      obtain ⟨-, h⟩ := lockStep_eq_some.mp hstep
      cases h
      simp only [passing, shut, entered, shuts, waiting, testsEntered,
        Bool.toNat_true, Bool.toNat_false] at hnum
      constructor
      all_goals
        try simp only [Bool.toNat_true, Bool.toNat_false]
        omega
    | unlock_priority =>
      cases hstep
      simp only [passing, shut, entered, shuts, waiting, testsEntered,
        Bool.toNat_true, Bool.toNat_false] at hnum
      constructor
      all_goals
        try simp only [Bool.toNat_true, Bool.toNat_false]
        omega
    | lock_RL | lock_LR | exit_lock_RL =>
      obtain ⟨-, h⟩ := lockStep_eq_some.mp hstep
      cases h
      exact hframe rfl ⟨rfl, rfl, rfl, rfl, rfl, rfl⟩
    | test_first =>
      by_cases hc : s.shared.VIP_RL_count = 1
      · simp only [channelStep, stepRL, hc, if_true] at hstep
        cases hstep
        exact hframe rfl ⟨rfl, rfl, rfl, rfl, rfl, rfl⟩
      · simp only [channelStep, stepRL, hc, if_false] at hstep
        cases hstep
        exact hframe rfl ⟨rfl, rfl, rfl, rfl, rfl, rfl⟩
    | test_empty =>
      by_cases hc : s.shared.VIP_RL_count = 0
      · simp only [channelStep, stepRL, hc, if_true] at hstep
        cases hstep
        exact hframe rfl ⟨rfl, rfl, rfl, rfl, rfl, rfl⟩
      · simp only [channelStep, stepRL, hc, if_false] at hstep
        cases hstep
        exact hframe rfl ⟨rfl, rfl, rfl, rfl, rfl, rfl⟩
    | _ =>
      cases hstep
      exact hframe rfl ⟨rfl, rfl, rfl, rfl, rfl, rfl⟩

end flow

/-! ### Nobody waits for ever -/

section progress

variable [Fintype ι] {s s' : State ι Channel At}

/-- What holds in a run of careful steps. -/
structure Smooth (s : State ι Channel At) : Prop where
  orderly : Orderly s
  flow : Flow s
  apart : Apart s

theorem smooth_init : Smooth (channelInit ι) := ⟨orderly_init, flow_init, apart_init⟩

theorem Smooth.step [DecidableEq ι] (h : Smooth s) (hstep : Step channelStep Careful s s') :
    Smooth s' := by
  obtain ⟨i, call, hguard, hnext⟩ := hstep
  refine ⟨?_, ?_, ?_⟩
  · exact h.orderly.step ⟨i, call, hguard.noLostUpdate, hnext⟩
  · exact h.flow.next (h.orderly.switch fromL) h.orderly.gate hguard hnext
  · exact h.apart.next hguard hnext

theorem smooth_of_reachable [DecidableEq ι] (h : Reachable channelStep Careful (channelInit ι) s) :
    Smooth s :=
  h.invariant smooth_init fun _ _ hs hstep => hs.step hstep

/-- Where a passenger waits, and for which mutex. -/
theorem blocked_cases {c : Channel} {a : At} (h : ∀ call, channelStep c a call = none) :
    (a = .lr .lock_waiting ∧ c.VIP_waiting_mutex = true) ∨
    ((a = .lr .lock_priority ∨ a = .rl .lock_priority) ∧ c.VIP_priority_mutex = true) ∨
    ((a = .lr .lock_LR ∨ a = .lr .exit_lock_LR ∨ a = .rl .lock_LR) ∧ c.VIP_LR_mutex = true) ∨
    ((a = .rl .lock_RL ∨ a = .rl .exit_lock_RL ∨ a = .lr .lock_RL) ∧ c.VIP_RL_mutex = true) := by
  have hnone := h .LR
  rcases a with _ | a | a
  · cases hnone
  · cases a with
    | lock_waiting => exact .inl ⟨rfl, lockStep_eq_none.mp hnone⟩
    | lock_priority => exact .inr (.inl ⟨.inl rfl, lockStep_eq_none.mp hnone⟩)
    | lock_LR => exact .inr (.inr (.inl ⟨.inl rfl, lockStep_eq_none.mp hnone⟩))
    | exit_lock_LR => exact .inr (.inr (.inl ⟨.inr (.inl rfl), lockStep_eq_none.mp hnone⟩))
    | lock_RL => exact .inr (.inr (.inr ⟨.inr (.inr rfl), lockStep_eq_none.mp hnone⟩))
    | _ => cases hnone
  · cases a with
    | lock_priority => exact .inr (.inl ⟨.inr rfl, lockStep_eq_none.mp hnone⟩)
    | lock_RL => exact .inr (.inr (.inr ⟨.inl rfl, lockStep_eq_none.mp hnone⟩))
    | exit_lock_RL => exact .inr (.inr (.inr ⟨.inr (.inl rfl), lockStep_eq_none.mp hnone⟩))
    | lock_LR => exact .inr (.inr (.inl ⟨.inr (.inr rfl), lockStep_eq_none.mp hnone⟩))
    | _ => cases hnone

theorem joining_of_pos {a : At} {d : Bool} (h : a.pos = some (d, .lock_other)) :
    if d then a.joiningLR = true else a.joiningRL = true := by
  rcases a with _ | a | a
  · cases h
  · cases a <;> cases h
    rfl
  · cases a <;> cases h
    rfl

omit [Fintype ι] in
theorem Apart.not_crossed (h : Apart s) : ¬ LightSwitch.Crossed (view s) := by
  rintro ⟨i, j, d, hi, hj⟩
  have hi' := joining_of_pos hi
  have hj' := joining_of_pos hj
  cases d with
  | true => exact h i j ⟨hi', hj'⟩
  | false => exact h j i ⟨hj', hi'⟩

/-- When nobody in the two routines can take a step, nobody is there. -/
theorem channel_progress (h : Smooth s)
    (hstuck : ∀ i, s.pc i ≠ .away → ∀ call, channelStep s.shared (s.pc i) call = none) (i : ι) :
    s.pc i = .away := by
  have hwhy := fun j hj => blocked_cases (hstuck j hj)
  have hblocked : LightSwitch.Blocked (view s) := by
    intro j
    by_cases hj : s.pc j = .away
    · left
      show (s.pc j).pos = none
      rw [hj]
      rfl
    · rcases hwhy j hj with ⟨hp, -⟩ | ⟨hp | hp, -⟩ | ⟨hp | hp | hp, hm⟩ | ⟨hp | hp | hp, hm⟩
      · exact .inl (congrArg At.pos hp)
      · exact .inl (congrArg At.pos hp)
      · exact .inl (congrArg At.pos hp)
      · exact .inl (congrArg At.pos hp)
      · exact .inr ⟨fromL, .inr ⟨congrArg At.pos hp, hm⟩⟩
      · exact .inr ⟨fromR, .inl ⟨congrArg At.pos hp, hm⟩⟩
      · exact .inl (congrArg At.pos hp)
      · exact .inr ⟨fromR, .inr ⟨congrArg At.pos hp, hm⟩⟩
      · exact .inr ⟨fromL, .inl ⟨congrArg At.pos hp, hm⟩⟩
  obtain ⟨-, hfree⟩ := LightSwitch.nobody_blocked h.orderly.switch hblocked h.apart.not_crossed
  have hLR : s.shared.VIP_LR_mutex = false := hfree fromL
  have hRL : s.shared.VIP_RL_mutex = false := hfree fromR
  -- what is left are the two mutexes of the arrival block
  have hleft : ∀ j, s.pc j = .away ∨ (s.pc j = .lr .lock_waiting ∧ s.shared.VIP_waiting_mutex = true) ∨
      ((s.pc j = .lr .lock_priority ∨ s.pc j = .rl .lock_priority) ∧
        s.shared.VIP_priority_mutex = true) := by
    intro j
    by_cases hj : s.pc j = .away
    · exact .inl hj
    · rcases hwhy j hj with hwaiting | hpriority | ⟨-, hm⟩ | ⟨-, hm⟩
      · exact .inr (.inl hwaiting)
      · exact .inr (.inr hpriority)
      · rw [hLR] at hm
        cases hm
      · rw [hRL] at hm
        cases hm
  have hzero : ∀ P : At → Bool, P .away = false → P (.lr .lock_waiting) = false →
      P (.lr .lock_priority) = false → P (.rl .lock_priority) = false → count P s.pc = 0 := by
    intro P h1 h2 h3 h4
    apply Finset.sum_eq_zero
    intro j _
    rcases hleft j with hj | ⟨hj, -⟩ | ⟨hj | hj, -⟩
    all_goals
      rw [hj]
      simp [*]
  have hpriority : s.shared.VIP_priority_mutex = false := by
    have hheld := h.flow.held
    rw [hzero passing rfl rfl rfl rfl, hzero shut rfl rfl rfl rfl, hzero entered rfl rfl rfl rfl] at hheld
    simpa using hheld
  have hwaiting : s.shared.VIP_waiting_mutex = false := by
    have hmutex := h.orderly.gate.waiting_mutex
    have harriving : count arriving s.pc = 0 := by
      apply Finset.sum_eq_zero
      intro j _
      rcases hleft j with hj | ⟨hj, -⟩ | ⟨-, hm⟩
      · rw [hj]
        rfl
      · rw [hj]
        rfl
      · rw [hpriority] at hm
        cases hm
    rw [harriving] at hmutex
    simpa using hmutex
  rcases hleft i with hi | ⟨-, hm⟩ | ⟨-, hm⟩
  · exact hi
  · rw [hwaiting] at hm
    cases hm
  · rw [hpriority] at hm
    cases hm

end progress

end Airport
