import OperatingSystem314.Airport.Channel

/-! # The priority of left-to-right passengers

    `VIP_LR_waiting` counts the LR passengers that wait for the channel, and
    `VIP_priority_mutex` keeps the gate of `VIP_channel_RL` shut while there
    are any.  The counter is incremented under `VIP_waiting_mutex` and
    decremented under `VIP_LR_mutex`, so an increment and a decrement can
    overlap and one of them be lost.

    * `NoLostUpdate`: the steps that let none overlap.
    * `Gate`: the invariant of the counter and the gate.
    * `priority_of_no_lost_update`: in runs of such steps LR passengers are
      never overtaken.
    * `overtaken`: a run with a lost update in which one is. -/

namespace Airport

open Threads

/-! ### Parts of the program -/

namespace At

/-- An LR passenger in its arrival block, with `VIP_waiting_mutex`. -/
def arriving : At → Bool
  | .lr .read_arriving | .lr (.write_arriving _) | .lr .test_arrived | .lr .lock_priority
  | .lr .unlock_waiting => true
  | _ => false

/-- An LR passenger between its increment and its decrement of `VIP_LR_waiting`. -/
def waiting : At → Bool
  | .lr .test_arrived | .lr .lock_priority | .lr .unlock_waiting | .lr .lock_LR
  | .lr .read_entering | .lr (.write_entering _) => true
  | _ => false

/-- An LR passenger that waits behind a gate that is shut. -/
def shut : At → Bool
  | .lr .unlock_waiting | .lr .lock_LR | .lr .read_entering | .lr (.write_entering _) => true
  | _ => false

/-- An LR passenger that has decremented, with the gate shut yet. -/
def entered : At → Bool
  | .lr .test_entered | .lr .unlock_priority => true
  | _ => false

def opens : At → Bool
  | .lr .unlock_priority => true
  | _ => false

/-- An RL passenger that holds `VIP_priority_mutex` to pass the gate. -/
def passing : At → Bool
  | .rl .unlock_priority => true
  | _ => false

def writesArriving : At → Bool
  | .lr (.write_arriving _) => true
  | _ => false

def writesEntering : At → Bool
  | .lr (.write_entering _) => true
  | _ => false

/-- What an LR passenger that is about to write has read. -/
def seen : At → Option Int
  | .lr (.write_arriving n) | .lr (.write_entering n) => some n
  | _ => none

end At

variable {ι : Type}

/-- No passenger reads `VIP_LR_waiting` to update it while another is between
    its read and its write. -/
def NoLostUpdate (s : State ι Channel At) (i : ι) : Prop :=
  match s.pc i with
  | .lr .read_arriving => ∀ j, (s.pc j).writesEntering = false
  | .lr .read_entering => ∀ j, (s.pc j).writesArriving = false
  | _ => True

theorem noLostUpdate_iff (s : State ι Channel At) (i : ι) :
    NoLostUpdate s i ↔
      (s.pc i = .lr .read_arriving → ∀ j, (s.pc j).writesEntering = false) ∧
        (s.pc i = .lr .read_entering → ∀ j, (s.pc j).writesArriving = false) := by
  unfold NoLostUpdate
  split
  · simp [*]
  · simp [*]
  · simp_all

instance [Fintype ι] (s : State ι Channel At) (i : ι) : Decidable (NoLostUpdate s i) :=
  decidable_of_iff _ (noLostUpdate_iff s i).symm

/-! ### The counter and the gate -/

section gate

open At

structure Gate [Fintype ι] (s : State ι Channel At) : Prop where
  waiting_mutex : s.shared.VIP_waiting_mutex.toNat = count arriving s.pc
  counted : s.shared.VIP_LR_waiting = count waiting s.pc
  seen : ∀ i n, (s.pc i).seen = some n → n = s.shared.VIP_LR_waiting
  alone : count writesArriving s.pc = 0 ∨ count writesEntering s.pc = 0
  held : 0 < count shut s.pc + count entered s.pc →
    s.shared.VIP_priority_mutex.toNat = 1 ∧ count passing s.pc = 0
  passed : count passing s.pc ≤ s.shared.VIP_priority_mutex.toNat
  last : 0 < count opens s.pc → count shut s.pc = 0

variable [Fintype ι]

theorem gate_init : Gate (channelInit ι) := by
  have hzero : ∀ P : At → Bool, P .away = false → count P (channelInit ι).pc = 0 :=
    fun P hP => count_const At.away hP
  have h1 := hzero arriving rfl
  have h2 := hzero waiting rfl
  have h3 := hzero shut rfl
  have h4 := hzero entered rfl
  have h5 := hzero opens rfl
  have h6 := hzero passing rfl
  have h7 := hzero writesArriving rfl
  constructor
  · rw [h1]
    rfl
  · rw [h2]
    rfl
  · intro i n hn
    cases hn
  · exact .inl h7
  · rw [h3, h4]
    intro hpos
    cases hpos
  · rw [h6]
    exact Nat.zero_le _
  · intro _
    exact h3

/-- Who waits is in the arrival block, or behind the shut gate. -/
theorem waiting_le (pc : ι → At) : count waiting pc ≤ count arriving pc + count shut pc := by
  unfold count
  rw [← Finset.sum_add_distrib]
  apply Finset.sum_le_sum
  intro i _
  rcases pc i with _ | a | a
  · decide
  · cases a <;> simp [waiting, arriving, shut]
  · cases a <;> decide

theorem shut_le (pc : ι → At) : count shut pc ≤ count waiting pc :=
  count_le fun a ha => by
    unfold shut at ha
    split at ha
    all_goals first | rfl | cases ha

theorem opens_le (pc : ι → At) : count opens pc ≤ count entered pc :=
  count_le fun a ha => by
    unfold opens at ha
    split at ha
    · rfl
    · cases ha

theorem writesArriving_le (pc : ι → At) : count writesArriving pc ≤ count arriving pc :=
  count_le fun a ha => by
    unfold writesArriving at ha
    split at ha
    · rfl
    · cases ha

/-- An LR passenger that updates the counter or opens the gate in its entry
    block holds `VIP_LR_mutex`, so there is one at most. -/
theorem entering_le {s : State ι Channel At}
    (h : LightSwitch.Inv (s.map Channel.switch At.pos) fromL) :
    count writesEntering s.pc + count entered s.pc ≤ 1 := by
  have hle := Bool.toNat_le ((s.map Channel.switch At.pos).shared.mutex fromL)
  have hholds : count writesEntering s.pc + count entered s.pc ≤
      count (fun a => LightSwitch.on fromL LightSwitch.Stage.holds a.pos) s.pc := by
    apply count_add_le
    intro a
    rcases a with _ | a | a
    · decide
    · cases a <;> simp [writesEntering, entered, At.pos, LR.stage, LightSwitch.Stage.holds]
    · cases a <;> simp [writesEntering, entered]
  have hmutex := h.mutex
  have hsame : LightSwitch.num (s.map Channel.switch At.pos).pc fromL LightSwitch.Stage.holds =
      count (fun a => LightSwitch.on fromL LightSwitch.Stage.holds a.pos) s.pc := rfl
  omega

variable [DecidableEq ι] {s s' : State ι Channel At} {i : ι}

/-- A step that has nothing to do with the counter and the gate. -/
theorem Gate.frame (h : Gate s) {c : Channel} {b : At}
    (hw : c.VIP_waiting_mutex = s.shared.VIP_waiting_mutex)
    (hp : c.VIP_priority_mutex = s.shared.VIP_priority_mutex)
    (hc : c.VIP_LR_waiting = s.shared.VIP_LR_waiting)
    (hab : ∀ P ∈ [arriving, waiting, shut, entered, opens, passing, writesArriving, writesEntering],
      P b = P (s.pc i))
    (hseen : b.seen = none) : Gate ⟨c, Function.update s.pc i b⟩ := by
  have hcount : ∀ P ∈ [arriving, waiting, shut, entered, opens, passing, writesArriving, writesEntering],
      count P (Function.update s.pc i b) = count P s.pc := by
    intro P hP
    have := count_update P s.pc i b
    rw [hab P hP] at this
    omega
  simp only [List.forall_mem_cons] at hcount
  obtain ⟨h1, h2, h3, h4, h5, h6, h7, h8, -⟩ := hcount
  obtain ⟨g1, g2, g3, g4, g5, g6, g7⟩ := h
  constructor
  all_goals simp only [h1, h2, h3, h4, h5, h6, h7, h8, hw, hp, hc]
  any_goals assumption
  intro j n hj
  by_cases hji : j = i
  · subst hji
    rw [Function.update_self, hseen] at hj
    cases hj
  · rw [Function.update_of_ne hji] at hj
    exact g3 j n hj

/-- A passenger between its read and its write is the only one. -/
theorem seen_alone {pc : ι → At} (h : count writesArriving pc + count writesEntering pc ≤ 1)
    (hi : (pc i).seen.isSome) {j : ι} (hj : j ≠ i) : (pc j).seen = none := by
  have hwrites : count (fun a : At => a.seen.isSome) pc ≤ 1 := by
    refine Nat.le_trans (Nat.le_of_eq ?_) h
    unfold count
    rw [← Finset.sum_add_distrib]
    apply Finset.sum_congr rfl
    intro k _
    rcases pc k with _ | a | a
    · rfl
    · cases a <;> rfl
    · cases a <;> rfl
  by_contra hsome
  have htwo := two_le_count (P := fun a : At => a.seen.isSome) hj.symm hi
    (Option.isSome_iff_ne_none.mpr hsome)
  omega

omit [Fintype ι] in
/-- What readers have seen is still there after a step, if the counter has
    not changed or nobody else had read it. -/
theorem seen_update (hseen : ∀ j n, (s.pc j).seen = some n → n = s.shared.VIP_LR_waiting) {b : At}
    {w : Int} (hb : ∀ n, b.seen = some n → n = w)
    (hw : w = s.shared.VIP_LR_waiting ∨ ∀ j, j ≠ i → (s.pc j).seen = none) :
    ∀ j n, (Function.update s.pc i b j).seen = some n → n = w := by
  intro j n hj
  by_cases hji : j = i
  · subst hji
    rw [Function.update_self] at hj
    exact hb n hj
  · rw [Function.update_of_ne hji] at hj
    rcases hw with hw | hw
    · rw [hw]
      exact hseen j n hj
    · rw [hw j hji] at hj
      cases hj

/-- What a step to `b` does to the numbers of the counter and the gate. -/
theorem gate_numbers (pc : ι → At) (i : ι) (b : At) :
    let n := fun P => count P pc
    let n' := fun P => count P (Function.update pc i b)
    n' arriving + (arriving (pc i)).toNat = n arriving + (arriving b).toNat ∧
    n' waiting + (waiting (pc i)).toNat = n waiting + (waiting b).toNat ∧
    n' shut + (shut (pc i)).toNat = n shut + (shut b).toNat ∧
    n' entered + (entered (pc i)).toNat = n entered + (entered b).toNat ∧
    n' opens + (opens (pc i)).toNat = n opens + (opens b).toNat ∧
    n' passing + (passing (pc i)).toNat = n passing + (passing b).toNat ∧
    n' writesArriving + (writesArriving (pc i)).toNat = n writesArriving + (writesArriving b).toNat ∧
    n' writesEntering + (writesEntering (pc i)).toNat = n writesEntering + (writesEntering b).toNat :=
  ⟨count_update _ pc i b, count_update _ pc i b, count_update _ pc i b, count_update _ pc i b,
    count_update _ pc i b, count_update _ pc i b, count_update _ pc i b, count_update _ pc i b⟩

set_option linter.unusedSimpArgs false in
/-- Every step keeps the counter and the gate, as long as no update of the
    counter overlaps another. -/
theorem Gate.step (h : Gate s) (hsw : LightSwitch.Inv (s.map Channel.switch At.pos) fromL)
    (hguard : NoLostUpdate s i) {call : Call} (hnext : next channelStep s i call = some s') :
    Gate s' := by
  obtain ⟨c, b, hstep, rfl⟩ := (next_eq_some channelStep).mp hnext
  have hnum := gate_numbers s.pc i b
  have hframe := @Gate.frame ι _ _ s i h c b
  have hone := fun P => @one_le_count ι At _ P s.pc i
  have hupdate := @seen_update ι _ s i h.seen b
  have halone' := @seen_alone ι _ _ i s.pc
  unfold NoLostUpdate at hguard
  obtain ⟨hw, hc, hseen, halone, hheld, hpassed, hlast⟩ := h
  have hle := Bool.toNat_le s.shared.VIP_waiting_mutex
  have hle' := Bool.toNat_le s.shared.VIP_priority_mutex
  have w1 := waiting_le s.pc
  have w2 := shut_le s.pc
  have w3 := opens_le s.pc
  have w4 := writesArriving_le s.pc
  have w5 := entering_le hsw
  have hsaw := hseen i
  generalize ha : s.pc i = a at *
  rcases a with _ | a | a
  · cases call
    all_goals
      cases hstep
      exact hframe rfl rfl rfl (by decide) rfl
  · cases a with
    | lock_waiting =>
      obtain ⟨hfree, h⟩ := lockStep_eq_some.mp hstep
      cases h
      have hzero : s.shared.VIP_waiting_mutex.toNat = 0 := by simpa using hfree
      simp only [arriving, waiting, shut, entered, opens, passing, writesArriving, writesEntering,
        Bool.toNat_true, Bool.toNat_false] at hnum
      constructor
      case seen => exact hupdate nofun (.inl rfl)
      all_goals
        try simp only [Bool.toNat_true, Bool.toNat_false, true_and]
        omega
    | read_arriving =>
      cases hstep
      have harriving := hone arriving rfl
      have hnobody : count writesEntering s.pc = 0 := Finset.sum_eq_zero fun j _ => by
        rw [hguard j]
        rfl
      simp only [arriving, waiting, shut, entered, opens, passing, writesArriving, writesEntering,
        Bool.toNat_true, Bool.toNat_false] at hnum
      constructor
      case seen => exact hupdate (fun n hn => (Option.some.inj hn).symm) (.inl rfl)
      all_goals
        try simp only [Bool.toNat_true, Bool.toNat_false, true_and]
        omega
    | write_arriving seen =>
      cases hstep
      have harriving := hone arriving rfl
      have hwrites := hone writesArriving rfl
      have hsame := hsaw seen rfl
      simp only [arriving, waiting, shut, entered, opens, passing, writesArriving, writesEntering,
        Bool.toNat_true, Bool.toNat_false] at hnum
      constructor
      case seen => exact hupdate nofun (.inr fun j => halone' (by omega) rfl)
      all_goals
        try simp only [Bool.toNat_true, Bool.toNat_false, true_and]
        omega
    | test_arrived =>
      cases hstep
      have harriving := hone arriving rfl
      have hwaiting := hone waiting rfl
      split at hnum
      next hfirst =>
        rw [if_pos hfirst] at *
        simp only [arriving, waiting, shut, entered, opens, passing, writesArriving, writesEntering,
          Bool.toNat_true, Bool.toNat_false] at hnum
        constructor
        case seen => exact hupdate nofun (.inl rfl)
        all_goals
          try simp only [Bool.toNat_true, Bool.toNat_false, true_and]
          omega
      next hmore =>
        rw [if_neg hmore] at *
        simp only [arriving, waiting, shut, entered, opens, passing, writesArriving, writesEntering,
          Bool.toNat_true, Bool.toNat_false] at hnum
        constructor
        case seen => exact hupdate nofun (.inl rfl)
        all_goals
          try simp only [Bool.toNat_true, Bool.toNat_false, true_and]
          omega
    | lock_priority =>
      obtain ⟨hfree, h⟩ := lockStep_eq_some.mp hstep
      cases h
      have hzero : s.shared.VIP_priority_mutex.toNat = 0 := by simpa using hfree
      have harriving := hone arriving rfl
      simp only [arriving, waiting, shut, entered, opens, passing, writesArriving, writesEntering,
        Bool.toNat_true, Bool.toNat_false] at hnum
      constructor
      case seen => exact hupdate nofun (.inl rfl)
      all_goals
        try simp only [Bool.toNat_true, Bool.toNat_false, true_and]
        omega
    | unlock_waiting =>
      cases hstep
      have harriving := hone arriving rfl
      have hshut := hone shut rfl
      simp only [arriving, waiting, shut, entered, opens, passing, writesArriving, writesEntering,
        Bool.toNat_true, Bool.toNat_false] at hnum
      constructor
      case seen => exact hupdate nofun (.inl rfl)
      all_goals
        try simp only [Bool.toNat_true, Bool.toNat_false, true_and]
        omega
    | lock_LR =>
      obtain ⟨-, h⟩ := lockStep_eq_some.mp hstep
      cases h
      exact hframe rfl rfl rfl (by decide) rfl
    | read_entering =>
      cases hstep
      have hnobody : count writesArriving s.pc = 0 := Finset.sum_eq_zero fun j _ => by
        rw [hguard j]
        rfl
      simp only [arriving, waiting, shut, entered, opens, passing, writesArriving, writesEntering,
        Bool.toNat_true, Bool.toNat_false] at hnum
      constructor
      case seen => exact hupdate (fun n hn => (Option.some.inj hn).symm) (.inl rfl)
      all_goals
        try simp only [Bool.toNat_true, Bool.toNat_false, true_and]
        omega
    | write_entering seen =>
      cases hstep
      have hwrites := hone writesEntering rfl
      have hshut := hone shut rfl
      have hsame := hsaw seen rfl
      simp only [arriving, waiting, shut, entered, opens, passing, writesArriving, writesEntering,
        Bool.toNat_true, Bool.toNat_false] at hnum
      constructor
      case seen => exact hupdate nofun (.inr fun j => halone' (by omega) rfl)
      all_goals
        try simp only [Bool.toNat_true, Bool.toNat_false, true_and]
        omega
    | test_entered =>
      cases hstep
      have hentered := hone entered rfl
      split at hnum
      next hnone =>
        rw [if_pos hnone] at *
        simp only [arriving, waiting, shut, entered, opens, passing, writesArriving, writesEntering,
          Bool.toNat_true, Bool.toNat_false] at hnum
        constructor
        case seen => exact hupdate nofun (.inl rfl)
        all_goals
          try simp only [Bool.toNat_true, Bool.toNat_false, true_and]
          omega
      next hmore =>
        rw [if_neg hmore] at *
        simp only [arriving, waiting, shut, entered, opens, passing, writesArriving, writesEntering,
          Bool.toNat_true, Bool.toNat_false] at hnum
        constructor
        case seen => exact hupdate nofun (.inl rfl)
        all_goals
          try simp only [Bool.toNat_true, Bool.toNat_false, true_and]
          omega
    | unlock_priority =>
      cases hstep
      have hentered := hone entered rfl
      have hopens := hone opens rfl
      simp only [arriving, waiting, shut, entered, opens, passing, writesArriving, writesEntering,
        Bool.toNat_true, Bool.toNat_false] at hnum
      constructor
      case seen => exact hupdate nofun (.inl rfl)
      all_goals
        try simp only [Bool.toNat_true, Bool.toNat_false, true_and]
        omega
    | lock_RL | exit_lock_LR =>
      obtain ⟨-, h⟩ := lockStep_eq_some.mp hstep
      cases h
      exact hframe rfl rfl rfl (by decide) rfl
    | count_in | unlock_LR | crossing | count_out | exit_unlock_RL | exit_unlock_LR =>
      cases hstep
      exact hframe rfl rfl rfl (by decide) rfl
    | test_first =>
      by_cases hc : s.shared.VIP_LR_count = 1
      · simp only [channelStep, stepLR, hc, if_true] at hstep
        cases hstep
        exact hframe rfl rfl rfl (by decide) rfl
      · simp only [channelStep, stepLR, hc, if_false] at hstep
        cases hstep
        exact hframe rfl rfl rfl (by decide) rfl
    | test_empty =>
      by_cases hc : s.shared.VIP_LR_count = 0
      · simp only [channelStep, stepLR, hc, if_true] at hstep
        cases hstep
        exact hframe rfl rfl rfl (by decide) rfl
      · simp only [channelStep, stepLR, hc, if_false] at hstep
        cases hstep
        exact hframe rfl rfl rfl (by decide) rfl
  · cases a with
    | lock_priority =>
      obtain ⟨hfree, h⟩ := lockStep_eq_some.mp hstep
      cases h
      have hzero : s.shared.VIP_priority_mutex.toNat = 0 := by simpa using hfree
      simp only [arriving, waiting, shut, entered, opens, passing, writesArriving, writesEntering,
        Bool.toNat_true, Bool.toNat_false] at hnum
      constructor
      case seen => exact hupdate nofun (.inl rfl)
      all_goals
        try simp only [Bool.toNat_true, Bool.toNat_false, true_and]
        omega
    | unlock_priority =>
      cases hstep
      have hpassing := hone passing rfl
      simp only [arriving, waiting, shut, entered, opens, passing, writesArriving, writesEntering,
        Bool.toNat_true, Bool.toNat_false] at hnum
      constructor
      case seen => exact hupdate nofun (.inl rfl)
      all_goals
        try simp only [Bool.toNat_true, Bool.toNat_false, true_and]
        omega
    | lock_RL | lock_LR | exit_lock_RL =>
      obtain ⟨-, h⟩ := lockStep_eq_some.mp hstep
      cases h
      exact hframe rfl rfl rfl (by decide) rfl
    | count_in | unlock_RL | crossing | count_out | exit_unlock_LR | exit_unlock_RL =>
      cases hstep
      exact hframe rfl rfl rfl (by decide) rfl
    | test_first =>
      by_cases hc : s.shared.VIP_RL_count = 1
      · simp only [channelStep, stepRL, hc, if_true] at hstep
        cases hstep
        exact hframe rfl rfl rfl (by decide) rfl
      · simp only [channelStep, stepRL, hc, if_false] at hstep
        cases hstep
        exact hframe rfl rfl rfl (by decide) rfl
    | test_empty =>
      by_cases hc : s.shared.VIP_RL_count = 0
      · simp only [channelStep, stepRL, hc, if_true] at hstep
        cases hstep
        exact hframe rfl rfl rfl (by decide) rfl
      · simp only [channelStep, stepRL, hc, if_false] at hstep
        cases hstep
        exact hframe rfl rfl rfl (by decide) rfl

/-- The light switches of the channel, in the state they are in. -/
abbrev view (s : State ι Channel At) : State ι LightSwitch.Switch LightSwitch.Pos :=
  s.map Channel.switch At.pos

omit [Fintype ι] [DecidableEq ι] in
theorem view_init : view (channelInit ι) = LightSwitch.init ι := by
  simp [State.map, channelInit, LightSwitch.init, Channel.switch, Channel.init, At.pos]

theorem inv_next (h : ∀ d, LightSwitch.Inv (view s) d) {call : Call}
    (hnext : next channelStep s i call = some s') : ∀ d, LightSwitch.Inv (view s') d := by
  rcases next_map switch_step hnext with hsame | ⟨c, hc⟩
  · unfold view at *
    rwa [hsame]
  · exact LightSwitch.inv_step h hc

/-- What holds in a run without a lost update. -/
structure Orderly (s : State ι Channel At) : Prop where
  switch : ∀ d, LightSwitch.Inv (view s) d
  gate : Gate s

omit [DecidableEq ι] in
theorem orderly_init : Orderly (channelInit ι) := by
  refine ⟨fun d => ?_, gate_init⟩
  rw [view_init]
  exact LightSwitch.inv_init d

theorem Orderly.step (h : Orderly s) (hstep : Step channelStep NoLostUpdate s s') : Orderly s' := by
  obtain ⟨i, call, hguard, hnext⟩ := hstep
  exact ⟨inv_next h.switch hnext, h.gate.step (h.switch fromL) hguard hnext⟩

theorem orderly_of_reachable (h : Reachable channelStep NoLostUpdate (channelInit ι) s) : Orderly s :=
  h.invariant orderly_init fun _ _ hs hstep => hs.step hstep

end gate

/-! ### Nobody overtakes -/

/-- An LR passenger that has finished its arrival block and not begun to cross. -/
def WaitsLR : At → Prop
  | .lr .lock_LR | .lr .read_entering | .lr (.write_entering _) | .lr .test_entered
  | .lr .unlock_priority | .lr .count_in | .lr .test_first | .lr .lock_RL | .lr .unlock_LR => True
  | _ => False

/-- An RL passenger between its arrival at the gate and the channel. -/
def WaitsRL : At → Prop
  | .rl .lock_priority | .rl .unlock_priority | .rl .lock_RL | .rl .count_in | .rl .test_first
  | .rl .lock_LR => True
  | _ => False

/-- An RL passenger at `b` has not overtaken the LR passenger at `a`: it has
    not even passed the gate, as long as that is shut for the latter. -/
structure Behind (a b : At) : Prop where
  waits : WaitsRL b
  gate : a.shut = true ∨ a.entered = true → b = .rl .lock_priority

theorem Behind.not_crosses {a b : At} (h : Behind a b) : b ≠ .rl .crossing := by
  intro hb
  rw [hb] at h
  exact h.waits

/-- Where an LR passenger holds `VIP_LR_mutex` with the gate open again. -/
theorem holds_of_waits {a : At} (ha : WaitsLR a) (hshut : a.shut = false) (hentered : a.entered = false) :
    ∃ b : LightSwitch.Stage, a.pos = some (fromL, b) ∧ b.holds = true := by
  unfold WaitsLR at ha
  split at ha
  all_goals first
    | exact ⟨_, rfl, rfl⟩
    | exact ha.elim
    | simp [At.shut] at hshut

section behind

variable [Fintype ι] {s s' : State ι Channel At} {p q : ι}

/-- While an LR passenger holds `VIP_LR_mutex` in its entry block, no RL
    passenger is about to enter the channel. -/
theorem Orderly.not_entering (h : Orderly s) {i j : ι} {b : LightSwitch.Stage}
    (hi : (s.pc i).pos = some (fromL, b)) (hb : b.holds = true) : s.pc j ≠ .rl .unlock_RL := by
  intro hj
  have hmutex := (h.switch fromL).mutex
  have hle := Bool.toNat_le ((view s).shared.mutex fromL)
  have hholds : 1 ≤ LightSwitch.num (view s).pc fromL LightSwitch.Stage.holds := by
    refine one_le_count (i := i) ?_
    show LightSwitch.on _ _ (s.pc i).pos = true
    rw [hi, LightSwitch.on_self, hb]
  have hgroup : 1 ≤ LightSwitch.num (view s).pc (!fromL) LightSwitch.Stage.group := by
    refine one_le_count (i := j) ?_
    show LightSwitch.on _ _ (s.pc j).pos = true
    rw [hj]
    rfl
  omega

/-- A waiting RL passenger that takes a step waits on, or is about to enter
    the channel; to pass the gate it must find it open. -/
theorem waitsRL_step {c c' : Channel} {b b' : At} {call : Call} (hb : WaitsRL b)
    (h : channelStep c b call = some (c', b')) :
    (WaitsRL b' ∨ b' = .rl .unlock_RL) ∧
      (b = .rl .lock_priority → c.VIP_priority_mutex = false) := by
  unfold WaitsRL at hb
  split at hb
  · obtain ⟨hfree, h⟩ := lockStep_eq_some.mp h
    cases h
    exact ⟨.inl trivial, fun _ => by simpa using hfree⟩
  · cases h
    exact ⟨.inl trivial, nofun⟩
  · obtain ⟨-, h⟩ := lockStep_eq_some.mp h
    cases h
    exact ⟨.inl trivial, nofun⟩
  · cases h
    exact ⟨.inl trivial, nofun⟩
  · cases h
    refine ⟨?_, nofun⟩
    split
    · exact .inl trivial
    · exact .inr rfl
  · obtain ⟨-, h⟩ := lockStep_eq_some.mp h
    cases h
    exact ⟨.inr rfl, nofun⟩
  · cases hb

/-- A waiting LR passenger for which the gate is open again does not shut it. -/
theorem waitsLR_step {c c' : Channel} {a a' : At} {call : Call} (ha : WaitsLR a)
    (h : channelStep c a call = some (c', a')) (hshut : a'.shut = true ∨ a'.entered = true) :
    a.shut = true ∨ a.entered = true := by
  unfold WaitsLR at ha
  split at ha
  · exact .inl rfl
  · exact .inl rfl
  · exact .inl rfl
  · exact .inr rfl
  · exact .inr rfl
  · cases h
    simp [At.shut, At.entered] at hshut
  · cases h
    split at hshut
    · simp [At.shut, At.entered] at hshut
    · simp [At.shut, At.entered] at hshut
  · obtain ⟨-, h⟩ := lockStep_eq_some.mp h
    cases h
    simp [At.shut, At.entered] at hshut
  · cases h
    simp [At.shut, At.entered] at hshut
  · cases ha

variable [DecidableEq ι]

theorem Behind.step (h : Orderly s) (hbehind : Behind (s.pc p) (s.pc q)) (hp : WaitsLR (s.pc p))
    (hp' : WaitsLR (s'.pc p)) (hstep : Step channelStep NoLostUpdate s s') :
    Behind (s'.pc p) (s'.pc q) := by
  have h' := h.step hstep
  obtain ⟨i, call, -, hnext⟩ := hstep
  obtain ⟨c, b, hb, rfl⟩ := (next_eq_some channelStep).mp hnext
  have hpq : p ≠ q := by
    intro hpq
    rw [← hpq] at hbehind
    have hwaits := hbehind.waits
    unfold WaitsLR at hp
    unfold WaitsRL at hwaits
    split at hp
    all_goals simp_all
  have hheld : (s.pc p).shut = true ∨ (s.pc p).entered = true →
      s.shared.VIP_priority_mutex = true := by
    intro hshut
    have hpos : 0 < count At.shut s.pc + count At.entered s.pc := by
      rcases hshut with hshut | hshut
      · have := one_le_count hshut
        omega
      · have := one_le_count hshut
        omega
    simpa using (h.gate.held hpos).1
  by_cases hiq : i = q
  · -- the RL passenger takes the step: past the gate only if that is open
    subst hiq
    simp only [Function.update_of_ne hpq, Function.update_self] at hp' ⊢
    obtain ⟨hwaits, hopen⟩ := waitsRL_step hbehind.waits hb
    have hnotshut : ¬ ((s.pc p).shut = true ∨ (s.pc p).entered = true) := by
      intro hshut
      have hfree := hopen (hbehind.gate hshut)
      rw [hheld hshut] at hfree
      cases hfree
    refine ⟨?_, fun hshut => absurd hshut hnotshut⟩
    rcases hwaits with hwaits | henters
    · exact hwaits
    · -- it cannot enter, since the LR passenger has `VIP_LR_mutex`
      rw [not_or, Bool.not_eq_true, Bool.not_eq_true] at hnotshut
      obtain ⟨a, ha, hholds⟩ := holds_of_waits hp hnotshut.1 hnotshut.2
      have hnot := h'.not_entering (i := p) (j := i) (b := a)
        (by simpa only [Function.update_of_ne hpq] using ha) hholds
      simp only [Function.update_self] at hnot
      exact absurd henters hnot
  · simp only [Function.update_of_ne (Ne.symm hiq)]
    by_cases hip : i = p
    · subst hip
      simp only [Function.update_self] at hp' ⊢
      exact ⟨hbehind.waits, fun hshut => hbehind.gate (waitsLR_step hp hb hshut)⟩
    · simp only [Function.update_of_ne (Ne.symm hip)]
      exact hbehind

/-- Steps under the guard `G`, with passenger `p` waiting to cross from left
    to right all the while. -/
def WhileWaiting (G : State ι Channel At → ι → Prop) (p : ι) :
    State ι Channel At → State ι Channel At → Prop :=
  Relation.ReflTransGen fun s s' => Step channelStep G s s' ∧ WaitsLR (s'.pc p)

theorem behind_while (h : Orderly s) (hbehind : Behind (s.pc p) (s.pc q)) (hp : WaitsLR (s.pc p))
    (hrun : WhileWaiting NoLostUpdate p s s') : Behind (s'.pc p) (s'.pc q) := by
  have hall : Orderly s' ∧ WaitsLR (s'.pc p) ∧ Behind (s'.pc p) (s'.pc q) := by
    induction hrun with
    | refl => exact ⟨h, hp, hbehind⟩
    | tail _ hlast ih =>
      obtain ⟨hord, hwaits, hb⟩ := ih
      exact ⟨hord.step hlast.1, hlast.2, hb.step hord hwaits hlast.2 hlast.1⟩
  exact hall.2.2

/-- Left-to-right passengers have priority in a state: the counter is right,
    the gate is shut while one of them waits behind it, and an RL passenger
    at the gate does not begin to cross before an LR passenger that has
    finished its arrival block. -/
structure Priority (G : State ι Channel At → ι → Prop) (s : State ι Channel At) : Prop where
  counted : s.shared.VIP_LR_waiting = count At.waiting s.pc
  held : (0 < s.shared.VIP_LR_waiting ∧ s.shared.VIP_waiting_mutex = false) ∨
    (∃ p, (s.pc p).shut = true) → s.shared.VIP_priority_mutex = true
  behind : ∀ p q, WaitsLR (s.pc p) → s.pc q = .rl .lock_priority →
    ∀ s', WhileWaiting G p s s' → s'.pc q ≠ .rl .crossing

/-- In a run in which no update of the counter overlaps another, LR
    passengers have priority in every state. -/
theorem priority_of_no_lost_update (h : Reachable channelStep NoLostUpdate (channelInit ι) s) :
    Priority NoLostUpdate s := by
  have hord := orderly_of_reachable h
  obtain ⟨hw, hc, -, -, hheld, -, -⟩ := hord.gate
  refine ⟨hc, ?_, ?_⟩
  · intro hwait
    have hshut : 0 < count At.shut s.pc := by
      rcases hwait with ⟨hpos, hfree⟩ | ⟨p, hp⟩
      · have hle := waiting_le s.pc
        rw [hfree, Bool.toNat_false] at hw
        omega
      · exact one_le_count hp
    simpa using (hheld (by omega)).1
  · intro p q hp hq s' hrun
    have hbehind : Behind (s.pc p) (s.pc q) := ⟨by rw [hq]; trivial, fun _ => hq⟩
    exact (behind_while hord hbehind hp hrun).not_crosses

end behind

/-- Passenger `0` waits behind the gate, and passenger `1` comes to it. -/
def oneWaiting : State (Fin 2) Channel At :=
  (execUnder channelStep NoLostUpdate (List.replicate 7 (0, .LR) ++ [(1, .RL)])
    (channelInit (Fin 2))).get (by decide)

theorem priority_of_no_lost_update_oneWaiting :
    WaitsLR (oneWaiting.pc 0) ∧ oneWaiting.pc 1 = .rl .lock_priority ∧
      Priority NoLostUpdate oneWaiting :=
  ⟨trivial, rfl, priority_of_no_lost_update (reachable_of_execUnder (Option.some_get _).symm)⟩

/-! ### A lost update -/

section lost

/-- Others take their steps while `p` waits. -/
theorem whileWaiting_of_exec {ι : Type} [Fintype ι] [DecidableEq ι] {sched : List (ι × Call)}
    {s s' : State ι Channel At} {p : ι} (hp : WaitsLR (s.pc p)) (hothers : ∀ e ∈ sched, e.1 ≠ p)
    (h : exec channelStep sched s = some s') : WhileWaiting (fun _ _ => True) p s s' := by
  induction sched generalizing s with
  | nil =>
    cases h
    exact .refl
  | cons e rest ih =>
    obtain ⟨i, c⟩ := e
    simp only [exec, Option.bind_eq_some_iff] at h
    obtain ⟨t, hnext, hrest⟩ := h
    have hpc : WaitsLR (t.pc p) := by
      obtain ⟨x, a, -, rfl⟩ := (next_eq_some channelStep).mp hnext
      have hi : p ≠ i := (hothers (i, c) List.mem_cons_self).symm
      simpa only [Function.update_of_ne hi] using hp
    have hothers' : ∀ e ∈ rest, e.1 ≠ p := fun e he => hothers e (List.mem_cons_of_mem _ he)
    exact .head ⟨⟨i, c, trivial, hnext⟩, hpc⟩ (ih hpc hothers' hrest)

/-- Passenger `0` enters while passenger `1` arrives: it reads the counter
    before the increment of the other and writes it after.  It sees the
    counter at zero and opens the gate, and passenger `2` comes to it. -/
def lostUpdate : List (Fin 3 × Call) :=
  List.replicate 8 (0, .LR) ++ List.replicate 3 (1, .LR) ++ [(0, .LR), (1, .LR), (0, .LR)] ++
    List.replicate 12 (0, .LR) ++ List.replicate 2 (1, .LR) ++ [(2, .RL)]

/-- Passenger `1` waits to cross, and passenger `2` stands at the gate. -/
def afterLostUpdate : State (Fin 3) Channel At :=
  (exec channelStep lostUpdate (channelInit (Fin 3))).get rfl

/-- Passenger `2` passes the gate, while `1` still waits. -/
def passesGate : State (Fin 3) Channel At :=
  (exec channelStep (List.replicate 7 (2, .RL)) afterLostUpdate).get rfl

/-- The left-to-right passenger that waits is not counted, and overtaken. -/
theorem overtaken : Reachable channelStep (fun _ _ => True) (channelInit (Fin 3)) afterLostUpdate ∧
    afterLostUpdate.shared.VIP_LR_waiting = 0 ∧ afterLostUpdate.pc 1 = .lr .lock_LR ∧
    ¬ Priority (fun _ _ => True) afterLostUpdate := by
  refine ⟨reachable_of_exec (Option.some_get _).symm, rfl, rfl, ?_⟩
  intro hpriority
  have hrun : WhileWaiting (fun _ _ => True) 1 afterLostUpdate passesGate := by
    have hothers : ∀ e ∈ List.replicate 7 ((2, .RL) : Fin 3 × Call), e.1 ≠ 1 := by
      intro e he
      rw [List.eq_of_mem_replicate he]
      decide
    exact whileWaiting_of_exec trivial hothers (Option.some_get _).symm
  exact hpriority.behind 1 2 trivial rfl passesGate hrun rfl

end lost

end Airport
