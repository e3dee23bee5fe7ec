import OperatingSystem314.Lib.LightSwitch

/-! # The VIP channel (`VIP_channel_LR` and `VIP_channel_RL`)

    The two routines of `offline.cpp` that passengers cross the VIP channel
    with, from left to right and from right to left, as a program that any
    number of threads run over four mutexes and three counters.

    A mutex is a binary semaphore: whoever unlocks it need not have locked
    it.  Every statement on shared variables is a step of its own, and a
    `++` or `--` of `VIP_LR_waiting`, which no one mutex protects, is a read
    and a write.  Prints and sleeps are left out.

    * `Exclusive`: who holds `VIP_LR_mutex` and `VIP_RL_mutex`.
    * `channel_exclusive`: the channel is never crossed in both directions. -/

namespace Airport

open Threads

/-! ### The program -/

structure Channel where
  VIP_waiting_mutex : Bool
  VIP_priority_mutex : Bool
  VIP_LR_mutex : Bool
  VIP_RL_mutex : Bool
  VIP_LR_waiting : Int
  VIP_LR_count : Int
  VIP_RL_count : Int
  deriving DecidableEq

/-- The program points of `VIP_channel_LR`, each in front of the statement
    it is named after. -/
inductive LR where
  -- the arrival block
  | lock_waiting | read_arriving | write_arriving (seen : Int) | test_arrived | lock_priority
  | unlock_waiting
  -- the entry block
  | lock_LR | read_entering | write_entering (seen : Int) | test_entered | unlock_priority
  | count_in | test_first | lock_RL | unlock_LR
  -- in the channel
  | crossing
  -- the exit block
  | exit_lock_LR | count_out | test_empty | exit_unlock_RL | exit_unlock_LR
  deriving DecidableEq

/-- The program points of `VIP_channel_RL`. -/
inductive RL where
  -- the gate
  | lock_priority | unlock_priority
  -- the entry block
  | lock_RL | count_in | test_first | lock_LR | unlock_RL
  -- in the channel
  | crossing
  -- the exit block
  | exit_lock_RL | count_out | test_empty | exit_unlock_LR | exit_unlock_RL
  deriving DecidableEq

/-- Where a passenger is, as far as the channel is concerned. -/
inductive At where
  | away
  | lr (a : LR)
  | rl (a : RL)
  deriving DecidableEq

/-- Which of the two routines a passenger calls. -/
inductive Call where
  | LR
  | RL
  deriving DecidableEq

/-- A lock that is held makes the thread wait. -/
def lockStep {β : Type} (held : Bool) (next : β) : Option β := if held then none else some next

def stepLR (c : Channel) : LR → Option (Channel × At)
  | .lock_waiting => lockStep c.VIP_waiting_mutex ({ c with VIP_waiting_mutex := true }, .lr .read_arriving)
  | .read_arriving => some (c, .lr (.write_arriving c.VIP_LR_waiting))
  | .write_arriving seen => some ({ c with VIP_LR_waiting := seen + 1 }, .lr .test_arrived)
  | .test_arrived => some (c, .lr (if c.VIP_LR_waiting = 1 then .lock_priority else .unlock_waiting))
  | .lock_priority =>
    lockStep c.VIP_priority_mutex ({ c with VIP_priority_mutex := true }, .lr .unlock_waiting)
  | .unlock_waiting => some ({ c with VIP_waiting_mutex := false }, .lr .lock_LR)
  | .lock_LR => lockStep c.VIP_LR_mutex ({ c with VIP_LR_mutex := true }, .lr .read_entering)
  | .read_entering => some (c, .lr (.write_entering c.VIP_LR_waiting))
  | .write_entering seen => some ({ c with VIP_LR_waiting := seen - 1 }, .lr .test_entered)
  | .test_entered => some (c, .lr (if c.VIP_LR_waiting = 0 then .unlock_priority else .count_in))
  | .unlock_priority => some ({ c with VIP_priority_mutex := false }, .lr .count_in)
  | .count_in => some ({ c with VIP_LR_count := c.VIP_LR_count + 1 }, .lr .test_first)
  | .test_first => some (c, .lr (if c.VIP_LR_count = 1 then .lock_RL else .unlock_LR))
  | .lock_RL => lockStep c.VIP_RL_mutex ({ c with VIP_RL_mutex := true }, .lr .unlock_LR)
  | .unlock_LR => some ({ c with VIP_LR_mutex := false }, .lr .crossing)
  | .crossing => some (c, .lr .exit_lock_LR)
  | .exit_lock_LR => lockStep c.VIP_LR_mutex ({ c with VIP_LR_mutex := true }, .lr .count_out)
  | .count_out => some ({ c with VIP_LR_count := c.VIP_LR_count - 1 }, .lr .test_empty)
  | .test_empty => some (c, .lr (if c.VIP_LR_count = 0 then .exit_unlock_RL else .exit_unlock_LR))
  | .exit_unlock_RL => some ({ c with VIP_RL_mutex := false }, .lr .exit_unlock_LR)
  | .exit_unlock_LR => some ({ c with VIP_LR_mutex := false }, .away)

def stepRL (c : Channel) : RL → Option (Channel × At)
  | .lock_priority =>
    lockStep c.VIP_priority_mutex ({ c with VIP_priority_mutex := true }, .rl .unlock_priority)
  | .unlock_priority => some ({ c with VIP_priority_mutex := false }, .rl .lock_RL)
  | .lock_RL => lockStep c.VIP_RL_mutex ({ c with VIP_RL_mutex := true }, .rl .count_in)
  | .count_in => some ({ c with VIP_RL_count := c.VIP_RL_count + 1 }, .rl .test_first)
  | .test_first => some (c, .rl (if c.VIP_RL_count = 1 then .lock_LR else .unlock_RL))
  | .lock_LR => lockStep c.VIP_LR_mutex ({ c with VIP_LR_mutex := true }, .rl .unlock_RL)
  | .unlock_RL => some ({ c with VIP_RL_mutex := false }, .rl .crossing)
  | .crossing => some (c, .rl .exit_lock_RL)
  | .exit_lock_RL => lockStep c.VIP_RL_mutex ({ c with VIP_RL_mutex := true }, .rl .count_out)
  | .count_out => some ({ c with VIP_RL_count := c.VIP_RL_count - 1 }, .rl .test_empty)
  | .test_empty => some (c, .rl (if c.VIP_RL_count = 0 then .exit_unlock_LR else .exit_unlock_RL))
  | .exit_unlock_LR => some ({ c with VIP_LR_mutex := false }, .rl .exit_unlock_RL)
  | .exit_unlock_RL => some ({ c with VIP_RL_mutex := false }, .away)

/-- A step of a passenger: the calls come in any order. -/
def channelStep (c : Channel) (a : At) (call : Call) : Option (Channel × At) :=
  match a with
  | .away =>
    match call with
    | .LR => some (c, .lr .lock_waiting)
    | .RL => some (c, .rl .lock_priority)
  | .lr a => stepLR c a
  | .rl a => stepRL c a

/-- As `main` initialises the mutexes and the counters. -/
def Channel.init : Channel :=
  { VIP_waiting_mutex := false, VIP_priority_mutex := false, VIP_LR_mutex := false
    VIP_RL_mutex := false, VIP_LR_waiting := 0, VIP_LR_count := 0, VIP_RL_count := 0 }

/-- All passengers away. -/
def channelInit (ι : Type) : State ι Channel At := { shared := .init, pc := fun _ => .away }

/-! ### The entry and exit blocks are light switches -/

/-- The side of the channel that LR passengers enter from. -/
abbrev fromL : Bool := true
abbrev fromR : Bool := false

/-- The two mutexes and counters of the entry and exit blocks. -/
def Channel.switch (c : Channel) : LightSwitch.Switch :=
  { mutex := fun d => if d then c.VIP_LR_mutex else c.VIP_RL_mutex
    count := fun d => if d then c.VIP_LR_count else c.VIP_RL_count }

def LR.stage : LR → Option LightSwitch.Stage
  | .lock_waiting | .read_arriving | .write_arriving _ | .test_arrived | .lock_priority
  | .unlock_waiting | .lock_LR => none
  | .read_entering | .write_entering _ | .test_entered | .unlock_priority | .count_in =>
    some .count_in
  | .test_first => some .test_first
  | .lock_RL => some .lock_other
  | .unlock_LR => some .unlock_own
  | .crossing | .exit_lock_LR => some .inside
  | .count_out => some .count_out
  | .test_empty => some .test_empty
  | .exit_unlock_RL => some .unlock_other
  | .exit_unlock_LR => some .leave

def RL.stage : RL → Option LightSwitch.Stage
  | .lock_priority | .unlock_priority | .lock_RL => none
  | .count_in => some .count_in
  | .test_first => some .test_first
  | .lock_LR => some .lock_other
  | .unlock_RL => some .unlock_own
  | .crossing | .exit_lock_RL => some .inside
  | .count_out => some .count_out
  | .test_empty => some .test_empty
  | .exit_unlock_LR => some .unlock_other
  | .exit_unlock_RL => some .leave

def At.pos : At → LightSwitch.Pos
  | .away => none
  | .lr a => LightSwitch.side fromL a.stage
  | .rl a => LightSwitch.side fromR a.stage

section switch

open LightSwitch (Switch)

variable (c : Channel)

theorem switch_LR_mutex (v : Bool) :
    ({ c with VIP_LR_mutex := v } : Channel).switch = c.switch.setMutex fromL v := by
  simp only [Channel.switch, Switch.setMutex, Switch.mk.injEq, and_true]
  funext d
  cases d <;> rfl

theorem switch_RL_mutex (v : Bool) :
    ({ c with VIP_RL_mutex := v } : Channel).switch = c.switch.setMutex fromR v := by
  simp only [Channel.switch, Switch.setMutex, Switch.mk.injEq, and_true]
  funext d
  cases d <;> rfl

theorem switch_LR_count (n : Int) :
    ({ c with VIP_LR_count := c.VIP_LR_count + n } : Channel).switch = c.switch.addCount fromL n := by
  simp only [Channel.switch, Switch.addCount, Switch.mk.injEq, true_and]
  funext d
  cases d <;> rfl

theorem switch_RL_count (n : Int) :
    ({ c with VIP_RL_count := c.VIP_RL_count + n } : Channel).switch = c.switch.addCount fromR n := by
  simp only [Channel.switch, Switch.addCount, Switch.mk.injEq, true_and]
  funext d
  cases d <;> rfl

theorem lock_eq {x : Switch} {d : Bool} (h : ¬ x.mutex d = true) (next : LightSwitch.Pos) :
    x.lock d next = some (x.setMutex d true, next) := if_neg h

/-- A lock is taken where it is free. -/
theorem lockStep_eq_some {β : Type} {held : Bool} {next y : β} :
    lockStep held next = some y ↔ ¬ held = true ∧ next = y := by
  unfold lockStep
  split
  · simp [*]
  · simp [*]

theorem lockStep_eq_none {β : Type} {held : Bool} {next : β} :
    lockStep held next = none ↔ held = true := by
  unfold lockStep
  split
  · simp [*]
  · simp [*]

/-- A step of `VIP_channel_LR` is a step of the light switches, or none. -/
theorem switch_stepLR {c c' : Channel} {a : LR} {a' : At} (h : stepLR c a = some (c', a')) :
    (c'.switch = c.switch ∧ a'.pos = (At.lr a).pos) ∨
      LightSwitch.step c.switch (At.lr a).pos fromL = some (c'.switch, a'.pos) := by
  cases a with
  | lock_waiting | lock_priority =>
    obtain ⟨-, h⟩ := lockStep_eq_some.mp h
    cases h
    exact .inl ⟨rfl, rfl⟩
  | read_arriving | write_arriving _ | unlock_waiting | read_entering | write_entering _
  | unlock_priority | crossing =>
    cases h
    exact .inl ⟨rfl, rfl⟩
  | test_arrived | test_entered =>
    cases h
    left
    split
    · exact ⟨rfl, rfl⟩
    · exact ⟨rfl, rfl⟩
  | lock_LR | exit_lock_LR =>
    obtain ⟨hfree, h⟩ := lockStep_eq_some.mp h
    cases h
    exact .inr (switch_LR_mutex c true ▸ lock_eq hfree _)
  | lock_RL =>
    obtain ⟨hfree, h⟩ := lockStep_eq_some.mp h
    cases h
    exact .inr (switch_RL_mutex c true ▸ lock_eq hfree _)
  | count_in =>
    cases h
    exact .inr (switch_LR_count c 1 ▸ rfl)
  | count_out =>
    cases h
    exact .inr (switch_LR_count c (-1) ▸ rfl)
  | test_first =>
    cases h
    right
    show some (c.switch, some (fromL, if c.VIP_LR_count = 1 then _ else _)) = _
    split
    · rfl
    · rfl
  | test_empty =>
    cases h
    right
    show some (c.switch, some (fromL, if c.VIP_LR_count = 0 then _ else _)) = _
    split
    · rfl
    · rfl
  | unlock_LR | exit_unlock_LR =>
    cases h
    exact .inr (switch_LR_mutex c false ▸ rfl)
  | exit_unlock_RL =>
    cases h
    exact .inr (switch_RL_mutex c false ▸ rfl)

/-- A step of `VIP_channel_RL` is a step of the light switches, or none. -/
theorem switch_stepRL {c c' : Channel} {a : RL} {a' : At} (h : stepRL c a = some (c', a')) :
    (c'.switch = c.switch ∧ a'.pos = (At.rl a).pos) ∨
      LightSwitch.step c.switch (At.rl a).pos fromR = some (c'.switch, a'.pos) := by
  cases a with
  | lock_priority =>
    obtain ⟨-, h⟩ := lockStep_eq_some.mp h
    cases h
    exact .inl ⟨rfl, rfl⟩
  | unlock_priority | crossing =>
    cases h
    exact .inl ⟨rfl, rfl⟩
  | lock_RL | exit_lock_RL =>
    obtain ⟨hfree, h⟩ := lockStep_eq_some.mp h
    cases h
    exact .inr (switch_RL_mutex c true ▸ lock_eq hfree _)
  | lock_LR =>
    obtain ⟨hfree, h⟩ := lockStep_eq_some.mp h
    cases h
    exact .inr (switch_LR_mutex c true ▸ lock_eq hfree _)
  | count_in =>
    cases h
    exact .inr (switch_RL_count c 1 ▸ rfl)
  | count_out =>
    cases h
    exact .inr (switch_RL_count c (-1) ▸ rfl)
  | test_first =>
    cases h
    right
    show some (c.switch, some (fromR, if c.VIP_RL_count = 1 then _ else _)) = _
    split
    · rfl
    · rfl
  | test_empty =>
    cases h
    right
    show some (c.switch, some (fromR, if c.VIP_RL_count = 0 then _ else _)) = _
    split
    · rfl
    · rfl
  | unlock_RL | exit_unlock_RL =>
    cases h
    exact .inr (switch_RL_mutex c false ▸ rfl)
  | exit_unlock_LR =>
    cases h
    exact .inr (switch_LR_mutex c false ▸ rfl)

/-- The channel's routines simulate the light switches. -/
theorem switch_step {c c' : Channel} {a a' : At} {call : Call}
    (h : channelStep c a call = some (c', a')) :
    (c'.switch = c.switch ∧ a'.pos = a.pos) ∨
      ∃ d, LightSwitch.step c.switch a.pos d = some (c'.switch, a'.pos) := by
  rcases a with _ | a | a
  · cases call
    · cases h
      exact .inl ⟨rfl, rfl⟩
    · cases h
      exact .inl ⟨rfl, rfl⟩
  · exact (switch_stepLR h).imp id fun h => ⟨fromL, h⟩
  · exact (switch_stepRL h).imp id fun h => ⟨fromR, h⟩

end switch

/-! ### The two directions exclude each other -/

/-- Between the entry block and the exit block of `VIP_channel_LR`. -/
def CrossesLR : At → Prop
  | .lr .crossing | .lr .exit_lock_LR => True
  | _ => False

/-- Between the entry block and the exit block of `VIP_channel_RL`. -/
def CrossesRL : At → Prop
  | .rl .crossing | .rl .exit_lock_RL => True
  | _ => False

theorem CrossesLR.pos {a : At} (h : CrossesLR a) : a.pos = some (fromL, .inside) := by
  unfold CrossesLR at h
  split at h
  · rfl
  · rfl
  · cases h

theorem CrossesRL.pos {a : At} (h : CrossesRL a) : a.pos = some (fromR, .inside) := by
  unfold CrossesRL at h
  split at h
  · rfl
  · rfl
  · cases h

section exclusive

variable {ι : Type} [Fintype ι] [DecidableEq ι] {s : State ι Channel At}

omit [Fintype ι] in
/-- The states of the channel, seen as states of the light switches. -/
theorem reachable_switch {G : State ι Channel At → ι → Prop}
    (h : Reachable channelStep G (channelInit ι) s) :
    Reachable LightSwitch.step (fun _ _ => True) (LightSwitch.init ι)
      (s.map Channel.switch At.pos) := by
  have hinit : (channelInit ι).map Channel.switch At.pos = LightSwitch.init ι := by
    simp [State.map, channelInit, LightSwitch.init, Channel.switch, Channel.init, At.pos]
  rw [← hinit]
  exact Reachable.map switch_step (fun _ _ _ => trivial) h

/-- However many passengers there are and in whatever order they call the
    two routines and take their steps, the channel is never crossed in both
    directions at once. -/
theorem channel_exclusive (h : Reachable channelStep (fun _ _ => True) (channelInit ι) s) (i j : ι) :
    ¬ (CrossesLR (s.pc i) ∧ CrossesRL (s.pc j)) := by
  rintro ⟨hi, hj⟩
  exact LightSwitch.exclusive (reachable_switch h) i j fromL ⟨hi.pos, hj.pos⟩

/-- The left-to-right passenger `0` in the channel, while passenger `1` has
    passed the gate from the right. -/
def oneCrossing : State (Fin 2) Channel At :=
  (exec channelStep (List.replicate 3 (1, .RL) ++ List.replicate 16 (0, .LR))
    (channelInit (Fin 2))).get rfl

theorem channel_exclusive_oneCrossing :
    oneCrossing.pc 0 = .lr .crossing ∧ oneCrossing.pc 1 = .rl .lock_RL ∧
      ¬ (CrossesLR (oneCrossing.pc 0) ∧ CrossesRL (oneCrossing.pc 1)) :=
  ⟨rfl, rfl, channel_exclusive (reachable_of_exec (Option.some_get _).symm) 0 1⟩

end exclusive

end Airport
