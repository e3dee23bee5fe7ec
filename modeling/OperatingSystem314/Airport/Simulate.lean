import OperatingSystem314.Airport.Progress
import OperatingSystem314.Airport.Stations

/-! # The whole airport (`simulate`)

    A passenger checks in, takes the VIP channel or the security check,
    goes back to the special kiosk through the VIP channel as often as it
    loses its boarding pass, and boards.

    Each part of the airport is the program of its own module, seen through
    a projection of the passengers' program points; what holds of a part in
    all its runs holds of the airport's.

    * `simulate`: a step of a passenger.
    * `airport_never_stuck`: when steps in the channel are careful, some
      passenger can always take one.
    * `stuck_at_the_doors`: a run that ends with two passengers at the two
      doors of the channel, each waiting for the other. -/

namespace Airport

open Threads

/-! ### The program -/

/-- The program points of `simulate`. -/
inductive Pc where
  | arrive
  | check_in (a : CheckIn)
  | security_check (a : Security)
  | VIP_channel_LR (a : LR)
  | VIP_channel_RL (a : RL)
  | lock_special | unlock_special
  -- draws whether the boarding pass is lost, and tests it
  | lose | test_lost
  | lock_boarding | unlock_boarding
  | done
  deriving DecidableEq

structure Passenger where
  VIP : Bool
  boarding_pass_lost : Bool
  pc : Pc
  deriving DecidableEq

structure Shared where
  kiosks : Kiosks
  belts : Belts
  channel : Channel
  special_kiosk_mutex : Bool
  boarding_mutex : Bool
  deriving DecidableEq

/-- A passenger `p` goes to `pc`. -/
def Passenger.go (p : Passenger) (pc : Pc) : Passenger := { p with pc := pc }

/-- Where a passenger goes that has left `check_in`. -/
def Passenger.afterCheckIn (p : Passenger) : Option CheckIn → Pc
  | some a => .check_in a
  | none => if p.VIP then .VIP_channel_LR .lock_waiting else .security_check .wait_empty

def afterSecurity : Option Security → Pc
  | some a => .security_check a
  | none => .lose

def afterLR : At → Pc
  | .lr a => .VIP_channel_LR a
  | _ => .lose

def afterRL : At → Pc
  | .rl a => .VIP_channel_RL a
  | _ => .lock_special

/-- A step of passenger `p`, with what it draws at `lose`.  The first draw
    only sets `boarding_pass_lost`, which is `false` till then. -/
def simulate (P : Nat) (x : Shared) (p : Passenger) (drawn : Bool) : Option (Shared × Passenger) :=
  match p.pc with
  | .arrive => some (x, p.go (.check_in .wait_empty))
  | .check_in a => (stepCheckIn x.kiosks a).map fun (k, b) => ({ x with kiosks := k }, p.go (p.afterCheckIn b))
  | .security_check a =>
    (stepSecurity P x.belts a).map fun (k, b) => ({ x with belts := k }, p.go (afterSecurity b))
  | .VIP_channel_LR a => (stepLR x.channel a).map fun (c, b) => ({ x with channel := c }, p.go (afterLR b))
  | .VIP_channel_RL a => (stepRL x.channel a).map fun (c, b) => ({ x with channel := c }, p.go (afterRL b))
  | .lose => some (x, { p with boarding_pass_lost := drawn, pc := .test_lost })
  | .test_lost =>
    some (x, p.go (if p.boarding_pass_lost then .VIP_channel_RL .lock_priority else .lock_boarding))
  | .lock_special => lockStep x.special_kiosk_mutex ({ x with special_kiosk_mutex := true }, p.go .unlock_special)
  | .unlock_special =>
    some ({ x with special_kiosk_mutex := false }, p.go (.VIP_channel_LR .lock_waiting))
  | .lock_boarding => lockStep x.boarding_mutex ({ x with boarding_mutex := true }, p.go .unlock_boarding)
  | .unlock_boarding => some ({ x with boarding_mutex := false }, p.go .done)
  | .done => none

/-- Everyone is about to arrive. -/
def airportInit {ι : Type} (M N P : Nat) (VIP : ι → Bool) : State ι Shared Passenger :=
  { shared :=
      { kiosks := .init M, belts := .init N P, channel := .init, special_kiosk_mutex := false
        boarding_mutex := false }
    pc := fun i => { VIP := VIP i, boarding_pass_lost := false, pc := .arrive } }

/-! ### The parts of the airport -/

namespace Pc

def atKiosks : Pc → Option CheckIn
  | check_in a => some a
  | _ => none

def atBelts : Pc → Option Security
  | security_check a => some a
  | _ => none

def atChannel : Pc → At
  | VIP_channel_LR a => .lr a
  | VIP_channel_RL a => .rl a
  | _ => .away

def holdsSpecial : Pc → Bool
  | unlock_special => true
  | _ => false

def holdsBoarding : Pc → Bool
  | unlock_boarding => true
  | _ => false

end Pc

theorem stepLR_away {c c' : Channel} {a : LR} {b : At} (h : stepLR c a = some (c', b)) :
    (∃ a', b = .lr a') ∨ b = .away := by
  cases a with
  | lock_waiting | lock_priority | lock_LR | lock_RL | exit_lock_LR =>
    obtain ⟨-, h⟩ := lockStep_eq_some.mp h
    cases h
    exact .inl ⟨_, rfl⟩
  | exit_unlock_LR =>
    cases h
    exact .inr rfl
  | _ =>
    cases h
    exact .inl ⟨_, rfl⟩

theorem stepRL_away {c c' : Channel} {a : RL} {b : At} (h : stepRL c a = some (c', b)) :
    (∃ a', b = .rl a') ∨ b = .away := by
  cases a with
  | lock_priority | lock_RL | lock_LR | exit_lock_RL =>
    obtain ⟨-, h⟩ := lockStep_eq_some.mp h
    cases h
    exact .inl ⟨_, rfl⟩
  | exit_unlock_RL =>
    cases h
    exact .inr rfl
  | _ =>
    cases h
    exact .inl ⟨_, rfl⟩

section parts

variable {P : Nat} {x x' : Shared} {p p' : Passenger} {drawn : Bool}

/-- What a step can do: one of its three parts takes a step, or the passenger
    goes on between them, and only the mutexes of the special kiosk and of
    the boarding change. -/
theorem simulate_cases (h : simulate P x p drawn = some (x', p')) :
    (∃ a k b, p.pc = .check_in a ∧ stepCheckIn x.kiosks a = some (k, b) ∧
      x' = { x with kiosks := k } ∧ p' = p.go (p.afterCheckIn b)) ∨
    (∃ a k b, p.pc = .security_check a ∧ stepSecurity P x.belts a = some (k, b) ∧
      x' = { x with belts := k } ∧ p' = p.go (afterSecurity b)) ∨
    (∃ a c b, p.pc = .VIP_channel_LR a ∧ stepLR x.channel a = some (c, b) ∧
      x' = { x with channel := c } ∧ p' = p.go (afterLR b)) ∨
    (∃ a c b, p.pc = .VIP_channel_RL a ∧ stepRL x.channel a = some (c, b) ∧
      x' = { x with channel := c } ∧ p' = p.go (afterRL b)) ∨
    (p.pc = .arrive ∧ x' = x ∧ p' = p.go (.check_in .wait_empty)) ∨
    (p.pc = .lose ∧ x' = x ∧ p' = { p with boarding_pass_lost := drawn, pc := .test_lost }) ∨
    (p.pc = .test_lost ∧ x' = x ∧
      p' = p.go (if p.boarding_pass_lost then .VIP_channel_RL .lock_priority else .lock_boarding)) ∨
    (p.pc = .lock_special ∧ x.special_kiosk_mutex = false ∧
      x' = { x with special_kiosk_mutex := true } ∧ p' = p.go .unlock_special) ∨
    (p.pc = .unlock_special ∧ x' = { x with special_kiosk_mutex := false } ∧
      p' = p.go (.VIP_channel_LR .lock_waiting)) ∨
    (p.pc = .lock_boarding ∧ x.boarding_mutex = false ∧
      x' = { x with boarding_mutex := true } ∧ p' = p.go .unlock_boarding) ∨
    (p.pc = .unlock_boarding ∧ x' = { x with boarding_mutex := false } ∧ p' = p.go .done) := by
  unfold simulate at h
  split at h
  next hp =>
    cases h
    simp [hp]
  next a hp =>
    obtain ⟨⟨k, b⟩, hk, hxp⟩ := Option.map_eq_some_iff.mp h
    cases hxp
    exact .inl ⟨a, k, b, hp, hk, rfl, rfl⟩
  next a hp =>
    obtain ⟨⟨k, b⟩, hk, hxp⟩ := Option.map_eq_some_iff.mp h
    cases hxp
    exact .inr (.inl ⟨a, k, b, hp, hk, rfl, rfl⟩)
  next a hp =>
    obtain ⟨⟨c, b⟩, hc, hxp⟩ := Option.map_eq_some_iff.mp h
    cases hxp
    exact .inr (.inr (.inl ⟨a, c, b, hp, hc, rfl, rfl⟩))
  next a hp =>
    obtain ⟨⟨c, b⟩, hc, hxp⟩ := Option.map_eq_some_iff.mp h
    cases hxp
    exact .inr (.inr (.inr (.inl ⟨a, c, b, hp, hc, rfl, rfl⟩)))
  next hp =>
    cases h
    simp [hp]
  next hp =>
    cases h
    simp [hp]
  next hp =>
    obtain ⟨hfree, h⟩ := lockStep_eq_some.mp h
    cases h
    simp_all
  next hp =>
    cases h
    simp [hp]
  next hp =>
    obtain ⟨hfree, h⟩ := lockStep_eq_some.mp h
    cases h
    simp_all
  next hp =>
    cases h
    simp [hp]
  · cases h

theorem afterCheckIn_atKiosks (b : Option CheckIn) : (p.afterCheckIn b).atKiosks = b := by
  unfold Passenger.afterCheckIn
  split
  · rfl
  · split
    · rfl
    · rfl

theorem afterSecurity_atBelts (b : Option Security) : (afterSecurity b).atBelts = b := by
  cases b with
  | some a => rfl
  | none => rfl

theorem afterLR_atChannel {c c' : Channel} {a : LR} {b : At} (h : stepLR c a = some (c', b)) :
    (afterLR b).atChannel = b := by
  rcases stepLR_away h with ⟨a', rfl⟩ | rfl
  · rfl
  · rfl

theorem afterRL_atChannel {c c' : Channel} {a : RL} {b : At} (h : stepRL c a = some (c', b)) :
    (afterRL b).atChannel = b := by
  rcases stepRL_away h with ⟨a', rfl⟩ | rfl
  · rfl
  · rfl

/-- A passenger enters the next part, or none of them. -/
theorem afterCheckIn_cases (b : Option CheckIn) :
    (∃ a, p.afterCheckIn b = .check_in a) ∨ p.afterCheckIn b = .VIP_channel_LR .lock_waiting ∨
      p.afterCheckIn b = .security_check .wait_empty := by
  unfold Passenger.afterCheckIn
  split
  · exact .inl ⟨_, rfl⟩
  · split
    · exact .inr (.inl rfl)
    · exact .inr (.inr rfl)

theorem afterSecurity_cases (b : Option Security) :
    (∃ a, afterSecurity b = .security_check a) ∨ afterSecurity b = .lose := by
  cases b with
  | some a => exact .inl ⟨a, rfl⟩
  | none => exact .inr rfl

theorem afterLR_cases (b : At) : (∃ a, afterLR b = .VIP_channel_LR a) ∨ afterLR b = .lose := by
  rcases b with _ | a | a
  · exact .inr rfl
  · exact .inl ⟨a, rfl⟩
  · exact .inr rfl

theorem afterRL_cases (b : At) : (∃ a, afterRL b = .VIP_channel_RL a) ∨ afterRL b = .lock_special := by
  rcases b with _ | a | a
  · exact .inr rfl
  · exact .inr rfl
  · exact .inl ⟨a, rfl⟩

/-- The kiosks, as the passengers at them use them. -/
theorem simulate_kiosks (h : simulate P x p drawn = some (x', p')) :
    (x'.kiosks = x.kiosks ∧ p'.pc.atKiosks = p.pc.atKiosks) ∨
      ∃ c, checkInStep x.kiosks p.pc.atKiosks c = some (x'.kiosks, p'.pc.atKiosks) := by
  rcases simulate_cases h with ⟨a, k, b, hp, hk, rfl, rfl⟩ | ⟨a, k, b, hp, -, rfl, rfl⟩ |
    ⟨a, c, b, hp, hc, rfl, rfl⟩ | ⟨a, c, b, hp, hc, rfl, rfl⟩ | ⟨hp, rfl, rfl⟩ | ⟨hp, rfl, rfl⟩ |
    ⟨hp, rfl, rfl⟩ | ⟨hp, -, rfl, rfl⟩ | ⟨hp, rfl, rfl⟩ | ⟨hp, -, rfl, rfl⟩ | ⟨hp, rfl, rfl⟩
  all_goals rw [hp]
  · right
    refine ⟨(), ?_⟩
    show stepCheckIn x.kiosks a = some (k, (p.afterCheckIn b).atKiosks)
    rw [afterCheckIn_atKiosks, hk]
  · rcases afterSecurity_cases b with ⟨a', ha'⟩ | ha'
    all_goals exact .inl ⟨rfl, by simp [Passenger.go, ha', Pc.atKiosks]⟩
  · rcases afterLR_cases b with ⟨a', ha'⟩ | ha'
    all_goals exact .inl ⟨rfl, by simp [Passenger.go, ha', Pc.atKiosks]⟩
  · rcases afterRL_cases b with ⟨a', ha'⟩ | ha'
    all_goals exact .inl ⟨rfl, by simp [Passenger.go, ha', Pc.atKiosks]⟩
  · exact .inr ⟨(), rfl⟩
  · exact .inl ⟨rfl, rfl⟩
  · left
    refine ⟨rfl, ?_⟩
    unfold Passenger.go
    split
    · rfl
    · rfl
  all_goals exact .inl ⟨rfl, rfl⟩

/-- The belts, as the passengers at them use them. -/
theorem simulate_belts (h : simulate P x p drawn = some (x', p')) :
    (x'.belts = x.belts ∧ p'.pc.atBelts = p.pc.atBelts) ∨
      ∃ c, securityStep P x.belts p.pc.atBelts c = some (x'.belts, p'.pc.atBelts) := by
  rcases simulate_cases h with ⟨a, k, b, hp, hk, rfl, rfl⟩ | ⟨a, k, b, hp, hk, rfl, rfl⟩ |
    ⟨a, c, b, hp, hc, rfl, rfl⟩ | ⟨a, c, b, hp, hc, rfl, rfl⟩ | ⟨hp, rfl, rfl⟩ | ⟨hp, rfl, rfl⟩ |
    ⟨hp, rfl, rfl⟩ | ⟨hp, hm, rfl, rfl⟩ | ⟨hp, rfl, rfl⟩ | ⟨hp, hm, rfl, rfl⟩ | ⟨hp, rfl, rfl⟩
  all_goals rw [hp]
  · rcases afterCheckIn_cases (p := p) b with ⟨a', ha'⟩ | ha' | ha'
    · exact .inl ⟨rfl, by simp [Passenger.go, ha', Pc.atBelts]⟩
    · exact .inl ⟨rfl, by simp [Passenger.go, ha', Pc.atBelts]⟩
    · exact .inr ⟨(), by simp [Passenger.go, ha', Pc.atBelts, securityStep]⟩
  · right
    refine ⟨(), ?_⟩
    show stepSecurity P x.belts a = some (k, (afterSecurity b).atBelts)
    rw [afterSecurity_atBelts, hk]
  · rcases afterLR_cases b with ⟨a', ha'⟩ | ha'
    all_goals exact .inl ⟨rfl, by simp [Passenger.go, ha', Pc.atBelts]⟩
  · rcases afterRL_cases b with ⟨a', ha'⟩ | ha'
    all_goals exact .inl ⟨rfl, by simp [Passenger.go, ha', Pc.atBelts]⟩
  · exact .inl ⟨rfl, rfl⟩
  · exact .inl ⟨rfl, rfl⟩
  · left
    refine ⟨rfl, ?_⟩
    unfold Passenger.go
    split
    · rfl
    · rfl
  all_goals exact .inl ⟨rfl, rfl⟩

/-- The channel, as the passengers in its routines use it. -/
theorem simulate_channel (h : simulate P x p drawn = some (x', p')) :
    (x'.channel = x.channel ∧ p'.pc.atChannel = p.pc.atChannel) ∨
      ∃ c, channelStep x.channel p.pc.atChannel c = some (x'.channel, p'.pc.atChannel) := by
  rcases simulate_cases h with ⟨a, k, b, hp, hk, rfl, rfl⟩ | ⟨a, k, b, hp, hk, rfl, rfl⟩ |
    ⟨a, c, b, hp, hc, rfl, rfl⟩ | ⟨a, c, b, hp, hc, rfl, rfl⟩ | ⟨hp, rfl, rfl⟩ | ⟨hp, rfl, rfl⟩ |
    ⟨hp, rfl, rfl⟩ | ⟨hp, hm, rfl, rfl⟩ | ⟨hp, rfl, rfl⟩ | ⟨hp, hm, rfl, rfl⟩ | ⟨hp, rfl, rfl⟩
  all_goals rw [hp]
  · rcases afterCheckIn_cases (p := p) b with ⟨a', ha'⟩ | ha' | ha'
    · exact .inl ⟨rfl, by simp [Passenger.go, ha', Pc.atChannel]⟩
    · exact .inr ⟨.LR, by simp [Passenger.go, ha', Pc.atChannel, channelStep]⟩
    · exact .inl ⟨rfl, by simp [Passenger.go, ha', Pc.atChannel]⟩
  · rcases afterSecurity_cases b with ⟨a', ha'⟩ | ha'
    all_goals exact .inl ⟨rfl, by simp [Passenger.go, ha', Pc.atChannel]⟩
  · right
    refine ⟨.LR, ?_⟩
    show stepLR x.channel a = some (c, (afterLR b).atChannel)
    rw [afterLR_atChannel hc, hc]
  · right
    refine ⟨.RL, ?_⟩
    show stepRL x.channel a = some (c, (afterRL b).atChannel)
    rw [afterRL_atChannel hc, hc]
  · exact .inl ⟨rfl, rfl⟩
  · exact .inl ⟨rfl, rfl⟩
  · cases hlost : p.boarding_pass_lost with
    | true => exact .inr ⟨.RL, by simp [Passenger.go, Pc.atChannel, channelStep]⟩
    | false => exact .inl ⟨rfl, by simp [Passenger.go, Pc.atChannel]⟩
  · exact .inl ⟨rfl, rfl⟩
  · exact .inr ⟨.LR, rfl⟩
  · exact .inl ⟨rfl, rfl⟩
  · exact .inl ⟨rfl, rfl⟩

/-- The two places with one seat. -/
theorem simulate_locks (h : simulate P x p drawn = some (x', p')) :
    Locks Shared.special_kiosk_mutex (fun q => q.pc.holdsSpecial) x p x' p' ∧
      Locks Shared.boarding_mutex (fun q => q.pc.holdsBoarding) x p x' p' := by
  unfold Locks
  rcases simulate_cases h with ⟨a, k, b, hp, hk, rfl, rfl⟩ | ⟨a, k, b, hp, hk, rfl, rfl⟩ |
    ⟨a, c, b, hp, hc, rfl, rfl⟩ | ⟨a, c, b, hp, hc, rfl, rfl⟩ | ⟨hp, rfl, rfl⟩ | ⟨hp, rfl, rfl⟩ |
    ⟨hp, rfl, rfl⟩ | ⟨hp, hm, rfl, rfl⟩ | ⟨hp, rfl, rfl⟩ | ⟨hp, hm, rfl, rfl⟩ | ⟨hp, rfl, rfl⟩
  all_goals simp only [hp]
  · rcases afterCheckIn_cases (p := p) b with ⟨a', ha'⟩ | ha' | ha'
    all_goals simp [Passenger.go, ha', Pc.holdsSpecial, Pc.holdsBoarding]
  · rcases afterSecurity_cases b with ⟨a', ha'⟩ | ha'
    all_goals simp [Passenger.go, ha', Pc.holdsSpecial, Pc.holdsBoarding]
  · rcases afterLR_cases b with ⟨a', ha'⟩ | ha'
    all_goals simp [Passenger.go, ha', Pc.holdsSpecial, Pc.holdsBoarding]
  · rcases afterRL_cases b with ⟨a', ha'⟩ | ha'
    all_goals simp [Passenger.go, ha', Pc.holdsSpecial, Pc.holdsBoarding]
  · simp [Passenger.go, Pc.holdsSpecial, Pc.holdsBoarding]
  · simp [Pc.holdsSpecial, Pc.holdsBoarding]
  · cases p.boarding_pass_lost
    all_goals simp [Passenger.go, Pc.holdsSpecial, Pc.holdsBoarding]
  · simp [Passenger.go, Pc.holdsSpecial, Pc.holdsBoarding, hm]
  · simp [Passenger.go, Pc.holdsSpecial, Pc.holdsBoarding]
  · simp [Passenger.go, Pc.holdsSpecial, Pc.holdsBoarding, hm]
  · simp [Passenger.go, Pc.holdsSpecial, Pc.holdsBoarding]

end parts

/-! ### No deadlock -/

section deadlock

variable {ι : Type}

abbrev kiosksOf (s : State ι Shared Passenger) : State ι Kiosks (Option CheckIn) :=
  s.map Shared.kiosks fun p => p.pc.atKiosks

abbrev beltsOf (s : State ι Shared Passenger) : State ι Belts (Option Security) :=
  s.map Shared.belts fun p => p.pc.atBelts

abbrev channelOf (s : State ι Shared Passenger) : State ι Channel At :=
  s.map Shared.channel fun p => p.pc.atChannel

/-- A step that is careful in the channel. -/
def CarefulInChannel (s : State ι Shared Passenger) (i : ι) : Prop := Careful (channelOf s) i

instance [Fintype ι] (s : State ι Shared Passenger) (i : ι) : Decidable (CarefulInChannel s i) :=
  inferInstanceAs (Decidable (Careful (channelOf s) i))

structure AirportInv [Fintype ι] (M N P : Nat) (s : State ι Shared Passenger) : Prop where
  kiosks : CheckInInv M (kiosksOf s)
  belts : SecurityInv N P (beltsOf s)
  channel : Smooth (channelOf s)
  special : s.shared.special_kiosk_mutex.toNat = count (fun p => p.pc.holdsSpecial) s.pc
  boarding : s.shared.boarding_mutex.toNat = count (fun p => p.pc.holdsBoarding) s.pc

variable [Fintype ι] {M N P : Nat} {VIP : ι → Bool} {s s' : State ι Shared Passenger}

theorem airportInv_init : AirportInv M N P (airportInit M N P VIP) := by
  constructor
  · exact checkInInv_init
  · exact securityInv_init
  · exact smooth_init
  · symm
    apply Finset.sum_eq_zero
    intro i _
    rfl
  · symm
    apply Finset.sum_eq_zero
    intro i _
    rfl

theorem AirportInv.step [DecidableEq ι] (h : AirportInv M N P s)
    (hstep : Step (simulate P) CarefulInChannel s s') : AirportInv M N P s' := by
  obtain ⟨i, drawn, hguard, hnext⟩ := hstep
  constructor
  · rcases next_map simulate_kiosks hnext with hsame | ⟨c, hc⟩
    · unfold kiosksOf
      rw [hsame]
      exact h.kiosks
    · exact h.kiosks.next hc
  · rcases next_map simulate_belts hnext with hsame | ⟨c, hc⟩
    · unfold beltsOf
      rw [hsame]
      exact h.belts
    · exact h.belts.next hc
  · rcases next_map simulate_channel hnext with hsame | ⟨c, hc⟩
    · unfold channelOf
      rw [hsame]
      exact h.channel
    · exact h.channel.step ⟨i, c, hguard, hc⟩
  · exact mutex_next h.special hnext fun x p hx => (simulate_locks hx).1
  · exact mutex_next h.boarding hnext fun x p hx => (simulate_locks hx).2

theorem AirportInv.of_reachable [DecidableEq ι]
    (h : Reachable (simulate P) CarefulInChannel (airportInit M N P VIP) s) : AirportInv M N P s :=
  h.invariant airportInv_init fun _ _ hs hstep => hs.step hstep

omit [Fintype ι] in
/-- When nobody can take a step, nobody can in any part of the airport. -/
theorem simulate_of_stuck [DecidableEq ι] (h : Stuck (simulate P) s) (i : ι) (drawn : Bool) :
    simulate P s.shared (s.pc i) drawn = none := by
  have hnext := h i drawn
  unfold next at hnext
  exact Option.map_eq_none_iff.mp hnext

section none

variable {x : Shared} {p : Passenger} (h : ∀ drawn, simulate P x p drawn = none)

include h

theorem kiosks_of_none {a : CheckIn} (ha : p.pc.atKiosks = some a) : stepCheckIn x.kiosks a = none := by
  have hstep := h false
  unfold simulate at hstep
  unfold Pc.atKiosks at ha
  split at ha
  next hp =>
    cases ha
    rw [hp] at hstep
    exact Option.map_eq_none_iff.mp hstep
  · cases ha

theorem belts_of_none {a : Security} (ha : p.pc.atBelts = some a) : stepSecurity P x.belts a = none := by
  have hstep := h false
  unfold simulate at hstep
  unfold Pc.atBelts at ha
  split at ha
  next hp =>
    cases ha
    rw [hp] at hstep
    exact Option.map_eq_none_iff.mp hstep
  · cases ha

theorem channel_of_none (ha : p.pc.atChannel ≠ .away) (call : Call) :
    channelStep x.channel p.pc.atChannel call = none := by
  have hstep := h false
  unfold simulate at hstep
  unfold Pc.atChannel at *
  split at ha
  next hp =>
    rw [hp] at hstep
    exact Option.map_eq_none_iff.mp hstep
  next hp =>
    rw [hp] at hstep
    exact Option.map_eq_none_iff.mp hstep
  · exact absurd rfl ha

/-- Outside the three parts only the two places with one seat make anyone wait. -/
theorem waits_of_none (hk : p.pc.atKiosks = none) (hb : p.pc.atBelts = none)
    (hc : p.pc.atChannel = .away) : p.pc = .done ∨
      (p.pc = .lock_special ∧ x.special_kiosk_mutex = true) ∨
      (p.pc = .lock_boarding ∧ x.boarding_mutex = true) := by
  have hstep := h false
  unfold simulate at hstep
  cases hp : p.pc with
  | done => exact .inl rfl
  | lock_special =>
    rw [hp] at hstep
    exact .inr (.inl ⟨rfl, lockStep_eq_none.mp hstep⟩)
  | lock_boarding =>
    rw [hp] at hstep
    exact .inr (.inr ⟨rfl, lockStep_eq_none.mp hstep⟩)
  | check_in a =>
    rw [hp] at hk
    cases hk
  | security_check a =>
    rw [hp] at hb
    cases hb
  | VIP_channel_LR a =>
    rw [hp] at hc
    cases hc
  | VIP_channel_RL a =>
    rw [hp] at hc
    cases hc
  | _ =>
    rw [hp] at hstep
    cases hstep

end none

/-- In a run whose steps in the channel are careful, some passenger can take
    a step as long as one is not done, however many VIP and other passengers
    there are and in whatever order they have taken theirs. -/
theorem airport_never_stuck [DecidableEq ι] (hM : 0 < M) (hN : 0 < N) (hP : 0 < P)
    (h : Reachable (simulate P) CarefulInChannel (airportInit M N P VIP) s) {i : ι}
    (hi : (s.pc i).pc ≠ .done) : ¬ Stuck (simulate P) s := by
  intro hstuck
  have hinv := AirportInv.of_reachable h
  have hnone := simulate_of_stuck hstuck
  have hkiosks : ∀ j, (s.pc j).pc.atKiosks = none :=
    checkIn_progress hinv.kiosks hM fun j a ha => kiosks_of_none (hnone j) ha
  have hbelts : ∀ j, (s.pc j).pc.atBelts = none :=
    security_progress hinv.belts hN hP fun j a ha => belts_of_none (hnone j) ha
  have hchannel : ∀ j, (s.pc j).pc.atChannel = .away :=
    channel_progress hinv.channel fun j ha => channel_of_none (hnone j) ha
  have hwhy := fun j => waits_of_none (hnone j) (hkiosks j) (hbelts j) (hchannel j)
  -- the one in the special kiosk, or at the gate, could go on
  have hspecial : s.shared.special_kiosk_mutex = false := by
    have hzero : count (fun p => p.pc.holdsSpecial) s.pc = 0 := by
      apply Finset.sum_eq_zero
      intro j _
      rcases hwhy j with hj | ⟨hj, -⟩ | ⟨hj, -⟩
      all_goals simp [hj, Pc.holdsSpecial]
    have hheld := hinv.special
    rw [hzero] at hheld
    simpa using hheld
  have hboarding : s.shared.boarding_mutex = false := by
    have hzero : count (fun p => p.pc.holdsBoarding) s.pc = 0 := by
      apply Finset.sum_eq_zero
      intro j _
      rcases hwhy j with hj | ⟨hj, -⟩ | ⟨hj, -⟩
      all_goals simp [hj, Pc.holdsBoarding]
    have hheld := hinv.boarding
    rw [hzero] at hheld
    simpa using hheld
  rcases hwhy i with hdone | ⟨-, hheld⟩ | ⟨-, hheld⟩
  · exact hi hdone
  · rw [hspecial] at hheld
    cases hheld
  · rw [hboarding] at hheld
    cases hheld

/-- Passenger `1` about to enter the channel, and `0`, back for its boarding
    pass, at the gate. -/
def oneInChannel : State (Fin 2) Shared Passenger :=
  (execUnder (simulate 1) CarefulInChannel
    (List.replicate 35 (0, true) ++ List.replicate 26 (1, false) ++ [(0, false)])
    (airportInit 1 1 1 fun _ => true)).get (by decide)

theorem airport_never_stuck_oneInChannel : ((oneInChannel.pc 0).pc ≠ .done) ∧
    ¬ Stuck (simulate 1) oneInChannel :=
  ⟨by decide, airport_never_stuck Nat.one_pos Nat.one_pos Nat.one_pos
    (reachable_of_execUnder (Option.some_get _).symm) (i := 0) (by decide)⟩

/-! ### Two passengers at the doors -/

/-- The VIP passenger `0` goes through the airport up to the draw, loses its
    boarding pass and comes to the door on the right; `1` comes to the door
    on the left. -/
def toTheDoors : List (Fin 2 × Bool) :=
  List.replicate 40 (0, true) ++ List.replicate 25 (1, false)

def atTheDoors : State (Fin 2) Shared Passenger :=
  (exec (simulate 1) toTheDoors (airportInit 1 1 1 fun _ => true)).get rfl

/-- Each holds the mutex that the other waits for. -/
theorem stuck_at_the_doors :
    Reachable (simulate 1) (fun _ _ => True) (airportInit 1 1 1 fun _ => true) atTheDoors ∧
      (atTheDoors.pc 0).pc = .VIP_channel_RL .lock_LR ∧
      (atTheDoors.pc 1).pc = .VIP_channel_LR .lock_RL ∧ Stuck (simulate 1) atTheDoors := by
  refine ⟨reachable_of_exec (Option.some_get _).symm, rfl, rfl, ?_⟩
  intro i drawn
  match i with
  | 0 => rfl
  | 1 => rfl

end deadlock

end Airport
