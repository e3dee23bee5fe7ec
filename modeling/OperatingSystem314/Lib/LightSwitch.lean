import OperatingSystem314.Lib.Threads

/-! # Two light switches that exclude each other

    Threads enter a room from one of two sides.  Each side has a mutex and
    a counter: whoever enters or leaves takes the side's own mutex, the
    first one in also takes the other side's, and the last one out gives it
    back.  So a side's mutex is held by a thread at the door of that side,
    or for the threads inside that came from the other side.

    * `Inv`: the invariant, one structure for each side.
    * `exclusive`: threads from different sides are never inside together.
    * `nobody_blocked`: no thread waits for a mutex for ever, unless two
      from different sides wait for each other. -/

namespace LightSwitch

open Threads

variable {ι : Type}

/-! ### The program -/

/-- Program points of a thread that has come in from one side, each in
    front of the statement it is named after. -/
inductive Stage where
  | count_in | test_first | lock_other | unlock_own
  | inside
  | count_out | test_empty | unlock_other | leave
  deriving DecidableEq

/-- Outside, or at a program point of one of the two sides. -/
abbrev Pos : Type := Option (Bool × Stage)

structure Switch where
  mutex : Bool → Bool
  count : Bool → Int

namespace Switch

def setMutex (x : Switch) (d v : Bool) : Switch := { x with mutex := Function.update x.mutex d v }

def addCount (x : Switch) (d : Bool) (n : Int) : Switch :=
  { x with count := Function.update x.count d (x.count d + n) }

/-- Takes the mutex of side `d`, unless it is held. -/
def lock (x : Switch) (d : Bool) (next : Pos) : Option (Switch × Pos) :=
  if x.mutex d then none else some (x.setMutex d true, next)

end Switch

/-- A step; a thread outside chooses the side it enters from. -/
def step (x : Switch) (a : Pos) (side : Bool) : Option (Switch × Pos) :=
  match a with
  | none => x.lock side (some (side, .count_in))
  | some (d, .count_in) => some (x.addCount d 1, some (d, .test_first))
  | some (d, .test_first) =>
    some (x, some (d, if x.count d = 1 then .lock_other else .unlock_own))
  | some (d, .lock_other) => x.lock (!d) (some (d, .unlock_own))
  | some (d, .unlock_own) => some (x.setMutex d false, some (d, .inside))
  | some (d, .inside) => x.lock d (some (d, .count_out))
  | some (d, .count_out) => some (x.addCount d (-1), some (d, .test_empty))
  | some (d, .test_empty) =>
    some (x, some (d, if x.count d = 0 then .unlock_other else .leave))
  | some (d, .unlock_other) => some (x.setMutex (!d) false, some (d, .leave))
  | some (d, .leave) => some (x.setMutex d false, none)

def init (ι : Type) : State ι Switch Pos :=
  { shared := { mutex := fun _ => false, count := fun _ => 0 }, pc := fun _ => none }

/-! ### The threads of one side -/

namespace Stage

/-- Holds the own mutex. -/
def holds : Stage → Bool
  | inside => false
  | _ => true

/-- One of those the other side's mutex is held for. -/
def group : Stage → Bool
  | unlock_own | inside | count_out | test_empty | unlock_other => true
  | _ => false

def counted : Stage → Bool
  | test_first | lock_other | unlock_own | inside | count_out => true
  | _ => false

/-- Counted, and may have to lock the other mutex yet. -/
def joining : Stage → Bool
  | test_first | lock_other => true
  | _ => false

/-- No longer counted, and may have to unlock the other mutex yet. -/
def parting : Stage → Bool
  | test_empty | unlock_other => true
  | _ => false

/-- The first one, about to lock the other mutex. -/
def firstIn : Stage → Bool
  | lock_other => true
  | _ => false

/-- The last one, about to unlock it. -/
def lastOut : Stage → Bool
  | unlock_other => true
  | _ => false

end Stage

/-- At a program point of side `d` that satisfies `P`. -/
def on (d : Bool) (P : Stage → Bool) : Pos → Bool
  | none => false
  | some (e, a) => e == d && P a

/-- Outside, or at a program point of side `d`. -/
def side (d : Bool) : Option Stage → Pos := Option.map (Prod.mk d)

@[simp] theorem on_none (d : Bool) (P : Stage → Bool) : on d P none = false := rfl

@[simp] theorem on_side (d : Bool) (P : Stage → Bool) (a : Option Stage) :
    on d P (side d a) = a.any P := by
  cases a <;> simp [side, on]

@[simp] theorem on_side_not (d : Bool) (P : Stage → Bool) (a : Option Stage) :
    on (!d) P (side d a) = false := by
  cases a <;> simp [side, on]

@[simp] theorem on_self (d : Bool) (P : Stage → Bool) (a : Stage) : on d P (some (d, a)) = P a := by
  simp [on]

theorem on_ne {d e : Bool} (h : e ≠ d) (P : Stage → Bool) (a : Stage) : on d P (some (e, a)) = false := by
  simp [on, h]

/-- How many threads are at a program point of side `d` that satisfies `P`. -/
abbrev num [Fintype ι] (pc : ι → Pos) (d : Bool) (P : Stage → Bool) : Nat := count (on d P) pc

section parts

open Stage

variable [Fintype ι] (pc : ι → Pos) (d : Bool)

theorem parts : num pc d counted + num pc d parting = num pc d joining + num pc d group :=
  count_add_eq fun a => by
    rcases a with _ | ⟨e, a⟩
    · rfl
    · by_cases h : e = d
      · subst h
        simp only [on_self]
        cases a <;> rfl
      · simp only [on_ne h]

theorem parts_hold : num pc d joining + num pc d parting ≤ num pc d holds :=
  count_add_le fun a => by
    rcases a with _ | ⟨e, a⟩
    · exact Nat.le_refl 0
    · by_cases h : e = d
      · subst h
        simp only [on_self]
        cases a <;> decide
      · simp [on_ne h]

end parts

/-! ### The invariant -/

section invariant

open Stage

/-- What holds of side `d`. -/
structure Inv [Fintype ι] (s : State ι Switch Pos) (d : Bool) : Prop where
  mutex : (s.shared.mutex d).toNat = num s.pc d holds + min 1 (num s.pc (!d) group)
  count : s.shared.count d = num s.pc d counted
  first_in : 0 < num s.pc d firstIn → s.shared.count d = 1
  last_out : 0 < num s.pc d lastOut → s.shared.count d = 0
  one : num s.pc d group = 0 ∨ num s.pc (!d) group = 0

variable [Fintype ι] {s s' : State ι Switch Pos}

theorem inv_init (d : Bool) : Inv (init ι) d := by
  have hzero : ∀ (e : Bool) (P : Stage → Bool), num (init ι).pc e P = 0 := fun e P =>
    count_const (none : Pos) rfl
  constructor
  all_goals simp only [hzero]
  all_goals simp [init]

variable [DecidableEq ι]

section move

variable {i : ι} {d : Bool} {a b : Option Stage}

/-- The numbers of side `d` after a step of a thread of that side. -/
theorem num_own (pc : ι → Pos) (ha : pc i = side d a) (P : Stage → Bool) :
    num (Function.update pc i (side d b)) d P + (a.any P).toNat = num pc d P + (b.any P).toNat := by
  have := count_update (on d P) pc i (side d b)
  rwa [ha, on_side, on_side] at this

/-- The numbers of the other side do not change. -/
theorem num_other (pc : ι → Pos) (ha : pc i = side d a) (P : Stage → Bool) :
    num (Function.update pc i (side d b)) (!d) P = num pc (!d) P := by
  have := count_update (on (!d) P) pc i (side d b)
  rwa [ha, on_side_not, on_side_not] at this

/-- How a step from `a` to `b` changes the numbers of its side. -/
theorem num_move (pc : ι → Pos) (ha : pc i = side d a) (b : Option Stage) :
    let n := fun P => num pc d P
    let n' := fun P => num (Function.update pc i (side d b)) d P
    n' holds + (a.any holds).toNat = n holds + (b.any holds).toNat ∧
    n' group + (a.any group).toNat = n group + (b.any group).toNat ∧
    n' counted + (a.any counted).toNat = n counted + (b.any counted).toNat ∧
    n' firstIn + (a.any firstIn).toNat = n firstIn + (b.any firstIn).toNat ∧
    n' lastOut + (a.any lastOut).toNat = n lastOut + (b.any lastOut).toNat :=
  ⟨num_own pc ha _, num_own pc ha _, num_own pc ha _, num_own pc ha _, num_own pc ha _⟩

/-- A thread moves on its side, the mutexes and counters becoming `x`: what
    is to be shown. -/
theorem inv_move (h : ∀ e, Inv s e) (ha : s.pc i = side d a) {x : Switch}
    (hd : Inv ⟨x, Function.update s.pc i (side d b)⟩ d)
    (hm : (x.mutex (!d)).toNat + min 1 (num s.pc d group) = (s.shared.mutex (!d)).toNat +
      min 1 (num (Function.update s.pc i (side d b)) d group))
    (hc : x.count (!d) = s.shared.count (!d)) :
    ∀ e, Inv ⟨x, Function.update s.pc i (side d b)⟩ e := by
  have hother := fun P => @num_other ι _ _ i d a b s.pc ha P
  have he : Inv ⟨x, Function.update s.pc i (side d b)⟩ (!d) := by
    obtain ⟨hm', hc', hf', hl', -⟩ := h (!d)
    have ho := hd.one
    rw [Bool.not_not] at hm'
    constructor
    · rw [Bool.not_not, hother]
      simp only at hm ⊢
      omega
    · rw [hother, ← hc', ← hc]
    · rw [hother, hc]
      exact hf'
    · rw [hother, hc]
      exact hl'
    · rw [Bool.not_not]
      exact ho.symm
  intro e
  by_cases hed : e = d
  · rwa [hed]
  · rwa [Bool.eq_not_of_ne hed]

end move

/-- Of the threads at the door of a side there is one at most: the numbers
    of its parts are known. -/
theorem num_lone {pc : ι → Pos} {i : ι} {d : Bool} {a : Stage} (hle : num pc d holds ≤ 1)
    (ha : pc i = side d a) (hh : holds a = true) {P : Stage → Bool}
    (hP : ∀ b, P b = true → holds b = true) : num pc d P = (P a).toNat := by
  have hon : ∀ p, on d P p = true → on d holds p = true := by
    intro p hp
    rcases p with _ | ⟨e, b⟩
    · cases hp
    · unfold on at hp ⊢
      rw [Bool.and_eq_true] at hp ⊢
      exact ⟨hp.1, hP b hp.2⟩
  cases hPa : P a with
  | true =>
    have hge : 1 ≤ num pc d P := one_le_count (i := i) (by rw [ha, on_side, Option.any_some, hPa])
    have hcount : num pc d P ≤ num pc d holds := count_le hon
    simp only [Bool.toNat_true]
    omega
  | false =>
    by_contra hpos
    rw [Bool.toNat_false] at hpos
    obtain ⟨j, hj⟩ := exists_of_count_pos (Nat.pos_of_ne_zero hpos)
    have hij : i ≠ j := by
      intro hij
      rw [← hij, ha, on_side, Option.any_some, hPa] at hj
      cases hj
    have : 2 ≤ num pc d holds := two_le_count hij (by rw [ha, on_side, Option.any_some, hh]) (hon _ hj)
    omega

set_option linter.unusedSimpArgs false in
/-- A step of a thread that holds its side's mutex. -/
theorem inv_step_holds (h : ∀ d, Inv s d) {i : ι} {c d : Bool} {a : Stage} {x : Switch} {b : Pos}
    (ha : s.pc i = side d a) (hh : holds a = true)
    (hstep : step s.shared (some (d, a)) c = some (x, b)) :
    ∀ e, Inv ⟨x, Function.update s.pc i b⟩ e := by
  obtain ⟨hm, hc, hf, hl, ho⟩ := h d
  have hm' := (h (!d)).mutex
  rw [Bool.not_not] at hm'
  have hle := Bool.toNat_le (s.shared.mutex d)
  have hle' := Bool.toNat_le (s.shared.mutex (!d))
  have hparts := parts s.pc d
  have hmove := num_move s.pc ha
  have hother := fun b P => @num_other ι _ _ i d (some a) b s.pc ha P
  -- the thread is alone at the door, and where it is tells the numbers
  have hlone := fun P => @num_lone ι _ _ s.pc i d a (by omega) ha hh P
  have l1 := hlone holds fun _ hb => hb
  rw [hh, Bool.toNat_true] at l1
  have l2 := hlone joining fun b => by cases b <;> decide
  have l3 := hlone parting fun b => by cases b <;> decide
  have l4 := hlone firstIn fun b => by cases b <;> decide
  have l5 := hlone lastOut fun b => by cases b <;> decide
  cases a with
  | count_in =>
    cases hstep
    have hn := hmove (some .test_first)
    simp only [Option.any_some, Option.any_none, holds, group, counted, firstIn, lastOut, Bool.toNat_true,
      Bool.toNat_false] at hn
    simp only [joining, parting, firstIn, lastOut, Bool.toNat_true, Bool.toNat_false] at l2 l3 l4 l5
    refine inv_move (b := some .test_first) h ha ?_ ?_ ?_
    · constructor
      all_goals simp [Switch.addCount, hother]
      all_goals omega
    · simp [Switch.addCount]
      omega
    · simp [Switch.addCount]
  | test_first =>
    cases hstep
    split
    · have hn := hmove (some .lock_other)
      simp only [Option.any_some, Option.any_none, holds, group, counted, firstIn, lastOut, Bool.toNat_true,
      Bool.toNat_false] at hn
      simp only [joining, parting, firstIn, lastOut, Bool.toNat_true, Bool.toNat_false] at l2 l3 l4 l5
      refine inv_move (b := some .lock_other) h ha ?_ ?_ ?_
      · constructor
        all_goals simp only [hother]
        all_goals omega
      · omega
      · rfl
    · have hn := hmove (some .unlock_own)
      simp only [Option.any_some, Option.any_none, holds, group, counted, firstIn, lastOut, Bool.toNat_true,
      Bool.toNat_false] at hn
      simp only [joining, parting, firstIn, lastOut, Bool.toNat_true, Bool.toNat_false] at l2 l3 l4 l5
      refine inv_move (b := some .unlock_own) h ha ?_ ?_ ?_
      · constructor
        all_goals simp only [hother]
        all_goals omega
      · omega
      · rfl
  | lock_other =>
    simp only [step, Switch.lock] at hstep
    split at hstep
    · cases hstep
    next hfree =>
      cases hstep
      have hzero : (s.shared.mutex (!d)).toNat = 0 := by simpa using hfree
      have hn := hmove (some .unlock_own)
      simp only [Option.any_some, Option.any_none, holds, group, counted, firstIn, lastOut, Bool.toNat_true,
      Bool.toNat_false] at hn
      simp only [joining, parting, firstIn, lastOut, Bool.toNat_true, Bool.toNat_false] at l2 l3 l4 l5
      refine inv_move (b := some .unlock_own) h ha ?_ ?_ ?_
      · constructor
        all_goals simp [Switch.setMutex, hother]
        all_goals omega
      · simp [Switch.setMutex]
        omega
      · simp [Switch.setMutex]
  | unlock_own =>
    cases hstep
    have hn := hmove (some .inside)
    simp only [Option.any_some, Option.any_none, holds, group, counted, firstIn, lastOut, Bool.toNat_true,
      Bool.toNat_false] at hn
    simp only [joining, parting, firstIn, lastOut, Bool.toNat_true, Bool.toNat_false] at l2 l3 l4 l5
    refine inv_move (b := some .inside) h ha ?_ ?_ ?_
    · constructor
      all_goals simp [Switch.setMutex, hother]
      all_goals omega
    · simp [Switch.setMutex]
      omega
    · simp [Switch.setMutex]
  | inside => cases hh
  | count_out =>
    cases hstep
    have hn := hmove (some .test_empty)
    simp only [Option.any_some, Option.any_none, holds, group, counted, firstIn, lastOut, Bool.toNat_true,
      Bool.toNat_false] at hn
    simp only [joining, parting, firstIn, lastOut, Bool.toNat_true, Bool.toNat_false] at l2 l3 l4 l5
    refine inv_move (b := some .test_empty) h ha ?_ ?_ ?_
    · constructor
      all_goals simp [Switch.addCount, hother]
      all_goals omega
    · simp [Switch.addCount]
      omega
    · simp [Switch.addCount]
  | test_empty =>
    cases hstep
    split
    · have hn := hmove (some .unlock_other)
      simp only [Option.any_some, Option.any_none, holds, group, counted, firstIn, lastOut, Bool.toNat_true,
      Bool.toNat_false] at hn
      simp only [joining, parting, firstIn, lastOut, Bool.toNat_true, Bool.toNat_false] at l2 l3 l4 l5
      refine inv_move (b := some .unlock_other) h ha ?_ ?_ ?_
      · constructor
        all_goals simp only [hother]
        all_goals omega
      · omega
      · rfl
    · have hn := hmove (some .leave)
      simp only [Option.any_some, Option.any_none, holds, group, counted, firstIn, lastOut, Bool.toNat_true,
      Bool.toNat_false] at hn
      simp only [joining, parting, firstIn, lastOut, Bool.toNat_true, Bool.toNat_false] at l2 l3 l4 l5
      refine inv_move (b := some .leave) h ha ?_ ?_ ?_
      · constructor
        all_goals simp only [hother]
        all_goals omega
      · omega
      · rfl
  | unlock_other =>
    cases hstep
    have hn := hmove (some .leave)
    simp only [Option.any_some, Option.any_none, holds, group, counted, firstIn, lastOut, Bool.toNat_true,
      Bool.toNat_false] at hn
    simp only [joining, parting, firstIn, lastOut, Bool.toNat_true, Bool.toNat_false] at l2 l3 l4 l5
    refine inv_move (b := some .leave) h ha ?_ ?_ ?_
    · constructor
      all_goals simp [Switch.setMutex, hother]
      all_goals omega
    · simp [Switch.setMutex]
      omega
    · simp [Switch.setMutex]
  | leave =>
    cases hstep
    have hn := hmove none
    simp only [Option.any_some, Option.any_none, holds, group, counted, firstIn, lastOut, Bool.toNat_true,
      Bool.toNat_false] at hn
    simp only [joining, parting, firstIn, lastOut, Bool.toNat_true, Bool.toNat_false] at l2 l3 l4 l5
    refine inv_move (b := none) h ha ?_ ?_ ?_
    · constructor
      all_goals simp [Switch.setMutex, hother]
      all_goals omega
    · simp [Switch.setMutex]
      omega
    · simp [Switch.setMutex]

omit [DecidableEq ι] in
/-- Where the side's mutex is free, nobody is at the door. -/
theorem num_none {pc : ι → Pos} {d : Bool} (hzero : num pc d holds = 0) {P : Stage → Bool}
    (hP : ∀ b, P b = true → holds b = true) : num pc d P = 0 := by
  have hle : num pc d P ≤ num pc d holds := count_le fun p hp => by
    rcases p with _ | ⟨e, b⟩
    · cases hp
    · unfold on at hp ⊢
      rw [Bool.and_eq_true] at hp ⊢
      exact ⟨hp.1, hP b hp.2⟩
  omega

set_option linter.unusedSimpArgs false in
/-- A step of a thread that takes its side's mutex, to enter or to leave. -/
theorem inv_step_lock (h : ∀ d, Inv s d) {i : ι} {d : Bool} {a : Option Stage} {b : Stage}
    {x : Switch} {p : Pos} (ha : s.pc i = side d a)
    (hab : (a = none ∧ b = .count_in) ∨ (a = some .inside ∧ b = .count_out))
    (hlock : s.shared.lock d (some (d, b)) = some (x, p)) :
    ∀ e, Inv ⟨x, Function.update s.pc i p⟩ e := by
  unfold Switch.lock at hlock
  split at hlock
  · cases hlock
  next hfree =>
    cases hlock
    have hzero : (s.shared.mutex d).toNat = 0 := by simpa using hfree
    obtain ⟨hm, hc, hf, hl, ho⟩ := h d
    have hparts := parts s.pc d
    have hother := fun b P => @num_other ι _ _ i d a b s.pc ha P
    have hnone := fun P => @num_none ι _ s.pc d (by omega) P
    have l2 := hnone joining fun b => by cases b <;> decide
    have l3 := hnone parting fun b => by cases b <;> decide
    have l4 := hnone firstIn fun b => by cases b <;> decide
    have l5 := hnone lastOut fun b => by cases b <;> decide
    have hn := num_move s.pc ha (some b)
    refine inv_move (b := some b) h ha ?_ ?_ ?_
    · rcases hab with ⟨rfl, rfl⟩ | ⟨rfl, rfl⟩
      all_goals
        simp only [Option.any_some, Option.any_none, holds, group, counted, firstIn, lastOut,
          Bool.toNat_true, Bool.toNat_false] at hn
        constructor
        all_goals simp [Switch.setMutex, hother]
        all_goals omega
    · rcases hab with ⟨rfl, rfl⟩ | ⟨rfl, rfl⟩
      all_goals
        simp only [Option.any_some, Option.any_none, holds, group, counted, firstIn, lastOut,
          Bool.toNat_true, Bool.toNat_false] at hn
        simp [Switch.setMutex]
        omega
    · simp [Switch.setMutex]

theorem inv_step (h : ∀ d, Inv s d) {i : ι} {c : Bool} (hnext : next step s i c = some s') :
    ∀ d, Inv s' d := by
  obtain ⟨x, b, hstep, rfl⟩ := (next_eq_some step).mp hnext
  rcases ha : s.pc i with _ | ⟨d, a⟩
  · rw [ha] at hstep
    exact inv_step_lock (d := c) (a := none) h ha (.inl ⟨rfl, rfl⟩) hstep
  · rw [ha] at hstep
    cases hh : holds a with
    | true => exact inv_step_holds h ha hh hstep
    | false =>
      cases a with
      | inside => exact inv_step_lock (a := some .inside) h ha (.inr ⟨rfl, rfl⟩) hstep
      | _ => cases hh

end invariant

/-- Threads from different sides are never inside together, whatever order
    they have taken their steps in. -/
theorem exclusive [Fintype ι] [DecidableEq ι] {G : State ι Switch Pos → ι → Prop}
    {s : State ι Switch Pos} (h : Reachable step G (init ι) s) (i j : ι) (d : Bool) :
    ¬ (s.pc i = some (d, .inside) ∧ s.pc j = some (!d, .inside)) := by
  have hinv : ∀ d, Inv s d := by
    apply h.invariant inv_init
    intro s s' hs hstep
    obtain ⟨i, c, -, hnext⟩ := hstep
    exact inv_step hs hnext
  rintro ⟨hi, hj⟩
  have hi' : 1 ≤ num s.pc d Stage.group := one_le_count (i := i) (by rw [hi, on_self]; rfl)
  have hj' : 1 ≤ num s.pc (!d) Stage.group := one_le_count (i := j) (by rw [hj, on_self]; rfl)
  have := (hinv d).one
  omega

/-! ### Waiting for each other -/

section blocked

open Stage

variable [Fintype ι] {s : State ι Switch Pos}

/-- Each thread that is not outside waits for a mutex. -/
def Blocked (s : State ι Switch Pos) : Prop :=
  ∀ i, s.pc i = none ∨ ∃ d, (s.pc i = some (d, .lock_other) ∧ s.shared.mutex (!d) = true) ∨
    (s.pc i = some (d, .inside) ∧ s.shared.mutex d = true)

/-- Two threads from different sides wait for each other's mutex. -/
def Crossed (s : State ι Switch Pos) : Prop :=
  ∃ i j d, s.pc i = some (d, .lock_other) ∧ s.pc j = some (!d, .lock_other)

theorem exists_of_num_pos {pc : ι → Pos} {d : Bool} {P : Stage → Bool} (h : 0 < num pc d P) :
    ∃ i a, pc i = some (d, a) ∧ P a = true := by
  obtain ⟨i, hi⟩ := exists_of_count_pos h
  rcases ha : pc i with _ | ⟨e, a⟩
  · rw [ha] at hi
    cases hi
  · rw [ha] at hi
    unfold on at hi
    rw [Bool.and_eq_true, beq_iff_eq] at hi
    rw [← hi.1]
    exact ⟨i, a, ha, hi.2⟩

omit [Fintype ι] in
theorem Blocked.at_door (hblocked : Blocked s) {i : ι} {d : Bool} {a : Stage}
    (hi : s.pc i = some (d, a)) (ha : a.holds = true) : a = .lock_other := by
  rcases hblocked i with hnone | ⟨e, ⟨he, -⟩ | ⟨he, -⟩⟩
  · rw [hnone] at hi
    cases hi
  · rw [he] at hi
    cases hi
    rfl
  · rw [he] at hi
    cases hi
    cases ha

omit [Fintype ι] in
theorem Blocked.in_group (hblocked : Blocked s) {i : ι} {d : Bool} {a : Stage}
    (hi : s.pc i = some (d, a)) (ha : a.group = true) : a = .inside ∧ s.shared.mutex d = true := by
  rcases hblocked i with hnone | ⟨e, ⟨he, -⟩ | ⟨he, hm⟩⟩
  · rw [hnone] at hi
    cases hi
  · rw [he] at hi
    cases hi
    cases ha
  · rw [he] at hi
    cases hi
    exact ⟨rfl, hm⟩

/-- Nobody waits inside: the thread at the door would be the first one in. -/
theorem group_eq_zero (h : ∀ d, Inv s d) (hblocked : Blocked s) (d : Bool) :
    num s.pc d group = 0 := by
  classical
  by_contra hne
  obtain ⟨i, a, hi, ha⟩ := exists_of_num_pos (Nat.pos_of_ne_zero hne)
  obtain ⟨rfl, hm⟩ := hblocked.in_group hi ha
  have hmutex := (h d).mutex
  have hone := (h d).one
  rw [hm, Bool.toNat_true] at hmutex
  obtain ⟨j, b, hj, hb⟩ := exists_of_num_pos (show 0 < num s.pc d holds by omega)
  obtain rfl := hblocked.at_door hj hb
  have hfirst : 0 < num s.pc d firstIn := one_le_count (i := j) (by rw [hj, on_self]; rfl)
  have hcount := (h d).first_in hfirst
  rw [(h d).count] at hcount
  have hij : i ≠ j := by
    intro hij
    rw [hij, hj] at hi
    cases hi
  have htwo : 2 ≤ num s.pc d counted :=
    two_le_count hij (by rw [hi, on_self]; rfl) (by rw [hj, on_self]; rfl)
  omega

/-- Where everybody waits and no two threads wait for each other, everybody
    is outside and the mutexes are free. -/
theorem nobody_blocked (h : ∀ d, Inv s d) (hblocked : Blocked s) (hcrossed : ¬ Crossed s) :
    (∀ i, s.pc i = none) ∧ ∀ d, s.shared.mutex d = false := by
  have hdoor : ∀ d, num s.pc d holds = 0 := by
    intro d
    by_contra hne
    obtain ⟨i, a, hi, ha⟩ := exists_of_num_pos (Nat.pos_of_ne_zero hne)
    obtain rfl := hblocked.at_door hi ha
    have hheld : s.shared.mutex (!d) = true := by
      rcases hblocked i with hnone | ⟨e, ⟨he, hm⟩ | ⟨he, -⟩⟩
      · rw [hnone] at hi
        cases hi
      · rw [he] at hi
        cases hi
        exact hm
      · rw [he] at hi
        cases hi
    -- the other mutex is held at the other door
    have hmutex := (h (!d)).mutex
    have hgroup := group_eq_zero h hblocked d
    rw [hheld, Bool.toNat_true, Bool.not_not, hgroup] at hmutex
    obtain ⟨j, b, hj, hb⟩ := exists_of_num_pos (show 0 < num s.pc (!d) holds by omega)
    obtain rfl := hblocked.at_door hj hb
    exact hcrossed ⟨i, j, d, hi, hj⟩
  have hfree : ∀ d, s.shared.mutex d = false := by
    intro d
    have hmutex := (h d).mutex
    rw [hdoor d, group_eq_zero h hblocked (!d)] at hmutex
    simpa using hmutex
  refine ⟨fun i => ?_, hfree⟩
  rcases hblocked i with hnone | ⟨e, ⟨-, hm⟩ | ⟨-, hm⟩⟩
  · exact hnone
  · rw [hfree] at hm
    cases hm
  · rw [hfree] at hm
    cases hm

end blocked

end LightSwitch
