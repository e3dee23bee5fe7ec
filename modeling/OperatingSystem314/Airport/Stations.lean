import OperatingSystem314.Airport.Channel

/-! # Self check-in and security check (`check_in` and `security_check`)

    The two routines of `offline.cpp` that share a number of seats: `M`
    kiosks, and `N` belts for `P` passengers each.  A semaphore lets in as
    many passengers as there are seats, and a mutex protects the search for
    a free one.

    A passenger that fills up a belt waits for the belt itself, on the
    semaphore `sec_check_empty`, while it holds the mutex.

    * `CheckInInv`, `SecurityInv`: who is inside and who holds what.
    * `sec_check_pos`: nobody ever waits on `sec_check_empty`.
    * `checkIn_progress`, `security_progress`: when nobody at the station
      can go on, nobody is there. -/

namespace Airport

open Threads

/-- `get_idx` of `helper.h`: the first index of `elem`, or `-1`. -/
def get_idx (arr : List Bool) (elem : Bool) : Int := if elem ∈ arr then arr.idxOf elem else -1

/-- `arr[k] = elem`. -/
def store (arr : List Bool) (k : Int) (elem : Bool) : List Bool :=
  if k < 0 then arr else arr.set k.toNat elem

/-- `get_idx` of an array with a free slot. -/
theorem get_idx_of_mem {arr : List Bool} {elem : Bool} (h : elem ∈ arr) :
    0 ≤ get_idx arr elem ∧ arr[(get_idx arr elem).toNat]? = some elem := by
  unfold get_idx
  rw [if_pos h]
  have hlt : arr.idxOf elem < arr.length := List.idxOf_lt_length_iff.mpr h
  refine ⟨Int.natCast_nonneg _, ?_⟩
  rw [Int.toNat_natCast, List.getElem?_eq_getElem hlt, List.getElem_idxOf hlt]

theorem store_of_nonneg {arr : List Bool} {a : Int} (ha : 0 ≤ a) (elem : Bool) :
    store arr a elem = arr.set a.toNat elem := by
  unfold store
  rw [if_neg (by omega)]

theorem get_idx_lt {arr : List Bool} {elem : Bool} (h : elem ∈ arr) : get_idx arr elem < arr.length := by
  obtain ⟨hpos, hget⟩ := get_idx_of_mem h
  have hlt := (List.getElem?_eq_some_iff.mp hget).1
  omega

/-- A semaphore at zero makes the thread wait. -/
def waitStep {β : Type} (value : Nat) (next : β) : Option β := if value = 0 then none else some next

theorem waitStep_eq_some {β : Type} {value : Nat} {next y : β} :
    waitStep value next = some y ↔ 0 < value ∧ next = y := by
  unfold waitStep
  split
  · simp [*]
  · simp [Nat.pos_iff_ne_zero, *]

theorem waitStep_eq_none {β : Type} {value : Nat} {next : β} :
    waitStep value next = none ↔ value = 0 := by
  unfold waitStep
  split
  · simp [*]
  · simp [*]

/-- Someone is at a program point of the station that satisfies `P`. -/
theorem exists_of_any_pos {ι α : Type} [Fintype ι] {P : α → Bool} {pc : ι → Option α}
    (h : 0 < count (Option.any P) pc) : ∃ i a, pc i = some a ∧ P a = true := by
  obtain ⟨i, hi⟩ := exists_of_count_pos h
  obtain ⟨a, ha, hP⟩ := (Option.any_eq_true _ _).mp hi
  exact ⟨i, a, ha, hP⟩

/-- Where a thread waits for a seat or for the mutex only, and who holds the
    mutex has a seat, nobody is left when nobody can go on. -/
theorem station_empty {ι α : Type} [Fintype ι] {pc : ι → Option α} {inside holds : α → Bool}
    {empty seats : Nat} {mutex : Bool} (hseats : empty + count (Option.any inside) pc = seats)
    (hmutex : mutex.toNat = count (Option.any holds) pc) (hin : ∀ a, holds a = true → inside a = true)
    (hpos : 0 < seats)
    (hwhy : ∀ i a, pc i = some a →
      (inside a = false ∧ empty = 0) ∨ (holds a = false ∧ mutex = true)) (i : ι) : pc i = none := by
  have hfree : mutex = false := by
    -- whoever holds the mutex can go on
    by_contra hheld
    rw [Bool.not_eq_false] at hheld
    rw [hheld, Bool.toNat_true] at hmutex
    obtain ⟨j, a, hj, hholds⟩ := exists_of_any_pos (Nat.lt_of_lt_of_eq Nat.one_pos hmutex)
    rcases hwhy j a hj with ⟨hout, -⟩ | ⟨hnot, -⟩
    · rw [hin a hholds] at hout
      cases hout
    · rw [hholds] at hnot
      cases hnot
  cases hi : pc i with
  | none => rfl
  | some a =>
    rcases hwhy i a hi with ⟨-, hempty⟩ | ⟨-, hheld⟩
    · -- all seats are taken, and those who have one can go on
      rw [hempty, Nat.zero_add] at hseats
      obtain ⟨j, b, hj, hinside⟩ := exists_of_any_pos (Nat.lt_of_lt_of_eq hpos hseats.symm)
      rcases hwhy j b hj with ⟨hout, -⟩ | ⟨-, hheld⟩
      · rw [hinside] at hout
        cases hout
      · rw [hfree] at hheld
        cases hheld
    · rw [hfree] at hheld
      cases hheld

/-! ### Self check-in -/

structure Kiosks where
  check_in_empty : Nat
  check_in_count_mutex : Bool
  check_in_count : Int
  kiosks : List Bool
  deriving DecidableEq

/-- The program points of `check_in`, each in front of the statement it is
    named after. -/
inductive CheckIn where
  | wait_empty | lock_in | count_in | get_kiosk | occupy (assigned_kiosk : Int)
  | unlock_in (assigned_kiosk : Int)
  | lock_out (assigned_kiosk : Int) | count_out (assigned_kiosk : Int) | vacate (assigned_kiosk : Int)
  | unlock_out | post_empty
  deriving DecidableEq

def stepCheckIn (k : Kiosks) : CheckIn → Option (Kiosks × Option CheckIn)
  | .wait_empty => waitStep k.check_in_empty ({ k with check_in_empty := k.check_in_empty - 1 }, some .lock_in)
  | .lock_in => lockStep k.check_in_count_mutex ({ k with check_in_count_mutex := true }, some .count_in)
  | .count_in => some ({ k with check_in_count := k.check_in_count + 1 }, some .get_kiosk)
  | .get_kiosk => some (k, some (.occupy (get_idx k.kiosks false)))
  | .occupy a => some ({ k with kiosks := store k.kiosks a true }, some (.unlock_in a))
  | .unlock_in a => some ({ k with check_in_count_mutex := false }, some (.lock_out a))
  | .lock_out a => lockStep k.check_in_count_mutex ({ k with check_in_count_mutex := true }, some (.count_out a))
  | .count_out a => some ({ k with check_in_count := k.check_in_count - 1 }, some (.vacate a))
  | .vacate a => some ({ k with kiosks := store k.kiosks a false }, some .unlock_out)
  | .unlock_out => some ({ k with check_in_count_mutex := false }, some .post_empty)
  | .post_empty => some ({ k with check_in_empty := k.check_in_empty + 1 }, none)

/-- A step of a passenger; `none` is away from the kiosks. -/
def checkInStep (k : Kiosks) (a : Option CheckIn) (_ : Unit) : Option (Kiosks × Option CheckIn) :=
  match a with
  | none => some (k, some .wait_empty)
  | some a => stepCheckIn k a

/-- As `main` initialises the kiosks. -/
def Kiosks.init (M : Nat) : Kiosks :=
  { check_in_empty := M, check_in_count_mutex := false, check_in_count := 0
    kiosks := List.replicate M false }

namespace CheckIn

/-- Let in by `check_in_empty`. -/
def inside : CheckIn → Bool
  | wait_empty => false
  | _ => true

/-- Holds `check_in_count_mutex`. -/
def holds : CheckIn → Bool
  | count_in | get_kiosk | occupy _ | unlock_in _ | count_out _ | vacate _ | unlock_out => true
  | _ => false

end CheckIn

section checkIn

variable {ι : Type} [Fintype ι] {M : Nat} {s s' : State ι Kiosks (Option CheckIn)}

structure CheckInInv (M : Nat) (s : State ι Kiosks (Option CheckIn)) : Prop where
  seats : s.shared.check_in_empty + count (Option.any CheckIn.inside) s.pc = M
  mutex : s.shared.check_in_count_mutex.toNat = count (Option.any CheckIn.holds) s.pc

theorem checkInInv_init : CheckInInv M (⟨.init M, fun _ => none⟩ : State ι Kiosks (Option CheckIn)) := by
  constructor
  · rw [count_const none rfl]
    rfl
  · rw [count_const none rfl]
    rfl

theorem stepCheckIn_seats {k k' : Kiosks} {a : CheckIn} {b : Option CheckIn}
    (h : stepCheckIn k a = some (k', b)) :
    k'.check_in_empty + (b.any CheckIn.inside).toNat = k.check_in_empty + a.inside.toNat := by
  cases a with
  | wait_empty =>
    obtain ⟨hpos, h⟩ := waitStep_eq_some.mp h
    cases h
    exact Nat.sub_add_cancel hpos
  | lock_in | lock_out _ =>
    obtain ⟨-, h⟩ := lockStep_eq_some.mp h
    cases h
    rfl
  | _ =>
    cases h
    rfl

theorem stepCheckIn_mutex {k k' : Kiosks} {a : CheckIn} {b : Option CheckIn}
    (h : stepCheckIn k a = some (k', b)) :
    Locks Kiosks.check_in_count_mutex (Option.any CheckIn.holds) k (some a) k' b := by
  cases a with
  | wait_empty =>
    obtain ⟨-, h⟩ := waitStep_eq_some.mp h
    cases h
    exact .inr (.inr ⟨rfl, rfl⟩)
  | lock_in | lock_out _ =>
    obtain ⟨hfree, h⟩ := lockStep_eq_some.mp h
    cases h
    exact .inl ⟨by simpa using hfree, rfl, rfl, rfl⟩
  | unlock_in _ | unlock_out =>
    cases h
    exact .inr (.inl ⟨rfl, rfl, rfl⟩)
  | _ =>
    cases h
    exact .inr (.inr ⟨rfl, rfl⟩)

theorem CheckInInv.next [DecidableEq ι] (h : CheckInInv M s) {i : ι} {c : Unit}
    (hnext : next checkInStep s i c = some s') : CheckInInv M s' := by
  constructor
  · rw [← h.seats]
    apply semaphore_next hnext
    intro x b hx
    cases ha : s.pc i with
    | none =>
      rw [ha] at hx
      cases hx
      rfl
    | some a =>
      rw [ha] at hx
      exact stepCheckIn_seats hx
  · apply mutex_next h.mutex hnext
    intro x b hx
    cases ha : s.pc i with
    | none =>
      rw [ha] at hx
      cases hx
      exact .inr (.inr ⟨rfl, rfl⟩)
    | some a =>
      rw [ha] at hx
      exact stepCheckIn_mutex hx

/-- A passenger that cannot go on waits for a seat or for the mutex. -/
theorem stepCheckIn_eq_none {k : Kiosks} {a : CheckIn} (h : stepCheckIn k a = none) :
    (a.inside = false ∧ k.check_in_empty = 0) ∨
      (a.holds = false ∧ k.check_in_count_mutex = true) := by
  cases a with
  | wait_empty => exact .inl ⟨rfl, waitStep_eq_none.mp h⟩
  | lock_in | lock_out _ => exact .inr ⟨rfl, lockStep_eq_none.mp h⟩
  | _ => cases h

theorem CheckIn.inside_of_holds {a : CheckIn} (h : a.holds = true) : a.inside = true := by
  cases a with
  | wait_empty => cases h
  | _ => rfl

/-- When nobody at the kiosks can go on, nobody is there. -/
theorem checkIn_progress (h : CheckInInv M s) (hM : 0 < M)
    (hstuck : ∀ i a, s.pc i = some a → stepCheckIn s.shared a = none) (i : ι) : s.pc i = none := by
  apply station_empty h.seats h.mutex (fun _ => CheckIn.inside_of_holds) hM
  intro j a hj
  exact stepCheckIn_eq_none (hstuck j a hj)

end checkIn

/-! ### Security check -/

structure Belts where
  belt_empty : Nat
  sec_check_empty : Nat
  belts_count_mutex : Bool
  belts_count : Int
  belts : List Bool
  deriving DecidableEq

/-- The program points of `security_check`. -/
inductive Security where
  | wait_empty | lock_in | count_in | get_belt | occupy (assigned_belt : Int)
  | test_full (assigned_belt : Int) | wait_belt (assigned_belt : Int) | unlock_in (assigned_belt : Int)
  | lock_out (assigned_belt : Int) | count_out (assigned_belt : Int) | vacate (assigned_belt : Int)
  | test_full_out | post_belt | unlock_out | post_empty
  deriving DecidableEq

/-- `P` is `passenger_per_belt`. -/
def stepSecurity (P : Nat) (k : Belts) : Security → Option (Belts × Option Security)
  | .wait_empty => waitStep k.belt_empty ({ k with belt_empty := k.belt_empty - 1 }, some .lock_in)
  | .lock_in => lockStep k.belts_count_mutex ({ k with belts_count_mutex := true }, some .count_in)
  | .count_in => some ({ k with belts_count := k.belts_count + 1 }, some .get_belt)
  | .get_belt => some (k, some (.occupy (get_idx k.belts false)))
  | .occupy a => some ({ k with belts := store k.belts a true }, some (.test_full a))
  | .test_full a => some (k, some (if k.belts_count.tmod P = 0 then .wait_belt a else .unlock_in a))
  | .wait_belt a =>
    waitStep k.sec_check_empty ({ k with sec_check_empty := k.sec_check_empty - 1 }, some (.unlock_in a))
  | .unlock_in a => some ({ k with belts_count_mutex := false }, some (.lock_out a))
  | .lock_out a => lockStep k.belts_count_mutex ({ k with belts_count_mutex := true }, some (.count_out a))
  | .count_out a => some ({ k with belts_count := k.belts_count - 1 }, some (.vacate a))
  | .vacate a => some ({ k with belts := store k.belts a false }, some .test_full_out)
  | .test_full_out =>
    some (k, some (if (k.belts_count + 1).tmod P = 0 then .post_belt else .unlock_out))
  | .post_belt => some ({ k with sec_check_empty := k.sec_check_empty + 1 }, some .unlock_out)
  | .unlock_out => some ({ k with belts_count_mutex := false }, some .post_empty)
  | .post_empty => some ({ k with belt_empty := k.belt_empty + 1 }, none)

/-- A step of a passenger; `none` is away from the belts. -/
def securityStep (P : Nat) (k : Belts) (a : Option Security) (_ : Unit) :
    Option (Belts × Option Security) :=
  match a with
  | none => some (k, some .wait_empty)
  | some a => stepSecurity P k a

/-- As `main` initialises the belts. -/
def Belts.init (N P : Nat) : Belts :=
  { belt_empty := N * P, sec_check_empty := N, belts_count_mutex := false, belts_count := 0
    belts := List.replicate (N * P) false }

namespace Security

/-- Let in by `belt_empty`. -/
def inside : Security → Bool
  | wait_empty => false
  | _ => true

/-- Holds `belts_count_mutex`. -/
def holds : Security → Bool
  | wait_empty | lock_in | lock_out _ | post_empty => false
  | _ => true

/-- Counted by `belts_count`. -/
def counted : Security → Bool
  | get_belt | occupy _ | test_full _ | wait_belt _ | unlock_in _ | lock_out _ | count_out _ => true
  | _ => false

/-- Between the wait and the post for a full belt, if there were any. -/
def seated : Security → Bool
  | unlock_in _ | lock_out _ | count_out _ | vacate _ | test_full_out | post_belt => true
  | _ => false

/-- Counted, but before the wait for a full belt. -/
def pending : Security → Bool
  | get_belt | occupy _ | test_full _ | wait_belt _ => true
  | _ => false

/-- No longer counted, but before the post for a full belt. -/
def owing : Security → Bool
  | vacate _ | test_full_out | post_belt => true
  | _ => false

def waits : Security → Bool
  | wait_belt _ => true
  | _ => false

def posts : Security → Bool
  | post_belt => true
  | _ => false

end Security

section security

open Security

variable {ι : Type} [Fintype ι] {N P : Nat} {s s' : State ι Belts (Option Security)}

/-- How many passengers are at a point of the security check. -/
abbrev num (Q : Security → Bool) (pc : ι → Option Security) : Nat := count (Option.any Q) pc

/-- `full`: `sec_check_empty` is the number of belts that are not full. -/
structure SecurityInv (N P : Nat) (s : State ι Belts (Option Security)) : Prop where
  seats : s.shared.belt_empty + num inside s.pc = N * P
  mutex : s.shared.belts_count_mutex.toNat = num holds s.pc
  count : s.shared.belts_count = num counted s.pc
  full : s.shared.sec_check_empty + num seated s.pc / P = N
  waits : 0 < num waits s.pc → P ∣ num counted s.pc
  posts : 0 < num posts s.pc → P ∣ num counted s.pc + 1

theorem securityInv_init :
    SecurityInv N P (⟨.init N P, fun _ => none⟩ : State ι Belts (Option Security)) := by
  have hzero : ∀ Q : Security → Bool, num Q (fun _ : ι => none) = 0 := fun Q => count_const none rfl
  constructor
  · rw [hzero]
    rfl
  · rw [hzero]
    rfl
  · rw [hzero]
    rfl
  · rw [hzero, Nat.zero_div]
    rfl
  · rw [hzero]
    intro hpos
    cases hpos
  · rw [hzero]
    intro hpos
    cases hpos

theorem counted_owing (pc : ι → Option Security) :
    num counted pc + num owing pc = num seated pc + num pending pc :=
  count_add_eq fun a => by
    rcases a with _ | a
    · rfl
    · cases a <;> rfl

theorem counted_le (pc : ι → Option Security) : num counted pc ≤ num inside pc :=
  count_le fun a ha => by
    rcases a with _ | a
    · cases ha
    · cases a <;> first | rfl | cases ha

variable [DecidableEq ι]

/-- Points where `belts_count_mutex` is held. -/
def Held (Q : Security → Bool) : Prop := ∀ a, Q a = true → a.holds = true

theorem held_pending : Held pending := fun a ha => by cases a <;> first | rfl | cases ha
theorem held_owing : Held owing := fun a ha => by cases a <;> first | rfl | cases ha
theorem held_waits : Held Security.waits := fun a ha => by cases a <;> first | rfl | cases ha
theorem held_posts : Held Security.posts := fun a ha => by cases a <;> first | rfl | cases ha

/-- The holder of `belts_count_mutex` is alone. -/
theorem SecurityInv.num_alone (h : SecurityInv N P s) {i : ι} {a : Security} (hi : s.pc i = some a)
    (ha : a.holds = true) {Q : Security → Bool} (hQ : Held Q) : num Q s.pc = (Q a).toNat := by
  have hone : num holds s.pc ≤ 1 := by
    rw [← h.mutex]
    exact Bool.toNat_le _
  have halone := count_of_alone (i := i) (P := Option.any Q) (Q := Option.any holds) ?_ hone ?_
  · rwa [hi] at halone
  · intro b hb
    cases b with
    | none => cases hb
    | some b => exact hQ b hb
  · rw [hi]
    exact ha

theorem stepSecurity_seats {k k' : Belts} {a : Security} {b : Option Security}
    (h : stepSecurity P k a = some (k', b)) :
    k'.belt_empty + (b.any inside).toNat = k.belt_empty + a.inside.toNat := by
  cases a with
  | wait_empty =>
    obtain ⟨hpos, h⟩ := waitStep_eq_some.mp h
    cases h
    exact Nat.sub_add_cancel hpos
  | wait_belt _ =>
    obtain ⟨-, h⟩ := waitStep_eq_some.mp h
    cases h
    rfl
  | lock_in | lock_out _ =>
    obtain ⟨-, h⟩ := lockStep_eq_some.mp h
    cases h
    rfl
  | test_full _ | test_full_out =>
    cases h
    split
    · rfl
    · rfl
  | _ =>
    cases h
    rfl

theorem stepSecurity_mutex {k k' : Belts} {a : Security} {b : Option Security}
    (h : stepSecurity P k a = some (k', b)) :
    Locks Belts.belts_count_mutex (Option.any holds) k (some a) k' b := by
  cases a with
  | wait_empty | wait_belt _ =>
    obtain ⟨-, h⟩ := waitStep_eq_some.mp h
    cases h
    exact .inr (.inr ⟨rfl, rfl⟩)
  | lock_in | lock_out _ =>
    obtain ⟨hfree, h⟩ := lockStep_eq_some.mp h
    cases h
    exact .inl ⟨by simpa using hfree, rfl, rfl, rfl⟩
  | unlock_in _ | unlock_out =>
    cases h
    exact .inr (.inl ⟨rfl, rfl, rfl⟩)
  | test_full _ | test_full_out =>
    cases h
    refine .inr (.inr ⟨rfl, ?_⟩)
    split
    · rfl
    · rfl
  | _ =>
    cases h
    exact .inr (.inr ⟨rfl, rfl⟩)

theorem tmod_eq_zero {n : Nat} : (n : Int).tmod P = 0 ↔ P ∣ n := by
  rw [← Int.dvd_iff_tmod_eq_zero]
  exact Int.natCast_dvd_natCast

/-- What a step to `b` does to the numbers of the belts. -/
theorem belt_numbers (pc : ι → Option Security) (i : ι) (b : Option Security) :
    let n := fun Q => num Q pc
    let n' := fun Q => num Q (Function.update pc i b)
    n' counted + ((pc i).any counted).toNat = n counted + (b.any counted).toNat ∧
    n' seated + ((pc i).any seated).toNat = n seated + (b.any seated).toNat ∧
    n' Security.waits + ((pc i).any Security.waits).toNat = n Security.waits + (b.any Security.waits).toNat ∧
    n' Security.posts + ((pc i).any Security.posts).toNat = n Security.posts + (b.any Security.posts).toNat :=
  ⟨count_update _ pc i b, count_update _ pc i b, count_update _ pc i b, count_update _ pc i b⟩

/-- The invariant of `belts_count` and `sec_check_empty`, for the numbers of
    passengers that are counted, seated, about to wait and about to post. -/
structure Settled (N P : Nat) (k : Belts) (counted seated waits posts : Nat) : Prop where
  count : k.belts_count = counted
  full : k.sec_check_empty + seated / P = N
  waits : 0 < waits → P ∣ counted
  posts : 0 < posts → P ∣ counted + 1

/-- A step of the passenger that holds the mutex, or of one that does not
    touch what it protects. -/
theorem stepSecurity_settled {k k' : Belts} {a : Security} {b : Option Security} {c c' d d' w w' o o' : Nat}
    (hstep : stepSecurity P k a = some (k', b)) (h : Settled N P k c d w o)
    (hself : a.holds = true → c + a.owing.toNat = d + a.pending.toNat ∧ w = a.waits.toNat ∧ o = a.posts.toNat)
    (hnum : c' + a.counted.toNat = c + (b.any counted).toNat ∧ d' + a.seated.toNat = d + (b.any seated).toNat ∧
      w' + a.waits.toNat = w + (b.any Security.waits).toNat ∧ o' + a.posts.toNat = o + (b.any Security.posts).toNat) :
    Settled N P k' c' d' w' o' := by
  obtain ⟨hcount, hfull, hwaits, hposts⟩ := h
  cases a with
  | wait_empty =>
    obtain ⟨-, h⟩ := waitStep_eq_some.mp hstep
    cases h
    obtain ⟨rfl, rfl, rfl, rfl⟩ : c' = c ∧ d' = d ∧ w' = w ∧ o' = o := by
      simpa [counted, seated, Security.waits, Security.posts] using hnum
    exact ⟨hcount, hfull, hwaits, hposts⟩
  | lock_in | lock_out _ =>
    obtain ⟨-, h⟩ := lockStep_eq_some.mp hstep
    cases h
    obtain ⟨rfl, rfl, rfl, rfl⟩ : c' = c ∧ d' = d ∧ w' = w ∧ o' = o := by
      simpa [counted, seated, Security.waits, Security.posts] using hnum
    exact ⟨hcount, hfull, hwaits, hposts⟩
  | get_belt | occupy _ | unlock_in _ | vacate _ | unlock_out | post_empty =>
    cases hstep
    obtain ⟨rfl, rfl, rfl, rfl⟩ : c' = c ∧ d' = d ∧ w' = w ∧ o' = o := by
      simpa [counted, seated, Security.waits, Security.posts] using hnum
    exact ⟨hcount, hfull, hwaits, hposts⟩
  | count_in =>
    cases hstep
    obtain ⟨-, rfl, rfl⟩ : c = d ∧ w = 0 ∧ o = 0 := by
      simpa [Security.waits, Security.posts, holds, owing, pending] using hself
    obtain ⟨rfl, rfl, rfl, rfl⟩ : c' = c + 1 ∧ d' = d ∧ w' = 0 ∧ o' = 0 := by
      simpa [counted, seated, Security.waits, Security.posts] using hnum
    refine ⟨?_, hfull, nofun, nofun⟩
    show k.belts_count + 1 = _
    omega
  | count_out _ =>
    cases hstep
    obtain ⟨-, rfl, rfl⟩ : c = d ∧ w = 0 ∧ o = 0 := by
      simpa [Security.waits, Security.posts, holds, owing, pending] using hself
    obtain ⟨rfl, rfl, rfl, rfl⟩ : c' + 1 = c ∧ d' = d ∧ w' = 0 ∧ o' = 0 := by
      simpa [counted, seated, Security.waits, Security.posts] using hnum
    refine ⟨?_, hfull, nofun, nofun⟩
    show k.belts_count - 1 = _
    omega
  | test_full _ =>
    cases hstep
    obtain ⟨hc, rfl, rfl⟩ : c = d + 1 ∧ w = 0 ∧ o = 0 := by
      simpa [Security.waits, Security.posts, holds, owing, pending] using hself
    rw [hcount] at hnum
    split at hnum
    next hdvd =>
      obtain ⟨rfl, rfl, rfl, rfl⟩ : c' = c ∧ d' = d ∧ w' = 1 ∧ o' = 0 := by
        simpa [counted, seated, Security.waits, Security.posts] using hnum
      exact ⟨hcount, hfull, fun _ => tmod_eq_zero.mp hdvd, nofun⟩
    next hdvd =>
      obtain ⟨rfl, rfl, rfl, rfl⟩ : c' = c ∧ d' = d + 1 ∧ w' = 0 ∧ o' = 0 := by
        simpa [counted, seated, Security.waits, Security.posts] using hnum
      rw [tmod_eq_zero, hc] at hdvd
      refine ⟨hcount, ?_, nofun, nofun⟩
      rw [Nat.succ_div_of_not_dvd hdvd]
      exact hfull
  | wait_belt _ =>
    obtain ⟨hpos, h⟩ := waitStep_eq_some.mp hstep
    cases h
    obtain ⟨hc, rfl, rfl⟩ : c = d + 1 ∧ w = 1 ∧ o = 0 := by
      simpa [Security.waits, Security.posts, holds, owing, pending] using hself
    obtain ⟨rfl, rfl, rfl, rfl⟩ : c' = c ∧ d' = d + 1 ∧ w' = 0 ∧ o' = 0 := by
      simpa [counted, seated, Security.waits, Security.posts] using hnum
    have hdvd := hwaits Nat.one_pos
    rw [hc] at hdvd
    refine ⟨hcount, ?_, nofun, nofun⟩
    rw [Nat.succ_div_of_dvd hdvd, ← hfull]
    show k.sec_check_empty - 1 + _ = _
    omega
  | test_full_out =>
    cases hstep
    obtain ⟨hc, rfl, rfl⟩ : c + 1 = d ∧ w = 0 ∧ o = 0 := by
      simpa [Security.waits, Security.posts, holds, owing, pending] using hself
    rw [hcount, ← Int.natCast_succ] at hnum
    split at hnum
    next hdvd =>
      obtain ⟨rfl, rfl, rfl, rfl⟩ : c' = c ∧ d' = d ∧ w' = 0 ∧ o' = 1 := by
        simpa [counted, seated, Security.waits, Security.posts] using hnum
      exact ⟨hcount, hfull, nofun, fun _ => tmod_eq_zero.mp hdvd⟩
    next hdvd =>
      obtain ⟨rfl, rfl, rfl, rfl⟩ : c' = c ∧ d' + 1 = d ∧ w' = 0 ∧ o' = 0 := by
        simpa [counted, seated, Security.waits, Security.posts] using hnum
      rw [tmod_eq_zero, Nat.succ_eq_add_one, hc] at hdvd
      refine ⟨hcount, ?_, nofun, nofun⟩
      rw [← hfull, Nat.succ_div_of_not_dvd hdvd]
  | post_belt =>
    cases hstep
    obtain ⟨hc, rfl, rfl⟩ : c + 1 = d ∧ w = 0 ∧ o = 1 := by
      simpa [Security.waits, Security.posts, holds, owing, pending] using hself
    obtain ⟨rfl, rfl, rfl, rfl⟩ : c' = c ∧ d' + 1 = d ∧ w' = 0 ∧ o' = 0 := by
      simpa [counted, seated, Security.waits, Security.posts] using hnum
    have hdvd := hposts Nat.one_pos
    rw [hc] at hdvd
    refine ⟨hcount, ?_, nofun, nofun⟩
    rw [← hfull, Nat.succ_div_of_dvd hdvd]
    show k.sec_check_empty + 1 + _ = _
    omega

theorem SecurityInv.next (h : SecurityInv N P s) {i : ι} {c : Unit}
    (hnext : next (securityStep P) s i c = some s') : SecurityInv N P s' := by
  have hseats : s'.shared.belt_empty + num inside s'.pc = N * P := by
    rw [← h.seats]
    apply semaphore_next hnext
    intro x b hx
    cases ha : s.pc i with
    | none =>
      rw [ha] at hx
      cases hx
      rfl
    | some a =>
      rw [ha] at hx
      exact stepSecurity_seats hx
  have hmutex : s'.shared.belts_count_mutex.toNat = num holds s'.pc := by
    apply mutex_next h.mutex hnext
    intro x b hx
    cases ha : s.pc i with
    | none =>
      rw [ha] at hx
      cases hx
      exact .inr (.inr ⟨rfl, rfl⟩)
    | some a =>
      rw [ha] at hx
      exact stepSecurity_mutex hx
  have hsettled : Settled N P s'.shared (num counted s'.pc) (num seated s'.pc)
      (num Security.waits s'.pc) (num Security.posts s'.pc) := by
    obtain ⟨x, b, hx, rfl⟩ := (next_eq_some (securityStep P)).mp hnext
    have hnum := belt_numbers s.pc i b
    have hbefore : Settled N P s.shared (num counted s.pc) (num seated s.pc)
        (num Security.waits s.pc) (num Security.posts s.pc) :=
      ⟨h.count, h.full, h.waits, h.posts⟩
    cases ha : s.pc i with
    | none =>
      rw [ha] at hx
      cases hx
      have hsame : ∀ Q : Security → Bool, Q wait_empty = false →
          num Q (Function.update s.pc i (some wait_empty)) = num Q s.pc := by
        intro Q hQ
        have := count_update (Option.any Q) s.pc i (some wait_empty)
        rw [ha] at this
        simpa [hQ] using this
      show Settled N P s.shared (num counted (Function.update s.pc i _)) _ _ _
      rw [hsame counted rfl, hsame seated rfl, hsame Security.waits rfl, hsame Security.posts rfl]
      exact hbefore
    | some a =>
      rw [ha] at hx hnum
      refine stepSecurity_settled hx hbefore ?_ hnum
      intro hholds
      have hparts := counted_owing s.pc
      rw [h.num_alone ha hholds held_owing, h.num_alone ha hholds held_pending] at hparts
      exact ⟨hparts, h.num_alone ha hholds held_waits, h.num_alone ha hholds held_posts⟩
  exact ⟨hseats, hmutex, hsettled.count, hsettled.full, hsettled.waits, hsettled.posts⟩

/-- The wait on `sec_check_empty` inside the lock is never a wait. -/
theorem sec_check_pos (h : SecurityInv N P s) {i : ι} {a : Int} (hi : s.pc i = some (.wait_belt a)) :
    0 < s.shared.sec_check_empty := by
  have howing := h.num_alone hi rfl held_owing
  have hpending := h.num_alone hi rfl held_pending
  have hparts := counted_owing s.pc
  rw [howing, hpending] at hparts
  have hcounted : num counted s.pc = num seated s.pc + 1 := by simpa [owing, pending] using hparts
  have hroom : num seated s.pc < N * P := by
    have hle := counted_le s.pc
    have hseats := h.seats
    omega
  have hfull := h.full
  have hlt : num seated s.pc / P < N := by
    rw [Nat.mul_comm] at hroom
    exact Nat.div_lt_of_lt_mul hroom
  omega

/-- A passenger that cannot go on waits for a seat, for the mutex or for a belt. -/
theorem stepSecurity_eq_none {k : Belts} {a : Security} (h : stepSecurity P k a = none) :
    (a.inside = false ∧ k.belt_empty = 0) ∨ (a.holds = false ∧ k.belts_count_mutex = true) ∨
      (∃ b, a = .wait_belt b ∧ k.sec_check_empty = 0) := by
  cases a with
  | wait_empty => exact .inl ⟨rfl, waitStep_eq_none.mp h⟩
  | lock_in | lock_out _ => exact .inr (.inl ⟨rfl, lockStep_eq_none.mp h⟩)
  | wait_belt b => exact .inr (.inr ⟨b, rfl, waitStep_eq_none.mp h⟩)
  | _ => cases h

theorem Security.inside_of_holds {a : Security} (h : a.holds = true) : a.inside = true := by
  cases a with
  | wait_empty => cases h
  | _ => rfl

/-- When nobody at the belts can go on, nobody is there. -/
theorem security_progress (h : SecurityInv N P s) (hN : 0 < N) (hP : 0 < P)
    (hstuck : ∀ i a, s.pc i = some a → stepSecurity P s.shared a = none) (i : ι) :
    s.pc i = none := by
  apply station_empty h.seats h.mutex (fun _ => Security.inside_of_holds) (Nat.mul_pos hN hP)
  intro j a hj
  rcases stepSecurity_eq_none (hstuck j a hj) with hseat | hlock | ⟨b, rfl, hzero⟩
  · exact .inl hseat
  · exact .inr hlock
  · have := sec_check_pos h hj
    omega

end security

end Airport
