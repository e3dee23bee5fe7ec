import OperatingSystem314.Airport.Simulate
import OperatingSystem314.Lib.Slots

/-! # Who stands at which kiosk

    `check_in` picks a kiosk with `get_idx` and marks it in `kiosks`, both
    under `check_in_count_mutex`, and clears the mark before it gives the
    semaphore back.

    * `KiosksInv`: the marks in `kiosks` are those of the passengers that
      have been given a kiosk.
    * `check_in_safe`: no kiosk is shared, and outside the locked blocks
      `check_in_count` says how many are taken. -/

namespace Airport

open Threads

/-! ### The kiosk of a passenger -/

namespace CheckIn

/-- What `get_idx` returned to the passenger. -/
def chosen : CheckIn → Option Int
  | occupy a | unlock_in a | lock_out a | count_out a | vacate a => some a
  | _ => none

/-- The kiosk that the passenger has marked. -/
def kiosk : CheckIn → Option Nat
  | unlock_in a | lock_out a | count_out a | vacate a => some a.toNat
  | _ => none

/-- The kiosk that it has found and not marked yet. -/
def finding : CheckIn → Option Nat
  | occupy a => some a.toNat
  | _ => none

/-- Counted by `check_in_count`. -/
def counted : CheckIn → Bool
  | get_kiosk | occupy _ | unlock_in _ | lock_out _ | count_out _ => true
  | _ => false

/-- About to get a kiosk. -/
def choosing : CheckIn → Bool
  | get_kiosk | occupy _ => true
  | _ => false

def vacating : CheckIn → Bool
  | vacate _ => true
  | _ => false

end CheckIn

open CheckIn

/-- A passenger that was given a kiosk has marked it, or is about to. -/
theorem CheckIn.chosen_cases {a : Option CheckIn} {x : Int} (h : a.bind chosen = some x) :
    a.bind kiosk = some x.toNat ∨ a.bind finding = some x.toNat := by
  rcases a with _ | a
  · cases h
  · cases a <;> cases h <;> first | exact .inl rfl | exact .inr rfl

/-- The index that is stored with is one that `get_idx` returned. -/
theorem checkInStep_chosen {k k' : Kiosks} {a b : Option CheckIn} {c : Unit}
    (h : checkInStep k a c = some (k', b)) {x : Int} (hx : b.bind chosen = some x) :
    a.bind chosen = some x ∨ (a = some .get_kiosk ∧ x = get_idx k.kiosks false) := by
  cases a with
  | none =>
    cases h
    cases hx
  | some a =>
    cases a with
    | wait_empty =>
      obtain ⟨-, h⟩ := waitStep_eq_some.mp h
      cases h
      cases hx
    | lock_in =>
      obtain ⟨-, h⟩ := lockStep_eq_some.mp h
      cases h
      cases hx
    | lock_out _ =>
      obtain ⟨-, h⟩ := lockStep_eq_some.mp h
      cases h
      exact .inl hx
    | get_kiosk =>
      cases h
      cases hx
      exact .inr ⟨rfl, rfl⟩
    | occupy _ | unlock_in _ | count_out _ =>
      cases h
      exact .inl hx
    | count_in | vacate _ | unlock_out | post_empty =>
      cases h
      cases hx

/-- What a step does to the kiosks. -/
theorem checkInStep_slots {k k' : Kiosks} {a b : Option CheckIn} {c : Unit}
    (h : checkInStep k a c = some (k', b)) (hfree : a = some .get_kiosk → false ∈ k.kiosks)
    (hpos : ∀ x, a.bind chosen = some x → 0 ≤ x) :
    SlotStep (fun a => a.bind kiosk) (fun a => a.bind finding) k.kiosks a b k'.kiosks := by
  cases a with
  | none =>
    cases h
    exact .keep rfl rfl rfl
  | some a =>
    cases a with
    | wait_empty =>
      obtain ⟨-, h⟩ := waitStep_eq_some.mp h
      cases h
      exact .keep rfl rfl rfl
    | lock_in | lock_out _ =>
      obtain ⟨-, h⟩ := lockStep_eq_some.mp h
      cases h
      exact .keep rfl rfl rfl
    | get_kiosk =>
      cases h
      exact .find _ rfl (get_idx_of_mem (hfree rfl)).2 rfl rfl
    | occupy x =>
      cases h
      exact .take _ rfl (store_of_nonneg (hpos x rfl) true) rfl rfl rfl
    | vacate x =>
      cases h
      exact .give _ rfl (store_of_nonneg (hpos x rfl) false) rfl rfl
    | _ =>
      cases h
      exact .keep rfl rfl rfl

/-- What a step does to `check_in_count`. -/
theorem checkInStep_count {k k' : Kiosks} {a b : Option CheckIn} {c : Unit}
    (h : checkInStep k a c = some (k', b)) :
    k'.check_in_count + (a.any counted).toNat = k.check_in_count + (b.any counted).toNat := by
  cases a with
  | none =>
    cases h
    rfl
  | some a =>
    cases a with
    | wait_empty =>
      obtain ⟨-, h⟩ := waitStep_eq_some.mp h
      cases h
      rfl
    | lock_in | lock_out _ =>
      obtain ⟨-, h⟩ := lockStep_eq_some.mp h
      cases h
      rfl
    | count_in =>
      cases h
      exact Int.add_zero _
    | count_out _ =>
      cases h
      show k.check_in_count - 1 + 1 = k.check_in_count + 0
      omega
    | _ =>
      cases h
      rfl

/-! ### The invariant -/

section kiosks

variable {ι : Type} [Fintype ι] {M : Nat} {s s' : State ι Kiosks (Option CheckIn)}

structure KiosksInv (M : Nat) (s : State ι Kiosks (Option CheckIn)) : Prop extends CheckInInv M s where
  size : s.shared.kiosks.length = M
  marks : Searching (fun a => a.bind kiosk) (fun a => a.bind finding) s.shared.kiosks s.pc
  count : s.shared.check_in_count = Threads.count (Option.any counted) s.pc
  nonneg : ∀ i x, (s.pc i).bind chosen = some x → 0 ≤ x

theorem kiosksInv_init : KiosksInv M (⟨.init M, fun _ => none⟩ : State ι Kiosks (Option CheckIn)) := by
  refine ⟨checkInInv_init, ?_, ⟨taken_init rfl _, ?_⟩, ?_, ?_⟩
  · exact List.length_replicate
  · intro i k hi
    cases hi
  · rw [count_const none rfl]
    rfl
  · intro i x hi
    cases hi

/-- A passenger that looks for a kiosk finds one: with the passenger itself
    there are no more than `M` inside. -/
theorem KiosksInv.exists_free (h : KiosksInv M s) {i : ι} (hi : s.pc i = some .get_kiosk) :
    false ∈ s.shared.kiosks := by
  apply h.marks.taken.exists_free
  rw [h.size]
  have hchoosing : 1 ≤ Threads.count (Option.any choosing) s.pc := one_le_count (by rw [hi]; rfl)
  have hsum : Threads.count (fun a => (Option.bind a kiosk).isSome) s.pc +
      Threads.count (Option.any choosing) s.pc ≤ Threads.count (Option.any inside) s.pc := by
    apply count_add_le
    intro a
    rcases a with _ | a
    · exact Nat.le_refl 0
    · cases a <;> first | exact Nat.le_refl _ | exact Nat.zero_le _
  have hseats := h.seats
  omega

variable [DecidableEq ι]

omit [DecidableEq ι] in
/-- Only the holder of the mutex has found a kiosk and not marked it. -/
theorem CheckInInv.finding_alone (h : CheckInInv M s) {i j : ι} {a : CheckIn} {k : Nat}
    (hi : s.pc i = some a) (ha : a.holds = true) (hj : (s.pc j).bind finding = some k) : j = i := by
  classical
  have hone : Threads.count (Option.any holds) s.pc ≤ 1 := by
    rw [← h.mutex]
    exact Bool.toNat_le _
  apply eq_of_count_le_one hone
  · cases hpc : s.pc j with
    | none =>
      rw [hpc] at hj
      cases hj
    | some b =>
      rw [hpc] at hj
      cases b <;> first | rfl | cases hj
  · rw [hi]
    exact ha

omit [Fintype ι] [DecidableEq ι] in
/-- Who changes the array holds the mutex. -/
theorem checkInStep_holds {k k' : Kiosks} {a b : Option CheckIn} {c : Unit}
    (h : checkInStep k a c = some (k', b)) (hne : k'.kiosks ≠ k.kiosks) :
    ∃ x, a = some x ∧ x.holds = true := by
  cases a with
  | none =>
    cases h
    exact absurd rfl hne
  | some a =>
    cases a with
    | wait_empty =>
      obtain ⟨-, h⟩ := waitStep_eq_some.mp h
      cases h
      exact absurd rfl hne
    | lock_in | lock_out _ =>
      obtain ⟨-, h⟩ := lockStep_eq_some.mp h
      cases h
      exact absurd rfl hne
    | occupy _ | vacate _ => exact ⟨_, rfl, rfl⟩
    | _ =>
      cases h
      exact absurd rfl hne

theorem KiosksInv.next (h : KiosksInv M s) {i : ι} {c : Unit}
    (hnext : next checkInStep s i c = some s') : KiosksInv M s' := by
  have hinv := h.toCheckInInv.next hnext
  obtain ⟨k', b, hstep, rfl⟩ := (next_eq_some checkInStep).mp hnext
  have hslots := checkInStep_slots hstep h.exists_free (h.nonneg i)
  refine ⟨hinv, ?_, ?_, ?_, ?_⟩
  · exact hslots.length_eq.trans h.size
  · apply h.marks.next hslots
    intro hne j hji
    obtain ⟨a, hi, ha⟩ := checkInStep_holds hstep hne
    by_contra hj
    obtain ⟨x, hx⟩ := Option.ne_none_iff_exists'.mp hj
    exact hji (h.finding_alone hi ha hx)
  · have hnum := count_update (Option.any counted) s.pc i b
    have hcount := checkInStep_count hstep
    have hold := h.count
    show k'.check_in_count = Threads.count (Option.any counted) (Function.update s.pc i b)
    omega
  · intro j x hj
    by_cases hji : j = i
    · simp only [hji, Function.update_self] at hj
      rcases checkInStep_chosen hstep hj with hx | ⟨hi, rfl⟩
      · exact h.nonneg i x hx
      · exact (get_idx_of_mem (h.exists_free hi)).1
    · have hj : (Function.update s.pc i b j).bind chosen = some x := hj
      rw [Function.update_of_ne hji] at hj
      exact h.nonneg j x hj

theorem KiosksInv.of_reachable
    (h : Reachable checkInStep (fun _ _ => True) ⟨.init M, fun _ : ι => none⟩ s) : KiosksInv M s := by
  apply h.invariant kiosksInv_init
  intro t t' ht hstep
  obtain ⟨i, c, -, hnext⟩ := hstep
  exact ht.next hnext

/-! ### Outside the locked blocks -/

omit [DecidableEq ι] in
/-- Who is counted has marked a kiosk, but for those under the mutex. -/
theorem counted_kiosks (pc : ι → Option CheckIn) :
    Threads.count (Option.any counted) pc + Threads.count (Option.any vacating) pc =
      Threads.count (fun a => (Option.bind a kiosk).isSome) pc + Threads.count (Option.any choosing) pc := by
  apply count_add_eq
  intro a
  rcases a with _ | a
  · rfl
  · cases a <;> rfl

omit [DecidableEq ι] in
/-- With the mutex free nobody is at a point that it protects. -/
theorem CheckInInv.count_eq_zero (h : CheckInInv M s) (hfree : s.shared.check_in_count_mutex = false)
    {Q : CheckIn → Bool} (hQ : ∀ a, Q a = true → a.holds = true) :
    Threads.count (Option.any Q) s.pc = 0 := by
  have hle : Threads.count (Option.any Q) s.pc ≤ Threads.count (Option.any holds) s.pc := by
    apply count_le
    intro a ha
    obtain ⟨b, rfl, hb⟩ := (Option.any_eq_true _ _).mp ha
    exact hQ b hb
  have hmutex := h.mutex
  rw [hfree, Bool.toNat_false] at hmutex
  omega

omit [DecidableEq ι] in
theorem KiosksInv.check_in_count_eq (h : KiosksInv M s)
    (hfree : s.shared.check_in_count_mutex = false) :
    s.shared.check_in_count = s.shared.kiosks.count true := by
  have hchoosing : Threads.count (Option.any choosing) s.pc = 0 := by
    apply h.count_eq_zero hfree
    intro a ha
    cases a <;> first | rfl | cases ha
  have hvacating : Threads.count (Option.any vacating) s.pc = 0 := by
    apply h.count_eq_zero hfree
    intro a ha
    cases a <;> first | rfl | cases ha
  have hparts := counted_kiosks s.pc
  rw [hchoosing, hvacating, Nat.add_zero, Nat.add_zero] at hparts
  rw [h.count, h.marks.taken.number, hparts]

/-! ### Self check-in is safe -/

/-- Passengers, the array and the counter agree. -/
structure KiosksSafe (M : Nat) (s : State ι Kiosks (Option CheckIn)) : Prop where
  /-- `get_idx` finds a kiosk -/
  finds : ∀ i, s.pc i = some .get_kiosk →
    0 ≤ get_idx s.shared.kiosks false ∧ get_idx s.shared.kiosks false < M
  inRange : ∀ i x, (s.pc i).bind chosen = some x → 0 ≤ x ∧ x < M
  alone : ∀ i j x, (s.pc i).bind chosen = some x → (s.pc j).bind chosen = some x → i = j
  counts : s.shared.check_in_count_mutex = false →
    s.shared.check_in_count = s.shared.kiosks.count true
  /-- the marks are those of the passengers between start and finish -/
  occupied : s.shared.kiosks.count true = Threads.count (fun a => (Option.bind a kiosk).isSome) s.pc
  bounded : s.shared.kiosks.count true ≤ M

omit [DecidableEq ι] in
theorem KiosksInv.safe (hinv : KiosksInv M s) : KiosksSafe M s := by
  constructor
  · intro i hi
    have hmem := hinv.exists_free hi
    have hlt := get_idx_lt hmem
    rw [hinv.size] at hlt
    exact ⟨(get_idx_of_mem hmem).1, hlt⟩
  · intro i x hx
    have hpos := hinv.nonneg i x hx
    have hlt := hinv.marks.lt_length (CheckIn.chosen_cases hx)
    rw [hinv.size] at hlt
    exact ⟨hpos, by omega⟩
  · intro i j x hi hj
    apply hinv.marks.alone ?_ (CheckIn.chosen_cases hi) (CheckIn.chosen_cases hj)
    intro i j k l hk hl
    -- who has found a kiosk and not marked it holds the mutex
    cases hpc : s.pc i with
    | none =>
      rw [hpc] at hk
      cases hk
    | some a =>
      have ha : a.holds = true := by
        rw [hpc] at hk
        cases a <;> first | rfl | cases hk
      exact (hinv.finding_alone hpc ha hl).symm
  · exact hinv.check_in_count_eq
  · exact hinv.marks.taken.number
  · rw [← hinv.size]
    exact List.count_le_length

/-- Whatever the order in which passengers check in. -/
theorem check_in_safe
    (h : Reachable checkInStep (fun _ _ => True) ⟨.init M, fun _ : ι => none⟩ s) : KiosksSafe M s :=
  (KiosksInv.of_reachable h).safe

/-- The kiosks of the whole airport. -/
theorem simulate_kiosks_safe {N P : Nat} {VIP : ι → Bool} {r : State ι Shared Passenger}
    (h : Reachable (simulate P) (fun _ _ => True) (airportInit M N P VIP) r) :
    KiosksSafe M (kiosksOf r) :=
  (KiosksInv.of_reachable (h.map simulate_kiosks fun _ _ _ => trivial)).safe

/-- Two passengers and one kiosk: passenger 0 stands at it, passenger 1 is
    at the door. -/
theorem check_in_safe_oneKiosk :
    ∃ s : State (Fin 2) Kiosks (Option CheckIn), s.pc 0 = some (.lock_out 0) ∧ KiosksSafe 1 s := by
  let sched : List (Fin 2 × Unit) := [(0, ()), (1, ()), (0, ()), (0, ()), (0, ()), (0, ()), (0, ()), (0, ())]
  obtain ⟨s, hs, hpc⟩ : ∃ s, exec checkInStep sched ⟨.init 1, fun _ => none⟩ = some s ∧
      s.pc 0 = some (.lock_out 0) := ⟨_, rfl, by decide⟩
  exact ⟨s, hpc, check_in_safe (reachable_of_exec hs)⟩

end kiosks

end Airport
