import OperatingSystem314.Airport.Stations
import OperatingSystem314.Lib.Slots

/-! # Who stands on which belt

    `security_check` picks a slot with `get_idx` and marks it in `belts`,
    both under `belts_count_mutex`, and clears the mark when it is done.

    * `BeltsInv`: the marks in `belts` are those of the passengers that have
      been given a slot.
    * `security_check_safe`: no slot is shared, no belt is over-occupied, and
      outside the critical sections `belts_count` and `sec_check_empty` say
      how many slots are taken. -/

namespace Airport

open Threads

/-! ### The slots of a passenger -/

namespace Security

/-- What `get_idx` returned to the passenger. -/
def chosen : Security → Option Int
  | occupy a | test_full a | wait_belt a | unlock_in a | lock_out a | count_out a | vacate a => some a
  | _ => none

/-- The slot that the passenger has marked. -/
def slot : Security → Option Nat
  | test_full a | wait_belt a | unlock_in a | lock_out a | count_out a | vacate a => some a.toNat
  | _ => none

/-- The slot that it has found and not marked yet. -/
def finding : Security → Option Nat
  | occupy a => some a.toNat
  | _ => none

/-- About to get a slot. -/
def choosing : Security → Bool
  | get_belt | occupy _ => true
  | _ => false

def vacating : Security → Bool
  | vacate _ => true
  | _ => false

end Security

open Security

/-- The index that is stored with is one that `get_idx` returned. -/
theorem securityStep_chosen {P : Nat} {k k' : Belts} {a b : Option Security} {c : Unit}
    (h : securityStep P k a c = some (k', b)) {x : Int} (hx : b.bind chosen = some x) :
    a.bind chosen = some x ∨ (a = some .get_belt ∧ x = get_idx k.belts false) := by
  cases a with
  | none =>
    cases h
    cases hx
  | some a =>
    cases a with
    | wait_empty =>
      obtain ⟨-, h⟩ := waitStep_eq_some.mp h
      cases h
      cases hx
    | wait_belt _ =>
      obtain ⟨-, h⟩ := waitStep_eq_some.mp h
      cases h
      exact .inl hx
    | lock_in =>
      obtain ⟨-, h⟩ := lockStep_eq_some.mp h
      cases h
      cases hx
    | lock_out _ =>
      obtain ⟨-, h⟩ := lockStep_eq_some.mp h
      cases h
      exact .inl hx
    | get_belt =>
      cases h
      cases hx
      exact .inr ⟨rfl, rfl⟩
    | occupy _ | unlock_in _ | count_out _ =>
      cases h
      exact .inl hx
    | test_full _ =>
      cases h
      split at hx
      · exact .inl hx
      · exact .inl hx
    | test_full_out =>
      cases h
      split at hx
      · cases hx
      · cases hx
    | count_in | vacate _ | post_belt | unlock_out | post_empty =>
      cases h
      cases hx

/-- What a step does to the slots. -/
theorem securityStep_slots {P : Nat} {k k' : Belts} {a b : Option Security} {c : Unit}
    (h : securityStep P k a c = some (k', b)) (hfree : a = some .get_belt → false ∈ k.belts)
    (hpos : ∀ x, a.bind chosen = some x → 0 ≤ x) :
    SlotStep (fun a => a.bind slot) (fun a => a.bind finding) k.belts a b k'.belts := by
  cases a with
  | none =>
    cases h
    exact .keep rfl rfl rfl
  | some a =>
    cases a with
    | wait_empty | wait_belt _ =>
      obtain ⟨-, h⟩ := waitStep_eq_some.mp h
      cases h
      exact .keep rfl rfl rfl
    | lock_in | lock_out _ =>
      obtain ⟨-, h⟩ := lockStep_eq_some.mp h
      cases h
      exact .keep rfl rfl rfl
    | get_belt =>
      cases h
      exact .find _ rfl (get_idx_of_mem (hfree rfl)).2 rfl rfl
    | occupy x =>
      cases h
      exact .take _ rfl (store_of_nonneg (hpos x rfl) true) rfl rfl rfl
    | vacate x =>
      cases h
      exact .give _ rfl (store_of_nonneg (hpos x rfl) false) rfl rfl
    | test_full _ | test_full_out =>
      cases h
      split
      · exact .keep rfl rfl rfl
      · exact .keep rfl rfl rfl
    | _ =>
      cases h
      exact .keep rfl rfl rfl

/-- Who changes the array holds the mutex. -/
theorem securityStep_holds {P : Nat} {k k' : Belts} {a b : Option Security} {c : Unit}
    (h : securityStep P k a c = some (k', b)) (hne : k'.belts ≠ k.belts) :
    ∃ x, a = some x ∧ x.holds = true := by
  cases a with
  | none =>
    cases h
    exact absurd rfl hne
  | some a =>
    cases a with
    | wait_empty | wait_belt _ =>
      obtain ⟨-, h⟩ := waitStep_eq_some.mp h
      cases h
      exact absurd rfl hne
    | lock_in | lock_out _ =>
      obtain ⟨-, h⟩ := lockStep_eq_some.mp h
      cases h
      exact absurd rfl hne
    | occupy _ | vacate _ => exact ⟨_, rfl, rfl⟩
    | _ =>
      cases h
      exact absurd rfl hne

/-! ### The invariant -/

section belts

variable {ι : Type} [Fintype ι] {N P : Nat} {s s' : State ι Belts (Option Security)}

structure BeltsInv (N P : Nat) (s : State ι Belts (Option Security)) : Prop extends SecurityInv N P s where
  size : s.shared.belts.length = N * P
  taken : Taken (fun a => a.bind slot) s.shared.belts s.pc
  /-- what `get_idx` returned is still free when it is stored to -/
  found : ∀ i x, s.pc i = some (.occupy x) → s.shared.belts[x.toNat]? = some false
  nonneg : ∀ i x, (s.pc i).bind chosen = some x → 0 ≤ x

theorem beltsInv_init : BeltsInv N P (⟨.init N P, fun _ => none⟩ : State ι Belts (Option Security)) := by
  refine ⟨securityInv_init, ?_, taken_init rfl _, ?_, ?_⟩
  · exact List.length_replicate
  · intro i x hi
    cases hi
  · intro i x hi
    cases hi

/-- A passenger that looks for a slot finds one. -/
theorem BeltsInv.exists_free (h : BeltsInv N P s) {i : ι} (hi : s.pc i = some .get_belt) :
    false ∈ s.shared.belts := by
  apply h.taken.exists_free
  rw [h.size]
  -- with the passenger itself there are no more than `N * P` inside
  have hchoosing : 1 ≤ num choosing s.pc := one_le_count (by rw [hi]; rfl)
  have hsum : count (fun a => (Option.bind a slot).isSome) s.pc + num choosing s.pc ≤ num inside s.pc := by
    apply count_add_le
    intro a
    rcases a with _ | a
    · exact Nat.le_refl 0
    · cases a <;> first | exact Nat.le_refl _ | exact Nat.zero_le _
  have hseats := h.seats
  omega

variable [DecidableEq ι]

omit [DecidableEq ι] in
/-- Only the holder of the mutex has found a slot and not marked it. -/
theorem BeltsInv.finding_alone (h : BeltsInv N P s) {i j : ι} {a : Security} {k : Nat}
    (hi : s.pc i = some a) (ha : a.holds = true) (hj : (s.pc j).bind finding = some k) : j = i := by
  classical
  have hone : num holds s.pc ≤ 1 := by
    rw [← h.mutex]
    exact Bool.toNat_le _
  apply eq_of_count_le_one hone
  · cases hpc : s.pc j with
    | none =>
      rw [hpc] at hj
      cases hj
    | some b =>
      rw [hpc] at hj
      cases b <;> first | rfl | cases hj
  · rw [hi]
    exact ha

omit [DecidableEq ι] in
theorem BeltsInv.marks (h : BeltsInv N P s) :
    Searching (fun a => a.bind slot) (fun a => a.bind finding) s.shared.belts s.pc := by
  refine ⟨h.taken, ?_⟩
  intro i k hk
  cases hpc : s.pc i with
  | none =>
    rw [hpc] at hk
    cases hk
  | some a =>
    rw [hpc] at hk
    cases a with
    | occupy x =>
      cases hk
      exact h.found i x hpc
    | _ => cases hk

theorem BeltsInv.next (h : BeltsInv N P s) {i : ι} {c : Unit}
    (hnext : next (securityStep P) s i c = some s') : BeltsInv N P s' := by
  have hinv := h.toSecurityInv.next hnext
  obtain ⟨k', b, hstep, rfl⟩ := (next_eq_some (securityStep P)).mp hnext
  have hslots := securityStep_slots hstep h.exists_free (h.nonneg i)
  have hmarks := h.marks.next hslots <| by
    intro hne j hji
    obtain ⟨a, hi, ha⟩ := securityStep_holds hstep hne
    by_contra hj
    obtain ⟨x, hx⟩ := Option.ne_none_iff_exists'.mp hj
    exact hji (h.finding_alone hi ha hx)
  refine ⟨hinv, hslots.length_eq.trans h.size, hmarks.taken, ?_, ?_⟩
  · intro j x hj
    have hj : Function.update s.pc i b j = some (.occupy x) := hj
    exact hmarks.free j x.toNat (by rw [hj]; rfl)
  · intro j x hj
    by_cases hji : j = i
    · simp only [hji, Function.update_self] at hj
      rcases securityStep_chosen hstep hj with hx | ⟨hi, rfl⟩
      · exact h.nonneg i x hx
      · exact (get_idx_of_mem (h.exists_free hi)).1
    · have hj : (Function.update s.pc i b j).bind chosen = some x := hj
      rw [Function.update_of_ne hji] at hj
      exact h.nonneg j x hj

theorem BeltsInv.of_reachable
    (h : Reachable (securityStep P) (fun _ _ => True) ⟨.init N P, fun _ : ι => none⟩ s) :
    BeltsInv N P s := by
  apply h.invariant beltsInv_init
  intro t t' ht hstep
  obtain ⟨i, c, -, hnext⟩ := hstep
  exact ht.next hnext

/-! ### Outside the critical sections -/

omit [DecidableEq ι] in
/-- With the mutex free nobody is at a point that it protects. -/
theorem BeltsInv.num_eq_zero (h : BeltsInv N P s) (hfree : s.shared.belts_count_mutex = false)
    {Q : Security → Bool} (hQ : Held Q) : num Q s.pc = 0 := by
  have hle : num Q s.pc ≤ num holds s.pc := by
    apply count_le
    intro a ha
    obtain ⟨b, rfl, hb⟩ := (Option.any_eq_true _ _).mp ha
    exact hQ b hb
  have hmutex := h.mutex
  rw [hfree, Bool.toNat_false] at hmutex
  omega

theorem held_choosing : Held choosing := by
  intro a ha
  cases a <;> first | rfl | cases ha

theorem held_vacating : Held vacating := by
  intro a ha
  cases a <;> first | rfl | cases ha

omit [DecidableEq ι] in
/-- Who is counted has marked a slot, but for those under the mutex. -/
theorem counted_slots (pc : ι → Option Security) :
    num counted pc + num vacating pc = count (fun a => (Option.bind a slot).isSome) pc + num choosing pc := by
  apply count_add_eq
  intro a
  rcases a with _ | a
  · rfl
  · cases a <;> rfl

omit [DecidableEq ι] in
theorem BeltsInv.belts_count_eq (h : BeltsInv N P s) (hfree : s.shared.belts_count_mutex = false) :
    s.shared.belts_count = s.shared.belts.count true := by
  have hslots := counted_slots s.pc
  rw [h.num_eq_zero hfree held_choosing, h.num_eq_zero hfree held_vacating, Nat.add_zero, Nat.add_zero] at hslots
  rw [h.count, h.taken.number, hslots]

omit [DecidableEq ι] in
theorem BeltsInv.sec_check_empty_eq (h : BeltsInv N P s) (hfree : s.shared.belts_count_mutex = false) :
    (s.shared.sec_check_empty : Int) = N - s.shared.belts_count / P := by
  have hparts := counted_owing s.pc
  rw [h.num_eq_zero hfree held_owing, h.num_eq_zero hfree held_pending, Nat.add_zero, Nat.add_zero] at hparts
  have hfull := h.full
  rw [← hparts] at hfull
  rw [h.count, ← Int.natCast_ediv]
  omega

/-! ### The security check is safe -/

/-- Passengers, the array, the counter and the semaphore agree. -/
structure BeltsSafe (N P : Nat) (s : State ι Belts (Option Security)) : Prop where
  /-- `get_idx` finds a slot -/
  finds : ∀ i, s.pc i = some .get_belt →
    0 ≤ get_idx s.shared.belts false ∧ get_idx s.shared.belts false < N * P
  inRange : ∀ i x, (s.pc i).bind chosen = some x → 0 ≤ x ∧ x < N * P
  alone : ∀ i j x, (s.pc i).bind chosen = some x → (s.pc j).bind chosen = some x → i = j
  /-- the passengers on belt `b` -/
  perBelt : ∀ b, count (fun a => (Option.bind a slot).any fun x => x / P = b) s.pc ≤ P
  counts : s.shared.belts_count_mutex = false → s.shared.belts_count = s.shared.belts.count true
  bounded : s.shared.belts_count ≤ N * P
  /-- `sem_wait(&sec_check_empty)` does not wait -/
  passes : ∀ i x, s.pc i = some (.wait_belt x) → stepSecurity P s.shared (.wait_belt x) ≠ none
  full : s.shared.belts_count_mutex = false →
    (s.shared.sec_check_empty : Int) = N - s.shared.belts_count / P

omit [Fintype ι] [DecidableEq ι] in
/-- A passenger that was given a slot has marked it, or is about to. -/
theorem chosen_cases {a : Option Security} {x : Int} (h : a.bind chosen = some x) :
    a.bind slot = some x.toNat ∨ a.bind finding = some x.toNat := by
  rcases a with _ | a
  · cases h
  · cases a <;> cases h <;> first | exact .inl rfl | exact .inr rfl

omit [DecidableEq ι] in
theorem BeltsInv.chosen_lt (h : BeltsInv N P s) {i : ι} {x : Int}
    (hx : (s.pc i).bind chosen = some x) : x.toNat < N * P :=
  h.size ▸ h.marks.lt_length (chosen_cases hx)

omit [DecidableEq ι] in
theorem BeltsInv.chosen_alone (h : BeltsInv N P s) {i j : ι} {x : Int}
    (hi : (s.pc i).bind chosen = some x) (hj : (s.pc j).bind chosen = some x) : i = j := by
  apply h.marks.alone ?_ (chosen_cases hi) (chosen_cases hj)
  intro i j k l hk hl
  -- who has found a slot and not marked it holds the mutex
  cases hpc : s.pc i with
  | none =>
    rw [hpc] at hk
    cases hk
  | some a =>
    have ha : a.holds = true := by
      rw [hpc] at hk
      cases a <;> first | rfl | cases hk
    exact (h.finding_alone hpc ha hl).symm

/-- Whatever the order in which passengers go through the security check. -/
theorem security_check_safe (hP : 1 ≤ P)
    (h : Reachable (securityStep P) (fun _ _ => True) ⟨.init N P, fun _ : ι => none⟩ s) :
    BeltsSafe N P s := by
  have hinv := BeltsInv.of_reachable h
  have hsize : ((s.shared.belts.length : Nat) : Int) = N * P := by
    rw [hinv.size, Int.natCast_mul]
  constructor
  · intro i hi
    have hmem := hinv.exists_free hi
    have hlt := get_idx_lt hmem
    exact ⟨(get_idx_of_mem hmem).1, by omega⟩
  · intro i x hx
    have hpos := hinv.nonneg i x hx
    have hlt := hinv.chosen_lt hx
    rw [← hinv.size] at hlt
    exact ⟨hpos, by omega⟩
  · intro i j x hi hj
    exact hinv.chosen_alone hi hj
  · intro b
    exact hinv.taken.count_block_le hP b
  · exact hinv.belts_count_eq
  · have hle := counted_le s.pc
    have hseats := hinv.seats
    have hnat : num counted s.pc ≤ N * P := by omega
    rw [hinv.count]
    exact_mod_cast hnat
  · intro i x hi hnone
    have hpos := sec_check_pos hinv.toSecurityInv hi
    have hzero := waitStep_eq_none.mp hnone
    omega
  · exact hinv.sec_check_empty_eq

/-- One belt for one passenger: passenger 0 fills it and is about to wait
    for it, passenger 1 is at the door. -/
theorem security_check_safe_oneBelt :
    ∃ s : State (Fin 2) Belts (Option Security), s.pc 0 = some (.wait_belt 0) ∧ BeltsSafe 1 1 s := by
  let sched : List (Fin 2 × Unit) := [(0, ()), (1, ()), (0, ()), (0, ()), (0, ()), (0, ()), (0, ()), (0, ())]
  obtain ⟨s, hs, hpc⟩ : ∃ s, exec (securityStep 1) sched ⟨.init 1 1, fun _ => none⟩ = some s ∧
      s.pc 0 = some (.wait_belt 0) := ⟨_, rfl, by decide⟩
  exact ⟨s, hpc, security_check_safe (by decide) (reachable_of_exec hs)⟩

end belts

end Airport
