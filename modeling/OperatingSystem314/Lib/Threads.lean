import Mathlib.Algebra.Order.BigOperators.Group.Finset
import Mathlib.Data.Fintype.Basic
import Mathlib.Logic.Relation
import OperatingSystem314.Lib.Sizes

/-! # Threads that take turns

    Threads `ι` run the same program over a shared state `σ`, each at a
    program point of `α`.  A program is a partial function
    `step : σ → α → κ → Option (σ × α)`, where `κ` are the choices it leaves
    open; where it is `none` the thread has to wait.

    * `next`: one thread takes a step.
    * `Reachable`: any threads have taken steps in any order, each step
      under a guard `G`.
    * `count`: how many threads are at a program point of some kind, and
      how a step of one thread changes that number. -/

namespace Threads

variable {ι σ α κ : Type}

structure State (ι σ α : Type) where
  shared : σ
  pc : ι → α

section count

variable [Fintype ι]

/-- The number of threads at a program point that satisfies `P`. -/
def count (P : α → Bool) (pc : ι → α) : Nat := ∑ i, (P (pc i)).toNat

variable {P Q : α → Bool} {pc : ι → α} {i j : ι} {a b : α}

theorem one_le_count (h : P (pc i) = true) : 1 ≤ count P pc := by
  have := Finset.single_le_sum (f := fun i => (P (pc i)).toNat) (fun _ _ => Nat.zero_le _)
    (Finset.mem_univ i)
  simp only [h, Bool.toNat_true] at this
  exact this

theorem exists_of_count_pos (h : 0 < count P pc) : ∃ i, P (pc i) = true := by
  by_contra hnone
  push Not at hnone
  have : count P pc = 0 := Finset.sum_eq_zero fun i _ => by simp [hnone i]
  omega

/-- Points of one kind are of the other, too. -/
theorem count_le (h : ∀ a, P a = true → Q a = true) : count P pc ≤ count Q pc := by
  apply Finset.sum_le_sum
  intro i _
  cases hP : P (pc i) with
  | false => exact Nat.zero_le _
  | true => rw [h _ hP]

/-- Kinds of points that are made up of the same points are as frequent. -/
theorem count_add_le {R : α → Bool} (h : ∀ a, (P a).toNat + (Q a).toNat ≤ (R a).toNat) :
    count P pc + count Q pc ≤ count R pc := by
  unfold count
  rw [← Finset.sum_add_distrib]
  exact Finset.sum_le_sum fun i _ => h (pc i)

theorem count_add_eq {R S : α → Bool}
    (h : ∀ a, (P a).toNat + (Q a).toNat = (R a).toNat + (S a).toNat) :
    count P pc + count Q pc = count R pc + count S pc := by
  unfold count
  rw [← Finset.sum_add_distrib, ← Finset.sum_add_distrib]
  exact Finset.sum_congr rfl fun i _ => h (pc i)

theorem count_const (a : α) (h : P a = false) : count P (fun _ : ι => a) = 0 := by
  apply Finset.sum_eq_zero
  intro i _
  rw [h]
  rfl

variable [DecidableEq ι]

/-- What a change of one share does to a sum. -/
theorem sum_update (w : ι → Nat) (i : ι) (n : Nat) : ∑ j, Function.update w i n j + w i = ∑ j, w j + n := by
  have hrest : ∑ j ∈ Finset.univ.erase i, Function.update w i n j = ∑ j ∈ Finset.univ.erase i, w j := by
    apply Finset.sum_congr rfl
    intro j hj
    rw [Function.update_of_ne (Finset.ne_of_mem_erase hj)]
  have hold := Finset.add_sum_erase Finset.univ w (Finset.mem_univ i)
  have hnew := Finset.add_sum_erase Finset.univ (Function.update w i n) (Finset.mem_univ i)
  rw [Function.update_self, hrest] at hnew
  omega

/-- What a step of one thread does to a count. -/
theorem count_update (P : α → Bool) (pc : ι → α) (i : ι) (b : α) :
    count P (Function.update pc i b) + (P (pc i)).toNat = count P pc + (P b).toNat := by
  have hcomp : (fun j => (P (Function.update pc i b j)).toNat) =
      Function.update (fun j => (P (pc j)).toNat) i (P b).toNat :=
    Function.comp_update (fun a => (P a).toNat) pc i b
  have hsum := sum_update (fun j => (P (pc j)).toNat) i (P b).toNat
  rw [← hcomp] at hsum
  exact hsum

/-- Two threads at points of one kind. -/
theorem two_le_count (hij : i ≠ j) (hi : P (pc i) = true) (hj : P (pc j) = true) :
    2 ≤ count P pc := by
  have hold := Finset.add_sum_erase Finset.univ (fun j => (P (pc j)).toNat) (Finset.mem_univ i)
  have hmem : j ∈ Finset.univ.erase i := Finset.mem_erase.mpr ⟨hij.symm, Finset.mem_univ j⟩
  have hsingle := Finset.single_le_sum (f := fun j => (P (pc j)).toNat)
    (fun _ _ => Nat.zero_le _) hmem
  simp only [hi, hj, Bool.toNat_true] at hold hsingle
  unfold count
  omega

/-- Where there is room for one thread in a region, two in it are one. -/
theorem eq_of_count_le_one (hone : count P pc ≤ 1) (hi : P (pc i) = true) (hj : P (pc j) = true) : i = j := by
  by_contra hij
  have htwo : 2 ≤ count P pc := two_le_count hij hi hj
  omega

/-- Where only one thread is in a region, it is the only one at a point in it. -/
theorem count_of_alone (hPQ : ∀ a, P a = true → Q a = true) (hone : count Q pc ≤ 1)
    (hi : Q (pc i) = true) : count P pc = (P (pc i)).toNat := by
  have hle : count P pc ≤ count Q pc := count_le hPQ
  cases hP : P (pc i) with
  | true =>
    have := one_le_count hP
    rw [Bool.toNat_true]
    omega
  | false =>
    rw [Bool.toNat_false]
    by_contra hzero
    obtain ⟨j, hj⟩ := exists_of_count_pos (Nat.pos_of_ne_zero hzero)
    have hij : i ≠ j := by
      intro hij
      rw [hij, hj] at hP
      cases hP
    have := two_le_count hij hi (hPQ _ hj)
    omega

end count

section run

variable [DecidableEq ι] (step : σ → α → κ → Option (σ × α))

/-- Thread `i` takes a step, with choice `c`. -/
def next (s : State ι σ α) (i : ι) (c : κ) : Option (State ι σ α) :=
  (step s.shared (s.pc i) c).map fun (x, a) => { shared := x, pc := Function.update s.pc i a }

theorem next_eq_some {s s' : State ι σ α} {i : ι} {c : κ} :
    next step s i c = some s' ↔
      ∃ x a, step s.shared (s.pc i) c = some (x, a) ∧ s' = ⟨x, Function.update s.pc i a⟩ := by
  unfold next
  cases step s.shared (s.pc i) c with
  | none => simp
  | some y =>
    obtain ⟨x, a⟩ := y
    simp [eq_comm]

/-- Some thread takes a step that the guard allows. -/
def Step (G : State ι σ α → ι → Prop) (s s' : State ι σ α) : Prop :=
  ∃ i c, G s i ∧ next step s i c = some s'

/-- No thread can take a step. -/
def Stuck (s : State ι σ α) : Prop := ∀ i c, next step s i c = none

/-- The states that steps under the guard lead to. -/
def Reachable (G : State ι σ α → ι → Prop) (init s : State ι σ α) : Prop :=
  Relation.ReflTransGen (Step step G) init s

variable {step} {G G' : State ι σ α → ι → Prop} {s s' init : State ι σ α}

/-- What holds at the start and is kept by every step holds throughout. -/
theorem Reachable.invariant {Inv : State ι σ α → Prop} (h : Reachable step G init s)
    (hinit : Inv init) (hstep : ∀ s s', Inv s → Step step G s s' → Inv s') : Inv s := by
  induction h with
  | refl => exact hinit
  | tail _ hlast ih => exact hstep _ _ ih hlast

theorem Step.mono (hG : ∀ s i, G s i → G' s i) (h : Step step G s s') : Step step G' s s' := by
  obtain ⟨i, c, hg, hnext⟩ := h
  exact ⟨i, c, hG s i hg, hnext⟩

/-- A guard may be dropped. -/
theorem Reachable.mono (hG : ∀ s i, G s i → G' s i) (h : Reachable step G init s) :
    Reachable step G' init s :=
  Relation.ReflTransGen.mono (fun _ _ => Step.mono hG) _ _ h

/-- What some of the threads can do they can do in the company of others,
    which may do nothing. -/
theorem Reachable.embed {ι' : Type} [DecidableEq ι'] {f : ι → ι'} (hf : Function.Injective f)
    (h : Reachable step (fun _ _ => True) s s') {r : State ι' σ α} (hshared : r.shared = s.shared)
    (hpc : ∀ i, r.pc (f i) = s.pc i) :
    ∃ r', Reachable step (fun _ _ => True) r r' ∧ r'.shared = s'.shared ∧ ∀ i, r'.pc (f i) = s'.pc i := by
  induction h with
  | refl => exact ⟨r, .refl, hshared, hpc⟩
  | tail _ hlast ih =>
    obtain ⟨r', hr', hshared', hpc'⟩ := ih
    obtain ⟨i, c, -, hnext⟩ := hlast
    obtain ⟨x, a, hx, rfl⟩ := (next_eq_some step).mp hnext
    have hx' : step r'.shared (r'.pc (f i)) c = some (x, a) := by rw [hshared', hpc', hx]
    refine ⟨⟨x, Function.update r'.pc (f i) a⟩, hr'.tail ⟨f i, c, trivial, ?_⟩, rfl, ?_⟩
    · exact (next_eq_some step).mpr ⟨x, a, hx', rfl⟩
    · intro j
      by_cases hji : j = i
      · simp [hji]
      · have hne : f j ≠ f i := fun heq => hji (hf heq)
        simp [hji, hne, hpc']

end run

/-! ### Semaphores and mutexes -/

section semaphore

variable [Fintype ι] [DecidableEq ι] {step : σ → α → κ → Option (σ × α)} {s s' : State ι σ α} {i : ι}
  {c : κ} {P : α → Bool}

/-- The value of a semaphore and the threads that it let in are one number,
    where every step keeps that of its thread. -/
theorem semaphore_next {value : σ → Nat} (hnext : next step s i c = some s')
    (hstep : ∀ x b, step s.shared (s.pc i) c = some (x, b) →
      value x + (P b).toNat = value s.shared + (P (s.pc i)).toNat) :
    value s'.shared + count P s'.pc = value s.shared + count P s.pc := by
  obtain ⟨x, b, hx, rfl⟩ := (next_eq_some step).mp hnext
  have hnum := count_update P s.pc i b
  have hvalue := hstep x b hx
  show value x + count P (Function.update s.pc i b) = _
  omega

/-- A step takes the mutex `m`, gives it back or has nothing to do with it. -/
def Locks (m : σ → Bool) (P : α → Bool) (x : σ) (a : α) (x' : σ) (b : α) : Prop :=
  (m x = false ∧ P a = false ∧ m x' = true ∧ P b = true) ∨
    (P a = true ∧ m x' = false ∧ P b = false) ∨ (m x' = m x ∧ P b = P a)

/-- A mutex is held as long as a thread is in the region it protects. -/
theorem mutex_next {m : σ → Bool} (h : (m s.shared).toNat = count P s.pc)
    (hnext : next step s i c = some s')
    (hstep : ∀ x b, step s.shared (s.pc i) c = some (x, b) → Locks m P s.shared (s.pc i) x b) :
    (m s'.shared).toNat = count P s'.pc := by
  obtain ⟨x, b, hx, rfl⟩ := (next_eq_some step).mp hnext
  have hnum := count_update P s.pc i b
  have hle := Bool.toNat_le (m s.shared)
  show (m x).toNat = count P (Function.update s.pc i b)
  rcases hstep x b hx with ⟨hm, ha, hm', hb⟩ | ⟨ha, hm', hb⟩ | ⟨hm, hb⟩
  · rw [hm, Bool.toNat_false] at h
    rw [ha, hb, Bool.toNat_true, Bool.toNat_false] at hnum
    rw [hm', Bool.toNat_true]
    omega
  · have hone := one_le_count ha
    rw [ha, hb, Bool.toNat_true, Bool.toNat_false] at hnum
    rw [hm', Bool.toNat_false]
    omega
  · rw [hb] at hnum
    rw [hm]
    omega

end semaphore

/-! ### Simulation -/

/-- Another view of the shared state and of the program points. -/
def State.map {σ' α' : Type} (f : σ → σ') (g : α → α') (s : State ι σ α) : State ι σ' α' :=
  { shared := f s.shared, pc := fun i => g (s.pc i) }

section simulation

variable [DecidableEq ι] {σ' α' κ' : Type} {step : σ → α → κ → Option (σ × α)}
  {step' : σ' → α' → κ' → Option (σ' × α')} {f : σ → σ'} {g : α → α'}

/-- Where each step of a thread is a step of another program in the other
    view, or none, so is each step of the threads. -/
theorem next_map
    (hstep : ∀ {x a c x' a'}, step x a c = some (x', a') →
      (f x' = f x ∧ g a' = g a) ∨ ∃ c', step' (f x) (g a) c' = some (f x', g a'))
    {s s' : State ι σ α} {i : ι} {c : κ} (h : next step s i c = some s') :
    s'.map f g = s.map f g ∨ ∃ c', next step' (s.map f g) i c' = some (s'.map f g) := by
  obtain ⟨x, a, hx, rfl⟩ := (next_eq_some step).mp h
  have hpc : (fun j => g (Function.update s.pc i a j)) = Function.update (s.map f g).pc i (g a) := by
    funext j
    by_cases hj : j = i
    · subst hj
      simp
    · simp [hj, State.map]
  rcases hstep hx with ⟨hf, hg⟩ | ⟨c', hc'⟩
  · left
    have hsame : Function.update (s.map f g).pc i (g a) = (s.map f g).pc := by
      rw [hg]
      exact Function.update_eq_self i _
    simp only [State.map, hf, hpc]
    exact congrArg _ hsame
  · right
    refine ⟨c', (next_eq_some step').mpr ⟨f x, g a, hc', ?_⟩⟩
    simp only [State.map, hpc]

theorem Reachable.map {G : State ι σ α → ι → Prop} {G' : State ι σ' α' → ι → Prop}
    (hstep : ∀ {x a c x' a'}, step x a c = some (x', a') →
      (f x' = f x ∧ g a' = g a) ∨ ∃ c', step' (f x) (g a) c' = some (f x', g a'))
    (hG : ∀ s i, G s i → G' (s.map f g) i) {init s : State ι σ α} (h : Reachable step G init s) :
    Reachable step' G' (init.map f g) (s.map f g) := by
  induction h with
  | refl => exact .refl
  | tail _ hlast ih =>
    obtain ⟨i, c, hg, hnext⟩ := hlast
    rcases next_map hstep hnext with hsame | ⟨c', hc'⟩
    · rwa [hsame]
    · exact ih.tail ⟨i, c', hG _ i hg, hc'⟩

end simulation

/-- Runs a schedule: which thread takes a step, and with which choice. -/
def exec [DecidableEq ι] (step : σ → α → κ → Option (σ × α)) :
    List (ι × κ) → State ι σ α → Option (State ι σ α)
  | [], s => some s
  | (i, c) :: rest, s => (next step s i c).bind (exec step rest)

theorem reachable_of_exec [DecidableEq ι] {step : σ → α → κ → Option (σ × α)}
    {sched : List (ι × κ)} {s s' : State ι σ α} (h : exec step sched s = some s') :
    Reachable step (fun _ _ => True) s s' := by
  induction sched generalizing s with
  | nil =>
    cases h
    exact .refl
  | cons e rest ih =>
    obtain ⟨i, c⟩ := e
    simp only [exec, Option.bind_eq_some_iff] at h
    obtain ⟨t, hnext, hrest⟩ := h
    exact .head ⟨i, c, trivial, hnext⟩ (ih hrest)

/-- Runs a schedule whose steps are to meet the guard. -/
def execUnder [DecidableEq ι] (step : σ → α → κ → Option (σ × α)) (G : State ι σ α → ι → Prop)
    [∀ s i, Decidable (G s i)] : List (ι × κ) → State ι σ α → Option (State ι σ α)
  | [], s => some s
  | (i, c) :: rest, s => if G s i then (next step s i c).bind (execUnder step G rest) else none

theorem reachable_of_execUnder [DecidableEq ι] {step : σ → α → κ → Option (σ × α)}
    {G : State ι σ α → ι → Prop} [∀ s i, Decidable (G s i)] {sched : List (ι × κ)}
    {s s' : State ι σ α} (h : execUnder step G sched s = some s') : Reachable step G s s' := by
  induction sched generalizing s with
  | nil =>
    cases h
    exact .refl
  | cons e rest ih =>
    obtain ⟨i, c⟩ := e
    unfold execUnder at h
    split at h
    · rename_i hg
      obtain ⟨t, hnext, hrest⟩ := Option.bind_eq_some_iff.mp h
      exact .head ⟨i, c, hg, hnext⟩ (ih hrest)
    · cases h

end Threads
