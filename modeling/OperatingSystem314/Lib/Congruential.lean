import Mathlib.Algebra.Order.Ring.GeomSum
import Mathlib.Algebra.BigOperators.Intervals
import Mathlib.Data.Nat.ModEq
import Mathlib.Tactic.Ring

/-! # Linear congruential generators

    The sequence `x, (a * x + c) % m, …`, each number made from the one
    before it.

    * `iterate_modEq`: the number after `n` steps, up to multiples of `m`.
    * `iterate_of_dvd`: that number itself, from a multiple of `m` on.
    * `iterate_le`: the numbers do not grow past the modulus. -/

namespace Congruential

/-- A step of the generator. -/
def next (a c m x : Nat) : Nat := (a * x + c) % m

/-- The sum of the first `n` powers of `a`. -/
def powers (a n : Nat) : Nat := ∑ i ∈ Finset.range n, a ^ i

theorem powers_succ (a n : Nat) : powers a (n + 1) = a * powers a n + 1 := by
  unfold powers
  rw [Finset.sum_range_succ', Finset.mul_sum, pow_zero]
  congr 1
  apply Finset.sum_congr rfl
  intro i _
  ring

theorem powers_eq {a : Nat} (ha : 2 ≤ a) (n : Nat) : powers a n = (a ^ n - 1) / (a - 1) :=
  Nat.geomSum_eq ha n

/-- The division in the closed form of the sum leaves no remainder. -/
theorem mul_powers {a : Nat} (ha : 2 ≤ a) (c n : Nat) :
    c * powers a n = c * (a ^ n - 1) / (a - 1) := by
  have hdvd : a - 1 ∣ a ^ n - 1 := by
    simpa using Nat.sub_dvd_pow_sub_pow a 1 n
  rw [powers_eq ha, Nat.mul_div_assoc c hdvd]

section Sequence

variable {a c m : Nat}

theorem iterate_modEq (x n : Nat) :
    (next a c m)^[n] x ≡ a ^ n * x + c * powers a n [MOD m] := by
  induction n with
  | zero => simp [powers, Nat.ModEq.refl]
  | succ n ih =>
    rw [Function.iterate_succ_apply']
    have hstep : next a c m ((next a c m)^[n] x) ≡ a * (next a c m)^[n] x + c [MOD m] := Nat.mod_modEq _ m
    have hlin : a * (next a c m)^[n] x + c ≡ a * (a ^ n * x + c * powers a n) + c [MOD m] :=
      (ih.mul_left a).add_right c
    have hsum : a * (a ^ n * x + c * powers a n) + c = a ^ (n + 1) * x + c * powers a (n + 1) := by
      rw [powers_succ]
      ring
    exact hsum ▸ hstep.trans hlin

theorem iterate_lt (hm : 0 < m) (x : Nat) {n : Nat} (hn : n ≠ 0) : (next a c m)^[n] x < m := by
  obtain ⟨k, rfl⟩ := Nat.exists_eq_succ_of_ne_zero hn
  rw [Function.iterate_succ_apply']
  exact Nat.mod_lt _ hm

theorem iterate_le (hm : 0 < m) {x : Nat} (hx : x ≤ m) (n : Nat) : (next a c m)^[n] x ≤ m := by
  by_cases hn : n = 0
  · subst hn
    exact hx
  · exact (iterate_lt hm x hn).le

/-- From a multiple of the modulus on, the first number drops out. -/
theorem iterate_of_dvd (ha : 2 ≤ a) (hm : 0 < m) {x : Nat} (hx : m ∣ x) {n : Nat} (hn : n ≠ 0) :
    (next a c m)^[n] x = c * (a ^ n - 1) / (a - 1) % m := by
  have hmod : (next a c m)^[n] x % m = c * powers a n % m := by
    have hzero : a ^ n * x ≡ 0 [MOD m] := (Nat.modEq_zero_iff_dvd.mpr hx).mul_left (a ^ n)
    have hdrop := hzero.add_right (c * powers a n)
    rw [Nat.zero_add] at hdrop
    exact (iterate_modEq x n).trans hdrop
  rw [← mul_powers ha, ← hmod, Nat.mod_eq_of_lt (iterate_lt hm x hn)]

end Sequence

end Congruential
