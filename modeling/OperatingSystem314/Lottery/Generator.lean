import OperatingSystem314.Lib.Congruential
import OperatingSystem314.Lottery.Accounting

/-! # The numbers of `random`

    `random` is a linear congruential generator whose modulus is its seed.
    The first of its 500 rounds starts from the modulus itself, which is
    zero to the generator, so the result depends on the seed in no other
    way than as the modulus.

    * `random_closed_form`: the number it returns, and the ticket drawn
      with it. -/

namespace Lottery

/-- The number that the rounds compute, before any reduction. -/
def drawn : Nat := 11 * (5 ^ 500 - 1) / 4

/-- In none of the `i` rounds to go does `a*xn + c` leave the 32 bits. -/
def RoundsFit (m : Nat) : (i : Nat) → (xn : Nat) → Prop
  | 0, _ => True
  | i + 1, xn => 5 * xn + 11 < 2 ^ 32 ∧ RoundsFit m i ((5 * xn + 11) % 2 ^ 32 % m)

/-! ### The loop -/

section Loop

variable {m : Nat}

/-- A number that is at most the modulus stays so, and the product with it
    stays within the 32 bits. -/
theorem roundsFit (hm : 1 ≤ m) (hfits : 5 * m + 11 < 2 ^ 32) (i : Nat) {xn : Nat} (hxn : xn ≤ m) :
    RoundsFit m i xn := by
  induction i generalizing xn with
  | zero => trivial
  | succ i ih =>
    constructor
    · omega
    · exact ih (Nat.mod_lt _ hm).le

/-- Without overflow, the loop steps the generator. -/
theorem randomLoop_eq (hm : 1 ≤ m) (i : Nat) {xn : Nat} (h : RoundsFit m i xn) :
    randomLoop m i xn = some ((Congruential.next 5 11 m)^[i] xn) := by
  induction i generalizing xn with
  | zero => rfl
  | succ i ih =>
    obtain ⟨hlt, hrest⟩ := h
    have hstep : (5 * xn + 11) % 2 ^ 32 % m = Congruential.next 5 11 m xn := by
      rw [Nat.mod_eq_of_lt hlt, Congruential.next]
    rw [hstep] at hrest
    rw [randomLoop, if_neg (by omega), hstep, ih hrest, Function.iterate_succ_apply]

/-- The seed is a multiple of the modulus. -/
theorem randomLoop_seed (hm : 1 ≤ m) (hfits : 5 * m + 11 < 2 ^ 32) {i : Nat} (hi : i ≠ 0) :
    randomLoop m i m = some (11 * (5 ^ i - 1) / 4 % m) := by
  rw [randomLoop_eq hm i (roundsFit hm hfits i le_rfl),
    Congruential.iterate_of_dvd (by norm_num) hm (dvd_refl m) hi]

theorem random_drawn (hm : 1 ≤ m) (hfits : 5 * m + 11 < 2 ^ 32) : random m = some (drawn % m) :=
  randomLoop_seed hm hfits (by norm_num)

end Loop

/-! ### The draw -/

/-- `total_tickets+1`, as the `uint` that the remainder is taken by. -/
theorem toUint_succ (total : Int) : toUint (addInt total 1) = ((total + 1) % 2 ^ 32).toNat :=
  toUint_addInt total 1

theorem winning_ticket_drawn {m : Nat} (hm : 1 ≤ m) (hfits : 5 * m + 11 < 2 ^ 32) {total : Int}
    (htotal : (total + 1) % 2 ^ 32 ≠ 0) :
    winning_ticket total m = some (((drawn % m : Nat) : Int) % ((total + 1) % 2 ^ 32)) := by
  have hpos : 0 ≤ (total + 1) % 2 ^ 32 := Int.emod_nonneg _ (by norm_num)
  have hnat : (((total + 1) % 2 ^ 32).toNat : Int) = (total + 1) % 2 ^ 32 := Int.toNat_of_nonneg hpos
  have hlt : drawn % m < m := Nat.mod_lt _ hm
  have hle := Nat.mod_le (drawn % m) ((total + 1) % 2 ^ 32).toNat
  rw [winning_ticket, random_drawn hm hfits, Option.bind_some, reduceDraw, toUint_succ]
  rw [if_neg (by omega), toInt_of_lt (by omega), Int.natCast_mod, hnat]

/-- After the first tick and until the tick counter reaches `(2^32 - 11) / 5`,
    no round of `random` overflows, and it returns one number modulo the tick
    count.  The winning ticket is that number, reduced once more by the total
    of the tickets plus one: two draws in one tick with one total are equal. -/
theorem random_closed_form {m : Nat} (hm : 1 ≤ m) (hfits : 5 * m + 11 < 2 ^ 32) :
    RoundsFit m 500 m ∧ random m = some (11 * (5 ^ 500 - 1) / 4 % m) ∧
    (∀ total : Int, 0 ≤ total → total < 2 ^ 31 →
      winning_ticket total m = some (((11 * (5 ^ 500 - 1) / 4 % m : Nat) : Int) % (total + 1))) ∧
    ∀ (total : Int) (s₁ s₂ s₁' s₂' : OneCpu.System), s₁.kernel.ticks = m → s₂.kernel.ticks = m →
      s₁.phase = .drawing total → s₂.phase = .drawing total →
      OneCpu.step s₁ .draw = some s₁' → OneCpu.step s₂ .draw = some s₂' →
      ∃ w : Int, w = ((11 * (5 ^ 500 - 1) / 4 % m : Nat) : Int) % ((total + 1) % 2 ^ 32) ∧
        s₁'.phase = .picking w ∧ s₂'.phase = .picking w := by
  rw [← drawn]
  refine ⟨roundsFit hm hfits 500 le_rfl, random_drawn hm hfits, ?_, ?_⟩
  · intro total hlo hhi
    have hmod : (total + 1) % 2 ^ 32 = total + 1 := Int.emod_eq_of_lt (by omega) (by omega)
    have hne : (total + 1) % 2 ^ 32 ≠ 0 := by omega
    have hdraw := winning_ticket_drawn hm hfits hne
    rw [hmod] at hdraw
    exact hdraw
  · intro total s₁ s₂ s₁' s₂' hticks₁ hticks₂ hphase₁ hphase₂ hstep₁ hstep₂
    by_cases htotal : (total + 1) % 2 ^ 32 = 0
    · -- the divide error: there is no step
      have hnone : winning_ticket total m = none := by
        rw [winning_ticket, random_drawn hm hfits, Option.bind_some, reduceDraw, toUint_succ, htotal]
        rfl
      simp [OneCpu.step, hphase₁, hticks₁, hnone] at hstep₁
    · have hdraw := winning_ticket_drawn hm hfits htotal
      refine ⟨_, rfl, ?_, ?_⟩
      · simp only [OneCpu.step, hphase₁, hticks₁, hdraw, Option.map_some, Option.some.injEq] at hstep₁
        rw [← hstep₁]
      · simp only [OneCpu.step, hphase₂, hticks₂, hdraw, Option.map_some, Option.some.injEq] at hstep₂
        rw [← hstep₂]

/-- Tick 100. -/
theorem random_closed_form_hundred :
    RoundsFit 100 500 100 ∧ random 100 = some (11 * (5 ^ 500 - 1) / 4 % 100) ∧
    (∀ total : Int, 0 ≤ total → total < 2 ^ 31 →
      winning_ticket total 100 = some (((11 * (5 ^ 500 - 1) / 4 % 100 : Nat) : Int) % (total + 1))) ∧
    ∀ (total : Int) (s₁ s₂ s₁' s₂' : OneCpu.System), s₁.kernel.ticks = 100 → s₂.kernel.ticks = 100 →
      s₁.phase = .drawing total → s₂.phase = .drawing total →
      OneCpu.step s₁ .draw = some s₁' → OneCpu.step s₂ .draw = some s₂' →
      ∃ w : Int, w = ((11 * (5 ^ 500 - 1) / 4 % 100 : Nat) : Int) % ((total + 1) % 2 ^ 32) ∧
        s₁'.phase = .picking w ∧ s₂'.phase = .picking w :=
  random_closed_form (by decide) (by decide)

end Lottery
