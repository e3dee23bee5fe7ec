import Mathlib.Algebra.GroupWithZero.Nat

/-! # Sizes of index types

    Numerals of `Fin n` need `n ≠ 0`.  It is named here for the sizes of the
    tables, so that the numerals of all modules are the same terms. -/

instance neZero_two : NeZero 2 := ⟨by decide⟩

instance neZero_fifteen : NeZero 15 := ⟨by decide⟩

instance neZero_sixteen : NeZero 16 := ⟨by decide⟩

instance neZero_sixtyFour : NeZero 64 := ⟨by decide⟩

instance neZero_hundred : NeZero 100 := ⟨by decide⟩
