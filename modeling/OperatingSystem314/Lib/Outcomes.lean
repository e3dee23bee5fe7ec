import Mathlib.Tactic.Common

/-! # How a computation ends

    `Ends E Q r`: the computation `r` returns a value for which `Q` holds,
    or it stops with an error that `E` allows.  There is one rule for each
    way to build a computation. -/

namespace Outcomes

variable {ε α β : Type} {E : ε → Prop} {Q : α → Prop} {R : β → Prop}

def Ends (E : ε → Prop) (Q : α → Prop) : Except ε α → Prop
  | .ok a => Q a
  | .error e => E e

namespace Ends

variable {r : Except ε α} {f : α → Except ε β} {a : α} {e : ε}

theorem bind (h : Ends E Q r) (hf : ∀ a, Q a → Ends E R (f a)) : Ends E R (r >>= f) := by
  cases r with
  | ok a => exact hf a h
  | error e => exact h

theorem ite {p : Prop} [Decidable p] {r' : Except ε α} (h : p → Ends E Q r) (h' : ¬ p → Ends E Q r') :
    Ends E Q (if p then r else r') := by
  split
  · exact h ‹_›
  · exact h' ‹_›

/-- An error that is not allowed is not what it ends with. -/
theorem ne_error (h : Ends E Q r) (he : ¬ E e) : r ≠ .error e := by
  rintro rfl
  exact he h

theorem of_ok (hr : r = .ok a) (h : Q a) : Ends E Q r := by
  rw [hr]
  exact h

theorem of_eq_ok (h : Ends E Q r) (hr : r = .ok a) : Q a := by
  rw [hr] at h
  exact h

end Ends

end Outcomes
