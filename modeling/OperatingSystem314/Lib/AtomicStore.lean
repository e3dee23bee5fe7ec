import Mathlib.Logic.Function.Basic
import Mathlib.Logic.Relation

/-! # A store that survives crashes

    Operations write to the current contents.  When none is active, what is
    current may become durable.  After a crash the durable contents are
    current again.

    `durable_of_quiet`: the durable contents are those of a moment at which
    no operation was active, so that of each operation all or nothing is
    durable. -/

/-- The contents, and the number of active operations. -/
structure AtomicStore (A V : Type*) where
  durable : A → V
  current : A → V
  active : Nat

namespace AtomicStore

variable {A V : Type*} [DecidableEq A]

/-- The store with these contents, and no operation active. -/
def quiet (c : A → V) : AtomicStore A V := ⟨c, c, 0⟩

inductive Step : AtomicStore A V → AtomicStore A V → Prop where
  | begin (s : AtomicStore A V) : Step s { s with active := s.active + 1 }
  | write {s : AtomicStore A V} (h : 0 < s.active) (a : A) (v : V) :
      Step s { s with current := Function.update s.current a v }
  | finish {s : AtomicStore A V} (h : 0 < s.active) : Step s { s with active := s.active - 1 }
  | commit {s : AtomicStore A V} (h : s.active = 0) : Step s { s with durable := s.current }
  | crash (s : AtomicStore A V) : Step s (quiet s.durable)

abbrev Run : AtomicStore A V → AtomicStore A V → Prop := Relation.ReflTransGen Step

/-- What is durable was current when no operation was active. -/
theorem durable_of_quiet {c : A → V} {s : AtomicStore A V} (h : Run (quiet c) s) :
    ∃ q, Run (quiet c) q ∧ Run q s ∧ q.active = 0 ∧ q.current = s.durable := by
  induction h with
  | refl => exact ⟨quiet c, .refl, .refl, rfl, rfl⟩
  | @tail t s hrun hstep ih =>
    obtain ⟨q, hq, hqt, hactive, hcur⟩ := ih
    cases hstep with
    | commit hzero =>
      -- the state before is such a moment
      exact ⟨t, hrun, .single (.commit hzero), hzero, rfl⟩
    | begin => exact ⟨q, hq, hqt.tail (.begin t), hactive, hcur⟩
    | write hpos a v => exact ⟨q, hq, hqt.tail (.write hpos a v), hactive, hcur⟩
    | finish hpos => exact ⟨q, hq, hqt.tail (.finish hpos), hactive, hcur⟩
    | crash => exact ⟨q, hq, hqt.tail (.crash t), hactive, hcur⟩

end AtomicStore
