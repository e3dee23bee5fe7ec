import Mathlib.Logic.Relation

/-! # Runs of a machine that takes events

    A machine is a partial function `step : σ → ι → Option σ`; where it is
    `none` the event cannot take place.

    * `Reachable`: events have taken place in any order, each under a
      guard `G` on the state before it and the event.
    * `exec`: runs a list of events. -/

namespace Runs

variable {σ ι : Type} (step : σ → ι → Option σ) (G : σ → ι → Prop)

/-- Some event that the guard allows takes place. -/
def Step (s s' : σ) : Prop := ∃ i, G s i ∧ step s i = some s'

/-- The states that events under the guard lead to. -/
def Reachable (init s : σ) : Prop := Relation.ReflTransGen (Step step G) init s

variable {step G} {G' : σ → ι → Prop} {init s s' : σ}

/-- What holds at the start and is kept by every event holds throughout. -/
theorem Reachable.invariant {Inv : σ → Prop} (h : Reachable step G init s) (hinit : Inv init)
    (hstep : ∀ s i s', Inv s → G s i → step s i = some s' → Inv s') : Inv s := by
  induction h with
  | refl => exact hinit
  | tail _ hlast ih =>
    obtain ⟨i, hg, hnext⟩ := hlast
    exact hstep _ i _ ih hg hnext

/-- Runs a list of events, each of which is to meet the guard. -/
def exec (step : σ → ι → Option σ) (G : σ → ι → Prop) [∀ s i, Decidable (G s i)] : List ι → σ → Option σ
  | [], s => some s
  | i :: is, s => if G s i then (step s i).bind (exec step G is) else none

theorem reachable_of_exec [∀ s i, Decidable (G s i)] {is : List ι} (h : exec step G is s = some s') :
    Reachable step G s s' := by
  induction is generalizing s with
  | nil =>
    cases h
    exact .refl
  | cons i is ih =>
    unfold exec at h
    split at h
    next hg =>
      obtain ⟨r, hnext, hrest⟩ := Option.bind_eq_some_iff.mp h
      exact .head ⟨i, hg, hnext⟩ (ih hrest)
    next => cases h

end Runs
