import Mathlib.Logic.Basic

/-! # Machines that answer inputs, simulated by a specification

    An implementation is a partial function `step : σ → ι → Except ε (ο × σ)`;
    a specification is a relation `spec : τ → ι → ο → τ → Prop`, which may
    allow several answers.  An answer may be the last one.

    * `run step last`: feeds a list of inputs to the implementation.
    * `Run spec last`: the answers the specification allows to that list.
    * `Guarded step last G`: every step of the run is taken in a state and
      with an input that satisfy `G`.

    `simulation`: if each guarded step answers as the specification
    allows and keeps the simulation relation, each guarded run does. -/

namespace Simulation

variable {σ τ ι ο ε : Type}

/-- The answers to a list of inputs, up to the last one. -/
def run (step : σ → ι → Except ε (ο × σ)) (last : ο → Bool) : List ι → σ → Except ε (List ο × σ)
  | [], s => .ok ([], s)
  | i :: is, s => do
    let (o, s) ← step s i
    if last o then return ([o], s)
    else
      let (os, s) ← run step last is s
      return (o :: os, s)

/-- What the specification allows as answers to a list of inputs. -/
inductive Run (spec : τ → ι → ο → τ → Prop) (last : ο → Bool) : τ → List ι → List ο → Prop where
  | done (t : τ) : Run spec last t [] []
  | last {t t' : τ} {i : ι} {o : ο} (is : List ι) (hs : spec t i o t') (ho : last o = true) :
      Run spec last t (i :: is) [o]
  | step {t t' : τ} {i : ι} {o : ο} {is : List ι} {os : List ο} (hs : spec t i o t')
      (ho : last o = false) (hr : Run spec last t' is os) : Run spec last t (i :: is) (o :: os)

/-- Every step of the run is taken under `G`. -/
def Guarded (step : σ → ι → Except ε (ο × σ)) (last : ο → Bool) (G : σ → ι → Prop) :
    List ι → σ → Prop
  | [], _ => True
  | i :: is, s => G s i ∧ ∀ o s', step s i = .ok (o, s') → last o = false → Guarded step last G is s'

section

variable {step : σ → ι → Except ε (ο × σ)} {spec : τ → ι → ο → τ → Prop} {last : ο → Bool}
  {G : σ → ι → Prop} {R : σ → τ → Prop}

/-- A guard that every input of the list satisfies in every state. -/
theorem guarded_of_forall {is : List ι} (h : ∀ s, ∀ i ∈ is, G s i) (s : σ) :
    Guarded step last G is s := by
  induction is generalizing s with
  | nil => trivial
  | cons i is ih =>
    exact ⟨h s i (by simp), fun _ s' _ _ => ih (fun s j hj => h s j (by simp [hj])) s'⟩

/-- A run fails where a step of it does. -/
theorem run_error {i : ι} (is : List ι) {s : σ} {e : ε} (h : step s i = .error e) :
    run step last (i :: is) s = .error e := by
  simp [run, h, bind, Except.bind]

/-- A run fails where the rest of it does. -/
theorem run_error_tail {i : ι} {is : List ι} {s s' : σ} {o : ο} {e : ε} (h : step s i = .ok (o, s'))
    (ho : last o = false) (hrun : run step last is s' = .error e) :
    run step last (i :: is) s = .error e := by
  simp [run, h, ho, hrun, bind, Except.bind]

/-- A guarded run of an implementation that simulates the specification
    under the guard: by induction on the inputs. -/
theorem simulation
    (hstep : ∀ s t i, R s t → G s i → ∃ o s' t', step s i = .ok (o, s') ∧ spec t i o t' ∧
      (last o = false → R s' t'))
    {is : List ι} {s : σ} {t : τ} (hR : R s t) (hG : Guarded step last G is s) :
    ∃ os s', run step last is s = .ok (os, s') ∧ Run spec last t is os := by
  induction is generalizing s t with
  | nil => exact ⟨[], s, rfl, .done t⟩
  | cons i is ih =>
    obtain ⟨hGi, hGis⟩ := hG
    obtain ⟨o, s', t', hs, hspec, hR'⟩ := hstep s t i hR hGi
    cases hlast : last o with
    | true =>
      refine ⟨[o], s', ?_, .last is hspec hlast⟩
      simp [run, hs, bind, Except.bind, hlast, pure, Except.pure]
    | false =>
      obtain ⟨os, s'', hrun, hRun⟩ := ih (hR' hlast) (hGis o s' hs hlast)
      refine ⟨o :: os, s'', ?_, .step hspec hlast hRun⟩
      simp [run, hs, bind, Except.bind, hlast, hrun, pure, Except.pure]

end

end Simulation
