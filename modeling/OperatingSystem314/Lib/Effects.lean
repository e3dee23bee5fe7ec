import Mathlib.Tactic.Common

/-! # How much a computation can do before it ends or fails

    `Prog σ ε α`: a computation over a state `σ` that returns an `α` or
    fails with an `ε`.  The state survives a failure, so what a computation
    has done before it failed can be spoken about.

    * `Graded R`: `R n s t`, "from `s` to `t` with an effect of at most
      `n`", where effects add up.
    * `Bounded R n m s Q`: from `s` the effect of `m` is at most `n`,
      whether it fails or not, and when it returns then `Q` holds.
    * One rule for each way to build a computation. -/

namespace Effects

variable {σ ε α β : Type}

def Prog (σ ε α : Type) : Type := σ → Except ε α × σ

instance : Monad (Prog σ ε) where
  pure a := fun s => (.ok a, s)
  bind m f := fun s =>
    match m s with
    | (.ok a, t) => f a t
    | (.error e, t) => (.error e, t)

/-- The state. -/
def state : Prog σ ε σ := fun s => (.ok s, s)

def modify (f : σ → σ) : Prog σ ε Unit := fun s => (.ok (), f s)

def fail (e : ε) : Prog σ ε α := fun s => (.error e, s)

/-- An `if` without an `else`. -/
def when (c : Prop) [Decidable c] (m : Prog σ ε Unit) : Prog σ ε Unit := if c then m else pure ()

section eval

variable {m : Prog σ ε α} {f : α → Prog σ ε β} {s t : σ} {a : α} {e : ε}

@[simp] theorem pure_eval : (pure a : Prog σ ε α) s = (.ok a, s) := rfl
@[simp] theorem state_eval : (state : Prog σ ε σ) s = (.ok s, s) := rfl
@[simp] theorem modify_eval (g : σ → σ) : (modify g : Prog σ ε Unit) s = (.ok (), g s) := rfl
@[simp] theorem fail_eval : (fail e : Prog σ ε α) s = (.error e, s) := rfl

theorem bind_ok (h : m s = (.ok a, t)) : (m >>= f) s = f a t := by
  show (match m s with | (.ok a, t) => f a t | (.error e, t) => (.error e, t)) = _
  rw [h]

theorem bind_error (h : m s = (.error e, t)) : (m >>= f) s = (.error e, t) := by
  show (match m s with | (.ok a, t) => f a t | (.error e, t) => (.error e, t)) = _
  rw [h]

@[simp] theorem state_bind (f : σ → Prog σ ε β) : (state >>= f) s = f s s := rfl
@[simp] theorem pure_bind' : ((pure a : Prog σ ε α) >>= f) s = f a s := rfl
@[simp] theorem modify_bind (g : σ → σ) (f : Unit → Prog σ ε β) : (modify g >>= f) s = f () (g s) := rfl

end eval

/-! ### Graded effects -/

/-- `R n s t`: an effect of at most `n` leads from `s` to `t`. -/
structure Graded (R : Nat → σ → σ → Prop) : Prop where
  refl : ∀ s, R 0 s s
  trans : ∀ {n m s t u}, R n s t → R m t u → R (n + m) s u
  mono : ∀ {n m s t}, n ≤ m → R n s t → R m s t

def Bounded (R : Nat → σ → σ → Prop) (n : Nat) (m : Prog σ ε α) (s : σ) (Q : α → σ → Prop) : Prop :=
  R n s (m s).2 ∧ ∀ a, (m s).1 = .ok a → Q a (m s).2

namespace Bounded

variable {R R' : Nat → σ → σ → Prop} {n k : Nat} {m : Prog σ ε α} {s : σ} {Q : α → σ → Prop}

theorem of_eval {r : Except ε α} {t : σ} (h : m s = (r, t)) (hR : R n s t) (hQ : ∀ a, r = .ok a → Q a t) :
    Bounded R n m s Q := by
  unfold Bounded
  rw [h]
  exact ⟨hR, hQ⟩

theorem pure (hR : Graded R) {a : α} (hQ : Q a s) : Bounded R n (pure a : Prog σ ε α) s Q := by
  refine ⟨hR.mono (Nat.zero_le n) (hR.refl s), ?_⟩
  intro b hb
  cases hb
  exact hQ

theorem fail (hR : Graded R) {e : ε} : Bounded R n (fail e : Prog σ ε α) s Q :=
  ⟨hR.mono (Nat.zero_le n) (hR.refl s), nofun⟩

theorem modify {f : σ → σ} {Q : Unit → σ → Prop} (hR : R n s (f s)) (hQ : Q () (f s)) :
    Bounded R n (modify f : Prog σ ε Unit) s Q := by
  refine ⟨hR, ?_⟩
  intro a ha
  cases ha
  exact hQ

/-- A weaker bound and a weaker postcondition. -/
theorem mono (h : Bounded R n m s Q) (hR : ∀ t, R n s t → R' k s t) {Q' : α → σ → Prop}
    (hQ : ∀ a t, Q a t → Q' a t) : Bounded R' k m s Q' :=
  ⟨hR _ h.1, fun a ha => hQ a _ (h.2 a ha)⟩

/-- What the effect was is known afterwards. -/
theorem rel (h : Bounded R n m s Q) : Bounded R n m s fun a t => R n s t ∧ Q a t :=
  ⟨h.1, fun a ha => ⟨h.1, h.2 a ha⟩⟩

theorem weaken (h : Bounded R n m s Q) (hR : Graded R) (hn : n ≤ k) : Bounded R k m s Q :=
  h.mono (fun _ => hR.mono hn) fun _ _ hQ => hQ

/-- One computation after the other. -/
theorem bind (h : Bounded R n m s Q) (hR : Graded R) {f : α → Prog σ ε β} {Q' : β → σ → Prop}
    (hf : ∀ a t, Q a t → Bounded R k (f a) t Q') : Bounded R (n + k) (m >>= f) s Q' := by
  rcases hm : m s with ⟨r, t⟩
  obtain ⟨hRt, hQ⟩ := h
  rw [hm] at hRt hQ
  cases r with
  | error e =>
    apply of_eval (bind_error hm)
    · exact hR.mono (Nat.le_add_right n k) hRt
    · exact nofun
  | ok a =>
    have hnext := hf a t (hQ a rfl)
    unfold Bounded
    rw [bind_ok hm]
    exact ⟨hR.trans hRt hnext.1, hnext.2⟩

/-- After a computation that costs nothing. -/
theorem bind_free (h : Bounded R 0 m s Q) (hR : Graded R) {f : α → Prog σ ε β} {Q' : β → σ → Prop}
    (hf : ∀ a t, Q a t → Bounded R k (f a) t Q') : Bounded R k (m >>= f) s Q' := by
  rw [← Nat.zero_add k]
  exact h.bind hR hf

/-- What follows is counted together with the first computation. -/
theorem bind_from (h : Bounded R n m s Q) {f : α → Prog σ ε β} {Q' : β → σ → Prop}
    (hf : ∀ a t, Q a t → Bounded (fun _ _ u => R n s u) n (f a) t Q') : Bounded R n (m >>= f) s Q' := by
  rcases hm : m s with ⟨r, t⟩
  obtain ⟨hRt, hQ⟩ := h
  rw [hm] at hRt hQ
  cases r with
  | error e => exact of_eval (bind_error hm) hRt nofun
  | ok a =>
    unfold Bounded
    rw [bind_ok hm]
    exact hf a t (hQ a rfl)

/-- After a change of the state that costs nothing. -/
theorem modify_bind {g : σ → σ} (hR : Graded R) (hg : R 0 s (g s)) {f : Unit → Prog σ ε β} {Q : β → σ → Prop}
    (h : Bounded R n (f ()) (g s) Q) : Bounded R n (Effects.modify g >>= f) s Q := by
  have hmod : Bounded R 0 (Effects.modify g : Prog σ ε Unit) s fun _ t => t = g s := .modify hg rfl
  apply hmod.bind_free hR
  rintro _ _ rfl
  exact h

theorem when {c : Prop} [Decidable c] {m : Prog σ ε Unit} {Q : Unit → σ → Prop} (hR : Graded R)
    (hm : c → Bounded R n m s Q) (hQ : Q () s) : Bounded R n (when c m) s Q := by
  unfold Effects.when
  split
  next hc => exact hm hc
  next => exact pure hR hQ

/-- After a look at the state. -/
theorem state {f : σ → Prog σ ε β} {Q : β → σ → Prop} (h : Bounded R n (f s) s Q) :
    Bounded R n (Effects.state >>= f) s Q := h

/-- A loop over a list, each round of which keeps `I` and costs nothing. -/
theorem forM (hR : Graded R) {I : σ → Prop} {f : α → Prog σ ε PUnit}
    (hf : ∀ a t, I t → Bounded R 0 (f a) t fun _ => I) {l : List α} (hI : I s) :
    Bounded R 0 (l.forM f) s fun _ => I := by
  induction l generalizing s with
  | nil => exact pure hR hI
  | cons a l ih =>
    show Bounded R 0 (f a >>= fun _ => l.forM f) s _
    exact (hf a s hI).bind hR fun _ t ht => ih ht

end Bounded

end Effects
