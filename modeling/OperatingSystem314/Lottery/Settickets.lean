import OperatingSystem314.Lottery.Scheduler
import OperatingSystem314.Syscall.Arguments

/-! # `sys_settickets`, from the call to the table

    `sys_settickets` drops the results of its two `argint`, takes zero for a
    number of tickets, and looks for the pid in every slot, used or not: a
    slot given back keeps its pid after a failed `fork` and has pid zero
    after `wait`.

    * `sys_settickets_meets_iff`: when it does what it is for. -/

namespace Lottery.Call

open Syscall

/-- `argint`, into a variable that holds `ip₀` at the start. -/
def argint (c : Caller) (n : Nat) (ip₀ : Int) : Int := ((c.argint n).map BitVec.toInt).getD ip₀

/-- `sys_settickets`; `pid₀` and `tickets₀` are what the two variables hold
    at the start. -/
def sys_settickets (c : Caller) (pid₀ tickets₀ : Int) (t : Table) : Int × Table :=
  Lottery.sys_settickets t (argint c 0 pid₀) (argint c 1 tickets₀)

/-- The slot is used and holds the process. -/
def Holds (t : Table) (pid : Int) (p : Slot) : Prop := (t p).state ≠ .UNUSED ∧ (t p).pid = pid

instance (t : Table) (pid : Int) (p : Slot) : Decidable (Holds t pid p) := by
  unfold Holds; infer_instance

/-- A refusal: a negative value, and no slot changes. -/
def Refused (t : Table) (r : Int × Table) : Prop := r.1 < 0 ∧ r.2 = t

/-- What `settickets` is for: with at least one ticket and a process that
    has the pid it sets the tickets of this process and returns zero; all
    else, also arguments that are not on the stack, it refuses. -/
def Meets (c : Caller) (t : Table) (r : Int × Table) : Prop :=
  match c.argint 0, c.argint 1 with
  | some pid, some tickets =>
    if 1 ≤ tickets.toInt ∧ ∃ p, Holds t pid.toInt p then
      r.1 = 0 ∧ ∃ p, Holds t pid.toInt p ∧ r.2 = Function.update t p { t p with tickets := tickets.toInt }
    else Refused t r
  | _, _ => Refused t r

/-- The slot that the loop stops at, of those that have the pid. -/
def firstWith (t : Table) (pid : Int) : Option Slot := slots.find? fun p => (t p).pid = pid

/-- The arguments with which `sys_settickets` goes as far as the slot. -/
def Reaches (t : Table) (pid tickets : Int) (p : Slot) : Prop :=
  0 ≤ pid ∧ 0 ≤ tickets ∧ firstWith t pid = some p

/-! ### What the scan does -/

section Scan

variable {t : Table} {pid tickets : Int}

theorem sys_settickets_of_reaches {p : Slot} (h : Reaches t pid tickets p) :
    Lottery.sys_settickets t pid tickets = (0, Function.update t p { t p with tickets }) := by
  obtain ⟨hpid, htickets, hfirst⟩ := h
  unfold firstWith at hfirst
  rw [Lottery.sys_settickets, if_neg (by omega), if_neg (by omega), hfirst]

theorem sys_settickets_refuses (h : ∀ p, ¬ Reaches t pid tickets p) :
    Refused t (Lottery.sys_settickets t pid tickets) := by
  have hone : (-1 : Int) < 0 := by decide
  have htwo : (-2 : Int) < 0 := by decide
  unfold Lottery.sys_settickets
  split
  · exact ⟨hone, rfl⟩
  · split
    · exact ⟨hone, rfl⟩
    · split
      · exact ⟨htwo, rfl⟩
      next hpid htickets _ p hp => exact absurd ⟨by omega, by omega, hp⟩ (h p)

/-- The refusals of `sys_settickets` are those before the slot. -/
theorem refused_iff : Refused t (Lottery.sys_settickets t pid tickets) ↔ ∀ p, ¬ Reaches t pid tickets p := by
  constructor
  · intro hrefused p hp
    have hneg := hrefused.1
    rw [sys_settickets_of_reaches hp] at hneg
    exact absurd hneg (lt_irrefl _)
  · exact sys_settickets_refuses

end Scan

/-! ### The call -/

/-- Setting one slot is setting another only where both have the number
    already. -/
theorem update_tickets_eq {t : Table} {p q : Slot} {tickets : Int} :
    Function.update t p { t p with tickets } = Function.update t q { t q with tickets } ↔
      p = q ∨ (t p).tickets = tickets ∧ (t q).tickets = tickets := by
  constructor
  · intro h
    by_cases hpq : p = q
    · exact Or.inl hpq
    · have hp := congrFun h p
      have hq := congrFun h q
      rw [Function.update_self, Function.update_of_ne hpq] at hp
      rw [Function.update_self, Function.update_of_ne (Ne.symm hpq)] at hq
      exact Or.inr ⟨by rw [← hp], by rw [hq]⟩
  · intro h
    rcases h with rfl | ⟨hp, hq⟩
    · rfl
    · subst hp
      have hp : Function.update t p { t p with tickets := (t p).tickets } = t := Function.update_eq_self p t
      have hq' : Function.update t q { t q with tickets := (t q).tickets } = t := Function.update_eq_self q t
      rw [hp, ← hq]
      exact hq'.symm

/-- The condition under which `sys_settickets` does what it is for.  Either
    the slot it stops at is a used one (or setting it changes as little as
    setting the process would), with tickets to set; or it does not reach a
    slot, and was not meant to. -/
def SetsRight (c : Caller) (pid₀ tickets₀ : Int) (t : Table) : Prop :=
  (∃ pid tickets, c.argint 0 = some pid ∧ c.argint 1 = some tickets ∧ 1 ≤ tickets.toInt ∧
    ∃ p q, Reaches t pid.toInt tickets.toInt p ∧ Holds t pid.toInt q ∧
      (p = q ∨ (t p).tickets = tickets.toInt ∧ (t q).tickets = tickets.toInt)) ∨
  ((∀ p, ¬ Reaches t (argint c 0 pid₀) (argint c 1 tickets₀) p) ∧
    ∀ pid tickets, c.argint 0 = some pid → c.argint 1 = some tickets → 1 ≤ tickets.toInt →
      ∀ p, ¬ Holds t pid.toInt p)

theorem argint_some {c : Caller} {n : Nat} {v : BitVec 32} (h : c.argint n = some v) (ip₀ : Int) :
    argint c n ip₀ = v.toInt := by
  rw [argint, h, Option.map_some, Option.getD_some]

/-- With both arguments there, a process that has the pid and a ticket for it. -/
theorem meets_wanted_iff {t : Table} {pid tickets : Int} :
    ((Lottery.sys_settickets t pid tickets).1 = 0 ∧ ∃ p, Holds t pid p ∧
      (Lottery.sys_settickets t pid tickets).2 = Function.update t p { t p with tickets }) ↔
    ∃ p q, Reaches t pid tickets p ∧ Holds t pid q ∧
      (p = q ∨ (t p).tickets = tickets ∧ (t q).tickets = tickets) := by
  constructor
  · intro h
    obtain ⟨hzero, q, hq, hset⟩ := h
    by_cases hreach : ∃ p, Reaches t pid tickets p
    · obtain ⟨p, hp⟩ := hreach
      rw [sys_settickets_of_reaches hp] at hset
      exact ⟨p, q, hp, hq, update_tickets_eq.mp hset⟩
    · have hrefused := (sys_settickets_refuses (not_exists.mp hreach)).1
      omega
  · intro h
    obtain ⟨p, q, hp, hq, hsame⟩ := h
    rw [sys_settickets_of_reaches hp]
    exact ⟨rfl, q, hq, update_tickets_eq.mpr hsame⟩

theorem setsRight_fetched {c : Caller} {pid tickets : BitVec 32} (hpid : c.argint 0 = some pid)
    (htickets : c.argint 1 = some tickets) (pid₀ tickets₀ : Int) (t : Table) :
    SetsRight c pid₀ tickets₀ t ↔
      (1 ≤ tickets.toInt ∧ ∃ p q, Reaches t pid.toInt tickets.toInt p ∧ Holds t pid.toInt q ∧
        (p = q ∨ (t p).tickets = tickets.toInt ∧ (t q).tickets = tickets.toInt)) ∨
      ((∀ p, ¬ Reaches t pid.toInt tickets.toInt p) ∧
        (1 ≤ tickets.toInt → ∀ p, ¬ Holds t pid.toInt p)) := by
  unfold SetsRight
  rw [argint_some hpid, argint_some htickets]
  simp [hpid, htickets]

/-- `sys_settickets` does what it is for just when the scan stops at a used
    slot with tickets to set, or at none where none was wanted. -/
theorem sys_settickets_meets_iff (c : Caller) (pid₀ tickets₀ : Int) (t : Table) :
    Meets c t (sys_settickets c pid₀ tickets₀ t) ↔ SetsRight c pid₀ tickets₀ t := by
  unfold Meets sys_settickets
  split
  next pid tickets hpid htickets =>
    rw [argint_some hpid, argint_some htickets, setsRight_fetched hpid htickets]
    split
    next hwanted =>
      obtain ⟨hone, p, hp⟩ := hwanted
      rw [meets_wanted_iff]
      constructor
      · intro h
        exact Or.inl ⟨hone, h⟩
      · intro h
        rcases h with ⟨-, hreach⟩ | ⟨-, hnone⟩
        · exact hreach
        · exact absurd hp (hnone hone p)
    next hunwanted =>
      rw [refused_iff]
      constructor
      · intro h
        exact Or.inr ⟨h, fun hone p hp => hunwanted ⟨hone, p, hp⟩⟩
      · intro h
        rcases h with ⟨hone, p, q, -, hq, -⟩ | ⟨hnone, -⟩
        · exact absurd ⟨hone, q, hq⟩ hunwanted
        · exact hnone
  next hmissing =>
    -- an argument that is not on the stack: all is to be refused
    rw [refused_iff]
    constructor
    · intro h
      refine Or.inr ⟨h, ?_⟩
      intro pid tickets hpid htickets
      exact absurd htickets (hmissing pid tickets hpid)
    · intro h
      rcases h with ⟨pid, tickets, hpid, htickets, -⟩ | ⟨hnone, -⟩
      · exact absurd htickets (hmissing pid tickets hpid)
      · exact hnone

/-- Zero is the wrong answer where a refusal is wanted. -/
theorem not_meets_of_zero {c : Caller} {t : Table} {r : Int × Table} (hzero : r.1 = 0)
    (hunwanted : ∀ pid ∈ c.argint 0, ∀ tickets ∈ c.argint 1,
      ¬ (1 ≤ tickets.toInt ∧ ∃ p, Holds t pid.toInt p)) : ¬ Meets c t r := by
  unfold Meets
  intro h
  split at h
  next pid tickets hpid htickets =>
    rw [if_neg (hunwanted pid hpid tickets htickets)] at h
    have hneg := h.1
    omega
  next =>
    have hneg := h.1
    omega

/-- A process with 16 bytes of memory that calls `settickets(pid, tickets)`,
    its stack pointer at `esp`. -/
def calls (esp : Nat) (pid tickets : BitVec 8) : Caller where
  memory := ⟨16, fun x => if x = 4 then pid else if x = 8 then tickets else 0⟩
  esp
  sz_le := show 16 ≤ 2 ^ 31 by norm_num

/-- The first process alone in the table, with one ticket.  It is left with
    none by `settickets(1, 0)`; `settickets(0, 5)` gives five to an unused
    slot; and without arguments on its stack the call sets what the kernel
    stack held. -/
theorem sys_settickets_sets_wrong :
    (sys_settickets (calls 0 1 0) 0 0 (tableOf [1])).1 = 0 ∧
      ((sys_settickets (calls 0 1 0) 0 0 (tableOf [1])).2 0).tickets = 0 ∧
      ¬ Meets (calls 0 1 0) (tableOf [1]) (sys_settickets (calls 0 1 0) 0 0 (tableOf [1])) ∧
    (sys_settickets (calls 0 0 5) 0 0 (tableOf [1])).1 = 0 ∧
      ((sys_settickets (calls 0 0 5) 0 0 (tableOf [1])).2 1).tickets = 5 ∧
      ¬ Meets (calls 0 0 5) (tableOf [1]) (sys_settickets (calls 0 0 5) 0 0 (tableOf [1])) ∧
    (sys_settickets (calls 16 0 0) 1 7 (tableOf [1])).1 = 0 ∧
      ((sys_settickets (calls 16 0 0) 1 7 (tableOf [1])).2 0).tickets = 7 ∧
      ¬ Meets (calls 16 0 0) (tableOf [1]) (sys_settickets (calls 16 0 0) 1 7 (tableOf [1])) := by
  have hzero : (sys_settickets (calls 0 1 0) 0 0 (tableOf [1])).1 = 0 := by decide +kernel
  have hunused : (sys_settickets (calls 0 0 5) 0 0 (tableOf [1])).1 = 0 := by decide +kernel
  have hmissing : (sys_settickets (calls 16 0 0) 1 7 (tableOf [1])).1 = 0 := by decide +kernel
  refine ⟨hzero, by decide +kernel, ?_, hunused, by decide +kernel, ?_, hmissing, by decide +kernel, ?_⟩
  · apply not_meets_of_zero hzero
    have hpid : (calls 0 1 0).argint 0 = some 1 := by decide +kernel
    have htickets : (calls 0 1 0).argint 1 = some 0 := by decide +kernel
    rw [hpid, htickets]
    intro pid hpid tickets htickets
    cases hpid
    cases htickets
    decide +kernel
  · apply not_meets_of_zero hunused
    have hpid : (calls 0 0 5).argint 0 = some 0 := by decide +kernel
    have htickets : (calls 0 0 5).argint 1 = some 5 := by decide +kernel
    rw [hpid, htickets]
    intro pid hpid tickets htickets
    cases hpid
    cases htickets
    decide +kernel
  · apply not_meets_of_zero hmissing
    have hpid : (calls 16 0 0).argint 0 = none := by decide +kernel
    rw [hpid]
    intro pid hpid
    cases hpid

end Lottery.Call
