import Mathlib.Data.Int.Interval
import Mathlib.Data.Set.Card
import OperatingSystem314.Lib.PrefixScan
import OperatingSystem314.Lottery.Table

/-! # The lottery (`scheduler` and `random` of `proc.c`)

    One round of `scheduler`: count the tickets, draw a winning ticket,
    scan the table for its holder.

    * `pick_proportional_iff`: how many draws select a process.
    * `draw_in_range_iff`: when the draw is defined and in range. -/

namespace Lottery

/-! ### The routines -/

/-- The loop of `random`, with `i` rounds to go; `none` is the processor's
    divide error. -/
def randomLoop (m : Nat) : (i : Nat) → (xn : Nat) → Option Nat
  | 0, xn => some xn
  | i + 1, xn => if m = 0 then none else randomLoop m i ((5 * xn + 11) % 2 ^ 32 % m)

def random (seed : Nat) : Option Nat := randomLoop seed 500 seed

/-- The loop that counts `total_tickets`. -/
def countTickets (t : Table) : List Slot → (total_tickets : Int) → Int
  | [], total => total
  | p :: ps, total =>
    countTickets t ps (if (t p).state = .RUNNABLE then addInt total (t p).tickets else total)

def total_tickets (t : Table) : Int := countTickets t slots 0

/-- `r % (total_tickets+1)`, as an `int`; `none` is the divide error. -/
def reduceDraw (total : Int) (r : Nat) : Option Int :=
  let m := toUint (addInt total 1)
  if m = 0 then none else some (toInt (r % m))

/-- `winning_ticket = random(ticks) % (total_tickets+1)` -/
def winning_ticket (total : Int) (ticks : Nat) : Option Int := (random ticks).bind (reduceDraw total)

/-- The loop that looks for the process to run: the first at which the
    tickets counted so far are not fewer than the winning one. -/
def pickLoop (t : Table) (winning_ticket : Int) : List Slot → (ticket_count : Int) → Option Slot
  | [], _ => none
  | p :: ps, ticket_count =>
    if (t p).state ≠ .RUNNABLE then pickLoop t winning_ticket ps ticket_count
    else
      let ticket_count := addInt ticket_count (t p).tickets
      if ticket_count < winning_ticket then pickLoop t winning_ticket ps ticket_count else some p

def pick (t : Table) (winning_ticket : Int) : Option Slot := pickLoop t winning_ticket slots 0

/-! ### Counting without overflow -/

section NoOverflow

variable {t : Table}

/-- No `RUNNABLE` process holds a negative number of tickets. -/
def NonNeg (t : Table) : Prop := ∀ p, (t p).state = .RUNNABLE → 0 ≤ (t p).tickets

theorem Accepted.nonNeg (h : Accepted t) : NonNeg t := fun p _ => (h p).1

/-- The tickets of a process, as a weight of the scan. -/
def weight (t : Table) (p : Slot) : Nat := (t p).tickets.toNat

theorem weight_eq (h : NonNeg t) {p : Slot} (hp : (t p).state = .RUNNABLE) :
    (weight t p : Int) = (t p).tickets :=
  Int.toNat_of_nonneg (h p hp)

theorem ticketSum_eq (h : NonNeg t) :
    ticketSum t = (PrefixScan.total (weight t) (runnable t) : Int) := by
  have hsum : ∀ l : List Slot, (∀ p ∈ l, (t p).state = .RUNNABLE) →
      (l.map fun p => (t p).tickets).sum = (PrefixScan.total (weight t) l : Int) := by
    intro l hl
    induction l with
    | nil => rfl
    | cons p l ih =>
      rw [List.map_cons, List.sum_cons, ih fun q hq => hl q (List.mem_cons_of_mem p hq),
        PrefixScan.total_cons, Nat.cast_add, weight_eq h (hl p List.mem_cons_self)]
  exact hsum _ fun p hp => mem_runnable.mp hp

/-- The counting loop adds up the tickets, modulo `2^32`. -/
theorem countTickets_eq (t : Table) (l : List Slot) {total : Int} (htotal : IsInt total) :
    countTickets t l total =
      (total + ((l.filter fun p => (t p).state = .RUNNABLE).map fun p => (t p).tickets).sum).bmod
        (2 ^ 32) := by
  induction l generalizing total with
  | nil =>
    show total = (total + 0).bmod (2 ^ 32)
    rw [Int.add_zero, bmod_of_isInt htotal]
  | cons p l ih =>
    unfold countTickets
    by_cases hp : (t p).state = .RUNNABLE
    · rw [if_pos hp, ih (addInt_isInt _ _), addInt, List.filter_cons_of_pos (by simpa using hp),
        List.map_cons, List.sum_cons, ← Int.add_assoc, Int.bmod_add_bmod]
    · rw [if_neg hp, ih htotal, List.filter_cons_of_neg (by simpa using hp)]

theorem total_tickets_eq (t : Table) : total_tickets t = (ticketSum t).bmod (2 ^ 32) := by
  rw [total_tickets, countTickets_eq t slots (by decide), Int.zero_add]
  rfl

/-- The picking loop scans the `RUNNABLE` processes for a running sum of
    tickets, as long as the sum stays an `int`. -/
theorem pickLoop_eq (h : NonNeg t) (l : List Slot) {acc : Nat} (k : Nat)
    (hsum : acc + PrefixScan.total (weight t) (l.filter fun p => (t p).state = .RUNNABLE) < 2 ^ 31) :
    pickLoop t k l acc =
      PrefixScan.scan (weight t) (l.filter fun p => (t p).state = .RUNNABLE) acc k := by
  induction l generalizing acc with
  | nil => rfl
  | cons p l ih =>
    unfold pickLoop
    by_cases hp : (t p).state = .RUNNABLE
    · rw [List.filter_cons_of_pos (by simpa using hp)] at hsum ⊢
      rw [PrefixScan.total_cons] at hsum
      have hadd : addInt acc (t p).tickets = (acc + weight t p : Nat) := by
        have := weight_eq h hp
        rw [addInt_eq ⟨by omega, by omega⟩, ← this, Nat.cast_add]
      rw [if_neg (by simpa using hp), PrefixScan.scan]
      simp only [hadd, Nat.cast_lt]
      split
      · exact ih (by omega)
      · rfl
    · rw [List.filter_cons_of_neg (by simpa using hp)] at hsum ⊢
      rw [if_pos hp]
      exact ih hsum

theorem pick_eq (h : NonNeg t) (hsum : ticketSum t < 2 ^ 31) (k : Nat) :
    pick t k = PrefixScan.scan (weight t) (runnable t) 0 k := by
  have hlt : 0 + PrefixScan.total (weight t) (runnable t) < 2 ^ 31 := by
    rw [ticketSum_eq h] at hsum
    omega
  exact @pickLoop_eq t h slots 0 k hlt

end NoOverflow

/-! ### How many draws select a process -/

/-- The winning tickets that `scheduler` can draw, whatever `random` returns. -/
def draws (total : Int) : Set Int := {w | ∃ r < 2 ^ 32, reduceDraw total r = some w}

/-- The draws with which the scan selects process `p`. -/
def selecting (t : Table) (p : Slot) : Set Int :=
  {w | w ∈ draws (total_tickets t) ∧ pick t w = some p}

/-- A table the lottery is held over: there is a ticket, and the sum of the
    tickets plus one is an `int`. -/
structure Raffle (t : Table) : Prop where
  nonNeg : NonNeg t
  ticket : 1 ≤ ticketSum t
  fits : IsInt (ticketSum t + 1)

/-- As many draws select `p` as it has tickets; without a ticket it is never
    selected while another process has one. -/
def Proportional (t : Table) (p : Slot) : Prop :=
  ((selecting t p).ncard : Int) = (t p).tickets ∧
    ((t p).tickets = 0 → (∃ q, (t q).state = .RUNNABLE ∧ 0 < (t q).tickets) → selecting t p = ∅)

/-- No `RUNNABLE` process comes before `p` in the table. -/
def FirstRunnable (t : Table) (p : Slot) : Prop := ∀ q < p, (t q).state ≠ .RUNNABLE

theorem Raffle.total_tickets {t : Table} (h : Raffle t) : total_tickets t = ticketSum t := by
  rw [total_tickets_eq, bmod_of_isInt ⟨by have := h.ticket; omega, by have := h.fits.2; omega⟩]

/-- Every number from zero to the sum of the tickets can be drawn. -/
theorem draws_eq {total : Int} (h : 0 ≤ total) (hfits : IsInt (total + 1)) :
    draws total = {w | 0 ≤ w ∧ w ≤ total} := by
  have hm : toUint (addInt total 1) = (total + 1).toNat := by
    rw [addInt_eq hfits, toUint_of_nonneg (by omega) (by have := hfits.2; omega)]
  have hfits' := hfits.2
  ext w
  have hne : ¬ (total + 1).toNat = 0 := by omega
  simp only [draws, Set.mem_ofPred_eq, reduceDraw, hm, hne, if_false]
  constructor
  · rintro ⟨r, -, hr⟩
    have hlt : r % (total + 1).toNat < (total + 1).toNat := Nat.mod_lt r (by omega)
    rw [toInt_of_lt (by omega)] at hr
    cases hr
    omega
  · rintro ⟨hw, hw'⟩
    refine ⟨w.toNat, by omega, ?_⟩
    rw [Nat.mod_eq_of_lt (by omega), toInt_of_lt (by omega), Int.toNat_of_nonneg hw]

/-- The slots before a `RUNNABLE` one, and whether there are any. -/
theorem runnable_split {t : Table} {p : Slot} (hp : (t p).state = .RUNNABLE) :
    ∃ pre post, runnable t = pre ++ p :: post ∧ (pre = [] ↔ FirstRunnable t p) := by
  obtain ⟨pre, post, hsplit⟩ := List.append_of_mem (mem_runnable.mpr hp)
  refine ⟨pre, post, hsplit, ?_⟩
  have hsorted : (runnable t).Pairwise (· < ·) := (List.pairwise_lt_finRange NPROC).filter _
  rw [hsplit, List.pairwise_append, List.pairwise_cons] at hsorted
  obtain ⟨-, ⟨hpost, -⟩, hpre⟩ := hsorted
  constructor
  · intro hnil q hq hrun
    have hmem : q ∈ pre ++ p :: post := hsplit ▸ mem_runnable.mpr hrun
    rw [hnil, List.nil_append, List.mem_cons] at hmem
    rcases hmem with rfl | hmem
    · exact lt_irrefl _ hq
    · exact lt_asymm hq (hpost q hmem)
  · intro hfirst
    cases pre with
    | nil => rfl
    | cons q pre =>
      have hq : q ∈ runnable t := by simp [hsplit]
      exact absurd (mem_runnable.mp hq) (hfirst q (hpre q List.mem_cons_self p List.mem_cons_self))

/-- The first `RUNNABLE` process is selected by one draw more than it has
    tickets: draw zero. -/
theorem ncard_selecting {t : Table} (h : Raffle t) {p : Slot} (hp : (t p).state = .RUNNABLE)
    [Decidable (FirstRunnable t p)] :
    ((selecting t p).ncard : Int) = (t p).tickets + if FirstRunnable t p then 1 else 0 := by
  obtain ⟨pre, post, hsplit, hfirst⟩ := runnable_split hp
  have hnodup : (pre ++ p :: post).Nodup := hsplit ▸ runnable_nodup t
  have hfits := h.fits.2
  have hticket := h.ticket
  have hsum := ticketSum_eq h.nonNeg
  have hset : selecting t p = (fun k : Nat => (k : Int)) ''
      ((Finset.range (PrefixScan.total (weight t) (runnable t) + 1)).filter fun k =>
        PrefixScan.scan (weight t) (runnable t) 0 k = some p : Finset Nat) := by
    ext w
    simp only [selecting, h.total_tickets, draws_eq (by omega : 0 ≤ ticketSum t) h.fits,
      Set.mem_ofPred_eq, Set.mem_image, Finset.coe_filter, Finset.mem_range]
    constructor
    · rintro ⟨⟨hw, hw'⟩, hpick⟩
      refine ⟨w.toNat, ⟨by omega, ?_⟩, Int.toNat_of_nonneg hw⟩
      rw [← pick_eq h.nonNeg (by omega), Int.toNat_of_nonneg hw]
      exact hpick
    · rintro ⟨k, ⟨hk, hscan⟩, rfl⟩
      refine ⟨⟨by omega, by omega⟩, ?_⟩
      rw [pick_eq h.nonNeg (by omega)]
      exact hscan
  have hcard := PrefixScan.card_scan hnodup (T := PrefixScan.total (weight t) (runnable t))
    (by rw [hsplit])
  rw [hset, Set.ncard_image_of_injective _ Nat.cast_injective, Set.ncard_coe_finset, hsplit]
  rw [hsplit] at hcard
  rw [hcard, Nat.cast_add, weight_eq h.nonNeg hp]
  congr 1
  by_cases hpre : pre = []
  · rw [if_pos hpre, if_pos (hfirst.mp hpre), Nat.cast_one]
  · rw [if_neg hpre, if_neg (fun hf => hpre (hfirst.mpr hf)), Nat.cast_zero]

/-- The lottery is proportional for a `RUNNABLE` process just when another
    `RUNNABLE` process comes before it in the table. -/
theorem pick_proportional_iff {t : Table} (h : Raffle t) {p : Slot} (hp : (t p).state = .RUNNABLE) :
    Proportional t p ↔ ¬ FirstRunnable t p := by
  classical
  have hcard := ncard_selecting h hp
  constructor
  · intro hprop hfirst
    rw [if_pos hfirst, hprop.1] at hcard
    omega
  · intro hfirst
    rw [if_neg hfirst, Int.add_zero] at hcard
    refine ⟨hcard, fun hzero _ => ?_⟩
    have hfin : (selecting t p).Finite := by
      apply (Set.finite_Icc (0 : Int) (ticketSum t)).subset
      intro w hw
      have hdraw := hw.1
      rw [h.total_tickets, draws_eq (by have := h.ticket; omega) h.fits] at hdraw
      exact hdraw
    rw [hzero] at hcard
    exact (Set.ncard_eq_zero hfin).mp (by exact_mod_cast hcard)

/-- A table whose slots are unused but for the first ones. -/
def tableOf (tickets : List Int) : Table := fun p =>
  match tickets[p.val]? with
  | some n =>
    { state := .RUNNABLE, pid := p.val + 1, chan := none, tickets := n, init_ticks := 0, ticks := 0 }
  | none => { state := .UNUSED, pid := 0, chan := none, tickets := 0, init_ticks := 0, ticks := 0 }

theorem accepted_tableOf {tickets : List Int} (h : ∀ n ∈ tickets, 0 ≤ n ∧ n < 2 ^ 31) :
    Accepted (tableOf tickets) := by
  intro p
  unfold tableOf
  split
  next n hn => exact h n (List.mem_of_getElem? hn)
  next => exact ⟨Int.le_refl 0, by norm_num⟩

theorem raffle_tableOf {tickets : List Int} (h : ∀ n ∈ tickets, 0 ≤ n ∧ n < 2 ^ 31)
    (hsum : 1 ≤ ticketSum (tableOf tickets)) (hfits : IsInt (ticketSum (tableOf tickets) + 1)) :
    Raffle (tableOf tickets) :=
  ⟨(accepted_tableOf h).nonNeg, hsum, hfits⟩

/-- A process with two tickets behind one with a single ticket. -/
theorem pick_proportional_second :
    (tableOf [1, 2] 1).state = .RUNNABLE ∧
      (Proportional (tableOf [1, 2]) 1 ↔ ¬ FirstRunnable (tableOf [1, 2]) 1) :=
  ⟨by decide, pick_proportional_iff (raffle_tableOf (by decide) (by decide) (by decide)) (by decide)⟩

/-- A process alone in the table, with one ticket: both draws select it.
    Two processes, the first without a ticket: draw zero selects the first. -/
theorem pick_not_proportional :
    (Raffle (tableOf [1]) ∧ (tableOf [1] 0).state = .RUNNABLE ∧
      ((selecting (tableOf [1]) 0).ncard : Int) = 2 ∧ ¬ Proportional (tableOf [1]) 0) ∧
    (Raffle (tableOf [0, 1]) ∧ pick (tableOf [0, 1]) 0 = some 0 ∧
      0 ∈ draws (total_tickets (tableOf [0, 1]))) := by
  have hlone : Raffle (tableOf [1]) := raffle_tableOf (by decide) (by decide) (by decide)
  have hpair : Raffle (tableOf [0, 1]) := raffle_tableOf (by decide) (by decide) (by decide)
  have hfirst : FirstRunnable (tableOf [1]) 0 := fun q hq => absurd hq (by simp)
  have htwo : ((selecting (tableOf [1]) 0).ncard : Int) = 2 := by
    classical
    rw [ncard_selecting hlone (by decide), if_pos hfirst]
    decide
  refine ⟨⟨hlone, by decide, htwo, ?_⟩, hpair, by decide, ?_⟩
  · intro hprop
    have hone := hprop.1
    rw [htwo] at hone
    exact absurd hone (by decide)
  · rw [hpair.total_tickets, draws_eq (by decide) hpair.fits]
    decide

/-! ### When the draw is defined -/

/-- `random` returns a `uint` for every seed but zero. -/
theorem random_eq {m : Nat} (hm : m ≠ 0) : ∃ r, random m = some r := by
  have hloop : ∀ i xn, ∃ r, randomLoop m i xn = some r := by
    intro i
    induction i with
    | zero => exact fun xn => ⟨xn, rfl⟩
    | succ i ih =>
      intro xn
      rw [randomLoop, if_neg hm]
      exact ih _
  exact hloop 500 m

theorem random_zero : random 0 = none := rfl

/-- With a total that an `int` holds, and after the first tick, a ticket
    from zero to the total is drawn. -/
theorem winning_ticket_eq {total : Int} (h : 0 ≤ total) (h' : total < 2 ^ 31) {ticks : Nat}
    (hticks : ticks ≠ 0) : ∃ k : Nat, winning_ticket total ticks = some (k : Int) ∧ (k : Int) ≤ total := by
  have hm : toUint (addInt total 1) = (total + 1).toNat := by
    rw [toUint_addInt, Int.emod_eq_of_lt (by omega) (by omega)]
  obtain ⟨r, hr⟩ := random_eq hticks
  have hmod : r % (total + 1).toNat < (total + 1).toNat := Nat.mod_lt r (by omega)
  refine ⟨r % (total + 1).toNat, ?_, by omega⟩
  rw [winning_ticket, hr, Option.bind_some, reduceDraw]
  simp only [hm]
  rw [if_neg (by omega), toInt_of_lt (by omega)]

/-- The draw divides by zero nowhere, and the winning ticket lies between
    zero and the sum of the tickets, both as the number it is and as the
    `int` that `scheduler` counted. -/
def DrawInRange (t : Table) (ticks : Nat) : Prop :=
  ∃ w, winning_ticket (total_tickets t) ticks = some w ∧ 0 ≤ w ∧ w ≤ total_tickets t ∧
    w ≤ ticketSum t

/-- The draw is in range just when the tick counter is not zero and the sum
    of the tickets, as far as an `int` holds it, is not negative. -/
theorem draw_in_range_iff {t : Table} (h : Accepted t) (ticks : Nat) :
    DrawInRange t ticks ↔ ticks ≠ 0 ∧ ticketSum t % 2 ^ 32 < 2 ^ 31 := by
  have hsum := ticketSum_nonneg fun p => (h p).1
  have htotal := total_tickets_eq t
  rw [Int.bmod_def] at htotal
  norm_num at htotal
  constructor
  · rintro ⟨w, hw, hlo, hhi, -⟩
    constructor
    · rintro rfl
      rw [winning_ticket, random_zero] at hw
      cases hw
    · by_contra hge
      rw [if_neg (by omega)] at htotal
      omega
  · rintro ⟨hticks, hlt⟩
    rw [if_pos (by omega)] at htotal
    obtain ⟨w, hw, hle⟩ := winning_ticket_eq (by omega : 0 ≤ total_tickets t) (by omega) hticks
    exact ⟨w, hw, by omega, hle, by omega⟩

/-- One process with a ticket, at tick one. -/
theorem draw_in_range_lone : DrawInRange (tableOf [1]) 1 ↔
    (1 : Nat) ≠ 0 ∧ ticketSum (tableOf [1]) % 2 ^ 32 < 2 ^ 31 :=
  draw_in_range_iff (accepted_tableOf (by decide)) 1

/-- At tick zero `random` divides by zero; with tickets that add up to
    `2^32 - 1` the reduction of the draw does, at every tick. -/
theorem draw_divides_by_zero :
    (Accepted (tableOf [1]) ∧ winning_ticket (total_tickets (tableOf [1])) 0 = none) ∧
    (Accepted (tableOf [2147483647, 2147483647, 1]) ∧
      ∀ ticks, winning_ticket (total_tickets (tableOf [2147483647, 2147483647, 1])) ticks = none) := by
  refine ⟨⟨accepted_tableOf (by decide), rfl⟩, accepted_tableOf (by decide), ?_⟩
  have hzero : toUint (addInt (total_tickets (tableOf [2147483647, 2147483647, 1])) 1) = 0 := by decide
  intro ticks
  unfold winning_ticket
  cases random ticks with
  | none => rfl
  | some r => simp [reduceDraw, hzero]

end Lottery
