import OperatingSystem314.Lottery.Scheduler

/-! # Interrupts between the count and the pick

    `scheduler` counts the tickets under one acquisition of `ptable.lock`
    and looks for their holder under another; with one CPU only interrupt
    handlers run in between.  A handler wakes processes up (`wakeup1`), and
    the timer's also counts a tick.

    `pick_after_wakeups`: the winning ticket still has a holder, since
    waking up only adds tickets. -/

namespace Lottery

/-! ### The handlers -/

/-- `wakeup1` -/
def wakeup1 (t : Table) (chan : Chan) : Table := fun p =>
  if (t p).state = .SLEEPING ∧ (t p).chan = some chan then { t p with state := .RUNNABLE } else t p

structure Kernel where
  table : Table
  ticks : Nat

/-- Address of the variable `ticks`, which sleepers wait on. -/
def ticksChan : Chan := 0

inductive Interrupt where
  /-- the timer: a tick is counted -/
  | timer
  /-- a device: whoever waits for it is woken up -/
  | device (chan : Chan)
  deriving DecidableEq

/-- The effect of `trap` for an interrupt taken inside `scheduler`, where no
    process runs. -/
def Kernel.interrupt (k : Kernel) : Interrupt → Kernel
  | .timer => { table := wakeup1 k.table ticksChan, ticks := (k.ticks + 1) % 2 ^ 32 }
  | .device chan => { k with table := wakeup1 k.table chan }

def Kernel.interrupts (k : Kernel) (is : List Interrupt) : Kernel := is.foldl Kernel.interrupt k

/-- What a round of `scheduler` comes to: the table when the picking loop
    starts, and the slot it selects, or `none` for a divide error. -/
def schedulerRound (k : Kernel) (beforeDraw afterDraw : List Interrupt) :
    Option (Table × Option Slot) :=
  let total := total_tickets k.table
  let k := k.interrupts beforeDraw
  match winning_ticket total k.ticks with
  | none => none
  | some w =>
    let k := k.interrupts afterDraw
    some (k.table, pick k.table w)

/-! ### Waking up adds tickets -/

/-- From `t` to `t'` sleeping processes may have become `RUNNABLE`. -/
structure Woken (t t' : Table) : Prop where
  tickets : ∀ p, (t' p).tickets = (t p).tickets
  runs : ∀ p, (t p).state = .RUNNABLE → (t' p).state = .RUNNABLE

namespace Woken

variable {t t' t'' : Table}

theorem refl (t : Table) : Woken t t := ⟨fun _ => rfl, fun _ h => h⟩

theorem trans (h : Woken t t') (h' : Woken t' t'') : Woken t t'' :=
  ⟨fun p => (h'.tickets p).trans (h.tickets p), fun p hp => h'.runs p (h.runs p hp)⟩

theorem wakeup1 (t : Table) (chan : Chan) : Woken t (wakeup1 t chan) := by
  constructor
  · intro p
    unfold Lottery.wakeup1
    split
    · rfl
    · rfl
  · intro p hp
    unfold Lottery.wakeup1
    rw [if_neg (by rw [hp]; simp), hp]

theorem interrupt (k : Kernel) (i : Interrupt) : Woken k.table (k.interrupt i).table := by
  cases i with
  | timer => exact wakeup1 k.table ticksChan
  | device chan => exact wakeup1 k.table chan

theorem interrupts (k : Kernel) (is : List Interrupt) : Woken k.table (k.interrupts is).table := by
  induction is generalizing k with
  | nil => exact refl k.table
  | cons i is ih => exact (interrupt k i).trans (ih (k.interrupt i))

theorem ticketSum_le (h : Woken t t') (hpos : ∀ p, 0 ≤ (t p).tickets) : ticketSum t ≤ ticketSum t' := by
  have hsub : (runnable t).Sublist (runnable t') := by
    apply List.monotone_filter_right
    intro p hp
    simp only [decide_eq_true_eq] at hp ⊢
    exact h.runs p hp
  have heq : ((runnable t).map fun p => (t p).tickets) = (runnable t).map fun p => (t' p).tickets := by
    simp only [h.tickets]
  unfold ticketSum
  rw [heq]
  apply List.Sublist.sum_le_sum (hsub.map _)
  intro x hx
  obtain ⟨p, -, rfl⟩ := List.mem_map.mp hx
  rw [h.tickets]
  exact hpos p

/-- The tickets of the table bound those of the `RUNNABLE` processes, whoever is awake. -/
theorem ticketSum_le_sum (h : Woken t t') (hpos : ∀ p, 0 ≤ (t p).tickets) :
    ticketSum t' ≤ (slots.map fun p => (t p).tickets).sum := by
  unfold ticketSum
  simp only [h.tickets]
  apply List.Sublist.sum_le_sum (List.filter_sublist.map _)
  intro x hx
  obtain ⟨p, -, rfl⟩ := List.mem_map.mp hx
  exact hpos p

end Woken

/-- The scheduler picks exactly one process, and a `RUNNABLE` one, if there
    is any when it looks: whatever was woken up since it counted. -/
theorem pick_after_wakeups (k : Kernel) (beforeDraw afterDraw : List Interrupt)
    (hpos : ∀ p, 0 ≤ (k.table p).tickets)
    (hfits : IsInt ((slots.map fun p => (k.table p).tickets).sum + 1))
    (hticks : (k.interrupts beforeDraw).ticks ≠ 0)
    (hrun : ∃ q, (((k.interrupts beforeDraw).interrupts afterDraw).table q).state = .RUNNABLE) :
    ∃! p, schedulerRound k beforeDraw afterDraw =
        some (((k.interrupts beforeDraw).interrupts afterDraw).table, some p) ∧
      (((k.interrupts beforeDraw).interrupts afterDraw).table p).state = .RUNNABLE := by
  have hwoken := (Woken.interrupts k beforeDraw).trans (.interrupts _ afterDraw)
  obtain ⟨q, hq⟩ := hrun
  generalize hk1 : k.interrupts beforeDraw = k1 at *
  generalize hk2 : k1.interrupts afterDraw = k2 at *
  have hfits' := hfits.2
  -- what is counted, what there is to pick from, and what the table holds
  have hle := hwoken.ticketSum_le hpos
  have hall := hwoken.ticketSum_le_sum hpos
  have hcount := ticketSum_nonneg hpos
  have htotal : total_tickets k.table = ticketSum k.table := by
    rw [total_tickets_eq, bmod_of_isInt ⟨by omega, by omega⟩]
  obtain ⟨w, hw, hwle⟩ := winning_ticket_eq hcount (by omega) hticks
  have hnonNeg : NonNeg k2.table := by
    intro p _
    rw [hwoken.tickets]
    exact hpos p
  have hpick := pick_eq hnonNeg (by omega) w
  have hsum := ticketSum_eq hnonNeg
  have hne : runnable k2.table ≠ [] := List.ne_nil_of_mem (mem_runnable.mpr hq)
  have hreach : w ≤ 0 + PrefixScan.total (weight k2.table) (runnable k2.table) := by omega
  obtain ⟨p, hp⟩ := Option.isSome_iff_exists.mp (PrefixScan.scan_isSome hne hreach)
  have hround : schedulerRound k beforeDraw afterDraw = some (k2.table, some p) := by
    simp only [schedulerRound, htotal, hk1, hw, hk2, hpick, hp]
  refine ⟨p, ⟨hround, mem_runnable.mp (PrefixScan.mem_of_scan hp)⟩, ?_⟩
  intro p' hp'
  rw [hround] at hp'
  simpa using hp'.1.symm

/-- A process asleep that a device wakes up after the draw is picked too. -/
theorem pick_after_wakeups_device :
    ∃! p, schedulerRound ⟨Function.update (tableOf [1, 2]) 0
        { tableOf [1, 2] 0 with state := .SLEEPING, chan := some 8 }, 1⟩ [.timer] [.device 8] =
        some (((Kernel.mk (Function.update (tableOf [1, 2]) 0
          { tableOf [1, 2] 0 with state := .SLEEPING, chan := some 8 }) 1).interrupts
          [.timer] |>.interrupts [.device 8]).table, some p) ∧
      (((Kernel.mk (Function.update (tableOf [1, 2]) 0
          { tableOf [1, 2] 0 with state := .SLEEPING, chan := some 8 }) 1).interrupts
          [.timer] |>.interrupts [.device 8]).table p).state = .RUNNABLE :=
  pick_after_wakeups _ _ _ (by decide) (by decide) (by decide) ⟨0, by decide⟩

end Lottery
