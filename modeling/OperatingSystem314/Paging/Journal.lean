import OperatingSystem314.Lib.Threads
import OperatingSystem314.Paging.Disk

/-! # Waiting for log space (`log.c`)

    `begin_op` sleeps while a transaction is being committed, and while the
    log may not have room for one more operation.  It counts on `end_op` to
    wake it.  Evicting a page writes to the swap file, in operations of its
    own, and `exec` and `filewrite` evict pages within an operation: then
    the end it waits for can be its own.

    * `State`, `fire`: any processes, in any order.
    * `never_deadlocks_iff`: the runs in which a sleeping process can be woken.
    * `Stuck`: a process that only itself could wake.
    * `exec_deadlocks`: two evictions in one `exec`. -/

namespace Paging

namespace Journal

/-! ### The log -/

structure Log where
  /-- how many FS sys calls are executing -/
  outstanding : Nat
  /-- in `commit()`, please wait -/
  committing : Bool
  /-- `lh.block`, up to `lh.n` -/
  block : List Nat
  size : Nat

namespace Log

variable (l : Log)

/-- This op might exhaust log space. -/
def Full : Prop := LOGSIZE < l.block.length + (l.outstanding + 1) * MAXOPBLOCKS

instance : Decidable l.Full := by
  unfold Full; infer_instance

/-- One round of the loop of `begin_op`; `none` if it sleeps. -/
def begin_op : Option Log :=
  if l.committing then none
  else if l.Full then none
  else some { l with outstanding := l.outstanding + 1 }

def log_write (b : Nat) : Result Log :=
  if LOGSIZE ≤ l.block.length ∨ l.size - 1 ≤ l.block.length then panic "too big a transaction"
  else if l.outstanding < 1 then panic "log_write outside of trans"
  else .ok { l with block := Disk.absorb b l.block }

/-- `end_op` up to `commit`, and whether it commits. -/
def end_op : Result (Bool × Log) :=
  let l := { l with outstanding := l.outstanding - 1 }
  if l.committing then panic "log.committing"
  else if l.outstanding = 0 then .ok (true, { l with committing := true })
  else .ok (false, l)

/-- The rest of `end_op`, after `commit`. -/
def committed : Log := { l with block := [], committing := false }

end Log

/-! ### The processes -/

inductive Pc where
  | running
  /-- at the top of the loop of `begin_op` -/
  | begin_op
  /-- `sleep(&log, &log.lock)` -/
  | asleep
  /-- in `commit`, called by `end_op` -/
  | commit
  deriving DecidableEq

structure State (P : Type) where
  log : Log
  pc : P → Pc
  /-- the operations that the process has begun and not ended -/
  depth : P → Nat

inductive Event where
  | begin_op
  | round
  | log_write (b : Nat)
  | end_op
  | committed

variable {P : Type}

/-- `wakeup(&log)` -/
def wakeup (pc : P → Pc) (p : P) : Pc :=
  match pc p with
  | .asleep => .begin_op
  | x => x

/-- Nobody has begun anything. -/
def boot (size : Nat) : State P where
  log := ⟨0, false, [], size⟩
  pc := fun _ => .running
  depth := fun _ => 0

/-- Somebody else has an operation to end, and is not asleep. -/
def OtherOpen (s : State P) (p : P) : Prop := ∃ q, q ≠ p ∧ 0 < s.depth q ∧ s.pc q ≠ .asleep

/-- Whoever sleeps in `begin_op` can be woken. -/
def CanWake (s : State P) : Prop := ∀ p, s.pc p = .asleep → s.log.committing = true ∨ OtherOpen s p

/-- An operation within an operation finds room in the log, or another
    process that can end one. -/
def NestedRoom (s : State P) (p : P) (e : Event) : Prop :=
  e = .round → 0 < s.depth p → s.log.Full → OtherOpen s p

variable {s s' : State P} {p q : P} {e : Event}

/-! ### The invariant -/

/-- Somebody has an operation to end, and is not asleep. -/
def SomeOpen (s : State P) : Prop := ∃ q, 0 < s.depth q ∧ s.pc q ≠ .asleep

theorem wakeup_ne_asleep (pc : P → Pc) (q : P) : wakeup pc q ≠ .asleep := by
  unfold wakeup
  split
  · exact nofun
  next hne => exact hne

section invariant

variable [Fintype P]

structure Inv (s : State P) : Prop where
  outstanding : s.log.outstanding = ∑ q, s.depth q
  committing : s.log.committing = true → s.log.outstanding = 0
  empty : s.log.committing = false → s.log.outstanding = 0 → s.log.block = []
  asleep : (∃ q, s.pc q = .asleep) → s.log.committing = true ∨ SomeOpen s

namespace Inv

theorem boot (size : Nat) : Inv (boot size : State P) := by
  refine ⟨?_, fun _ => rfl, fun _ _ => rfl, ?_⟩
  · exact (Finset.sum_const_zero).symm
  · rintro ⟨q, hq⟩
    cases hq

theorem canWake (h : Inv s) : CanWake s := by
  intro p hp
  rcases h.asleep ⟨p, hp⟩ with hcommitting | ⟨q, hopen, hq⟩
  · exact .inl hcommitting
  · refine .inr ⟨q, ?_, hopen, hq⟩
    rintro rfl
    exact hq hp

/-- Whoever has an operation open is counted. -/
theorem outstanding_pos (h : Inv s) (hp : 0 < s.depth p) : 0 < s.log.outstanding := by
  rw [h.outstanding]
  exact Nat.lt_of_lt_of_le hp (Finset.single_le_sum (f := s.depth) (fun _ _ => Nat.zero_le _) (Finset.mem_univ p))

theorem free_of_depth (h : Inv s) (hp : 0 < s.depth p) : s.log.committing = false := by
  cases hcommitting : s.log.committing with
  | false => rfl
  | true =>
    have hpos := h.outstanding_pos hp
    rw [h.committing hcommitting] at hpos
    cases hpos

/-- The log is full only while operations are open. -/
theorem someOpen_of_full (h : Inv s) (hfree : s.log.committing = false) (hfull : s.log.Full) :
    ∃ q, 0 < s.depth q := by
  by_contra hnone
  push Not at hnone
  have hzero : s.log.outstanding = 0 := by
    rw [h.outstanding]
    exact Finset.sum_eq_zero fun q _ => Nat.le_zero.mp (hnone q)
  unfold Log.Full at hfull
  rw [h.empty hfree hzero, hzero] at hfull
  exact absurd hfull (by decide)

/-- A process that has to wait is not the last one. -/
theorem sleeps (h : Inv s) (hroom : NestedRoom s p .round) (hwait : s.log.committing = true ∨ s.log.Full) :
    s.log.committing = true ∨ OtherOpen s p := by
  by_cases hfree : s.log.committing = true
  · exact .inl hfree
  have hfree : s.log.committing = false := by simpa using hfree
  have hfull : s.log.Full := hwait.resolve_left (by rw [hfree]; decide)
  right
  by_cases hdepth : s.depth p = 0
  · -- an operation of its own: those that fill the log are of others
    have hother : ∀ q, 0 < s.depth q → q ≠ p := by
      rintro q hq rfl
      omega
    obtain ⟨q, hq⟩ := h.someOpen_of_full hfree hfull
    by_cases hasleep : s.pc q = .asleep
    · obtain ⟨r, hr, hawake⟩ := (h.asleep ⟨q, hasleep⟩).resolve_left (by rw [hfree]; decide)
      exact ⟨r, hother r hr, hr, hawake⟩
    · exact ⟨q, hother q hq, hq, hasleep⟩
  · exact hroom rfl (Nat.pos_of_ne_zero hdepth) hfull

end Inv

end invariant

/-! ### A process that waits for itself -/

/-- All the operations that are open are of `p`, which sleeps. -/
structure Stuck (p : P) (s : State P) : Prop where
  asleep : s.pc p = .asleep
  others : ∀ q, q ≠ p → s.depth q = 0
  commits : ∀ q, s.pc q ≠ .commit
  full : s.log.Full

theorem Stuck.not_canWake (h : Stuck p s) (hfree : s.log.committing = false) : ¬ CanWake s := by
  intro hwake
  obtain hcommitting | ⟨q, hqp, hopen, -⟩ := hwake p h.asleep
  · exact absurd (hfree.symm.trans hcommitting) (by decide)
  · rw [h.others q hqp] at hopen
    cases hopen

section processes

variable [DecidableEq P]

/-! ### Steps -/

/-- Process `p` goes on; `none` if it does not do that now, or panics. -/
def fire (s : State P) (p : P) (e : Event) : Option (State P) :=
  match e, s.pc p with
  | .begin_op, .running => some { s with pc := Function.update s.pc p .begin_op }
  | .round, .begin_op =>
    match s.log.begin_op with
    | none => some { s with pc := Function.update s.pc p .asleep }
    | some log => some ⟨log, Function.update s.pc p .running, Function.update s.depth p (s.depth p + 1)⟩
  | .log_write b, .running =>
    if s.depth p = 0 then none
    else match s.log.log_write b with
      | .error _ => none
      | .ok log => some { s with log }
  | .end_op, .running =>
    if s.depth p = 0 then none
    else
      let depth := Function.update s.depth p (s.depth p - 1)
      match s.log.end_op with
      | .error _ => none
      | .ok (true, log) => some ⟨log, Function.update s.pc p .commit, depth⟩
      | .ok (false, log) => some ⟨log, wakeup s.pc, depth⟩
  | .committed, .commit => some { s with log := s.log.committed, pc := wakeup (Function.update s.pc p .running) }
  | _, _ => none

/-! ### Runs -/

/-- `Q` holds of every state of a run. -/
def States (Q : State P → Prop) : State P → List (P × Event) → Prop
  | s, [] => Q s
  | s, (p, e) :: rest => Q s ∧ ∀ s', fire s p e = some s' → States Q s' rest

/-- `R` holds of every step of a run. -/
def Steps (R : State P → P → Event → Prop) : State P → List (P × Event) → Prop
  | _, [] => True
  | s, (p, e) :: rest => ∀ s', fire s p e = some s' → R s p e ∧ Steps R s' rest

/-! ### What a step can be -/

/-- What a step can be. -/
inductive Fired (s : State P) (p : P) : Event → State P → Prop
  | begin_op : s.pc p = .running → Fired s p .begin_op { s with pc := Function.update s.pc p .begin_op }
  | sleeps : s.pc p = .begin_op → (s.log.committing = true ∨ s.log.Full) →
      Fired s p .round { s with pc := Function.update s.pc p .asleep }
  | begins : s.pc p = .begin_op → s.log.committing = false → ¬ s.log.Full →
      Fired s p .round ⟨{ s.log with outstanding := s.log.outstanding + 1 }, Function.update s.pc p .running,
        Function.update s.depth p (s.depth p + 1)⟩
  | logs (b : Nat) (block : List Nat) : s.pc p = .running → 0 < s.depth p → 0 < s.log.outstanding →
      Fired s p (.log_write b) { s with log := { s.log with block } }
  | commits : s.pc p = .running → 0 < s.depth p → s.log.outstanding - 1 = 0 →
      Fired s p .end_op ⟨{ s.log with outstanding := s.log.outstanding - 1, committing := true },
        Function.update s.pc p .commit, Function.update s.depth p (s.depth p - 1)⟩
  | ends : s.pc p = .running → 0 < s.depth p → s.log.outstanding - 1 ≠ 0 →
      Fired s p .end_op ⟨{ s.log with outstanding := s.log.outstanding - 1 }, wakeup s.pc,
        Function.update s.depth p (s.depth p - 1)⟩
  | committed : s.pc p = .commit →
      Fired s p .committed { s with log := s.log.committed, pc := wakeup (Function.update s.pc p .running) }

/-- Where a process is when the event is its own. -/
def Event.source : Event → Pc
  | .begin_op | .log_write _ | .end_op => .running
  | .round => .begin_op
  | .committed => .commit

theorem fire_source (h : fire s p e = some s') : s.pc p = e.source := by
  unfold fire at h
  split at h
  · assumption
  · assumption
  · assumption
  · assumption
  · assumption
  · cases h

theorem Log.begin_op_none {l : Log} (h : l.begin_op = none) : l.committing = true ∨ l.Full := by
  unfold Log.begin_op at h
  split at h
  · exact .inl ‹_›
  · split at h
    · exact .inr ‹_›
    · cases h

theorem Log.begin_op_some {l l' : Log} (h : l.begin_op = some l') :
    l.committing = false ∧ ¬ l.Full ∧ l' = { l with outstanding := l.outstanding + 1 } := by
  unfold Log.begin_op at h
  split at h
  · cases h
  next hfree =>
    split at h
    · cases h
    · cases h
      exact ⟨by simpa using hfree, ‹_›, rfl⟩

theorem Log.log_write_ok {l l' : Log} {b : Nat} (h : l.log_write b = .ok l') :
    0 < l.outstanding ∧ l' = { l with block := l'.block } := by
  unfold Log.log_write at h
  split at h
  · cases h
  · split at h
    · cases h
    · cases h
      exact ⟨by omega, rfl⟩

theorem Log.end_op_ok {l l' : Log} {last : Bool} (h : l.end_op = .ok (last, l')) :
    (last = true ∧ l.outstanding - 1 = 0 ∧ l' = { l with outstanding := l.outstanding - 1, committing := true }) ∨
    last = false ∧ l.outstanding - 1 ≠ 0 ∧ l' = { l with outstanding := l.outstanding - 1 } := by
  unfold Log.end_op at h
  dsimp only at h
  split at h
  · cases h
  · split at h
    · cases h
      exact .inl ⟨rfl, ‹_›, rfl⟩
    · cases h
      exact .inr ⟨rfl, ‹_›, rfl⟩

theorem Fired.of_fire (h : fire s p e = some s') : Fired s p e s' := by
  have hpc := fire_source h
  cases e with
  | begin_op =>
    simp only [fire, hpc, Event.source] at h
    cases h
    exact .begin_op hpc
  | round =>
    simp only [fire, hpc, Event.source] at h
    split at h
    next hwait =>
      cases h
      exact .sleeps hpc (Log.begin_op_none hwait)
    next log hbegin =>
      cases h
      obtain ⟨hfree, hroom, rfl⟩ := Log.begin_op_some hbegin
      exact .begins hpc hfree hroom
  | log_write b =>
    simp only [fire, hpc, Event.source] at h
    split at h
    · cases h
    next hdepth =>
      split at h
      · cases h
      next log hwrite =>
        cases h
        obtain ⟨hopen, hlog⟩ := Log.log_write_ok hwrite
        rw [hlog]
        exact .logs b _ hpc (Nat.pos_of_ne_zero hdepth) hopen
  | end_op =>
    simp only [fire, hpc, Event.source] at h
    split at h
    · cases h
    next hdepth =>
      split at h
      · cases h
      next log hend =>
        cases h
        obtain ⟨-, hlast, rfl⟩ | ⟨hfalse, -⟩ := Log.end_op_ok hend
        · exact .commits hpc (Nat.pos_of_ne_zero hdepth) hlast
        · cases hfalse
      next log hend =>
        cases h
        obtain ⟨htrue, -⟩ | ⟨-, hmore, rfl⟩ := Log.end_op_ok hend
        · cases htrue
        · exact .ends hpc (Nat.pos_of_ne_zero hdepth) hmore
  | committed =>
    simp only [fire, hpc, Event.source] at h
    cases h
    exact .committed hpc

/-! ### Stuck for ever -/

/-- Nobody else gets past `begin_op`. -/
theorem Stuck.step (h : Stuck p s) (hfire : Fired s q e s') : Stuck p s' := by
  have hne : ∀ {x}, s.pc q = x → x ≠ .asleep → q ≠ p := by
    rintro x hx hawake rfl
    exact hawake (hx.symm.trans h.asleep)
  have hnobody : s.pc q = .running → ¬ 0 < s.depth q := by
    intro hpc hopen
    rw [h.others q (hne hpc nofun)] at hopen
    cases hopen
  have hupdate : ∀ {x y}, s.pc q = x → x ≠ .asleep → y ≠ .commit →
      Stuck p { s with pc := Function.update s.pc q y } := by
    intro x y hx hawake hy
    refine ⟨?_, h.others, ?_, h.full⟩
    · show Function.update s.pc q y p = .asleep
      rw [Function.update_of_ne (hne hx hawake).symm]
      exact h.asleep
    · intro r
      show Function.update s.pc q y r ≠ .commit
      by_cases hr : r = q
      · rw [hr, Function.update_self]
        exact hy
      · rw [Function.update_of_ne hr]
        exact h.commits r
  cases hfire with
  | begin_op hpc => exact hupdate hpc nofun nofun
  | sleeps hpc => exact hupdate hpc nofun nofun
  | begins _ _ hroom => exact absurd h.full hroom
  | logs _ _ hpc hdepth => exact absurd hdepth (hnobody hpc)
  | commits hpc hdepth => exact absurd hdepth (hnobody hpc)
  | ends hpc hdepth => exact absurd hdepth (hnobody hpc)
  | committed hpc => exact absurd hpc (h.commits q)

/-- It sleeps for ever, whatever the others do. -/
theorem Stuck.forever (h : Stuck p s) (es : List (P × Event)) : States (fun s => s.pc p = .asleep) s es := by
  induction es generalizing s with
  | nil => exact h.asleep
  | cons qe rest ih => exact ⟨h.asleep, fun s' hfire => ih (h.step (.of_fire hfire))⟩

/-! ### The invariant, step by step -/

theorem update_ne_asleep {pc : P → Pc} {x : Pc} (hx : x ≠ .asleep) (hq : pc q ≠ .asleep) :
    Function.update pc p x q ≠ .asleep := by
  by_cases hqp : q = p
  · rw [hqp, Function.update_self]
    exact hx
  · rw [Function.update_of_ne hqp]
    exact hq

theorem SomeOpen.update (h : SomeOpen s) {log : Log} {x : Pc} (hx : x ≠ .asleep) :
    SomeOpen { s with log, pc := Function.update s.pc p x } := by
  obtain ⟨q, hopen, hq⟩ := h
  exact ⟨q, hopen, update_ne_asleep hx hq⟩

variable [Fintype P]

namespace Inv

/-- Who is asleep was asleep before. -/
theorem asleep_update (h : Inv s) {x : Pc} (hx : x ≠ .asleep) (hq : ∃ q, Function.update s.pc p x q = .asleep) :
    s.log.committing = true ∨ SomeOpen s := by
  obtain ⟨q, hq⟩ := hq
  apply h.asleep
  refine ⟨q, ?_⟩
  by_contra hne
  exact update_ne_asleep hx hne hq

/-- The operations that are left when `p` ends one. -/
theorem sum_end (h : Inv s) (hp : 0 < s.depth p) :
    s.log.outstanding - 1 = ∑ q, Function.update s.depth p (s.depth p - 1) q := by
  have hsum := Threads.sum_update s.depth p (s.depth p - 1)
  have hpos := h.outstanding_pos hp
  rw [← h.outstanding] at hsum
  omega

/-- One step, if a nested operation that has to wait can be woken. -/
theorem step (h : Inv s) (hroom : NestedRoom s p e) (hfire : Fired s p e s') : Inv s' := by
  cases hfire with
  | begin_op =>
    refine ⟨h.outstanding, h.committing, h.empty, ?_⟩
    intro hq
    exact (h.asleep_update (x := .begin_op) nofun hq).imp_right fun hopen => hopen.update nofun
  | sleeps _ hwait =>
    refine ⟨h.outstanding, h.committing, h.empty, ?_⟩
    intro _
    refine (h.sleeps hroom hwait).imp_right ?_
    rintro ⟨q, hqp, hopen, hq⟩
    refine ⟨q, hopen, ?_⟩
    show Function.update s.pc p .asleep q ≠ .asleep
    rw [Function.update_of_ne hqp]
    exact hq
  | begins _ hfree =>
    refine ⟨?_, ?_, nofun, ?_⟩
    · have hsum := Threads.sum_update s.depth p (s.depth p + 1)
      rw [← h.outstanding] at hsum
      show s.log.outstanding + 1 = ∑ q, Function.update s.depth p (s.depth p + 1) q
      omega
    · intro hcommitting
      exact absurd (hfree.symm.trans hcommitting) (by decide)
    · intro hq
      refine (h.asleep_update (x := .running) nofun hq).imp_right ?_
      rintro ⟨q, hopen, hawake⟩
      refine ⟨q, ?_, update_ne_asleep nofun hawake⟩
      show 0 < Function.update s.depth p (s.depth p + 1) q
      by_cases hqp : q = p
      · rw [hqp, Function.update_self]
        exact Nat.succ_pos _
      · rw [Function.update_of_ne hqp]
        exact hopen
  | logs b block _ _ hpos =>
    refine ⟨h.outstanding, h.committing, ?_, h.asleep⟩
    intro _ hzero
    exact absurd hzero (Nat.ne_of_gt hpos)
  | commits _ hdepth hlast => exact ⟨h.sum_end hdepth, fun _ => hlast, nofun, fun _ => .inl rfl⟩
  | ends _ hdepth hmore =>
    refine ⟨h.sum_end hdepth, ?_, fun _ hzero => absurd hzero hmore, ?_⟩
    · intro hcommitting
      exact absurd ((h.free_of_depth hdepth).symm.trans hcommitting) (by decide)
    · rintro ⟨q, hq⟩
      exact absurd hq (wakeup_ne_asleep _ q)
  | committed =>
    refine ⟨h.outstanding, nofun, fun _ _ => rfl, ?_⟩
    rintro ⟨q, hq⟩
    exact absurd hq (wakeup_ne_asleep _ q)

/-- A step after which everybody who sleeps can be woken. -/
theorem nestedRoom (h : Inv s) (hfire : Fired s p e s') (hwake : CanWake s') : NestedRoom s p e := by
  rintro rfl hdepth hfull
  cases hfire with
  | sleeps hpc hwait =>
    have hfree := h.free_of_depth hdepth
    obtain hcommitting | ⟨q, hqp, hopen, hq⟩ := hwake p (Function.update_self _ _ _)
    · exact absurd (hfree.symm.trans hcommitting) (by decide)
    · refine ⟨q, hqp, hopen, ?_⟩
      have hq' : Function.update s.pc p .asleep q ≠ .asleep := hq
      rw [Function.update_of_ne hqp] at hq'
      exact hq'
  | begins _ _ hroom => exact absurd hfull hroom

/-- Along a run. -/
theorem run_iff {es : List (P × Event)} (h : Inv s) : States CanWake s es ↔ Steps NestedRoom s es := by
  induction es generalizing s with
  | nil => exact ⟨fun _ => trivial, fun _ => h.canWake⟩
  | cons pe rest ih =>
    obtain ⟨p, e⟩ := pe
    constructor
    · rintro ⟨-, hrest⟩ s' hfire
      have hstates := hrest s' hfire
      have hwake : CanWake s' := by
        cases rest with
        | nil => exact hstates
        | cons => exact hstates.1
      have hroom := h.nestedRoom (.of_fire hfire) hwake
      exact ⟨hroom, (ih (h.step hroom (.of_fire hfire))).mp hstates⟩
    · intro hsteps
      refine ⟨h.canWake, ?_⟩
      intro s' hfire
      obtain ⟨hroom, hrest⟩ := hsteps s' hfire
      exact (ih (h.step hroom (.of_fire hfire))).mpr hrest

end Inv

end processes

/-! ### Evictions within `exec` -/

/-- An operation that logs the blocks. -/
def op (blocks : List Nat) : List Event := [.begin_op, .round] ++ blocks.map .log_write ++ [.end_op]

/-- What one chunk of `filewrite` logs, if its blocks are new: for each the
    free map, the zeroed block and the block, and the inode at the end. -/
def chunk (bitmap inode : Nat) (blocks : List Nat) : List Nat := blocks.flatMap (fun b => [bitmap, b, b]) ++ [inode]

/-- `exec` within its operation: an eviction is a list of chunks. -/
def execEvents (evictions : List (List (List Nat))) : List Event :=
  [.begin_op, .round] ++ evictions.flatten.flatMap op ++ [.end_op]

/-- The state after a run. -/
def after {P : Type} [DecidableEq P] : State P → List (P × Event) → Option (State P)
  | s, [] => some s
  | s, (p, e) :: rest => (fire s p e).bind fun s => after s rest

/-- The first two pages in a swap file, of 8 blocks each, in chunks of 3, 3
    and 2 blocks; the free map is block 58, the inode is in block 34. -/
def twoEvictions : List (List (List Nat)) :=
  [[chunk 58 34 [100, 101, 102], chunk 58 34 [103, 104, 105], chunk 58 34 [106, 107]],
    [chunk 58 34 [108, 109, 110], chunk 58 34 [111, 112, 113], chunk 58 34 [114, 115]]]

theorem States.after {P : Type} [DecidableEq P] {Q : State P → Prop} {s s' : State P} {es : List (P × Event)}
    (h : States Q s es) (hafter : after s es = some s') : Q s' := by
  induction es generalizing s with
  | nil =>
    cases hafter
    exact h
  | cons pe rest ih =>
    obtain ⟨p, e⟩ := pe
    obtain ⟨s1, hfire, hrest⟩ := Option.bind_eq_some_iff.mp hafter
    exact ih (h.2 s1 hfire) hrest

/-- Up to the second chunk of the second page. -/
def execRun : List (ProcId × Event) := ((execEvents twoEvictions).take 53).map fun e => (2, e)

/-- The state it comes to. -/
def execState : State ProcId := (after (boot LOGSIZE) execRun).get (by decide +kernel)

theorem execState_after : after (boot LOGSIZE) execRun = some execState := (Option.some_get _).symm

theorem execState_stuck : Stuck 2 execState := by
  refine ⟨by decide +kernel, ?_, ?_, by decide +kernel⟩
  · decide +kernel
  · decide +kernel

end Journal

end Paging
