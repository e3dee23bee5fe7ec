import OperatingSystem314.Lib.AtomicStore
import OperatingSystem314.Storage.Log

/-! # What the log keeps, step by step

    * `recovered`: what recovery makes of a disk.
    * `Inv`: what holds between any two steps, phase by phase.
    * `Abs`: the disk as an `AtomicStore`.
    * `Inv.down`, `Inv.writeLog` and so on: what each step does to both.  The
      one write of the header commits (`Inv.writeHead`). -/

namespace Storage

open Paging (LOGSIZE)
open Paging.Journal (Log)
open Function (update update_self update_of_ne)

variable {start size : Nat} {s s' : State} {b : Nat} {x : Block}

/-! ### The header -/

theorem getHead_putHead {lh : List Nat} (hlen : lh.length < 2 ^ 32) (hlt : ∀ b ∈ lh, b < 2 ^ 32) :
    getHead (putHead x lh) = lh := by
  unfold getHead
  have hcount : (putHead x lh 0).toNat = lh.length := by
    show (UInt32.ofNat lh.length).toNat = lh.length
    rw [UInt32.toNat_ofNat']
    exact Nat.mod_eq_of_lt hlen
  rw [hcount]
  apply List.ext_getElem
  · simp
  · intro i h1 h2
    rw [List.getElem_map, List.getElem_range]
    show ((lh[i]?).elim (x (i + 1)) UInt32.ofNat).toNat = _
    rw [List.getElem?_eq_getElem h2, Option.elim_some, UInt32.toNat_ofNat']
    exact Nat.mod_eq_of_lt (hlt _ (List.getElem_mem h2))

/-- What a header may list. -/
structure HeadOk (start size : Nat) (lh : List Nat) : Prop where
  nodup : lh.Nodup
  short : lh.length ≤ LOGSIZE
  fits : lh = [] ∨ lh.length < size
  word : ∀ b ∈ lh, b < 2 ^ 32
  home : ∀ b ∈ lh, ¬ InLog start size b

theorem HeadOk.nil : HeadOk start size [] :=
  ⟨List.nodup_nil, Nat.zero_le _, .inl rfl, by simp, by simp⟩

theorem HeadOk.getHead (h : HeadOk start size lh) : getHead (putHead x lh) = lh := by
  apply getHead_putHead _ h.word
  have := h.short
  unfold LOGSIZE Paging.MAXOPBLOCKS at this
  omega

/-! ### Buffers -/

namespace State

@[simp] theorem bread_fst (s : State) (b : Nat) : (s.bread b).1 = s.view b := by
  unfold bread view
  cases s.cache b with
  | none => rfl
  | some buf => rfl

@[simp] theorem bread_disk (s : State) (b : Nat) : (s.bread b).2.disk = s.disk := by
  unfold bread
  split
  · rfl
  · rfl

@[simp] theorem bread_log (s : State) (b : Nat) : (s.bread b).2.log = s.log := by
  unfold bread
  split
  · rfl
  · rfl

@[simp] theorem bread_phase (s : State) (b : Nat) : (s.bread b).2.phase = s.phase := by
  unfold bread
  split
  · rfl
  · rfl

@[simp] theorem bread_view (s : State) (b : Nat) : (s.bread b).2.view = s.view := by
  funext c
  unfold bread
  split
  · rfl
  next hnone =>
    unfold view
    by_cases hc : c = b
    · simp [hc, hnone]
    · simp [update_of_ne hc]

@[simp] theorem bread_dirty (s : State) (b : Nat) : (s.bread b).2.dirty = s.dirty := by
  funext c
  unfold bread
  split
  · rfl
  next hnone =>
    unfold dirty
    by_cases hc : c = b
    · simp [hc, hnone]
    · simp [update_of_ne hc]

@[simp] theorem bwrite_disk (s : State) (b : Nat) (x : Block) : (s.bwrite b x).disk = update s.disk b x := rfl

@[simp] theorem bwrite_log (s : State) (b : Nat) (x : Block) : (s.bwrite b x).log = s.log := rfl

@[simp] theorem bwrite_view (s : State) (b : Nat) (x : Block) : (s.bwrite b x).view = update s.view b x := by
  funext c
  unfold bwrite view
  by_cases hc : c = b
  · simp [hc]
  · simp [update_of_ne hc]

@[simp] theorem bwrite_dirty (s : State) (b : Nat) (x : Block) :
    (s.bwrite b x).dirty = update s.dirty b false := by
  funext c
  unfold bwrite dirty
  by_cases hc : c = b
  · simp [hc]
  · simp [update_of_ne hc]

/-- A clean buffer holds what is on the disk. -/
def Clean (s : State) : Prop := ∀ b, s.dirty b = false → s.view b = s.disk b

theorem evict_disk (s : State) (b : Nat) : (s.evict b).disk = s.disk := by
  unfold evict
  split
  · rfl
  · rfl

theorem evict_log (s : State) (b : Nat) : (s.evict b).log = s.log := by
  unfold evict
  split
  · rfl
  · rfl

theorem evict_phase (s : State) (b : Nat) : (s.evict b).phase = s.phase := by
  unfold evict
  split
  · rfl
  · rfl

theorem evict_view (h : s.Clean) (b : Nat) : (s.evict b).view = s.view := by
  funext c
  unfold evict
  split
  · rfl
  next hd =>
    by_cases hc : c = b
    · rw [hc, h b (by simpa using hd)]
      simp [view]
    · simp [view, update_of_ne hc]

theorem evict_dirty (s : State) (b : Nat) : (s.evict b).dirty = s.dirty := by
  funext c
  unfold evict
  split
  · rfl
  next hd =>
    by_cases hc : c = b
    · rw [hc]
      simpa [dirty] using hd
    · simp [dirty, update_of_ne hc]

end State

/-! ### What recovery makes of a disk -/

/-- The header on the disk. -/
def State.onDisk (s : State) (start : Nat) : List Nat := getHead (s.disk start)

/-- The committed copies take the place of the blocks they are of. -/
def recovered (start : Nat) (disk : Nat → Block) (b : Nat) : Block :=
  let lh := getHead (disk start)
  if b ∈ lh then disk (start + lh.idxOf b + 1) else disk b

theorem recovered_of_nil {disk : Nat → Block} (h : getHead (disk start) = []) (b : Nat) :
    recovered start disk b = disk b := by
  simp [recovered, h]

theorem recovered_of_get {disk : Nat → Block} {i : Nat} (h : (getHead (disk start)).Nodup)
    (hi : (getHead (disk start))[i]? = some b) : recovered start disk b = disk (start + i + 1) := by
  obtain ⟨hlt, rfl⟩ := List.getElem?_eq_some_iff.mp hi
  simp [recovered, h.idxOf_getElem]

theorem recovered_of_not_mem {disk : Nat → Block} (h : b ∉ getHead (disk start)) :
    recovered start disk b = disk b := by
  simp [recovered, h]

/-- Two disks with the same header and the same copies, which elsewhere agree. -/
theorem recovered_congr {disk disk' : Nat → Block} (hhead : disk' start = disk start)
    (hcopy : ∀ i, i < (getHead (disk start)).length → disk' (start + i + 1) = disk (start + i + 1))
    (hb : b ∉ getHead (disk start) → disk' b = disk b) : recovered start disk' b = recovered start disk b := by
  unfold recovered
  simp only [hhead]
  split
  next hmem => exact hcopy _ (List.idxOf_lt_length_iff.mpr hmem)
  next hno => exact hb hno

/-! ### The invariant -/

/-- The first `t` logged blocks have been copied to the log. -/
def Copied (start : Nat) (s : State) (t : Nat) : Prop :=
  ∀ i b, i < t → s.log.block[i]? = some b → s.disk (start + i + 1) = s.view b

/-- The first `t` logged blocks have been copied home. -/
def Installed (start : Nat) (s : State) (t : Nat) : Prop :=
  ∀ i b, i < t → s.log.block[i]? = some b → s.disk b = s.disk (start + i + 1)

/-- What is in the cache is what is in the log. -/
def Logged (start : Nat) (s : State) : Prop :=
  ∀ i b, s.log.block[i]? = some b → s.view b = s.disk (start + i + 1)

/-- Only these buffers are dirty. -/
def DirtyIn (s : State) (l : List Nat) : Prop := ∀ b, s.dirty b = true → b ∈ l

/-- What holds in each phase. -/
def PhaseInv (start : Nat) (s : State) : Phase → Prop
  | .down => s.log.block = [] ∧ s.log.outstanding = 0 ∧ DirtyIn s []
  | .up => s.onDisk start = [] ∧ DirtyIn s s.log.block ∧ (s.log.outstanding = 0 → s.log.block = [])
  | .writeLog t => s.onDisk start = [] ∧ s.log.outstanding = 0 ∧ DirtyIn s s.log.block ∧ Copied start s t
  | .writeHead => s.onDisk start = [] ∧ s.log.outstanding = 0 ∧ DirtyIn s s.log.block ∧
      Copied start s s.log.block.length
  | .install t r => s.onDisk start = s.log.block ∧ s.log.outstanding = 0 ∧ Installed start s t ∧
      if r then DirtyIn s [] else DirtyIn s (s.log.block.drop t) ∧ Logged start s
  | .clear _ => s.onDisk start = s.log.block ∧ s.log.outstanding = 0 ∧
      Installed start s s.log.block.length ∧ DirtyIn s []
  | .done => s.onDisk start = [] ∧ s.log.outstanding = 0 ∧ s.log.block = [] ∧ DirtyIn s []

structure Inv (start size : Nat) (s : State) : Prop where
  logSize : s.log.size = size
  clean : s.Clean
  headOk : HeadOk start size (s.onDisk start)
  lhOk : HeadOk start size s.log.block
  inLog : InLog start size start
  phase : PhaseInv start s s.phase

/-- What a program sees, which is nothing until recovery is over. -/
def State.visible (s : State) (start : Nat) : Nat → Block :=
  if s.phase.recovering then recovered start s.disk else s.view

theorem State.visible_recovering (h : s.phase.recovering = true) : s.visible start = recovered start s.disk := by
  simp [visible, h]

theorem State.visible_serving (h : s.phase.recovering = false) : s.visible start = s.view := by
  simp [visible, h]

/-- The log as an atomic store of the blocks outside it. -/
structure Abs (start size : Nat) (s : State) (a : AtomicStore Nat Block) : Prop where
  durable : ∀ b, ¬ InLog start size b → a.durable b = recovered start s.disk b
  current : ∀ b, ¬ InLog start size b → a.current b = s.visible start b
  active : a.active = s.log.outstanding

/-! ### Steps that change nothing -/

/-- The cache may differ, but not what is seen of it. -/
structure Same (s s' : State) : Prop where
  disk : s'.disk = s.disk
  view : s'.view = s.view
  dirty : s'.dirty = s.dirty
  log : s'.log = s.log
  phase : s'.phase = s.phase

theorem Inv.same (h : Inv start size s) (hs : Same s s') : Inv start size s' := by
  obtain ⟨hdisk, hview, hdirty, hlog, hphase⟩ := hs
  have hon : s'.onDisk start = s.onDisk start := by
    unfold State.onDisk
    rw [hdisk]
  refine ⟨by rw [hlog]; exact h.logSize, ?_, by rw [hon]; exact h.headOk, by rw [hlog]; exact h.lhOk, h.inLog, ?_⟩
  · intro b hb
    rw [hdirty] at hb
    rw [hview, hdisk]
    exact h.clean b hb
  · have hinv := h.phase
    rw [hphase]
    unfold PhaseInv Installed Logged Copied DirtyIn at hinv ⊢
    rw [hon, hdisk, hview, hdirty, hlog]
    exact hinv

/-- A step that the atomic store does not notice. -/
theorem Abs.stutter {a : AtomicStore Nat Block} (h : Abs start size s a)
    (hrec : ∀ b, ¬ InLog start size b → recovered start s'.disk b = recovered start s.disk b)
    (hvis : ∀ b, ¬ InLog start size b → s'.visible start b = s.visible start b)
    (hactive : s'.log.outstanding = s.log.outstanding) : Abs start size s' a :=
  ⟨fun b hb => (h.durable b hb).trans (hrec b hb).symm, fun b hb => (h.current b hb).trans (hvis b hb).symm,
    h.active.trans hactive.symm⟩

theorem Abs.same {a : AtomicStore Nat Block} (h : Abs start size s a) (hs : Same s s') : Abs start size s' a := by
  apply h.stutter
  · intro b _
    rw [hs.disk]
  · intro b _
    unfold State.visible
    rw [hs.disk, hs.view, hs.phase]
  · rw [hs.log]

theorem Same.read (s : State) (b : Nat) : Same s (s.bread b).2 :=
  ⟨by simp, by simp, by simp, by simp, by simp⟩

theorem Same.evict (h : s.Clean) (b : Nat) : Same s (s.evict b) :=
  ⟨s.evict_disk b, State.evict_view h b, s.evict_dirty b, s.evict_log b, s.evict_phase b⟩

/-! ### Steps that write to the disk -/

/-- Block `c` has been written. -/
structure Wrote (c : Nat) (x : Block) (s s' : State) : Prop where
  disk : s'.disk = update s.disk c x
  view : s'.view = update s.view c x
  dirty : s'.dirty = update s.dirty c false

namespace Wrote

variable {c : Nat}

theorem clean (h : Wrote c x s s') (hs : s.Clean) : s'.Clean := by
  intro b hb
  rw [h.dirty] at hb
  rw [h.view, h.disk]
  by_cases hc : b = c
  · simp [hc]
  · rw [update_of_ne hc] at hb
    rw [update_of_ne hc, update_of_ne hc]
    exact hs b hb

theorem disk_ne (h : Wrote c x s s') (hb : b ≠ c) : s'.disk b = s.disk b := by
  rw [h.disk, update_of_ne hb]

theorem view_ne (h : Wrote c x s s') (hb : b ≠ c) : s'.view b = s.view b := by
  rw [h.view, update_of_ne hb]

theorem disk_self (h : Wrote c x s s') : s'.disk c = x := by
  rw [h.disk, update_self]

theorem view_self (h : Wrote c x s s') : s'.view c = x := by
  rw [h.view, update_self]

theorem dirty_ne (h : Wrote c x s s') (hb : s'.dirty b = true) : b ≠ c ∧ s.dirty b = true := by
  rw [h.dirty] at hb
  by_cases hc : b = c
  · rw [hc, update_self] at hb
    cases hb
  · rw [update_of_ne hc] at hb
    exact ⟨hc, hb⟩

theorem onDisk (h : Wrote c x s s') (hc : c ≠ start) : s'.onDisk start = s.onDisk start := by
  unfold State.onDisk
  rw [h.disk_ne (Ne.symm hc)]

end Wrote

theorem wrote_writeLog (s : State) (b start tail : Nat) :
    Wrote (start + tail + 1) (s.view b) s (s.writeLog b start tail) :=
  ⟨by simp [State.writeLog], by simp [State.writeLog], by simp [State.writeLog]⟩

theorem wrote_install (s : State) (b start tail : Nat) :
    Wrote b (s.view (start + tail + 1)) s (s.install b start tail) :=
  ⟨by simp [State.install], by simp [State.install], by simp [State.install]⟩

theorem wrote_writeHead (s : State) (start : Nat) :
    Wrote start (putHead (s.view start) s.log.block) s (s.writeHead start) :=
  ⟨by simp [State.writeHead], by simp [State.writeHead], by simp [State.writeHead]⟩

theorem writeLog_log (s : State) (b start tail : Nat) : (s.writeLog b start tail).log = s.log := by
  simp [State.writeLog]

theorem install_log (s : State) (b start tail : Nat) : (s.install b start tail).log = s.log := by
  simp [State.install]

theorem writeHead_log (s : State) (start : Nat) : (s.writeHead start).log = s.log := by
  simp [State.writeHead]

namespace Inv

variable {a : AtomicStore Nat Block} {t : Nat} {r : Bool}

/-- Whatever the phase, only logged blocks are dirty. -/
theorem dirty_mem (h : Inv start size s) (hb : s.dirty b = true) : b ∈ s.log.block := by
  have hinv := h.phase
  cases hphase : s.phase with
  | down =>
    rw [hphase] at hinv
    have := hinv.2.2 b hb
    simp at this
  | up =>
    rw [hphase] at hinv
    exact hinv.2.1 b hb
  | writeLog t =>
    rw [hphase] at hinv
    exact hinv.2.2.1 b hb
  | writeHead =>
    rw [hphase] at hinv
    exact hinv.2.2.1 b hb
  | install t r =>
    rw [hphase] at hinv
    obtain ⟨-, -, -, hinv⟩ := hinv
    cases r with
    | true =>
      have := hinv b hb
      simp at this
    | false => exact List.mem_of_mem_drop (hinv.1 b hb)
  | clear r =>
    rw [hphase] at hinv
    have := hinv.2.2.2 b hb
    simp at this
  | done =>
    rw [hphase] at hinv
    have := hinv.2.2.2 b hb
    simp at this

/-- The log is read as it is on the disk. -/
theorem view_log (h : Inv start size s) (hb : InLog start size b) : s.view b = s.disk b := by
  apply h.clean
  cases hd : s.dirty b with
  | false => rfl
  | true => exact absurd hb (h.lhOk.home b (h.dirty_mem hd))

/-- The copy of a logged block lies in the log, after the header. -/
theorem copy_inLog (h : Inv start size s) (ht : t < s.log.block.length) : InLog start size (start + t + 1) := by
  rcases h.lhOk.fits with hnil | hfits
  · rw [hnil] at ht
    simp at ht
  · unfold InLog
    omega

theorem home_ne (h : Inv start size s) {i : Nat} (hb : s.log.block[i]? = some b) {c : Nat}
    (hc : InLog start size c) : b ≠ c := by
  rintro rfl
  exact h.lhOk.home b (List.mem_of_getElem? hb) hc

end Inv

/-! ### What `go` does -/

section go

variable {t : Nat} {r : Bool}

theorem Wrote.phase {c : Nat} (h : Wrote c x s s') (p : Phase) : Wrote c x s { s' with phase := p } :=
  ⟨h.disk, h.view, h.dirty⟩

theorem go_down (hphase : s.phase = .down) (hgo : s.go start = some s') :
    s'.disk = s.disk ∧ s'.view = s.view ∧ s'.dirty = s.dirty ∧
      s'.log = { s.log with block := getHead (s.view start) } ∧
      s'.phase = if s'.log.block = [] then .clear true else .install 0 true := by
  simp only [State.go, hphase, Option.some.injEq] at hgo
  subst hgo
  refine ⟨s.bread_disk start, s.bread_view start, s.bread_dirty start, ?_, rfl⟩
  simp [State.readHead]

theorem go_writeLog (hphase : s.phase = .writeLog t) (hgo : s.go start = some s') :
    ∃ b, s.log.block[t]? = some b ∧ Wrote (start + t + 1) (s.view b) s s' ∧ s'.log = s.log ∧
      s'.phase = if t + 1 < s.log.block.length then .writeLog (t + 1) else .writeHead := by
  simp only [State.go, hphase, Option.map_eq_some_iff] at hgo
  obtain ⟨b, hb, rfl⟩ := hgo
  exact ⟨b, hb, (wrote_writeLog s b start t).phase _, writeLog_log s b start t, rfl⟩

theorem go_writeHead (hphase : s.phase = .writeHead) (hgo : s.go start = some s') :
    Wrote start (putHead (s.view start) s.log.block) s s' ∧ s'.log = s.log ∧ s'.phase = .install 0 false := by
  simp only [State.go, hphase, Option.some.injEq] at hgo
  subst hgo
  exact ⟨(wrote_writeHead s start).phase _, writeHead_log s start, rfl⟩

theorem go_install (hphase : s.phase = .install t r) (hgo : s.go start = some s') :
    ∃ b, s.log.block[t]? = some b ∧ Wrote b (s.view (start + t + 1)) s s' ∧ s'.log = s.log ∧
      s'.phase = if t + 1 < s.log.block.length then .install (t + 1) r else .clear r := by
  simp only [State.go, hphase, Option.map_eq_some_iff] at hgo
  obtain ⟨b, hb, rfl⟩ := hgo
  exact ⟨b, hb, (wrote_install s b start t).phase _, install_log s b start t, rfl⟩

theorem go_clear (hphase : s.phase = .clear r) (hgo : s.go start = some s') :
    Wrote start (putHead (s.view start) []) s s' ∧ s'.log = { s.log with block := [] } ∧
      s'.phase = if r then .up else .done := by
  simp only [State.go, hphase, Option.some.injEq] at hgo
  subst hgo
  have hwrote := wrote_writeHead { s with log := { s.log with block := [] } } start
  exact ⟨⟨hwrote.disk, hwrote.view, hwrote.dirty⟩, writeHead_log _ start, rfl⟩

theorem go_done (hphase : s.phase = .done) (hgo : s.go start = some s') :
    s' = { s with log := s.log.committed, phase := .up } := by
  simp only [State.go, hphase, Option.some.injEq] at hgo
  exact hgo.symm

end go

/-! ### The steps of recovery and of `commit` -/

namespace Inv

variable {a : AtomicStore Nat Block} {t : Nat} {r : Bool}

/-- `read_head` finds what is on the disk. -/
theorem down (h : Inv start size s) (ha : Abs start size s a) (hphase : s.phase = .down)
    (hgo : s.go start = some s') : Inv start size s' ∧ Abs start size s' a := by
  obtain ⟨-, hout, hdirty⟩ : PhaseInv start s .down := hphase ▸ h.phase
  obtain ⟨hdisk, hview, hdirty', hlog, hphase'⟩ := go_down hphase hgo
  rw [h.view_log h.inLog] at hlog
  have hon : s'.onDisk start = s.onDisk start := by
    unfold State.onDisk
    rw [hdisk]
  have hblock : s'.log.block = s.onDisk start := by
    rw [hlog]
    rfl
  have hout' : s'.log.outstanding = 0 := by
    rw [hlog]
    exact hout
  have hdirtyIn : DirtyIn s' [] := by
    intro b hb
    rw [hdirty'] at hb
    exact hdirty b hb
  refine ⟨⟨?_, ?_, ?_, ?_, h.inLog, ?_⟩, ha.stutter ?_ ?_ ?_⟩
  · rw [hlog]
    exact h.logSize
  · intro b hb
    rw [hdirty'] at hb
    rw [hview, hdisk]
    exact h.clean b hb
  · rw [hon]
    exact h.headOk
  · rw [hblock]
    exact h.headOk
  · rw [hphase']
    split
    next hnil => exact ⟨hon.trans hblock.symm, hout', by intro i b hi; rw [hnil] at hi; simp at hi, hdirtyIn⟩
    next hne => exact ⟨hon.trans hblock.symm, hout', by intro i b hi; simp at hi, hdirtyIn⟩
  · intro b _
    rw [hdisk]
  · intro b _
    have hrec : s'.phase.recovering = true := by
      rw [hphase']
      split
      · rfl
      · rfl
    rw [State.visible_recovering hrec, State.visible_recovering (by rw [hphase]; rfl), hdisk]
  · rw [hout', hout]

/-- One block is copied to the log. -/
theorem writeLog (h : Inv start size s) (ha : Abs start size s a) (hphase : s.phase = .writeLog t)
    (hgo : s.go start = some s') : Inv start size s' ∧ Abs start size s' a := by
  obtain ⟨hnil, hout, hdirty, hcopied⟩ : PhaseInv start s (.writeLog t) := hphase ▸ h.phase
  obtain ⟨b, hb, hwrote, hlog, hphase'⟩ := go_writeLog hphase hgo
  have hlt : t < s.log.block.length := (List.getElem?_eq_some_iff.mp hb).1
  have hcopy := h.copy_inLog hlt
  have hon : s'.onDisk start = [] := (hwrote.onDisk (by omega)).trans hnil
  have hdirty' : DirtyIn s' s'.log.block := by
    intro c hc
    rw [hlog]
    exact hdirty c (hwrote.dirty_ne hc).2
  have hcopied' : Copied start s' (t + 1) := by
    intro i c hi hc
    rw [hlog] at hc
    rw [hwrote.view_ne (h.home_ne hc hcopy)]
    by_cases hit : i = t
    · -- the block that has just been copied
      subst hit
      rw [hb] at hc
      obtain rfl := Option.some.inj hc
      exact hwrote.disk_self
    · rw [hwrote.disk_ne (by omega)]
      exact hcopied i c (by omega) hc
  refine ⟨⟨by rw [hlog]; exact h.logSize, hwrote.clean h.clean, by rw [hon]; exact .nil,
    by rw [hlog]; exact h.lhOk, h.inLog, ?_⟩, ha.stutter ?_ ?_ (by rw [hlog])⟩
  · rw [hphase']
    split
    next hmore => exact ⟨hon, by rw [hlog]; exact hout, hdirty', hcopied'⟩
    next hlast =>
      refine ⟨hon, by rw [hlog]; exact hout, hdirty', ?_⟩
      have hall : s'.log.block.length = t + 1 := by
        rw [hlog]
        omega
      rw [hall]
      exact hcopied'
  · intro c hc
    rw [recovered_of_nil hon, recovered_of_nil hnil, hwrote.disk_ne]
    rintro rfl
    exact hc hcopy
  · intro c hc
    have hrec : s'.phase.recovering = false := by
      rw [hphase']
      split
      · rfl
      · rfl
    have hne : c ≠ start + t + 1 := by
      rintro rfl
      exact hc hcopy
    rw [State.visible_serving hrec, State.visible_serving (by rw [hphase]; rfl), hwrote.view_ne hne]

/-- The header is written: this commits. -/
theorem writeHead (h : Inv start size s) (ha : Abs start size s a) (hphase : s.phase = .writeHead)
    (hgo : s.go start = some s') : Inv start size s' ∧ Abs start size s' { a with durable := a.current } := by
  obtain ⟨hnil, hout, hdirty, hcopied⟩ : PhaseInv start s .writeHead := hphase ▸ h.phase
  obtain ⟨hwrote, hlog, hphase'⟩ := go_writeHead hphase hgo
  have hon : s'.onDisk start = s.log.block := by
    unfold State.onDisk
    rw [hwrote.disk_self]
    exact h.lhOk.getHead
  have hlogged : ∀ i b, s.log.block[i]? = some b → s'.view b = s.view b ∧ s'.disk (start + i + 1) = s.view b := by
    intro i b hb
    have hlt : i < s.log.block.length := (List.getElem?_eq_some_iff.mp hb).1
    refine ⟨hwrote.view_ne (h.home_ne hb h.inLog), ?_⟩
    rw [hwrote.disk_ne (by omega)]
    exact hcopied i b hlt hb
  refine ⟨⟨by rw [hlog]; exact h.logSize, hwrote.clean h.clean, by rw [hon]; exact h.lhOk,
    by rw [hlog]; exact h.lhOk, h.inLog, ?_⟩, ⟨?_, ?_, ?_⟩⟩
  · rw [hphase']
    refine ⟨by rw [hon, hlog], by rw [hlog]; exact hout, by intro i b hi; simp at hi, ?_, ?_⟩
    · intro b hb
      rw [hlog]
      exact hdirty b (hwrote.dirty_ne hb).2
    · intro i b hb
      rw [hlog] at hb
      rw [(hlogged i b hb).1, (hlogged i b hb).2]
  · intro b hb
    have hcur := ha.current b hb
    rw [State.visible_serving (by rw [hphase]; rfl)] at hcur
    show a.current b = _
    rw [hcur]
    by_cases hmem : b ∈ s.log.block
    · obtain ⟨i, hi⟩ := List.mem_iff_getElem?.mp hmem
      rw [recovered_of_get (i := i) (by rw [← State.onDisk, hon]; exact h.lhOk.nodup) (by rw [← State.onDisk, hon]; exact hi)]
      exact ((hlogged i b hi).2).symm
    · rw [recovered_of_not_mem (by rw [← State.onDisk, hon]; exact hmem)]
      have hclean : s.dirty b = false := by
        cases hd : s.dirty b with
        | false => rfl
        | true => exact absurd (hdirty b hd) hmem
      have hne : b ≠ start := by
        rintro rfl
        exact hb h.inLog
      rw [hwrote.disk_ne hne]
      exact h.clean b hclean
  · intro b hb
    have hcur := ha.current b hb
    have hne : b ≠ start := by
      rintro rfl
      exact hb h.inLog
    rw [State.visible_serving (by rw [hphase]; rfl)] at hcur
    rw [State.visible_serving (by rw [hphase']; rfl)]
    exact hcur.trans (hwrote.view_ne hne).symm
  · rw [hlog]
    exact ha.active

/-- One block is copied home. -/
theorem install (h : Inv start size s) (ha : Abs start size s a) (hphase : s.phase = .install t r)
    (hgo : s.go start = some s') : Inv start size s' ∧ Abs start size s' a := by
  obtain ⟨hhead, hout, hinst, hcache⟩ : PhaseInv start s (.install t r) := hphase ▸ h.phase
  obtain ⟨b, hb, hwrote, hlog, hphase'⟩ := go_install hphase hgo
  have hlt : t < s.log.block.length := (List.getElem?_eq_some_iff.mp hb).1
  have hcopy : ∀ i, i < s.log.block.length → b ≠ start + i + 1 := fun i hi => h.home_ne hb (h.copy_inLog hi)
  rw [h.view_log (h.copy_inLog hlt)] at hwrote
  have hon : s'.onDisk start = s'.log.block := by
    rw [hlog, hwrote.onDisk (h.home_ne hb h.inLog), hhead]
  have hkept : ∀ i, i < s.log.block.length → s'.disk (start + i + 1) = s.disk (start + i + 1) :=
    fun i hi => hwrote.disk_ne (Ne.symm (hcopy i hi))
  have hinst' : Installed start s' (t + 1) := by
    intro i c hi hc
    rw [hlog] at hc
    have hilt := (List.getElem?_eq_some_iff.mp hc).1
    rw [hkept i hilt]
    by_cases hit : i = t
    · subst hit
      rw [hb] at hc
      obtain rfl := Option.some.inj hc
      exact hwrote.disk_self
    · -- the header lists no block twice
      have hne : c ≠ b := by
        rintro rfl
        exact hit ((List.getElem?_inj hilt h.lhOk.nodup).mp (hc.trans hb.symm))
      rw [hwrote.disk_ne hne]
      exact hinst i c (by omega) hc
  have hdrop : s.log.block.drop t = b :: s.log.block.drop (t + 1) := by
    obtain ⟨_, rfl⟩ := List.getElem?_eq_some_iff.mp hb
    exact List.drop_eq_getElem_cons hlt
  have hcache' : if r then DirtyIn s' [] else DirtyIn s' (s'.log.block.drop (t + 1)) ∧ Logged start s' := by
    rw [hlog]
    cases r with
    | true => exact fun c hc => hcache c (hwrote.dirty_ne hc).2
    | false =>
      obtain ⟨hdirty, hlogged⟩ := hcache
      constructor
      · intro c hc
        obtain ⟨hne, hc⟩ := hwrote.dirty_ne hc
        have hmem := hdirty c hc
        rw [hdrop] at hmem
        exact (List.mem_cons.mp hmem).resolve_left hne
      · intro i c hc
        rw [hlog] at hc
        rw [hkept i (List.getElem?_eq_some_iff.mp hc).1]
        by_cases hcb : c = b
        · rw [hcb, hwrote.view_self, ← hlogged i c hc, ← hlogged t b hb, hcb]
        · rw [hwrote.view_ne hcb]
          exact hlogged i c hc
  -- the copy in the log stands for the block, before and after
  have hsame : ∀ c, recovered start s'.disk c = recovered start s.disk c := by
    intro c
    apply recovered_congr
    · exact hwrote.disk_ne (Ne.symm (h.home_ne hb h.inLog))
    · intro i hi
      rw [← State.onDisk, hhead] at hi
      exact hkept i hi
    · intro hno
      rw [← State.onDisk, hhead] at hno
      refine hwrote.disk_ne ?_
      rintro rfl
      exact hno (List.mem_of_getElem? hb)
  refine ⟨⟨by rw [hlog]; exact h.logSize, hwrote.clean h.clean, by rw [hon, hlog]; exact h.lhOk,
    by rw [hlog]; exact h.lhOk, h.inLog, ?_⟩, ha.stutter ?_ ?_ (by rw [hlog])⟩
  · rw [hphase']
    split
    next hmore => exact ⟨hon, by rw [hlog]; exact hout, hinst', hcache'⟩
    next hlast =>
      have hall : s'.log.block.length = t + 1 := by
        rw [hlog]
        omega
      refine ⟨hon, by rw [hlog]; exact hout, by rw [hall]; exact hinst', ?_⟩
      cases r with
      | true => exact hcache'
      | false =>
        rw [← hall, List.drop_length] at hcache'
        exact hcache'.1
  · exact fun c _ => hsame c
  · intro c _
    have hrec : s'.phase.recovering = r := by
      rw [hphase']
      split
      · rfl
      · rfl
    cases r with
    | true =>
      rw [State.visible_recovering hrec, State.visible_recovering (by rw [hphase]; rfl)]
      exact hsame c
    | false =>
      rw [State.visible_serving hrec, State.visible_serving (by rw [hphase]; rfl)]
      by_cases hcb : c = b
      · rw [hcb, hwrote.view_self, hcache.2 t b hb]
      · exact hwrote.view_ne hcb

/-- The header is cleared: every copy is home. -/
theorem clear (h : Inv start size s) (ha : Abs start size s a) (hphase : s.phase = .clear r)
    (hgo : s.go start = some s') : Inv start size s' ∧ Abs start size s' a := by
  obtain ⟨hhead, hout, hinst, hdirty⟩ : PhaseInv start s (.clear r) := hphase ▸ h.phase
  obtain ⟨hwrote, hlog, hphase'⟩ := go_clear hphase hgo
  have hon : s'.onDisk start = [] := by
    unfold State.onDisk
    rw [hwrote.disk_self]
    exact (HeadOk.nil : HeadOk start size []).getHead
  have hblock : s'.log.block = [] := by rw [hlog]
  have hout' : s'.log.outstanding = 0 := by
    rw [hlog]
    exact hout
  have hdirty' : DirtyIn s' [] := fun c hc => hdirty c (hwrote.dirty_ne hc).2
  have hhome : ∀ c, ¬ InLog start size c → s'.disk c = s.disk c ∧ s'.view c = s.view c := by
    intro c hc
    have hne : c ≠ start := by
      rintro rfl
      exact hc h.inLog
    exact ⟨hwrote.disk_ne hne, hwrote.view_ne hne⟩
  have hrecovered : ∀ c, ¬ InLog start size c → recovered start s.disk c = s.disk c := by
    intro c _
    by_cases hmem : c ∈ s.log.block
    · obtain ⟨i, hi⟩ := List.mem_iff_getElem?.mp hmem
      rw [recovered_of_get (i := i) (by rw [← State.onDisk, hhead]; exact h.lhOk.nodup)
        (by rw [← State.onDisk, hhead]; exact hi)]
      exact (hinst i c (List.getElem?_eq_some_iff.mp hi).1 hi).symm
    · exact recovered_of_not_mem (by rw [← State.onDisk, hhead]; exact hmem)
  refine ⟨⟨by rw [hlog]; exact h.logSize, hwrote.clean h.clean, by rw [hon]; exact .nil,
    by rw [hblock]; exact .nil, h.inLog, ?_⟩, ha.stutter ?_ ?_ (by rw [hout', hout])⟩
  · rw [hphase']
    cases r with
    | true => exact ⟨hon, by rw [hblock]; exact hdirty', fun _ => hblock⟩
    | false => exact ⟨hon, hout', hblock, hdirty'⟩
  · intro c hc
    rw [recovered_of_nil hon, (hhome c hc).1, hrecovered c hc]
  · intro c hc
    cases r with
    | true =>
      -- recovery is over, and nothing is in the cache that is not on the disk
      rw [State.visible_serving (by rw [hphase']; rfl), State.visible_recovering (by rw [hphase]; rfl)]
      rw [(hhome c hc).2, hrecovered c hc]
      apply h.clean
      cases hd : s.dirty c with
      | false => rfl
      | true => simpa using hdirty c hd
    | false =>
      rw [State.visible_serving (by rw [hphase']; rfl), State.visible_serving (by rw [hphase]; rfl)]
      exact (hhome c hc).2

theorem done (h : Inv start size s) (ha : Abs start size s a) (hphase : s.phase = .done)
    (hgo : s.go start = some s') : Inv start size s' ∧ Abs start size s' a := by
  obtain ⟨hon, hout, hblock, hdirty⟩ : PhaseInv start s .done := hphase ▸ h.phase
  have heq := go_done hphase hgo
  subst heq
  refine ⟨⟨h.logSize, h.clean, h.headOk, .nil, h.inLog, hon, hdirty, fun _ => rfl⟩, ha.stutter ?_ ?_ rfl⟩
  · exact fun _ _ => rfl
  · intro c _
    rw [State.visible_serving rfl, State.visible_serving (by rw [hphase]; rfl)]
    rfl

/-! ### The steps of the file system -/

theorem begin_op {log : Log} (h : Inv start size s) (ha : Abs start size s a) (hphase : s.phase = .up)
    (hlog : s.log.begin_op = some log) : Inv start size { s with log } ∧
      Abs start size { s with log } { a with active := a.active + 1 } := by
  obtain ⟨hon, hdirty, -⟩ : PhaseInv start s .up := hphase ▸ h.phase
  obtain rfl : log = { s.log with outstanding := s.log.outstanding + 1 } := by
    unfold Log.begin_op at hlog
    split at hlog
    · cases hlog
    · split at hlog
      · cases hlog
      · exact (Option.some.inj hlog).symm
  refine ⟨⟨h.logSize, h.clean, h.headOk, h.lhOk, h.inLog, ?_⟩, ha.durable, ha.current, ?_⟩
  · rw [show ({ s with log := { s.log with outstanding := s.log.outstanding + 1 } } : State).phase = .up from hphase]
    exact ⟨hon, hdirty, fun hzero => absurd hzero (Nat.succ_ne_zero _)⟩
  · show a.active + 1 = s.log.outstanding + 1
    rw [ha.active]

theorem log_write {log : Log} {x : Block} (h : Inv start size s) (ha : Abs start size s a) (hphase : s.phase = .up)
    (hword : b < 2 ^ 32) (hb : ¬ InLog start size b) (hlog : s.log.log_write b = .ok log) :
    0 < a.active ∧ Inv start size { s with log, cache := update s.cache b (some ⟨x, true⟩) } ∧
      Abs start size { s with log, cache := update s.cache b (some ⟨x, true⟩) }
        { a with current := update a.current b x } := by
  obtain ⟨hon, hdirty, hquiet⟩ : PhaseInv start s .up := hphase ▸ h.phase
  unfold Log.log_write at hlog
  split at hlog
  · cases hlog
  next hroom =>
    split at hlog
    · cases hlog
    next hout =>
      obtain rfl := Except.ok.inj hlog
      set t : State := { s with
        log := { s.log with block := Paging.Disk.absorb b s.log.block }
        cache := update s.cache b (some ⟨x, true⟩) } with ht
      have hview : t.view = update s.view b x := by
        funext c
        by_cases hc : c = b
        · simp [ht, State.view, hc]
        · simp [ht, State.view, update_of_ne hc]
      have hdirty' : t.dirty = update s.dirty b true := by
        funext c
        by_cases hc : c = b
        · simp [ht, State.dirty, hc]
        · simp [ht, State.dirty, update_of_ne hc]
      have hmem : ∀ c, c ∈ Paging.Disk.absorb b s.log.block ↔ c ∈ s.log.block ∨ c = b := by
        intro c
        unfold Paging.Disk.absorb
        split
        next hin =>
          constructor
          · exact .inl
          · rintro (hc | rfl)
            · exact hc
            · exact hin
        · simp
      have hrec : t.phase.recovering = false := by
        rw [show t.phase = s.phase from rfl, hphase]
        rfl
      refine ⟨by rw [ha.active]; omega, ⟨h.logSize, ?_, h.headOk, ?_, h.inLog, ?_⟩, ha.durable, ?_, ha.active⟩
      · intro c hc
        rw [hdirty'] at hc
        by_cases hcb : c = b
        · rw [hcb, update_self] at hc
          cases hc
        · rw [update_of_ne hcb] at hc
          rw [hview, update_of_ne hcb]
          exact h.clean c hc
      · -- absorption keeps the block numbers apart
        show HeadOk start size (Paging.Disk.absorb b s.log.block)
        have hsize := h.logSize
        unfold Paging.Disk.absorb
        split
        · exact h.lhOk
        next hnew =>
          refine ⟨?_, by rw [List.length_append]; simp; omega, .inr (by rw [List.length_append]; simp; omega), ?_, ?_⟩
          · exact List.Nodup.append h.lhOk.nodup (List.nodup_singleton b) (by simpa using hnew)
          · intro c hc
            rcases List.mem_append.mp hc with hc | hc
            · exact h.lhOk.word c hc
            · rw [List.mem_singleton.mp hc]
              exact hword
          · intro c hc
            rcases List.mem_append.mp hc with hc | hc
            · exact h.lhOk.home c hc
            · rw [List.mem_singleton.mp hc]
              exact hb
      · rw [show t.phase = .up from hphase]
        refine ⟨hon, ?_, ?_⟩
        · intro c hc
          rw [hdirty'] at hc
          apply (hmem c).mpr
          by_cases hcb : c = b
          · exact .inr hcb
          · rw [update_of_ne hcb] at hc
            exact .inl (hdirty c hc)
        · intro hzero
          exact absurd hzero (by show s.log.outstanding ≠ 0; omega)
      · intro c hc
        have hcur := ha.current c hc
        rw [State.visible_serving (by rw [hphase]; rfl)] at hcur
        rw [State.visible_serving hrec, hview]
        show update a.current b x c = update s.view b x c
        by_cases hcb : c = b
        · rw [hcb, update_self, update_self]
        · rw [update_of_ne hcb, update_of_ne hcb]
          exact hcur

theorem end_op {log : Log} {last : Bool} (h : Inv start size s) (ha : Abs start size s a) (hphase : s.phase = .up)
    (hlog : s.log.end_op = .ok (last, log)) : ∀ p, (p = if last then (if log.block = [] then .done else .writeLog 0) else .up) →
      Inv start size { s with log, phase := p } ∧
        Abs start size { s with log, phase := p } { a with active := a.active - 1 } := by
  intro p hp
  obtain ⟨hon, hdirty, -⟩ : PhaseInv start s .up := hphase ▸ h.phase
  have hcur : ∀ c, ¬ InLog start size c → a.current c = s.view c := by
    intro c hc
    rw [ha.current c hc, State.visible_serving (by rw [hphase]; rfl)]
  unfold Log.end_op at hlog
  simp only [] at hlog
  split at hlog
  · cases hlog
  · split at hlog
    next hzero =>
      -- the last operation: the process commits
      obtain ⟨rfl, rfl⟩ := Prod.mk.inj (Except.ok.inj hlog)
      simp only [if_true] at hp
      have hrec : p.recovering = false := by
        rw [hp]
        split
        · rfl
        · rfl
      refine ⟨⟨h.logSize, h.clean, h.headOk, h.lhOk, h.inLog, ?_⟩, ha.durable, ?_, ?_⟩
      · subst hp
        show PhaseInv start _ (if s.log.block = [] then .done else .writeLog 0)
        split
        next hnil => exact ⟨hon, hzero, hnil, by rw [← hnil]; exact hdirty⟩
        next hsome => exact ⟨hon, hzero, hdirty, by intro i c hi; simp at hi⟩
      · intro c hc
        rw [State.visible_serving hrec]
        exact hcur c hc
      · show a.active - 1 = s.log.outstanding - 1
        rw [ha.active]
    next hmore =>
      obtain ⟨rfl, rfl⟩ := Prod.mk.inj (Except.ok.inj hlog)
      simp only [Bool.false_eq_true, if_false] at hp
      subst hp
      refine ⟨⟨h.logSize, h.clean, h.headOk, h.lhOk, h.inLog, hon, hdirty, fun hzero => absurd hzero hmore⟩,
        ha.durable, ?_, ?_⟩
      · intro c hc
        rw [State.visible_serving rfl]
        exact hcur c hc
      · show a.active - 1 = s.log.outstanding - 1
        rw [ha.active]

/-- A crash leaves the disk. -/
theorem crash (h : Inv start size s) (ha : Abs start size s a) :
    Inv start size s.crash ∧ Abs start size s.crash (.quiet a.durable) := by
  have hclean : ∀ b, s.crash.dirty b = false := fun _ => rfl
  refine ⟨⟨h.logSize, fun _ _ => rfl, h.headOk, .nil, h.inLog, rfl, rfl, ?_⟩, ha.durable, ?_, rfl⟩
  · intro b hb
    rw [hclean b] at hb
    cases hb
  · intro b hb
    rw [State.visible_recovering rfl]
    exact ha.durable b hb

end Inv

end Storage
