import OperatingSystem314.Paging.Atomic
import OperatingSystem314.Paging.Load

/-! # The counter of the swapped pages

    No routine reads `nPagesInSwapFile`: a run of page faults is the same
    with one page more counted (`counted`).  And nothing takes a page away
    from it, so it tells whether there has been a fault. -/

namespace Paging

namespace Kernel

/-- One more page is counted as swapped out. -/
def counted (k : Kernel) : Kernel := k.modCur fun x => x.count 0 1

variable (k : Kernel)

@[simp] theorem counted_cur : k.counted.cur = k.cur.count 0 1 := k.modCur_cur _

@[simp] theorem counted_curproc : k.counted.curproc = k.curproc := rfl
@[simp] theorem counted_locks : k.counted.locks = k.locks := rfl
@[simp] theorem counted_fs : k.counted.fs = k.fs := rfl
@[simp] theorem counted_frame : k.counted.frame = k.frame := rfl
@[simp] theorem counted_walkpgdir (d va : Nat) : k.counted.walkpgdir d va = k.walkpgdir d va := rfl
@[simp] theorem counted_setPte (d va : Nat) (x : Pte) : k.counted.setPte d va x = (k.setPte d va x).counted := rfl
@[simp] theorem counted_setFrame (f : Nat) (bytes : Nat → UInt8) :
    k.counted.setFrame f bytes = (k.setFrame f bytes).counted := rfl

@[simp] theorem counted_cell (c : Cell) : k.counted.cell c = k.cell c := by
  unfold cell counted modCur setCur
  by_cases howner : c.owner = k.curproc
  · rw [howner, setProc_self]
    rfl
  · rw [setProc_ne k _ howner]

@[simp] theorem counted_next : k.counted.next = k.next := by
  funext c
  rw [next, next, counted_cell]

@[simp] theorem counted_swapFile (p : ProcId) : (k.counted.proc p).swapFile = (k.proc p).swapFile := by
  unfold counted modCur setCur
  by_cases howner : p = k.curproc
  · rw [howner, setProc_self]
    rfl
  · rw [setProc_ne k _ howner]

theorem counted_modCur {f : Proc → Proc} (hf : ∀ x : Proc, f (x.count 0 1) = (f x).count 0 1) :
    k.counted.modCur f = (k.modCur f).counted := by
  unfold counted
  rw [modCur_modCur, modCur_modCur]
  congr 1
  funext x
  exact hf x

@[simp] theorem counted_setHead (h : Option Cell) :
    k.counted.modCur (fun x => x.setHead h) = (k.modCur fun x => x.setHead h).counted :=
  k.counted_modCur fun _ => rfl

@[simp] theorem counted_setSlot (i : Fin MAX_PSYC_PAGES) (s : PageInSwapFile) :
    k.counted.modCur (fun x => x.setSlot i s) = (k.modCur fun x => x.setSlot i s).counted :=
  k.counted_modCur fun _ => rfl

@[simp] theorem counted_count (phy swap : Int) :
    k.counted.modCur (fun x => x.count phy swap) = (k.modCur fun x => x.count phy swap).counted := by
  apply k.counted_modCur
  intro x
  simp only [Proc.count, Int.add_right_comm]

@[simp] theorem counted_setCell (c : Cell) (x : PageInPhyMem) : k.counted.setCell c x = (k.setCell c x).counted := by
  by_cases howner : c.owner = k.curproc
  · rw [setCell_own k.counted howner, setCell_own k howner]
    exact k.counted_modCur fun _ => rfl
  · have hne : k.curproc ≠ c.owner := fun h => howner h.symm
    unfold setCell counted modCur setCur cur
    simp [setProc, howner, hne, Function.update_comm hne]

end Kernel

open Kernel

/-- A result with one page more counted. -/
abbrev onKernel {α : Type} (r : Result (α × Kernel)) : Result (α × Kernel) := r.map (Prod.map id counted)

variable {k k' : Kernel}

/-! ### No routine reads it -/

@[simp] theorem cprintf_counted (k : Kernel) : cprintf k.counted = cprintf k := rfl

@[simp] theorem tailCell_counted (k : Kernel) (c : Cell) : tailCell k.counted c = tailCell k c := by
  unfold tailCell
  rw [counted_next]

@[simp] theorem printQueue_counted (k : Kernel) : printQueue k.counted = printQueue k := by
  unfold printQueue
  rw [counted_cur, cprintf_counted]
  simp only [tailCell_counted]
  rfl

theorem dequeueFIFO_counted (k : Kernel) : dequeueFIFO k.counted = onKernel (dequeueFIFO k) := by
  unfold dequeueFIFO
  rw [cprintf_counted, printQueue_counted, counted_cur]
  cases cprintf k with
  | error => rfl
  | ok =>
    cases printQueue k with
    | error => rfl
    | ok =>
      simp only [ok_bind, Proc.count_head]
      cases k.cur.head with
      | none => rfl
      | some c =>
        simp only [counted_cell, counted_setCell, counted_next, counted_setHead, cprintf_counted, printQueue_counted]
        generalize (k.setCell c _).modCur _ = k1
        cases cprintf k1 with
        | error => rfl
        | ok =>
          cases printQueue k1 with
          | error => rfl
          | ok => rfl

theorem enqueueFIFO_counted (k : Kernel) (a : Nat) : enqueueFIFO k.counted a = (enqueueFIFO k a).map counted := by
  unfold enqueueFIFO
  rw [counted_cur, show freeCell (k.cur.count 0 1) = freeCell k.cur from rfl]
  cases freeCell k.cur with
  | none => rfl
  | some i =>
    simp only [Proc.count_head]
    cases k.cur.head with
    | none =>
      simp only [pure_bind, counted_setHead, counted_curproc, counted_setCell, counted_count]
      rfl
    | some c =>
      simp only [tailCell_counted]
      cases tailCell k c with
      | error => rfl
      | ok t =>
        simp only [ok_bind, pure_bind, counted_curproc, counted_cell, counted_setCell, counted_count]
        rfl

theorem kfree_counted (k : Kernel) (f : Nat) : kfree k.counted f = (kfree k f).map counted := by
  by_cases h : k.FrameOk f
  · rw [kfree, kfree, if_pos h, if_pos (show k.counted.FrameOk f from h)]
    rfl
  · rw [kfree, kfree, if_neg h, if_neg (show ¬ k.counted.FrameOk f from h)]
    rfl

theorem writeToSwapFile_counted (k : Kernel) (p : ProcId) (src : Nat → UInt8) (off : Nat) (size : Int) :
    writeToSwapFile k.counted p src off size = onKernel (writeToSwapFile k p src off size) := by
  unfold writeToSwapFile
  rw [counted_swapFile]
  cases (k.proc p).swapFile with
  | none => rfl
  | some f =>
    simp only [deref_some, ok_bind]
    rw [counted_locks, counted_fs]
    split
    · rfl
    · cases Fs.filewrite _ f src size with
      | error => rfl
      | ok r => rfl

theorem readFromSwapFile_counted (k : Kernel) (p : ProcId) (off size : Nat) :
    readFromSwapFile k.counted p off size =
      (readFromSwapFile k p off size).map (Prod.map id (Prod.map id counted)) := by
  unfold readFromSwapFile
  rw [counted_swapFile]
  cases (k.proc p).swapFile with
  | none => rfl
  | some f =>
    simp only [deref_some, ok_bind]
    rw [counted_fs]
    cases Fs.fileread _ f size with
    | error => rfl
    | ok r => rfl

theorem recordPage_counted (k : Kernel) (a : Nat) (x : Pte) :
    recordPage k.counted a x = (recordPage k a x).map counted := by
  unfold recordPage
  rw [counted_cur, show freeSlot (k.cur.count 0 1) = freeSlot k.cur from rfl]
  cases freeSlot k.cur with
  | none => rfl
  | some i =>
    simp only [counted_setSlot]
    simp only [counted_curproc, counted_frame, writeToSwapFile_counted]
    cases writeToSwapFile _ _ _ _ _ with
    | error => rfl
    | ok r =>
      simp only [Except.map, ok_bind]
      split
      · rw [if_pos ‹_›]
        rfl
      · rw [if_neg ‹_›]
        show (cprintf r.2.counted >>= fun _ => pure r.2.counted) = _
        rw [cprintf_counted]
        cases cprintf r.2 with
        | error => rfl
        | ok => rfl

theorem moveToSwapFile_counted (k : Kernel) (a : Nat) :
    moveToSwapFile k.counted a = (moveToSwapFile k a).map counted := by
  unfold moveToSwapFile
  simp only [counted_cur, counted_walkpgdir, Proc.count_pgdir]
  cases deref (k.walkpgdir k.cur.pgdir a) with
  | error => rfl
  | ok x =>
    simp only [ok_bind]
    split
    · rfl
    · rw [recordPage_counted]
      cases recordPage k a x with
      | error => rfl
      | ok k1 =>
        simp only [Except.map, ok_bind, counted_cur, counted_walkpgdir, Proc.count_pgdir]
        cases deref (k1.walkpgdir k1.cur.pgdir (PTE_ADDR a)) with
        | error => rfl
        | ok y =>
          simp only [ok_bind]
          split
          · rfl
          · split
            · rw [kfree_counted]
              cases kfree k1 y.ppn with
              | error => rfl
              | ok k2 =>
                simp only [Except.map, ok_bind, pure_bind, counted_cur, Proc.count_pgdir, counted_setPte, counted_count]
                rfl
            · simp only [pure_bind, counted_count]
              rfl

theorem swapPageOut_counted (k : Kernel) : swapPageOut k.counted = (swapPageOut k).map counted := by
  unfold swapPageOut
  rw [dequeueFIFO_counted]
  cases dequeueFIFO k with
  | error => rfl
  | ok r => exact moveToSwapFile_counted r.2 r.1

theorem swapPageIn_counted (k : Kernel) (va : Nat) : swapPageIn k.counted va = (swapPageIn k va).map counted := by
  unfold swapPageIn
  rw [counted_cur, show slotOf (k.cur.count 0 1) (PTE_ADDR va) = slotOf k.cur (PTE_ADDR va) from rfl]
  cases slotOf k.cur (PTE_ADDR va) with
  | none => rfl
  | some i =>
    simp only [dequeueFIFO_counted]
    cases dequeueFIFO k with
    | error => rfl
    | ok r =>
      obtain ⟨b, k1⟩ := r
      simp only [onKernel, Except.map, ok_bind, Prod.map, id, counted_cur, counted_walkpgdir, Proc.count_pgdir]
      cases deref (k1.walkpgdir k1.cur.pgdir va) with
      | error => rfl
      | ok x =>
        simp only [ok_bind]
        split
        · rfl
        · cases deref (k1.walkpgdir k1.cur.pgdir b) with
          | error => rfl
          | ok y =>
            simp only [ok_bind]
            split
            · rfl
            · rw [k1.counted_modCur fun _ => rfl]
              simp only [counted_setPte, counted_curproc, readFromSwapFile_counted]
              cases readFromSwapFile _ _ _ _ with
              | error => rfl
              | ok r =>
                simp only [Except.map, ok_bind, Prod.map, id, counted_curproc, counted_frame, writeToSwapFile_counted]
                cases writeToSwapFile _ _ _ _ _ with
                | error => rfl
                | ok w =>
                  simp only [onKernel, Except.map, ok_bind, Prod.map, id, counted_setFrame, counted_setPte,
                    enqueueFIFO_counted]
                  cases enqueueFIFO _ va with
                  | error => rfl
                  | ok k2 =>
                    simp only [ok_bind, cprintf_counted]
                    cases cprintf k2 with
                    | error => rfl
                    | ok => rfl

theorem trapPgflt_counted (user : Bool) (k : Kernel) (va : Nat) :
    trapPgflt user k.counted va = onKernel (trapPgflt user k va) := by
  unfold trapPgflt
  rw [cprintf_counted]
  simp only [counted_cur, counted_walkpgdir, Proc.count_pgdir]
  cases cprintf k with
  | error => rfl
  | ok =>
    have hkilled : ∀ k : Kernel, (if user = true then
        (return (FaultEnd.killed, k.counted.modCur fun x => { x with killed := true }) : Result (FaultEnd × Kernel))
        else panic "trap") = onKernel (if user = true then
          return (FaultEnd.killed, k.modCur fun x => { x with killed := true }) else panic "trap") := by
      intro k
      rw [k.counted_modCur fun _ => rfl]
      split
      · rfl
      · rfl
    simp only [ok_bind]
    cases k.walkpgdir k.cur.pgdir va with
    | none => exact hkilled k
    | some x =>
      by_cases hpg : x.pg = true
      · simp only [hpg, if_true, swapPageOut_counted]
        cases swapPageOut k with
        | error => rfl
        | ok k1 =>
          simp only [Except.map, ok_bind, swapPageIn_counted]
          cases swapPageIn k1 (PTE_ADDR va) with
          | error => rfl
          | ok k2 => rfl
      · simp only [if_neg hpg]
        exact hkilled k

theorem touch_counted (user store : Bool) (fuel : Nat) (k : Kernel) (va : Nat) :
    touch user store fuel k.counted va = onKernel (touch user store fuel k va) := by
  induction fuel generalizing k with
  | zero => rfl
  | succ fuel ih =>
    unfold touch
    simp only [counted_cur, counted_walkpgdir, Proc.count_pgdir]
    split
    · rfl
    · rw [trapPgflt_counted]
      cases trapPgflt user k va with
      | error => rfl
      | ok r =>
        obtain ⟨fin, k1⟩ := r
        cases fin with
        | resumed => exact ih k1
        | killed => rfl

theorem kernelLoad_counted (k : Kernel) (va : Nat) : kernelLoad k.counted va = onKernel (kernelLoad k va) := by
  unfold kernelLoad
  rw [touch_counted]
  cases touch false false MAXFAULTS k va with
  | error => rfl
  | ok r =>
    obtain ⟨f, k1⟩ := r
    cases f with
    | none => rfl
    | some f => rfl

theorem kernelString_counted (fuel : Nat) (k : Kernel) (va : Nat) :
    kernelString fuel k.counted va = onKernel (kernelString fuel k va) := by
  induction fuel generalizing k va with
  | zero => rfl
  | succ fuel ih =>
    unfold kernelString
    rw [kernelLoad_counted]
    cases kernelLoad k va with
    | error => rfl
    | ok r =>
      obtain ⟨b, k1⟩ := r
      simp only [onKernel, Except.map, ok_bind, Prod.map, id]
      split
      · rfl
      · rw [ih k1 (va + 1)]
        cases kernelString fuel k1 (va + 1) with
        | error => rfl
        | ok r => rfl

/-! ### Every fault is counted -/

theorem swapPageIn_counts {va : Nat} (h : swapPageIn k va = .ok k') :
    k'.cur.nPagesInSwapFile = k.cur.nPagesInSwapFile := by
  unfold swapPageIn at h
  split at h
  · cases h
    rfl
  next i _ =>
    simp only [bind_eq_ok, deref_eq_ok] at h
    obtain ⟨⟨b, k1⟩, hdeq, x, -, h⟩ := h
    have h1 : k1.cur.nPagesInSwapFile = k.cur.nPagesInSwapFile := by
      obtain ⟨_, _, _, hcur⟩ := (dequeueFIFO_lists hdeq).cur
      rw [hcur]
    split at h
    · cases h
    simp only [bind_eq_ok, deref_eq_ok] at h
    obtain ⟨y, -, h⟩ := h
    split at h
    · cases h
    simp only [bind_eq_ok] at h
    obtain ⟨⟨r, bytes, k2⟩, hread, ⟨w, k3⟩, hwrite, k4, henq, -, -, h⟩ := h
    cases h
    have hcur : k3.cur = (k1.modCur fun x => x.setSlot i { x.pagesInSwapFile i with address := b }).cur := by
      rw [writeToSwapFile_ok hwrite, readFromSwapFile_ok hread]
      rfl
    rw [(enqueueFIFO_counts henq).1, Kernel.setPte_cur, Kernel.setFrame_cur, hcur, Kernel.modCur_cur,
      Proc.setSlot_nPagesInSwapFile, h1]

/-- A fault in the kernel is handled by an eviction. -/
theorem trapPgflt_counts {va : Nat} {e : FaultEnd} (h : trapPgflt false k va = .ok (e, k')) :
    k'.cur.nPagesInSwapFile = k.cur.nPagesInSwapFile + 1 := by
  obtain ⟨-, ⟨-, -, k1, hout, hin⟩ | ⟨-, hfalse, -⟩⟩ := trapPgflt_ok h
  · rw [swapPageIn_counts hin, swapPageOut_counts hout]
  · cases hfalse

/-- A byte that is read is in memory, or a fault is counted. -/
theorem touch_cases {fuel va : Nat} {f : Option Nat} (h : touch false false fuel k va = .ok (f, k')) :
    (k' = k ∧ ∃ x, k.walkpgdir k.cur.pgdir va = some x ∧ x.p = true ∧ f = some x.ppn) ∨
      k.cur.nPagesInSwapFile < k'.cur.nPagesInSwapFile := by
  induction fuel generalizing k with
  | zero => cases h
  | succ fuel ih =>
    unfold touch at h
    simp only [] at h
    split at h
    next x hx =>
      cases h
      rw [Option.filter_eq_some_iff] at hx
      obtain ⟨hx, hp⟩ := hx
      exact .inl ⟨rfl, x, hx, by simpa using hp, rfl⟩
    next =>
      rw [bind_eq_ok] at h
      obtain ⟨⟨e, k1⟩, htrap, h⟩ := h
      have h1 := trapPgflt_counts htrap
      right
      simp only [] at h
      split at h
      · rcases ih h with ⟨rfl, -⟩ | hlt
        · omega
        · omega
      · cases h
        omega

theorem kernelLoad_cases {va : Nat} {b : UInt8} (h : kernelLoad k va = .ok (b, k')) :
    (k' = k ∧ k.userByte k.cur.pgdir va = some b) ∨ k.cur.nPagesInSwapFile < k'.cur.nPagesInSwapFile := by
  unfold kernelLoad at h
  simp only [bind_eq_ok, deref_eq_ok] at h
  obtain ⟨⟨f, k1⟩, htouch, f', hf, h⟩ := h
  cases h
  rcases touch_cases htouch with ⟨rfl, x, hx, hp, hx'⟩ | hlt
  · refine .inl ⟨rfl, ?_⟩
    rw [hx'] at hf
    cases hf
    rw [Kernel.userByte, hx]
    exact if_pos hp
  · exact .inr hlt

/-- A string that is read is in memory, or a fault is counted. -/
theorem kernelString_cases {fuel va : Nat} {bs : List UInt8} (h : kernelString fuel k va = .ok (bs, k')) :
    (k' = k ∧ bs.length < fuel ∧ (∀ b ∈ bs, b ≠ 0) ∧
      ∀ i ≤ bs.length, k.userByte k.cur.pgdir (va + i) = some (strByte bs i)) ∨
    k.cur.nPagesInSwapFile < k'.cur.nPagesInSwapFile := by
  induction fuel generalizing va bs k with
  | zero => cases h
  | succ fuel ih =>
    unfold kernelString at h
    rw [bind_eq_ok] at h
    obtain ⟨⟨b, k1⟩, hload, h⟩ := h
    have hfirst := kernelLoad_cases hload
    simp only [] at h
    split at h
    next hzero =>
      cases h
      rcases hfirst with ⟨rfl, hbyte⟩ | hlt
      · refine .inl ⟨rfl, Nat.succ_pos fuel, by simp, ?_⟩
        intro i hi
        obtain rfl : i = 0 := Nat.le_zero.mp hi
        rw [Nat.add_zero, hbyte, hzero]
        rfl
      · exact .inr hlt
    next hne =>
      rw [bind_eq_ok] at h
      obtain ⟨⟨bs', k2⟩, hrest, h⟩ := h
      cases h
      rcases hfirst with ⟨rfl, hbyte⟩ | hlt
      · rcases ih hrest with ⟨rfl, hlen, hnz, hbytes⟩ | hlt
        · refine .inl ⟨rfl, Nat.succ_lt_succ hlen, ?_, ?_⟩
          · intro c hc
            rcases List.mem_cons.mp hc with rfl | hc
            · exact hne
            · exact hnz c hc
          · intro i hi
            cases i with
            | zero =>
              rw [Nat.add_zero, hbyte]
              rfl
            | succ i =>
              have hnext := hbytes i (Nat.le_of_succ_le_succ hi)
              rw [show va + (i + 1) = va + 1 + i by omega, hnext]
              rfl
        · exact .inr hlt
      · rcases ih hrest with ⟨rfl, -⟩ | hlt'
        · exact .inr hlt
        · exact .inr (by omega)

end Paging
