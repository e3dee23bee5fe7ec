import OperatingSystem314.Lib.Outcomes
import OperatingSystem314.Paging.Swap

/-! # A page fault while no lock is held

    The fault handler prints and waits for the disk.  When it is entered
    without a spinlock it can stop for many reasons, but over no lock, and
    it comes back without one. -/

namespace Paging

open Outcomes

/-- The reasons to stop that are not about a lock. -/
def NotLocks (e : Stop) : Prop := e ≠ .panic "acquire" ∧ e ≠ .panic "sched locks"

/-- A computation that holds no lock at its end, and stops over none. -/
abbrev Unlocked {α : Type} (kernel : α → Kernel) : Result α → Prop := Ends NotLocks fun a => (kernel a).locks = []

/-- A computation that leaves the locks alone. -/
abbrev NoStop {α : Type} : Result α → Prop := Ends NotLocks fun _ => True

variable {k : Kernel}

theorem notLocks_hang : NotLocks .hang := ⟨nofun, nofun⟩
theorem notLocks_null : NotLocks .nullDeref := ⟨nofun, nofun⟩

theorem notLocks_panic {msg : String} (h : msg ≠ "acquire") (h' : msg ≠ "sched locks") : NotLocks (.panic msg) := by
  refine ⟨?_, ?_⟩
  · rintro ⟨⟩
    exact h rfl
  · rintro ⟨⟩
    exact h' rfl

/-! ### The list -/

theorem deref_noStop {α : Type} (o : Option α) : NoStop (deref o) := by
  cases o with
  | none => exact notLocks_null
  | some a => exact trivial

theorem cprintf_noStop (h : k.locks = []) : NoStop (cprintf k) := by
  unfold cprintf
  rw [h, if_neg List.not_mem_nil]
  exact trivial

theorem tailCell_noStop (k : Kernel) (c : Cell) : NoStop (tailCell k c) := by
  unfold tailCell
  split
  · exact trivial
  · exact notLocks_hang

theorem printQueue_noStop (h : k.locks = []) : NoStop (printQueue k) := by
  unfold printQueue
  refine .ite (fun _ => ?_) fun _ => trivial
  refine (deref_noStop _).bind fun head _ => ?_
  refine (tailCell_noStop k head).bind fun _ _ => ?_
  exact cprintf_noStop h

theorem dequeueFIFO_unlocked (h : k.locks = []) : Unlocked Prod.snd (dequeueFIFO k) := by
  unfold dequeueFIFO
  refine (cprintf_noStop h).bind fun _ _ => ?_
  refine (printQueue_noStop h).bind fun _ _ => ?_
  split
  · exact h
  · refine (cprintf_noStop h).bind fun _ _ => ?_
    refine (printQueue_noStop ?_).bind fun _ _ => ?_
    · exact h
    · exact h

theorem enqueueFIFO_unlocked (h : k.locks = []) (addr : Nat) : Unlocked id (enqueueFIFO k addr) := by
  unfold enqueueFIFO
  split
  · exact h
  · split
    · exact h
    · exact (tailCell_noStop k _).bind fun _ _ => h

/-! ### The swap file -/

theorem kfree_unlocked (h : k.locks = []) (f : Nat) : Unlocked id (kfree k f) := by
  unfold kfree
  refine .ite (fun _ => h) fun _ => ?_
  exact notLocks_panic (by decide) (by decide)

theorem writei_noStop (fs : Fs) (ip off n : Nat) (src : Nat → UInt8) : NoStop (fs.writei ip src off n) := by
  unfold Fs.writei
  refine .ite (fun _ => trivial) fun _ => ?_
  refine .ite (fun _ => trivial) fun _ => ?_
  refine .ite (fun _ => trivial) fun _ => ?_
  have hballoc : ∀ old new, NoStop (fs.balloc old new) := by
    intro old new
    unfold Fs.balloc
    exact .ite (fun _ => notLocks_panic (by decide) (by decide)) fun _ => trivial
  exact (hballoc _ _).bind fun _ _ => trivial

theorem filewriteLoop_noStop (f : Fin NFILE) (src : Nat → UInt8) (n : Int) (fuel i : Nat) (fs : Fs) :
    NoStop (Fs.filewriteLoop f src n fuel i fs) := by
  induction fuel generalizing i fs with
  | zero => exact notLocks_hang
  | succ fuel ih =>
    unfold Fs.filewriteLoop
    refine .ite (fun _ => ?_) fun _ => trivial
    refine (writei_noStop fs _ _ _ _).bind fun r _ => ?_
    refine .ite (fun _ => trivial) fun _ => ?_
    refine .ite (fun _ => notLocks_panic (by decide) (by decide)) fun _ => ?_
    exact ih _ _

theorem writeToSwapFile_unlocked (h : k.locks = []) (p : ProcId) (src : Nat → UInt8) (off : Nat) (size : Int) :
    Unlocked Prod.snd (writeToSwapFile k p src off size) := by
  unfold writeToSwapFile
  refine (deref_noStop _).bind fun f _ => ?_
  dsimp only
  rw [if_neg (fun hlocks => hlocks.2 h)]
  have hwrite : ∀ fs : Fs, NoStop (fs.filewrite f src size) := by
    intro fs
    unfold Fs.filewrite
    refine .ite (fun _ => trivial) fun _ => ?_
    refine .ite (fun _ => notLocks_panic (by decide) (by decide)) fun _ => ?_
    exact (filewriteLoop_noStop f src size _ 0 fs).bind fun _ _ => trivial
  exact (hwrite _).bind fun _ _ => h

theorem readFromSwapFile_unlocked (h : k.locks = []) (p : ProcId) (off size : Nat) :
    Unlocked (fun r => r.2.2) (readFromSwapFile k p off size) := by
  unfold readFromSwapFile
  refine (deref_noStop _).bind fun f _ => ?_
  have hread : ∀ fs : Fs, NoStop (fs.fileread f size) := by
    intro fs
    unfold Fs.fileread
    refine .ite (fun _ => trivial) fun _ => ?_
    exact .ite (fun _ => notLocks_panic (by decide) (by decide)) fun _ => trivial
  exact (hread _).bind fun _ _ => h

/-! ### The fault -/

theorem recordPage_unlocked (h : k.locks = []) (addr : Nat) (x : Pte) : Unlocked id (recordPage k addr x) := by
  unfold recordPage
  split
  · exact h
  · refine (writeToSwapFile_unlocked ?_ _ _ _ _).bind fun r h1 => ?_
    · exact h
    · refine .ite (fun _ => notLocks_panic (by decide) (by decide)) fun _ => ?_
      exact (cprintf_noStop h1).bind fun _ _ => h1

theorem moveToSwapFile_unlocked (h : k.locks = []) (addr : Nat) : Unlocked id (moveToSwapFile k addr) := by
  unfold moveToSwapFile
  refine (deref_noStop _).bind fun x _ => ?_
  refine .ite (fun _ => notLocks_panic (by decide) (by decide)) fun _ => ?_
  refine (recordPage_unlocked h addr x).bind fun k1 h1 => ?_
  refine (deref_noStop _).bind fun y _ => ?_
  refine .ite (fun _ => notLocks_panic (by decide) (by decide)) fun _ => ?_
  split
  · exact (kfree_unlocked h1 y.ppn).bind fun _ h2 => h2
  · exact h1

theorem swapPageOut_unlocked (h : k.locks = []) : Unlocked id (swapPageOut k) := by
  unfold swapPageOut
  exact (dequeueFIFO_unlocked h).bind fun r h1 => moveToSwapFile_unlocked h1 r.1

theorem swapPageIn_unlocked (h : k.locks = []) (va : Nat) : Unlocked id (swapPageIn k va) := by
  unfold swapPageIn
  split
  · exact h
  · refine (dequeueFIFO_unlocked h).bind fun r h1 => ?_
    refine (deref_noStop _).bind fun _ _ => ?_
    refine .ite (fun _ => notLocks_panic (by decide) (by decide)) fun _ => ?_
    refine (deref_noStop _).bind fun _ _ => ?_
    refine .ite (fun _ => notLocks_panic (by decide) (by decide)) fun _ => ?_
    refine (readFromSwapFile_unlocked ?_ _ _ _).bind fun _ h2 => ?_
    · exact h1
    refine (writeToSwapFile_unlocked h2 _ _ _ _).bind fun _ h3 => ?_
    refine (enqueueFIFO_unlocked ?_ _).bind fun _ h4 => ?_
    · exact h3
    exact (cprintf_noStop h4).bind fun _ _ => h4

theorem trapPgflt_unlocked (h : k.locks = []) (user : Bool) (va : Nat) :
    Unlocked Prod.snd (trapPgflt user k va) := by
  unfold trapPgflt
  refine (cprintf_noStop h).bind fun _ _ => ?_
  refine .ite (fun _ => ?_) fun _ => ?_
  · refine (swapPageOut_unlocked h).bind fun _ h1 => ?_
    exact (swapPageIn_unlocked h1 _).bind fun _ h2 => h2
  · refine .ite (fun _ => h) fun _ => ?_
    exact notLocks_panic (by decide) (by decide)

theorem touch_unlocked (h : k.locks = []) (user store : Bool) (fuel va : Nat) :
    Unlocked Prod.snd (touch user store fuel k va) := by
  induction fuel generalizing k with
  | zero => exact notLocks_hang
  | succ fuel ih =>
    unfold touch
    dsimp only
    split
    · exact h
    · refine (trapPgflt_unlocked h user va).bind fun r h1 => ?_
      split
      · exact ih h1
      · exact h1

/-- The kernel reads a byte of user memory. -/
theorem kernelLoad_unlocked (h : k.locks = []) (va : Nat) : Unlocked Prod.snd (kernelLoad k va) := by
  unfold kernelLoad
  refine (touch_unlocked h false false MAXFAULTS va).bind fun _ h1 => ?_
  exact (deref_noStop _).bind fun _ _ => h1

theorem kernelStore_unlocked (h : k.locks = []) (va : Nat) (b : UInt8) : Unlocked id (kernelStore k va b) := by
  unfold kernelStore
  refine (touch_unlocked h false true MAXFAULTS va).bind fun _ h1 => ?_
  exact (deref_noStop _).bind fun _ _ => h1

end Paging
