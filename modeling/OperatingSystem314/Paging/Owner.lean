import Mathlib.Logic.Relation
import OperatingSystem314.Lib.Ownership
import OperatingSystem314.Paging.Service

/-! # Who owns a frame

    The places that own frames are the present entries of the page tables
    of all processes.  Eviction, growth, shrinking and stores keep
    `Owned`; the exchange of two pages keeps it as long as the page that it
    takes from the list is present.

    * `procStep`: a process accesses its memory, faults, or calls `sbrk`.
    * `frames_owned`: in runs in which each fault finds such a page every
      frame has one owner.
    * `frame_zero_mapped`: a run that ends with frame `0` mapped. -/

namespace Paging

open Ownership

/-! ### The frames of all processes -/

/-- A process with a page table of its own. -/
def Live (k : Kernel) (p : ProcId) : Prop := (k.proc p).state ≠ .UNUSED ∧ (k.proc p).state ≠ .EMBRYO

instance (k : Kernel) (p : ProcId) : Decidable (Live k p) :=
  inferInstanceAs (Decidable (_ ∧ _))

/-- The frame that an entry gives to a page. -/
def Pte.frame? (x : Pte) : Option Nat := if x.p then some x.ppn else none

/-- The frame of page number `i.2` of process `i.1`. -/
def frameOf (k : Kernel) (i : ProcId × Nat) : Option Nat :=
  if Live k i.1 then (k.walkpgdir (k.proc i.1).pgdir (i.2 * PGSIZE)).bind Pte.frame? else none

structure Owned (k : Kernel) : Prop where
  kend : 0 < k.kend
  dirs : ∀ p r, Live k p → Live k r → (k.proc p).pgdir = (k.proc r).pgdir → p = r
  inv : Inv (frameOf k) k.freelist k.FrameOk

/-- What the steps of a process leave alone. -/
structure SameProcs (k k' : Kernel) : Prop where
  curproc : k'.curproc = k.curproc
  kend : k'.kend = k.kend
  state : ∀ p, (k'.proc p).state = (k.proc p).state
  pgdir : ∀ p, (k'.proc p).pgdir = (k.proc p).pgdir

namespace SameProcs

variable {k k' k'' : Kernel}

theorem refl (k : Kernel) : SameProcs k k := ⟨rfl, rfl, fun _ => rfl, fun _ => rfl⟩

theorem trans (h : SameProcs k k') (h' : SameProcs k' k'') : SameProcs k k'' :=
  ⟨h'.curproc.trans h.curproc, h'.kend.trans h.kend, fun p => (h'.state p).trans (h.state p),
    fun p => (h'.pgdir p).trans (h.pgdir p)⟩

theorem live (h : SameProcs k k') (p : ProcId) : Live k' p ↔ Live k p := by
  unfold Live
  rw [h.state p]

theorem cur (h : SameProcs k k') : k'.cur.pgdir = k.cur.pgdir := by
  unfold Kernel.cur
  rw [h.curproc]
  exact h.pgdir _

theorem cur_live (h : SameProcs k k') (hlive : Live k k.curproc) : Live k' k'.curproc := by
  rw [h.curproc]
  exact (h.live _).mpr hlive

theorem frameOk (h : SameProcs k k') : k'.FrameOk = k.FrameOk := by
  unfold Kernel.FrameOk
  rw [h.kend]

theorem dirs (h : SameProcs k k')
    (hdirs : ∀ p r, Live k p → Live k r → (k.proc p).pgdir = (k.proc r).pgdir → p = r) (p r : ProcId)
    (hp : Live k' p) (hr : Live k' r) (hdir : (k'.proc p).pgdir = (k'.proc r).pgdir) : p = r := by
  rw [h.pgdir, h.pgdir] at hdir
  exact hdirs p r ((h.live p).mp hp) ((h.live r).mp hr) hdir

theorem of_swaps (h : OnlySwaps k k') : SameProcs k k' := by
  refine ⟨h.curproc, ?_, fun p => ?_, fun p => ?_⟩
  · rw [h.rest]
  · obtain ⟨_, _, _, _, _, heq⟩ := h.procs p
    rw [heq]
  · obtain ⟨_, _, _, _, _, heq⟩ := h.procs p
    rw [heq]

theorem of_lists (h : OnlyLists k k') : SameProcs k k' := of_swaps (.of_lists h)

end SameProcs

theorem frameOf_eq_some {k : Kernel} {i : ProcId × Nat} {f : Nat} :
    frameOf k i = some f ↔ Live k i.1 ∧
      ∃ x, k.walkpgdir (k.proc i.1).pgdir (i.2 * PGSIZE) = some x ∧ x.p = true ∧ x.ppn = f := by
  unfold frameOf Pte.frame?
  split
  · simp [Option.bind_eq_some_iff, *]
  · simp [*]

namespace Owned

variable {k k' : Kernel} {f va : Nat} {x : Pte}

/-- What changes neither entries nor the free list. -/
theorem mono (h : Owned k) (hsame : SameProcs k k') (hfree : k'.freelist = k.freelist)
    (hsub : ∀ i g, frameOf k' i = some g → frameOf k i = some g) : Owned k' := by
  refine ⟨by rw [hsame.kend]; exact h.kend, hsame.dirs h.dirs, ?_⟩
  rw [hsame.frameOk, hfree]
  exact h.inv.mono hsub

theorem frameOf_congr (hsame : SameProcs k k') (hpgdir : k'.pgdir = k.pgdir) : frameOf k' = frameOf k := by
  funext i
  unfold frameOf Kernel.walkpgdir
  simp only [hsame.live, hsame.pgdir, hpgdir]

theorem congr (h : Owned k) (hsame : SameProcs k k') (hfree : k'.freelist = k.freelist)
    (hpgdir : k'.pgdir = k.pgdir) : Owned k' := by
  refine h.mono hsame hfree fun i g hi => ?_
  rwa [frameOf_congr hsame hpgdir] at hi

theorem of_lists (h : Owned k) (hlists : OnlyLists k k') : Owned k' := by
  apply h.congr (.of_lists hlists)
  · rw [hlists.rest]
  · rw [hlists.rest]

end Owned

/-- A frame in nobody's hands, as `mem` of `allocuvm` before it is mapped. -/
def Held (k : Kernel) (f : Nat) : Prop := Nobody (frameOf k) k.freelist k.FrameOk f

/-! ### Page tables -/

/-- The frames after an entry of the current process was written: the new
    entry's, and those of all other places. -/
theorem frameOf_setPte {k : Kernel} {va g : Nat} {x : Pte} {i : ProcId × Nat}
    (hdirs : ∀ p, Live k p → (k.proc p).pgdir = k.cur.pgdir → p = k.curproc)
    (hi : frameOf (k.setPte k.cur.pgdir va x) i = some g) :
    (i = (k.curproc, va / PGSIZE) ∧ x.frame? = some g) ∨
      (i ≠ (k.curproc, va / PGSIZE) ∧ frameOf k i = some g) := by
  obtain ⟨p, n⟩ := i
  obtain ⟨hp, y, hy, hyp, hyg⟩ := frameOf_eq_some.mp hi
  have hp' : Live k p := hp
  by_cases hcur : p = k.curproc
  · subst hcur
    have hwalk : ((k.pgdir k.cur.pgdir).setPte va x).walk (n * PGSIZE) = some y := by
      have hupd : (k.setPte k.cur.pgdir va x).pgdir k.cur.pgdir = (k.pgdir k.cur.pgdir).setPte va x :=
        Function.update_self _ _ _
      rw [← hupd]
      exact hy
    have hn : n * PGSIZE / PGSIZE = n := Nat.mul_div_cancel n (by decide)
    rcases Pgdir.walk_setPte_cases _ hwalk with ⟨hpage, rfl⟩ | ⟨hpage, hold⟩
    · left
      rw [hn] at hpage
      refine ⟨by rw [hpage], ?_⟩
      unfold Pte.frame?
      rw [if_pos hyp, hyg]
    · right
      rw [hn] at hpage
      refine ⟨?_, frameOf_eq_some.mpr ⟨hp', y, hold, hyp, hyg⟩⟩
      intro heq
      exact hpage (congrArg Prod.snd heq)
  · right
    have hdir : (k.proc p).pgdir ≠ k.cur.pgdir := fun heq => hcur (hdirs p hp' heq)
    refine ⟨fun heq => hcur (congrArg Prod.fst heq), ?_⟩
    have hold : k.walkpgdir (k.proc p).pgdir (n * PGSIZE) = some y := by
      rw [← walkpgdir_setPte_dir hdir]
      exact hy
    exact frameOf_eq_some.mpr ⟨hp', y, hold, hyp, hyg⟩

/-- The frame of a page of the current process. -/
theorem frameOf_cur {k : Kernel} {va : Nat} {y : Pte} (hlive : Live k k.curproc)
    (hy : k.walkpgdir k.cur.pgdir va = some y) (hp : y.p = true) :
    frameOf k (k.curproc, va / PGSIZE) = some y.ppn := by
  refine frameOf_eq_some.mpr ⟨hlive, y, ?_, hp, rfl⟩
  show k.walkpgdir k.cur.pgdir (PTE_ADDR va) = some y
  rw [walkpgdir_PTE_ADDR, hy]

theorem SameProcs.setPte (k : Kernel) (va : Nat) (x : Pte) : SameProcs k (k.setPte k.cur.pgdir va x) :=
  ⟨rfl, rfl, fun _ => rfl, fun _ => rfl⟩

/-- What the routines that take pages away do to the frames. -/
structure Shrinks (k k' : Kernel) : Prop where
  same : SameProcs k k'
  owned : Owned k'
  held : ∀ f, Held k f → Held k' f

namespace Owned

variable {k k' : Kernel} {f va : Nat} {x y : Pte}

theorem own_dir (h : Owned k) (hlive : Live k k.curproc) (p : ProcId) (hp : Live k p)
    (hdir : (k.proc p).pgdir = k.cur.pgdir) : p = k.curproc :=
  h.dirs p k.curproc hp hlive hdir

/-- Taking an entry away takes its frame away. -/
theorem frameOf_clear (h : Owned k) (hlive : Live k k.curproc) (hx : x.p = false) (j : ProcId × Nat)
    (g : Nat) (hj : frameOf (k.setPte k.cur.pgdir va x) j = some g) :
    j ≠ (k.curproc, va / PGSIZE) ∧ frameOf k j = some g := by
  rcases frameOf_setPte (h.own_dir hlive) hj with ⟨-, hnew⟩ | hold
  · unfold Pte.frame? at hnew
    rw [if_neg (by simp [hx])] at hnew
    cases hnew
  · exact hold

theorem clear_page (h : Owned k) (hlive : Live k k.curproc) (hx : x.p = false) (va : Nat) :
    Owned (k.setPte k.cur.pgdir va x) :=
  h.mono (.setPte k va x) rfl fun j g hj => (h.frameOf_clear hlive hx j g hj).2

/-- The frame of a page is freed and its entry cleared. -/
theorem free_page (h : Owned k) (hlive : Live k k.curproc) (hy : k.walkpgdir k.cur.pgdir va = some y)
    (hp : y.p = true) (hx : x.p = false) (hfree : kfree k y.ppn = .ok k') :
    Shrinks k (k'.setPte k'.cur.pgdir va x) := by
  rw [kfree_ok hfree]
  -- in the other order, the frame is never free and mapped at once
  have hsub : ∀ j g, frameOf (k.setPte k.cur.pgdir va x) j = some g →
      j ≠ (k.curproc, va / PGSIZE) ∧ frameOf k j = some g := h.frameOf_clear hlive hx
  obtain ⟨hinv, hnobody⟩ := h.inv.take (frameOf_cur hlive hy hp) hsub
  refine ⟨⟨rfl, rfl, fun _ => rfl, fun _ => rfl⟩, ⟨h.kend, h.dirs, hinv.release hnobody⟩, ?_⟩
  intro g hg
  apply (hg.mono fun j e hj => (hsub j e hj).2).release
  rintro rfl
  exact hg.unowned _ (frameOf_cur hlive hy hp)

/-- A page of the current process gets a frame that nobody has. -/
theorem map_page (h : Owned k) (hlive : Live k k.curproc) (hheld : Held k x.ppn) (va : Nat) :
    Owned (k.setPte k.cur.pgdir va x) := by
  refine ⟨h.kend, h.dirs, h.inv.give hheld (i := (k.curproc, va / PGSIZE)) ?_⟩
  intro j g hj
  rcases frameOf_setPte (h.own_dir hlive) hj with ⟨rfl, hnew⟩ | ⟨-, hold⟩
  · left
    refine ⟨rfl, ?_⟩
    unfold Pte.frame? at hnew
    split at hnew
    · exact (Option.some.inj hnew).symm
    · cases hnew
  · exact .inr hold

/-- A page whose frame was written over and that is then marked is only lost. -/
theorem overwrite_page {b : Nat} (h : Owned k) (hlive : Live k k.curproc) (hpage : b / PGSIZE = va / PGSIZE)
    (x : Pte) {z : Pte} (hz : z.p = false) : Owned ((k.setPte k.cur.pgdir va x).setPte k.cur.pgdir b z) := by
  refine h.mono ⟨rfl, rfl, fun _ => rfl, fun _ => rfl⟩ rfl fun j g hj => ?_
  set k1 := k.setPte k.cur.pgdir va x with hk1
  rcases frameOf_setPte (k := k1) (h.own_dir hlive) hj with ⟨-, hnew⟩ | ⟨hne, hj1⟩
  · unfold Pte.frame? at hnew
    rw [if_neg (by simp [hz])] at hnew
    cases hnew
  rcases frameOf_setPte (h.own_dir hlive) hj1 with ⟨hva, -⟩ | ⟨-, hold⟩
  · rw [hpage] at hne
    exact absurd hva hne
  · exact hold

/-- The page at `b` hands its frame over to the page at `va`. -/
theorem exchange {b : Nat} (h : Owned k) (hlive : Live k k.curproc)
    (hy : k.walkpgdir k.cur.pgdir b = some y) (hp : y.p = true) (hx : x.ppn = y.ppn) {z : Pte}
    (hz : z.p = false) :
    Owned ((k.setPte k.cur.pgdir va x).setPte k.cur.pgdir b z) := by
  refine ⟨h.kend, h.dirs, h.inv.move (l := (k.curproc, va / PGSIZE)) (frameOf_cur hlive hy hp) ?_⟩
  intro j g hj
  set k1 := k.setPte k.cur.pgdir va x with hk1
  rcases frameOf_setPte (k := k1) (h.own_dir hlive) hj with ⟨-, hnew⟩ | ⟨hne, hj1⟩
  · unfold Pte.frame? at hnew
    rw [if_neg (by simp [hz])] at hnew
    cases hnew
  rcases frameOf_setPte (h.own_dir hlive) hj1 with ⟨hva, hnew⟩ | ⟨-, hold⟩
  · left
    refine ⟨hva, ?_⟩
    unfold Pte.frame? at hnew
    split at hnew
    · exact (Option.some.inj hnew).symm.trans hx
    · cases hnew
  · exact .inr ⟨hne, hold⟩

end Owned

/-! ### Shrinking -/

namespace Shrinks

variable {k k' k'' : Kernel}

theorem refl (h : Owned k) : Shrinks k k := ⟨.refl k, h, fun _ hf => hf⟩

theorem trans (h : Shrinks k k') (h' : Shrinks k' k'') : Shrinks k k'' :=
  ⟨h.same.trans h'.same, h'.owned, fun f hf => h'.held f (h.held f hf)⟩

end Shrinks

theorem deallocPage_shrinks {d a : Nat} {k k' : Kernel} (h : Owned k) (hlive : Live k k.curproc)
    (hd : d = k.cur.pgdir) (hok : deallocPage d k a = .ok k') : Shrinks k k' := by
  subst hd
  unfold deallocPage at hok
  split at hok
  · cases hok
    exact .refl h
  next x hx =>
    split at hok
    next hp =>
      split at hok
      · cases hok
      · rw [bind_eq_ok] at hok
        obtain ⟨k1, hfree, hok⟩ := hok
        cases hok
        have hcur : k.cur.pgdir = k1.cur.pgdir := by
          rw [kfree_ok hfree]
          rfl
        rw [hcur]
        exact h.free_page hlive hx hp rfl hfree
    · cases hok
      exact .refl h

theorem deallocuvm_shrinks {oldsz newsz n : Nat} {k k' : Kernel} (h : Owned k) (hlive : Live k k.curproc)
    (hok : deallocuvm k k.cur.pgdir oldsz newsz = .ok (n, k')) : Shrinks k k' := by
  unfold deallocuvm at hok
  split at hok
  · cases hok
    exact .refl h
  rw [bind_eq_ok] at hok
  obtain ⟨k1, hfold, hok⟩ := hok
  cases hok
  generalize hd : k.cur.pgdir = d at hfold
  -- by induction on the pages: each round keeps the directory and the process
  generalize pageRange (PGROUNDUP newsz) oldsz = pages at hfold
  induction pages generalizing k with
  | nil =>
    cases hfold
    exact .refl h
  | cons a rest ih =>
    rw [List.foldlM_cons, bind_eq_ok] at hfold
    obtain ⟨k2, hpage, hfold⟩ := hfold
    have h2 := deallocPage_shrinks h hlive hd.symm hpage
    exact h2.trans (ih h2.owned (h2.same.cur_live hlive) (h2.same.cur.trans hd) hfold)

/-! ### Eviction and exchange -/

/-- The frames after one entry of the current directory was replaced. -/
theorem OnlySwaps.frameOf {k k' k1 : Kernel} (h : OnlySwaps k k') (h1 : SameProcs k k1)
    (hcur : k'.pgdir k.cur.pgdir = k1.pgdir k.cur.pgdir)
    (hother : ∀ e, e ≠ k.cur.pgdir → k1.pgdir e = k.pgdir e) : frameOf k' = frameOf k1 := by
  have h' := SameProcs.of_swaps h
  funext i
  unfold Paging.frameOf Kernel.walkpgdir
  simp only [h'.live, h1.live, h'.pgdir, h1.pgdir]
  by_cases hdir : (k.proc i.1).pgdir = k.cur.pgdir
  · rw [hdir, hcur]
  · rw [h.pgdirs _ hdir, hother _ hdir]

theorem recordPage_rest {k k' : Kernel} {a : Nat} {x : Pte} (h : recordPage k a x = .ok k') :
    k' = { k with proc := k'.proc, fs := k'.fs } := by
  unfold recordPage at h
  split at h
  · cases h
    rfl
  · rw [bind_eq_ok] at h
    obtain ⟨⟨n, k1⟩, hw, h⟩ := h
    simp only at h
    split at h
    · cases h
    · rw [bind_eq_ok] at h
      obtain ⟨-, -, h⟩ := h
      cases h
      rw [writeToSwapFile_ok hw]
      rfl

/-- The frame that `moveToSwapFile` frees. -/
theorem moveToSwapFile_freelist {k k' : Kernel} {a : Nat} {x : Pte} (h : moveToSwapFile k a = .ok k')
    (hx : k.walkpgdir k.cur.pgdir a = some x) :
    k'.freelist = if x.p then x.ppn :: k.freelist else k.freelist := by
  simp only [moveToSwapFile, bind_eq_ok, deref_eq_ok] at h
  obtain ⟨y, hy, h⟩ := h
  rw [hx] at hy
  cases hy
  split at h
  · cases h
  simp only [bind_eq_ok, deref_eq_ok] at h
  obtain ⟨k1, hrec, y, hy, h⟩ := h
  have h1 := (recordPage_ok hrec).1
  have hrest := recordPage_rest hrec
  obtain rfl : x = y := by
    rw [walkpgdir_PTE_ADDR, h1.pgdir, Kernel.walkpgdir, hrest] at hy
    exact Option.some.inj (hx.symm.trans hy)
  have hfree1 : k1.freelist = k.freelist := by rw [hrest]
  split at h
  · cases h
  split at h
  next hp =>
    simp only [bind_eq_ok] at h
    obtain ⟨k3, hfree, k2, h, h'⟩ := h
    cases h
    cases h'
    rw [if_pos hp, ← hfree1, kfree_ok hfree]
    rfl
  next hp =>
    simp only [bind_eq_ok] at h
    obtain ⟨k2, h, h'⟩ := h
    cases h
    cases h'
    rw [if_neg hp]
    exact hfree1

theorem moveToSwapFile_owned {k k' : Kernel} {a : Nat} (h : Owned k) (hlive : Live k k.curproc)
    (hmove : moveToSwapFile k a = .ok k') : Owned k' := by
  obtain ⟨honly, -, -, x, hx, -, hpgdir⟩ := moveToSwapFile_ok hmove
  have hfree := moveToSwapFile_freelist hmove hx
  have hsame := SameProcs.of_swaps honly.toOnlySwaps
  split at hpgdir
  next hp =>
    rw [if_pos hp] at hfree
    have hframes : frameOf k' = frameOf (k.setPte k.cur.pgdir (PTE_ADDR a) .swapped) := by
      apply honly.toOnlySwaps.frameOf (.setPte k _ _)
      · rw [hpgdir]
        simp [Kernel.setPte]
      · intro e he
        simp [Kernel.setPte, he]
    have hsub : ∀ j g, frameOf k' j = some g → j ≠ (k.curproc, a / PGSIZE) ∧ frameOf k j = some g := by
      rw [hframes, ← PTE_ADDR_div a]
      exact h.frameOf_clear hlive rfl
    obtain ⟨hinv, hnobody⟩ := h.inv.take (frameOf_cur hlive hx hp) hsub
    refine ⟨by rw [hsame.kend]; exact h.kend, hsame.dirs h.dirs, ?_⟩
    rw [hsame.frameOk, hfree]
    exact hinv.release hnobody
  next hp =>
    rw [if_neg hp] at hfree
    apply h.mono hsame hfree
    intro j g hj
    rwa [honly.toOnlySwaps.frameOf (.refl k) hpgdir fun _ _ => rfl] at hj

theorem swapPageOut_owned {k k' : Kernel} (h : Owned k) (hlive : Live k k.curproc)
    (hout : swapPageOut k = .ok k') : Owned k' := by
  obtain ⟨a, k1, hdeq, hmove⟩ := swapPageOut_ok hout
  have h1 := h.of_lists (dequeueFIFO_lists hdeq)
  exact moveToSwapFile_owned h1 ((SameProcs.of_lists (dequeueFIFO_lists hdeq)).cur_live hlive) hmove

theorem swapPageIn_freelist {k k' : Kernel} {va : Nat} (h : swapPageIn k va = .ok k') :
    k'.freelist = k.freelist := by
  unfold swapPageIn at h
  split at h
  · cases h
    rfl
  simp only [bind_eq_ok] at h
  obtain ⟨⟨b, k1⟩, hdeq, x, -, h⟩ := h
  split at h
  · cases h
  simp only [bind_eq_ok] at h
  obtain ⟨y, -, h⟩ := h
  split at h
  · cases h
  simp only [bind_eq_ok] at h
  obtain ⟨⟨r, bytes, k4⟩, hread, ⟨r', k5⟩, hwrite, k6, henq, _, -, h⟩ := h
  cases h
  rw [(enqueueFIFO_lists henq).rest]
  show k5.freelist = k.freelist
  rw [writeToSwapFile_ok hwrite, readFromSwapFile_ok hread]
  show k1.freelist = k.freelist
  rw [(dequeueFIFO_lists hdeq).rest]

/-- The exchange keeps the frames apart if the page that it takes from the
    list is present, or is the very page that it brings in. -/
theorem swapPageIn_owned {k k' : Kernel} {va : Nat} (h : Owned k) (hlive : Live k k.curproc)
    (hpid : 2 < k.cur.pid)
    (hfit : slotOf k.cur (PTE_ADDR va) ≠ none → Present k (oldest k) ∨ oldest k / PGSIZE = va / PGSIZE)
    (hin : swapPageIn k va = .ok k') : Owned k' := by
  rcases swapPageIn_ok hin with ⟨-, rfl⟩ | ⟨i, b, k1, k2, y, hslot, hdeq, h2, henq, -, -, hy, hpgdir⟩
  · exact h
  have hfree := swapPageIn_freelist hin
  obtain ⟨rfl, -⟩ := dequeueFIFO_long hdeq (by omega)
  have hlists1 := dequeueFIFO_lists hdeq
  have h1 := h.of_lists hlists1
  have hlive1 := (SameProcs.of_lists hlists1).cur_live hlive
  set new : Pte := ⟨y.ppn, true, true, true, false⟩ with hnew
  set k3 := (k1.setPte k1.cur.pgdir va new).setPte k1.cur.pgdir (oldest k) .swapped with hk3
  have hsame3 : SameProcs k1 k3 := ⟨rfl, rfl, fun _ => rfl, fun _ => rfl⟩
  have hswaps : OnlySwaps k1 k' := h2.toOnlySwaps.trans (.of_lists (enqueueFIFO_lists henq))
  have hframes : frameOf k' = frameOf k3 := by
    apply hswaps.frameOf hsame3
    · rw [(enqueueFIFO_lists henq).rest, hpgdir]
      simp [hk3, Kernel.setPte]
    · intro e he
      simp [hk3, Kernel.setPte, he]
  have h3 : Owned k3 := by
    by_cases hpage : oldest k / PGSIZE = va / PGSIZE
    · exact h1.overwrite_page hlive1 hpage new rfl
    · obtain ⟨x, hx, hp⟩ | hsame := hfit (by rw [hslot]; exact Option.some_ne_none i)
      · have hxy : k1.walkpgdir k1.cur.pgdir (oldest k) = some x := by
          rw [hlists1.cur.pgdir, Kernel.walkpgdir, hlists1.rest]
          exact hx
        rw [hy] at hxy
        cases hxy
        exact h1.exchange hlive1 hy hp (x := new) rfl rfl
      · exact absurd hsame hpage
  have hsame : SameProcs k3 k' := by
    have hs := SameProcs.of_swaps hswaps
    exact ⟨hs.curproc, hs.kend, hs.state, hs.pgdir⟩
  apply h3.mono hsame
  · rw [hfree]
    show k.freelist = k1.freelist
    rw [hlists1.rest]
  · intro j g hj
    rwa [hframes] at hj

/-! ### Growth -/

/-- `walkpgdir(pgdir, va, 1)`: a new page table has no pages. -/
theorem walkpgdirAlloc_owned {k k' : Kernel} {va f : Nat} {b : Bool} (h : Owned k) (hf : Held k f) (halloc : walkpgdirAlloc k k.cur.pgdir va = (b, k')) :
    SameProcs k k' ∧ (b = false → k' = k) ∧ Owned k' ∧ Held k' f := by
  unfold walkpgdirAlloc at halloc
  split at halloc
  · cases halloc
    exact ⟨.refl k, fun _ => rfl, h, hf⟩
  next hnone =>
    unfold kalloc at halloc
    cases hfree : k.freelist with
    | nil =>
      rw [hfree] at halloc
      cases halloc
      exact ⟨.refl k, fun _ => rfl, h, hf⟩
    | cons t rest =>
      rw [hfree] at halloc
      cases halloc
      refine ⟨⟨rfl, rfl, fun _ => rfl, fun _ => rfl⟩, fun hb => Bool.noConfusion hb, ?_⟩
      set d := k.cur.pgdir with hd
      set pd : Pgdir := { (k.pgdir d) with
        pde := Function.update (k.pgdir d).pde (PDX va) (some ⟨t, fun _ => .zero⟩) } with hpd
      set k1 : Kernel := { k with freelist := rest, pgdir := Function.update k.pgdir d pd } with hk1
      have hsub : ∀ j g, frameOf k1 j = some g → frameOf k j = some g := by
        intro j g hj
        obtain ⟨hp, x, hx, hxp, hxg⟩ := frameOf_eq_some.mp hj
        refine frameOf_eq_some.mpr ⟨hp, x, ?_, hxp, hxg⟩
        by_cases hdir : (k.proc j.1).pgdir = d
        · have hx1 : pd.walk (j.2 * PGSIZE) = some x := by
            have hupd : k1.pgdir d = pd := Function.update_self _ _ _
            rw [← hupd, ← hdir]
            exact hx
          by_cases hdx : PDX (j.2 * PGSIZE) = PDX va
          · -- the entries of the new table are not present
            simp only [Pgdir.walk, hpd, hdx, Function.update_self, Option.map_some,
              Option.some.injEq] at hx1
            rw [← hx1] at hxp
            cases hxp
          · simp only [Pgdir.walk, hpd, Function.update_of_ne hdx] at hx1
            rw [hdir]
            exact hx1
        · have hupd : k1.pgdir (k.proc j.1).pgdir = k.pgdir (k.proc j.1).pgdir :=
            Function.update_of_ne hdir _ _
          show (k.pgdir (k.proc j.1).pgdir).walk _ = _
          rw [← hupd]
          exact hx
      have hinv := h.inv
      unfold Held at hf
      rw [hfree] at hinv hf
      exact ⟨⟨h.kend, h.dirs, (hinv.alloc.1).mono hsub⟩, hf.alloc.mono hsub⟩

theorem mappages_owned {k k' : Kernel} {va : Nat} {x : Pte} {r : Int} (h : Owned k)
    (hlive : Live k k.curproc) (hf : Held k x.ppn) (hmap : mappages k k.cur.pgdir va x = .ok (r, k')) :
    (r < 0 ∧ k' = k) ∨ (r = 0 ∧ SameProcs k k' ∧ Owned k') := by
  unfold mappages at hmap
  split at hmap
  next k1 hk1 =>
    cases hmap
    obtain ⟨-, hsame, -⟩ := walkpgdirAlloc_owned h hf hk1
    exact .inl ⟨by decide, hsame rfl⟩
  next k1 hk1 =>
    obtain ⟨hsame, -, h1, hf1⟩ := walkpgdirAlloc_owned h hf hk1
    rw [bind_eq_ok] at hmap
    obtain ⟨pte, -, hmap⟩ := hmap
    split at hmap
    · cases hmap
    · cases hmap
      right
      rw [← hsame.cur]
      set y : Pte := { x with p := true } with hy
      have hmapped := h1.map_page (x := y) (hsame.cur_live hlive) hf1 va
      exact ⟨rfl, hsame.trans (.setPte k1 va _), hmapped⟩

theorem makeRoom_owned {k k' : Kernel} (h : Owned k) (hlive : Live k k.curproc)
    (hroom : makeRoom k = .ok k') : SameProcs k k' ∧ Owned k' := by
  unfold makeRoom at hroom
  split at hroom
  · rw [bind_eq_ok] at hroom
    obtain ⟨-, -, hout⟩ := hroom
    exact ⟨.of_swaps (swapPageOut_swaps hout), swapPageOut_owned h hlive hout⟩
  · cases hroom
    exact ⟨.refl k, h⟩

/-- The loop of `allocuvm`, by induction on the pages. -/
theorem allocLoop_owned {d oldsz newsz n : Nat} {pages : List Nat} {k k' : Kernel} (h : Owned k)
    (hlive : Live k k.curproc) (hd : k.cur.pgdir = d)
    (hloop : allocLoop d oldsz newsz pages k = .ok (n, k')) : SameProcs k k' ∧ Owned k' := by
  induction pages generalizing k with
  | nil =>
    cases hloop
    exact ⟨.refl _, h⟩
  | cons a rest ih =>
    simp only [allocLoop, bind_eq_ok] at hloop
    obtain ⟨k1, hroom, hloop⟩ := hloop
    obtain ⟨hsame1, h1⟩ := makeRoom_owned h hlive hroom
    have hlive1 := hsame1.cur_live hlive
    have hd1 : k1.cur.pgdir = d := hsame1.cur.trans hd
    unfold kalloc at hloop
    cases hfree : k1.freelist with
    | nil =>
      simp only [hfree, bind_eq_ok] at hloop
      obtain ⟨-, -, ⟨m, k2⟩, hdealloc, hloop⟩ := hloop
      cases hloop
      rw [← hd1] at hdealloc
      have h2 := deallocuvm_shrinks h1 hlive1 hdealloc
      exact ⟨hsame1.trans h2.same, h2.owned⟩
    | cons f free =>
      simp only [hfree, bind_eq_ok] at hloop
      obtain ⟨⟨r, k3⟩, hmap, hloop⟩ := hloop
      set k2 : Kernel := ({ k1 with freelist := free } : Kernel).setFrame f fun _ => 0 with hk2
      have hinv := h1.inv
      rw [hfree] at hinv
      have hsame2 : SameProcs k1 k2 := ⟨rfl, rfl, fun _ => rfl, fun _ => rfl⟩
      have h2 : Owned k2 := ⟨h1.kend, h1.dirs, hinv.alloc.1⟩
      have hf : Held k2 f := hinv.alloc.2
      have hlive2 : Live k2 k2.curproc := hlive1
      rw [← hd1] at hmap
      rcases mappages_owned (k := k2) h2 hlive2 hf hmap with ⟨hr, rfl⟩ | ⟨rfl, hsame3, h3⟩
      · -- no page for the page table: everything is undone
        rw [if_pos hr] at hloop
        simp only [bind_eq_ok] at hloop
        obtain ⟨-, -, ⟨m, k4⟩, hdealloc, k5, hkfree, hloop⟩ := hloop
        cases hloop
        rw [← hd1] at hdealloc
        have h4 := deallocuvm_shrinks (k := k2) h2 hlive2 hdealloc
        rw [kfree_ok hkfree]
        refine ⟨?_, h4.owned.kend, h4.owned.dirs, h4.owned.inv.release (h4.held f hf)⟩
        exact (hsame1.trans hsame2).trans (h4.same.trans ⟨rfl, rfl, fun _ => rfl, fun _ => rfl⟩)
      · simp only [Int.lt_irrefl, if_false, bind_eq_ok] at hloop
        obtain ⟨k4, henq, hloop⟩ := hloop
        have hlists := enqueueFIFO_lists henq
        have hsame4 := ((hsame1.trans hsame2).trans hsame3).trans (.of_lists hlists)
        have hrest : allocLoop d oldsz newsz rest k4 = .ok (n, k') → SameProcs k k' ∧ Owned k' := by
          intro h5
          obtain ⟨hsame5, hk5⟩ := ih (h3.of_lists hlists) (hsame4.cur_live hlive)
            (hsame4.cur.trans hd) h5
          exact ⟨hsame4.trans hsame5, hk5⟩
        split at hloop
        · rw [bind_eq_ok] at hloop
          obtain ⟨-, -, hloop⟩ := hloop
          exact hrest hloop
        · exact hrest hloop

theorem allocuvm_owned {oldsz newsz n : Nat} {k k' : Kernel} (h : Owned k) (hlive : Live k k.curproc)
    (halloc : allocuvm k k.cur.pgdir oldsz newsz = .ok (n, k')) : SameProcs k k' ∧ Owned k' := by
  unfold allocuvm at halloc
  split at halloc
  · cases halloc
    exact ⟨.refl k, h⟩
  split at halloc
  · cases halloc
    exact ⟨.refl k, h⟩
  · exact allocLoop_owned h hlive rfl halloc

theorem setSz_owned {k : Kernel} (h : Owned k) (sz : Nat) : SameProcs k (k.setSz sz) ∧ Owned (k.setSz sz) := by
  have hset : SameProcs k (k.setSz sz) := by
    refine ⟨rfl, rfl, ?_, ?_⟩
    all_goals
      intro p
      unfold Kernel.setSz Kernel.modCur Kernel.setCur
      by_cases hp : p = k.curproc
      · rw [hp, Kernel.setProc_self]
        rfl
      · rw [Kernel.setProc_ne _ _ hp]
  exact ⟨hset, h.congr hset rfl rfl⟩

theorem growproc_owned {k k' : Kernel} {n r : Int} (h : Owned k) (hlive : Live k k.curproc)
    (hgrow : growproc k n = .ok (r, k')) : SameProcs k k' ∧ Owned k' := by
  -- however the size changes, it is recorded at the end or not
  have hend : ∀ {k2 : Kernel} {sz : Nat}, SameProcs k k2 ∧ Owned k2 →
      (if n ≠ 0 ∧ sz = 0 then (.ok (-1, k2) : Result (Int × Kernel)) else .ok (0, k2.setSz sz)) =
        .ok (r, k') → SameProcs k k' ∧ Owned k' := by
    intro k2 sz h2 hret
    split at hret
    · cases hret
      exact h2
    · cases hret
      obtain ⟨hset, hset'⟩ := setSz_owned h2.2 sz
      exact ⟨h2.1.trans hset, hset'⟩
  unfold growproc at hgrow
  simp only [] at hgrow
  split at hgrow
  · rw [bind_eq_ok] at hgrow
    obtain ⟨⟨sz, k2⟩, halloc, hret⟩ := hgrow
    exact hend (allocuvm_owned h hlive halloc) hret
  split at hgrow
  · rw [bind_eq_ok] at hgrow
    obtain ⟨⟨sz, k2⟩, hdealloc, hret⟩ := hgrow
    have hs := deallocuvm_shrinks h hlive hdealloc
    exact hend ⟨hs.same, hs.owned⟩ hret
  · exact hend ⟨.refl k, h⟩ hgrow

theorem sys_sbrk_owned {k k' : Kernel} {n r : Int} (h : Owned k) (hlive : Live k k.curproc)
    (hsbrk : sys_sbrk k n = .ok (r, k')) : SameProcs k k' ∧ Owned k' := by
  simp only [sys_sbrk, bind_eq_ok] at hsbrk
  obtain ⟨⟨r1, k1⟩, hgrow, hsbrk⟩ := hsbrk
  cases hsbrk
  exact growproc_owned h hlive hgrow

/-! ### Steps of all processes -/

/-- One attempt at an access: it reaches a frame, or it takes a page fault. -/
def access (store : Bool) (k : Kernel) (va : Nat) : Result (Option Nat × Kernel) :=
  let ok := fun pte : Pte => pte.p && pte.u && (!store || pte.w)
  match (k.walkpgdir k.cur.pgdir va).filter ok with
  | some pte => .ok (some pte.ppn, k)
  | none => do
    let (_, k) ← trapPgflt true k va
    return (none, k)

/-- Process `p` is scheduled and does one thing. -/
def procStep (p : ProcId) (op : UserOp) (k : Kernel) : Result Kernel :=
  let k := { k with curproc := p }
  match op with
  | .load va => do
    let (_, k) ← access false k va
    return k
  | .store va b => do
    let (f, k) ← access true k va
    match f with
    | none => return k
    | some f => return k.setByte f (va % PGSIZE) b
  | .sbrk n => do
    let (_, k) ← sys_sbrk k n
    return k

/-- The page that a fault at `va` will replace is present when its turn
    comes, if the fault replaces one and it is not the page at `va` itself. -/
def Replaceable (k : Kernel) (va : Nat) : Prop :=
  slotOf (k.cur.recorded (oldest k)) (PTE_ADDR va) ≠ none →
    secondOldest k / PGSIZE ≠ va / PGSIZE →
    Present k (secondOldest k) ∧ secondOldest k / PGSIZE ≠ oldest k / PGSIZE

/-- Accesses that fault on a page with `PTE_PG` find such a page. -/
def Orderly (p : ProcId) (op : UserOp) (k : Kernel) : Prop :=
  let k := { k with curproc := p }
  match op with
  | .load va | .store va _ => PagedOut k va → Replaceable k va
  | .sbrk _ => True

theorem trapPgflt_owned {k k' : Kernel} {va : Nat} {fin : FaultEnd} (h : Owned k)
    (hlive : Live k k.curproc) (hpid : 2 < k.cur.pid) (hfit : PagedOut k va → Replaceable k va)
    (htrap : trapPgflt true k va = .ok (fin, k')) : Owned k' := by
  obtain ⟨-, ⟨hpg, -, k1, hout, hin⟩ | ⟨-, -, -, rfl⟩⟩ := trapPgflt_ok htrap
  · obtain ⟨⟨k2, hdeq, hmove⟩, hold, hslots⟩ := swapPageOut_long hout (by omega)
    have hswaps := swapPageOut_swaps hout
    apply swapPageIn_owned (swapPageOut_owned h hlive hout) ((SameProcs.of_swaps hswaps).cur_live hlive)
      (by rwa [hswaps.cur.pid]) _ hin
    intro hslot
    rw [hslots, PTE_ADDR_of_aligned (PTE_ADDR_aligned va)] at hslot
    rw [hold, PTE_ADDR_div]
    by_cases hsame : secondOldest k / PGSIZE = va / PGSIZE
    · exact .inr hsame
    · left
      obtain ⟨⟨x, hx, hp⟩, hne⟩ := hfit hpg hslot hsame
      -- the eviction marked another page
      obtain ⟨honly, -, -, y, -, -, hpgdir⟩ := moveToSwapFile_ok hmove
      have hlists := dequeueFIFO_lists hdeq
      refine ⟨x, ?_, hp⟩
      have hdir : (k2.pgdir k2.cur.pgdir).walk (secondOldest k) = some x := by
        rw [hlists.cur.pgdir, hlists.rest]
        exact hx
      rw [honly.pgdir, Kernel.walkpgdir, hpgdir]
      split
      · rw [Pgdir.walk_setPte_ne _ (by rwa [PTE_ADDR_div])]
        exact hdir
      · exact hdir
  · refine h.congr (?_ : SameProcs k (k.modCur fun x => { x with killed := true })) rfl rfl
    refine ⟨rfl, rfl, ?_, ?_⟩
    all_goals
      intro p
      unfold Kernel.modCur Kernel.setCur
      by_cases hp : p = k.curproc
      · rw [hp, Kernel.setProc_self]
        rfl
      · rw [Kernel.setProc_ne _ _ hp]

theorem access_owned {store : Bool} {k k' : Kernel} {va : Nat} {f : Option Nat} (h : Owned k)
    (hlive : Live k k.curproc) (hpid : 2 < k.cur.pid) (hfit : PagedOut k va → Replaceable k va)
    (hacc : access store k va = .ok (f, k')) : Owned k' := by
  unfold access at hacc
  simp only [] at hacc
  split at hacc
  · cases hacc
    exact h
  · rw [bind_eq_ok] at hacc
    obtain ⟨⟨fin, k1⟩, htrap, hacc⟩ := hacc
    cases hacc
    exact trapPgflt_owned h hlive hpid hfit htrap

/-- What one step of one process keeps. -/
theorem procStep_owned {p : ProcId} {op : UserOp} {k k' : Kernel} (h : Owned k) (hlive : Live k p)
    (hpid : 2 < (k.proc p).pid) (hfit : Orderly p op k) (hstep : procStep p op k = .ok k') : Owned k' := by
  set k1 : Kernel := { k with curproc := p } with hk1
  have h1 : Owned k1 := ⟨h.kend, h.dirs, h.inv⟩
  unfold procStep at hstep
  rw [← hk1] at hstep
  cases op with
  | load va =>
    simp only [bind_eq_ok] at hstep
    obtain ⟨⟨f, k2⟩, hacc, hstep⟩ := hstep
    cases hstep
    exact access_owned h1 hlive hpid hfit hacc
  | store va b =>
    simp only [bind_eq_ok] at hstep
    obtain ⟨⟨f, k2⟩, hacc, hstep⟩ := hstep
    have h2 := access_owned h1 hlive hpid hfit hacc
    cases f with
    | none =>
      cases hstep
      exact h2
    | some f =>
      cases hstep
      have hsame : SameProcs k2 (k2.setByte f (va % PGSIZE) b) := ⟨rfl, rfl, fun _ => rfl, fun _ => rfl⟩
      exact h2.congr hsame rfl rfl
  | sbrk n =>
    simp only [bind_eq_ok] at hstep
    obtain ⟨⟨r, k2⟩, hsbrk, hstep⟩ := hstep
    cases hstep
    exact (sys_sbrk_owned h1 hlive hsbrk).2

/-! ### Every frame has one owner -/

/-- A step of a live process other than the first two. -/
def Step (k k' : Kernel) : Prop :=
  ∃ p op, Live k p ∧ 2 < (k.proc p).pid ∧ procStep p op k = .ok k'

/-- A step whose fault, if it takes one, replaces a page that is there. -/
def OrderlyStep (k k' : Kernel) : Prop :=
  ∃ p op, Live k p ∧ 2 < (k.proc p).pid ∧ Orderly p op k ∧ procStep p op k = .ok k'

/-- Each present entry of a live process maps a frame that no other entry
    maps, that is not free, and that is not frame `0`. -/
def FramesOwned (k : Kernel) : Prop :=
  ∀ p va x, Live k p → k.walkpgdir (k.proc p).pgdir va = some x → x.p = true →
    (∀ r vb y, Live k r → k.walkpgdir (k.proc r).pgdir vb = some y → y.p = true → y.ppn = x.ppn →
      r = p ∧ vb / PGSIZE = va / PGSIZE) ∧
    x.ppn ∉ k.freelist ∧ x.ppn ≠ 0

theorem Owned.framesOwned {k : Kernel} (h : Owned k) : FramesOwned k := by
  have hplace : ∀ {p va x}, Live k p → k.walkpgdir (k.proc p).pgdir va = some x → x.p = true →
      frameOf k (p, va / PGSIZE) = some x.ppn := by
    intro p va x hp hx hxp
    refine frameOf_eq_some.mpr ⟨hp, x, ?_, hxp, rfl⟩
    show k.walkpgdir (k.proc p).pgdir (PTE_ADDR va) = some x
    rw [walkpgdir_PTE_ADDR, hx]
  intro p va x hp hx hxp
  have hown := hplace hp hx hxp
  refine ⟨?_, h.inv.taken _ _ hown, ?_⟩
  · intro r vb y hr hy hyp heq
    have hown' := hplace hr hy hyp
    rw [heq] at hown'
    have hsame := h.inv.once _ _ _ hown' hown
    exact ⟨congrArg Prod.fst hsame, congrArg Prod.snd hsame⟩
  · have hok := h.inv.ownOk _ _ hown
    have hkend := h.kend
    unfold Kernel.FrameOk at hok
    omega

/-- Along any run of orderly steps, by any processes in any order. -/
theorem frames_owned {k k' : Kernel} (h : Owned k) (hrun : Relation.ReflTransGen OrderlyStep k k') :
    FramesOwned k' := by
  have howned : Owned k' := by
    induction hrun with
    | refl => exact h
    | tail _ hstep ih =>
      obtain ⟨p, op, hlive, hpid, hfit, hstep⟩ := hstep
      exact procStep_owned ih hlive hpid hfit hstep
  exact howned.framesOwned

/-! ### A process with a directory of its own -/

open Layout

/-- As `layout`, but the other directories have no pages. -/
def alone (g : Nat) (q s : List Nat) (m : Nat → UInt8) : Kernel :=
  { layout g q s m with pgdir := fun d => if d = DIR then Layout.pgdir g q s else ⟨[], fun _ => none⟩ }

/-- Only the pages of the process are present. -/
theorem Mem.present {g lim va : Nat} {v : MemView} {q s : List Nat} {m : Nat → UInt8} {x : Pte}
    (h : Mem g v lim q s m) (hx : v.walk va = some x) (hp : x.p = true) :
    PTE_ADDR va ∈ q ∧ v.walk (PTE_ADDR va) = some x := by
  rw [← MemView.walk_PTE_ADDR] at hx
  refine ⟨?_, hx⟩
  by_contra hq
  have habsent : ∀ {y : Pte}, v.walk (PTE_ADDR va) = some y → y.p = false → False := by
    intro y hy hyp
    rw [hx] at hy
    cases hy
    rw [hp] at hyp
    cases hyp
  by_cases hlim : PTE_ADDR va < lim
  · rcases List.mem_append.mp ((h.pages _).mpr ⟨PTE_ADDR_aligned va, hlim⟩) with hmem | hmem
    · exact hq hmem
    · exact habsent (h.swapped _ hmem) rfl
  · rcases h.unmapped _ (PTE_ADDR_aligned va) (Nat.le_of_not_lt hlim) with hnone | hzero
    · rw [hnone] at hx
      cases hx
    · exact habsent hzero rfl

theorem alone_owned {g lim : Nat} {q s : List Nat} {m : Nat → UInt8}
    (h : Mem g ((layout g q s m).view DIR) lim q s m) : Owned (alone g q s m) := by
  have hlive : ∀ p, Live (alone g q s m) p → p = SELF ∨ p = 0 ∨ p = 1 := by
    intro p hp
    by_contra hne
    push Not at hne
    apply hp.1
    show (if p = SELF then Layout.proc q s else if p = 0 then early 1 else if p = 1 then early 2
      else unused).state = .UNUSED
    rw [if_neg hne.1, if_neg hne.2.1, if_neg hne.2.2]
    rfl
  have hself : ((alone g q s m).proc SELF).pgdir = DIR := rfl
  have hinit : ((alone g q s m).proc 0).pgdir = 1 := rfl
  have hsh : ((alone g q s m).proc 1).pgdir = 2 := rfl
  -- the only pages are those of the process
  have hown : ∀ {i f}, frameOf (alone g q s m) i = some f → i.1 = SELF ∧
      ∃ x, ((layout g q s m).view DIR).walk (i.2 * PGSIZE) = some x ∧ x.p = true ∧ x.ppn = f ∧
        i.2 * PGSIZE ∈ q := by
    rintro ⟨p, n⟩ f hi
    obtain ⟨hp, x, hx, hxp, hxf⟩ := frameOf_eq_some.mp hi
    rcases hlive p hp with rfl | rfl | rfl
    · have hx' : ((layout g q s m).view DIR).walk (n * PGSIZE) = some x := hx
      have hmem := (h.present hx' hxp).1
      rw [PTE_ADDR_of_aligned (Nat.mul_mod_left n PGSIZE)] at hmem
      exact ⟨rfl, x, hx', hxp, hxf, hmem⟩
    · cases hx
    · cases hx
  refine ⟨Nat.zero_lt_succ _, ?_, ?_, ?_, ?_, ?_, ?_⟩
  · intro p r hp hr hdir
    rcases hlive p hp with rfl | rfl | rfl <;> rcases hlive r hr with rfl | rfl | rfl
    all_goals first
      | rfl
      | exact absurd hdir (by simp only [hself, hinit, hsh]; decide)
  · rintro ⟨p, a⟩ ⟨r, b⟩ f hp hr
    obtain ⟨rfl, x, hx, -, hxf, ha⟩ := hown hp
    obtain ⟨rfl, y, hy, -, hyf, hb⟩ := hown hr
    have hpage := h.inj _ ha _ hb x y hx hy (hxf.trans hyf.symm)
    exact congrArg (Prod.mk SELF) (Nat.eq_of_mul_eq_mul_right (by decide) hpage)
  · intro i f hi
    obtain ⟨-, x, hx, -, rfl, ha⟩ := hown hi
    exact (h.resident_of_walk ha hx).taken
  · intro i f hi
    obtain ⟨-, x, hx, -, rfl, ha⟩ := hown hi
    exact (h.resident_of_walk ha hx).frameOk
  · exact h.free
  · exact h.freeOk

/-! ### Runs of that process -/

/-- The kernel after the process in slot `p` has taken some steps. -/
def runSelf (p : ProcId) : List UserOp → Kernel → Option Kernel
  | [], k => some k
  | op :: ops, k =>
    if Live k p ∧ 2 < (k.proc p).pid then
      match procStep p op k with
      | .ok k => runSelf p ops k
      | .error _ => none
    else none

theorem of_runSelf {p : ProcId} {ops : List UserOp} {k k' : Kernel} (h : runSelf p ops k = some k') :
    Relation.ReflTransGen Step k k' := by
  induction ops generalizing k with
  | nil =>
    cases h
    exact .refl
  | cons op ops ih =>
    unfold runSelf at h
    split at h
    next hp =>
      split at h
      next k1 hk1 => exact (Relation.ReflTransGen.single ⟨p, op, hp.1, hp.2, hk1⟩).trans (ih h)
      · cases h
    · cases h

theorem procStep_of_runSelf {p : ProcId} {op : UserOp} {k k' : Kernel} (h : runSelf p [op] k = some k') :
    procStep p op k = .ok k' := by
  unfold runSelf at h
  split at h
  · split at h
    next k1 hk1 =>
      rw [hk1]
      exact congrArg Except.ok (Option.some.inj h)
    · cases h
  · cases h

/-- Fifteen pages in memory and one in the swap file. -/
def sixteenAlone : Kernel := alone PGSIZE fifteen [15 * PGSIZE] fun _ => 0

/-- The process has read the page in the swap file. -/
def pageBack : Kernel := (runSelf SELF [.load (15 * PGSIZE)] sixteenAlone).get (by decide +kernel)

theorem frames_owned_pageBack : FramesOwned pageBack ∧ Present pageBack (15 * PGSIZE) := by
  have hstep : procStep SELF (.load (15 * PGSIZE)) sixteenAlone = .ok pageBack :=
    procStep_of_runSelf (Option.some_get _).symm
  refine ⟨frames_owned (alone_owned sixteenPages_paged.mem)
    (.single ⟨SELF, .load (15 * PGSIZE), by decide, by decide, ?_, hstep⟩), ?_⟩
  · intro _ _ _
    exact ⟨⟨⟨FRAMES + 1, true, true, false, false⟩, by decide +kernel, rfl⟩, by decide +kernel⟩
  · exact ⟨⟨FRAMES + 1, true, true, true, false⟩, by decide +kernel, rfl⟩

/-! ### Frame 0 -/

/-- A small process shrinks and grows again, so that two of its addresses
    are twice in the list, and reads two pages that were evicted. -/
def shrunk : List UserOp :=
  [.sbrk (2 * PGSIZE), .sbrk (-2 * PGSIZE), .sbrk (12 * PGSIZE), .load 0, .load PGSIZE]

def threeAlone : Kernel := alone PGSIZE [0, PGSIZE, 2 * PGSIZE] [] fun _ => 0

def frameZero : Kernel := (runSelf SELF shrunk threeAlone).get (by decide +kernel)

/-- The second fault took an address from the list whose page was in the
    swap file already: page `1` is mapped to frame `0`. -/
theorem frame_zero_mapped : Owned threeAlone ∧ Relation.ReflTransGen Step threeAlone frameZero ∧
    frameZero.walkpgdir (frameZero.proc SELF).pgdir PGSIZE = some ⟨0, true, true, true, false⟩ ∧
    ¬ FramesOwned frameZero := by
  have hmapped : frameZero.walkpgdir (frameZero.proc SELF).pgdir PGSIZE =
      some ⟨0, true, true, true, false⟩ := by decide +kernel
  refine ⟨alone_owned threePages_paged.mem, of_runSelf (Option.some_get _).symm, hmapped, ?_⟩
  intro howned
  exact (howned SELF PGSIZE _ (by decide +kernel) hmapped rfl).2.2 rfl

end Paging
