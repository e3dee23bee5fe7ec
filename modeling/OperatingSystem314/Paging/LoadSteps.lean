import Mathlib.Logic.Relation
import OperatingSystem314.Paging.Dirs

/-! # The steps of loading

    Whatever `exec` does between the reset of the metadata and its end is a
    sequence of `LoadStep`s: it maps pages in the new directory `d`, evicts
    pages of the process, takes page faults, and writes to frames.  What
    each of these keeps, loading keeps. -/

namespace Paging

open Relation (ReflTransGen)

inductive LoadStep (d : Nat) : Kernel → Kernel → Prop where
  /-- room is made -/
  | evict {k k' : Kernel} (h : swapPageOut k = .ok k') : LoadStep d k k'
  /-- a page is mapped to the first free frame -/
  | map {k k' : Kernel} {f a : Nat} {rest : List Nat} {r : Int} (hfree : k.freelist = f :: rest)
      (h : mappages (({ k with freelist := rest } : Kernel).setFrame f fun _ => 0) d a
        ⟨f, true, true, true, false⟩ = .ok (r, k')) (hr : ¬ r < 0) : LoadStep d k k'
  /-- there is no page for the page table: everything is undone -/
  | unmap {k k1 k2 k' : Kernel} {f a oldsz newsz n : Nat} {rest : List Nat} {r : Int}
      (hfree : k.freelist = f :: rest)
      (h : mappages (({ k with freelist := rest } : Kernel).setFrame f fun _ => 0) d a
        ⟨f, true, true, true, false⟩ = .ok (r, k1)) (hr : r < 0)
      (hdealloc : deallocuvm k1 d newsz oldsz = .ok (n, k2)) (hkfree : kfree k2 f = .ok k') : LoadStep d k k'
  | dealloc {k k' : Kernel} {oldsz newsz n : Nat} (h : deallocuvm k d newsz oldsz = .ok (n, k')) :
      LoadStep d k k'
  | enqueue {k k' : Kernel} {a : Nat} (h : enqueueFIFO k a = .ok k') : LoadStep d k k'
  /-- the kernel touches a page of the process -/
  | fault {k k' : Kernel} {va : Nat} {e : FaultEnd} (h : trapPgflt false k va = .ok (e, k')) : LoadStep d k k'
  | write (k : Kernel) (f : Nat) (bytes : Nat → UInt8) : LoadStep d k (k.setFrame f bytes)
  | guardPage {k k' : Kernel} {va : Nat} (h : clearpteu k d va = .ok k') : LoadStep d k k'
  | files (k : Kernel) (fs : Fs) : LoadStep d k { k with fs }

abbrev Loads (d : Nat) : Kernel → Kernel → Prop := ReflTransGen (LoadStep d)

/-- The steps that leave the file system to the swapping. -/
inductive QuietStep (d : Nat) : Kernel → Kernel → Prop where
  | evict {k k' : Kernel} (h : swapPageOut k = .ok k') : QuietStep d k k'
  | map {k k' : Kernel} {f a : Nat} {rest : List Nat} {r : Int} (hfree : k.freelist = f :: rest)
      (h : mappages (({ k with freelist := rest } : Kernel).setFrame f fun _ => 0) d a
        ⟨f, true, true, true, false⟩ = .ok (r, k')) (hr : ¬ r < 0) : QuietStep d k k'
  | unmap {k k1 k2 k' : Kernel} {f a oldsz newsz n : Nat} {rest : List Nat} {r : Int}
      (hfree : k.freelist = f :: rest)
      (h : mappages (({ k with freelist := rest } : Kernel).setFrame f fun _ => 0) d a
        ⟨f, true, true, true, false⟩ = .ok (r, k1)) (hr : r < 0)
      (hdealloc : deallocuvm k1 d newsz oldsz = .ok (n, k2)) (hkfree : kfree k2 f = .ok k') : QuietStep d k k'
  | dealloc {k k' : Kernel} {oldsz newsz n : Nat} (h : deallocuvm k d newsz oldsz = .ok (n, k')) :
      QuietStep d k k'
  | enqueue {k k' : Kernel} {a : Nat} (h : enqueueFIFO k a = .ok k') : QuietStep d k k'
  | fault {k k' : Kernel} {va : Nat} {e : FaultEnd} (h : trapPgflt false k va = .ok (e, k')) : QuietStep d k k'
  | write (k : Kernel) (f : Nat) (bytes : Nat → UInt8) : QuietStep d k (k.setFrame f bytes)
  | guardPage {k k' : Kernel} {va : Nat} (h : clearpteu k d va = .ok k') : QuietStep d k k'

abbrev Quiet (d : Nat) : Kernel → Kernel → Prop := ReflTransGen (QuietStep d)

theorem QuietStep.load {d : Nat} {k k' : Kernel} (h : QuietStep d k k') : LoadStep d k k' := by
  cases h with
  | evict h => exact .evict h
  | map hfree h hr => exact .map hfree h hr
  | unmap hfree h hr hdealloc hkfree => exact .unmap hfree h hr hdealloc hkfree
  | dealloc h => exact .dealloc h
  | enqueue h => exact .enqueue h
  | fault h => exact .fault h
  | write f bytes => exact .write k f bytes
  | guardPage h => exact .guardPage h

theorem Quiet.loads {d : Nat} {k k' : Kernel} (h : Quiet d k k') : Loads d k k' :=
  ReflTransGen.mono (fun _ _ hstep => QuietStep.load hstep) _ _ h

/-- What holds along the way of what each step keeps. -/
theorem Loads.keep {d : Nat} {P : Kernel → Prop} (hstep : ∀ {k k'}, LoadStep d k k' → P k → P k')
    {k k' : Kernel} (h : Loads d k k') (hP : P k) : P k' := by
  induction h with
  | refl => exact hP
  | tail _ hlast ih => exact hstep hlast ih

variable {d : Nat} {k k' : Kernel}

/-! ### Allocation -/

theorem makeRoom_quiet (h : makeRoom k = .ok k') : Quiet d k k' := by
  unfold makeRoom at h
  split at h
  · rw [bind_eq_ok] at h
    obtain ⟨-, -, hout⟩ := h
    exact .single (.evict hout)
  · cases h
    exact .refl

theorem allocLoop_quiet {oldsz newsz n : Nat} {pages : List Nat}
    (h : allocLoop d oldsz newsz pages k = .ok (n, k')) : Quiet d k k' := by
  induction pages generalizing k with
  | nil =>
    cases h
    exact .refl
  | cons a rest ih =>
    simp only [allocLoop, bind_eq_ok] at h
    obtain ⟨k1, hroom, h⟩ := h
    have h1 : Quiet d k k1 := makeRoom_quiet hroom
    unfold kalloc at h
    cases hfree : k1.freelist with
    | nil =>
      simp only [hfree, bind_eq_ok] at h
      obtain ⟨-, -, ⟨m, k3⟩, hdealloc, h⟩ := h
      cases h
      exact h1.tail (.dealloc hdealloc)
    | cons f free =>
      simp only [hfree, bind_eq_ok] at h
      obtain ⟨⟨r, k3⟩, hmap, h⟩ := h
      split at h
      next hr =>
        simp only [bind_eq_ok] at h
        obtain ⟨-, -, ⟨m, k4⟩, hdealloc, k5, hkfree, h⟩ := h
        cases h
        exact h1.tail (.unmap hfree hmap hr hdealloc hkfree)
      next hr =>
        rw [bind_eq_ok] at h
        obtain ⟨k4, henq, h⟩ := h
        have h4 := (h1.tail (.map hfree hmap hr)).tail (.enqueue henq)
        split at h
        · rw [bind_eq_ok] at h
          obtain ⟨-, -, h⟩ := h
          exact h4.trans (ih h)
        · exact h4.trans (ih h)

theorem allocuvm_quiet {oldsz newsz n : Nat} (h : allocuvm k d oldsz newsz = .ok (n, k')) : Quiet d k k' := by
  unfold allocuvm at h
  split at h
  · cases h
    exact .refl
  split at h
  · cases h
    exact .refl
  · exact allocLoop_quiet h

/-! ### Segments -/

theorem loadPages_quiet {ip vaddr offset sz : Nat} {pages : List Nat} {r : Int}
    (h : loadPages d ip vaddr offset sz pages k = .ok (r, k')) : Quiet d k k' := by
  induction pages generalizing k with
  | nil =>
    cases h
    exact .refl
  | cons i rest ih =>
    unfold loadPages at h
    split at h
    · cases h
    · simp only [] at h
      split at h
      · cases h
        exact .single (.write k _ _)
      · exact (ReflTransGen.single (.write k _ _)).trans (ih h)

theorem loadSegment_quiet {ip off sz : Nat} {r : Option Nat} (h : loadSegment d ip off sz k = .ok (r, k')) :
    Quiet d k k' := by
  unfold loadSegment at h
  simp only [] at h
  split at h
  · cases h
    exact .refl
  split at h
  · cases h
    exact .refl
  split at h
  · cases h
    exact .refl
  split at h
  · cases h
    exact .refl
  rw [bind_eq_ok] at h
  obtain ⟨⟨sz', k1⟩, halloc, h⟩ := h
  have h1 := allocuvm_quiet halloc
  simp only [] at h
  split at h
  · cases h
    exact h1
  split at h
  · cases h
    exact h1
  rw [bind_eq_ok] at h
  obtain ⟨⟨r1, k2⟩, hload, h⟩ := h
  have h2 : Quiet d k k2 := by
    unfold loaduvm at hload
    split at hload
    · cases hload
    · exact h1.trans (loadPages_quiet hload)
  simp only [] at h
  split at h
  · cases h
    exact h2
  · cases h
    exact h2

theorem loadSegments_quiet {ip n off sz : Nat} {r : Option Nat}
    (h : loadSegments d ip n off sz k = .ok (r, k')) : Quiet d k k' := by
  induction n generalizing off sz k with
  | zero =>
    cases h
    exact .refl
  | succ n ih =>
    unfold loadSegments at h
    rw [bind_eq_ok] at h
    obtain ⟨⟨r1, k1⟩, hseg, h⟩ := h
    have h1 := loadSegment_quiet hseg
    simp only [] at h
    split at h
    · cases h
      exact h1
    · exact h1.trans (ih h)

/-! ### The stack -/

theorem touch_quiet {store : Bool} {fuel va : Nat} {f : Option Nat}
    (h : touch false store fuel k va = .ok (f, k')) : Quiet d k k' := by
  induction fuel generalizing k with
  | zero => cases h
  | succ fuel ih =>
    unfold touch at h
    simp only [] at h
    split at h
    · cases h
      exact .refl
    · rw [bind_eq_ok] at h
      obtain ⟨⟨e, k1⟩, htrap, h⟩ := h
      simp only [] at h
      split at h
      · exact (ReflTransGen.single (.fault htrap)).trans (ih h)
      · cases h
        exact .single (.fault htrap)

theorem kernelLoad_quiet {va : Nat} {b : UInt8} (h : kernelLoad k va = .ok (b, k')) : Quiet d k k' := by
  unfold kernelLoad at h
  simp only [bind_eq_ok] at h
  obtain ⟨⟨f, k1⟩, htouch, f', -, h⟩ := h
  cases h
  exact touch_quiet htouch

theorem kernelString_quiet {fuel va : Nat} {bs : List UInt8} (h : kernelString fuel k va = .ok (bs, k')) :
    Quiet d k k' := by
  induction fuel generalizing va bs k with
  | zero => cases h
  | succ fuel ih =>
    unfold kernelString at h
    rw [bind_eq_ok] at h
    obtain ⟨⟨b, k1⟩, hload, h⟩ := h
    have h1 : Quiet d k k1 := kernelLoad_quiet hload
    simp only [] at h
    split at h
    · cases h
      exact h1
    · rw [bind_eq_ok] at h
      obtain ⟨⟨bs', k2⟩, hrest, h⟩ := h
      cases h
      exact h1.trans (ih hrest)

theorem strlen_quiet {va n : Nat} (h : strlen k va = .ok (n, k')) : Quiet d k k' := by
  unfold strlen at h
  rw [bind_eq_ok] at h
  obtain ⟨⟨bs, k1⟩, hstr, h⟩ := h
  cases h
  exact kernelString_quiet hstr

theorem copyout_quiet {va len : Nat} {src : Nat → Kernel → Result (UInt8 × Kernel)} {r : Int}
    (hsrc : ∀ {i k b k'}, src i k = .ok (b, k') → Quiet d k k') (h : copyout k d va src len = .ok (r, k')) :
    Quiet d k k' := by
  refine copyoutLoop_ok (R := Quiet d) (fun _ => .refl) .trans ?_ hsrc h
  intro k f bytes
  exact .single (.write k f bytes)

theorem pushArgs_quiet {argv ustack : List Nat} {sp : Nat} {r : Option (Nat × List Nat)}
    (h : pushArgs d argv sp ustack k = .ok (r, k')) : Quiet d k k' := by
  induction argv generalizing sp ustack k with
  | nil =>
    cases h
    exact .refl
  | cons arg rest ih =>
    rw [pushArgs] at h
    split at h
    · cases h
      exact .refl
    · rw [bind_eq_ok] at h
      obtain ⟨⟨len, k1⟩, hlen, h⟩ := h
      rw [bind_eq_ok] at h
      obtain ⟨⟨len', k2⟩, hlen', h⟩ := h
      rw [bind_eq_ok] at h
      obtain ⟨⟨r1, k3⟩, hcopy, h⟩ := h
      have h2 : Quiet d k k2 := (strlen_quiet hlen).trans (strlen_quiet hlen')
      have h3 : Quiet d k k3 := h2.trans (copyout_quiet (fun hload => kernelLoad_quiet hload) hcopy)
      dsimp only at h
      split at h
      · cases h
        exact h3
      · exact h3.trans (ih h)

theorem execStack_quiet {sz : Nat} {argv : List Nat} {r : Option (Nat × Nat)}
    (h : execStack d sz argv k = .ok (r, k')) : Quiet d k k' := by
  unfold execStack at h
  simp only [] at h
  rw [bind_eq_ok] at h
  obtain ⟨⟨sz', k1⟩, halloc, h⟩ := h
  have h1 := allocuvm_quiet halloc
  split at h
  · cases h
    exact h1
  rw [bind_eq_ok] at h
  obtain ⟨k2, hclear, h⟩ := h
  have h2 := h1.tail (.guardPage hclear)
  rw [bind_eq_ok] at h
  obtain ⟨⟨r1, k3⟩, hpush, h⟩ := h
  have h3 := h2.trans (pushArgs_quiet hpush)
  cases r1 with
  | none =>
    cases h
    exact h3
  | some pushed =>
    obtain ⟨sp, args⟩ := pushed
    simp only [] at h
    rw [bind_eq_ok] at h
    obtain ⟨⟨r2, k4⟩, hcopy, h⟩ := h
    have hwords : ∀ {i k b k'}, (fun i k => (.ok (wordByte (ustackWords sp args) i, k) : Result (UInt8 × Kernel)))
        i k = .ok (b, k') → Quiet d k k' := by
      intro i k b k' hread
      cases hread
      exact .refl
    have h4 := h3.trans (copyout_quiet hwords hcopy)
    simp only [] at h
    split at h
    · cases h
      exact h4
    · cases h
      exact h4

/-! ### The stages of `exec` -/

theorem execInode_loads {path : Nat} {r : Option Nat} (h : execInode k path = .ok (r, k')) : Loads d k k' := by
  unfold execInode at h
  rw [bind_eq_ok] at h
  obtain ⟨⟨bs, k1⟩, hstr, h⟩ := h
  have h1 : Loads d k k1 := (kernelString_quiet hstr).loads
  rw [bind_eq_ok] at h
  obtain ⟨⟨q, fs⟩, -, h⟩ := h
  cases q with
  | none =>
    cases h
    exact h1.tail (.files k1 fs)
  | some ip =>
    simp only [bind_eq_ok] at h
    obtain ⟨fs', -, h⟩ := h
    cases h
    exact h1.tail (.files k1 fs')

theorem execBad_none {ip : Option Nat} (h : execBad k none ip = .ok k') : k' = { k with fs := k'.fs } := by
  simp only [execBad, bind_eq_ok] at h
  obtain ⟨k1, hk1, fs, -, h⟩ := h
  cases hk1
  cases h
  rfl

theorem execBad_some {ip : Option Nat} (h : execBad k (some d) ip = .ok k') :
    ∃ k1, freevm k d = .ok k1 ∧ k' = { k1 with fs := k'.fs } := by
  simp only [execBad, bind_eq_ok] at h
  obtain ⟨k1, hfree, fs, -, h⟩ := h
  cases h
  exact ⟨k1, hfree, rfl⟩

/-- A load that fails frees the new directory. -/
theorem execLoad_none {ip : Nat} {argv : List Nat} (h : execLoad k d ip argv = .ok (none, k')) :
    ∃ k1 k2, Loads d (k.modCur Proc.resetPaging) k1 ∧ freevm k1 d = .ok k2 ∧ k' = { k2 with fs := k'.fs } := by
  unfold execLoad at h
  simp only [] at h
  rw [bind_eq_ok] at h
  obtain ⟨⟨r1, k1⟩, hsegs, h⟩ := h
  have h1 := (loadSegments_quiet hsegs).loads
  cases r1 with
  | none =>
    simp only [bind_eq_ok] at h
    obtain ⟨k2, hbad, h⟩ := h
    cases h
    obtain ⟨k3, hfree, heq⟩ := execBad_some hbad
    exact ⟨k1, k3, h1, hfree, heq⟩
  | some sz =>
    dsimp only at h
    rw [bind_eq_ok] at h
    obtain ⟨fs, -, h⟩ := h
    rw [bind_eq_ok] at h
    obtain ⟨⟨r2, k2⟩, hstack, h⟩ := h
    have h2 := (h1.tail (.files k1 fs)).trans (execStack_quiet hstack).loads
    cases r2 with
    | none =>
      simp only [bind_eq_ok] at h
      obtain ⟨k3, hbad, h⟩ := h
      cases h
      obtain ⟨k4, hfree, heq⟩ := execBad_some hbad
      exact ⟨k2, k4, h2, hfree, heq⟩
    | some img => cases h

/-- A load that succeeds: the segments, and then the stack. -/
theorem execLoad_some {ip : Nat} {argv : List Nat} {img : Image}
    (h : execLoad k d ip argv = .ok (some img, k')) :
    img.pgdir = d ∧ img.entry = (elfhdr (k.fs.bytes ip 0)).entry ∧ ∃ sz k1 fs,
      loadSegments d ip (elfhdr (k.fs.bytes ip 0)).phnum (elfhdr (k.fs.bytes ip 0)).phoff 0
        (k.modCur Proc.resetPaging) = .ok (some sz, k1) ∧
      k1.fs.iunlockput ip = .ok fs ∧
      execStack d sz argv ({ k1 with fs } : Kernel) = .ok (some (img.sz, img.sp), k') := by
  unfold execLoad at h
  simp only [] at h
  rw [bind_eq_ok] at h
  obtain ⟨⟨r1, k1⟩, hsegs, h⟩ := h
  cases r1 with
  | none =>
    simp only [bind_eq_ok] at h
    obtain ⟨k2, -, h⟩ := h
    cases h
  | some sz =>
    dsimp only at h
    rw [bind_eq_ok] at h
    obtain ⟨fs, hput, h⟩ := h
    rw [bind_eq_ok] at h
    obtain ⟨⟨r2, k2⟩, hstack, h⟩ := h
    cases r2 with
    | none =>
      simp only [bind_eq_ok] at h
      obtain ⟨k3, -, h⟩ := h
      cases h
    | some at2 =>
      obtain ⟨sz', sp⟩ := at2
      cases h
      exact ⟨rfl, rfl, sz, k1, fs, hsegs, hput, hstack⟩

theorem execLoad_loads {ip : Nat} {argv : List Nat} {img : Image}
    (h : execLoad k d ip argv = .ok (some img, k')) : Loads d (k.modCur Proc.resetPaging) k' := by
  obtain ⟨-, -, sz, k1, fs, hsegs, -, hstack⟩ := execLoad_some h
  exact ((loadSegments_quiet hsegs).loads.tail (.files k1 fs)).trans (execStack_quiet hstack).loads

/-- `exec` up to the commit either fails before there is a new directory, and
    before the metadata are reset, or it loads. -/
theorem execImage_ok {path : Nat} {argv : List Nat} {r : Option Image}
    (h : execImage k path argv = .ok (r, k')) :
    (∃ q k1 k2, execInode k path = .ok (q, k1) ∧
      ((q = none ∧ k2 = k1) ∨ ∃ ip, q = some ip ∧ ((isElf k1.fs ip = false ∧ k2 = k1) ∨
        isElf k1.fs ip = true ∧ setupkvm k1 = .ok (none, k2))) ∧
      r = none ∧ k' = { k2 with fs := k'.fs }) ∨
    ∃ ip k1 d k2, execInode k path = .ok (some ip, k1) ∧ isElf k1.fs ip = true ∧
      setupkvm k1 = .ok (some d, k2) ∧ execLoad k2 d ip argv = .ok (r, k') := by
  unfold execImage at h
  rw [bind_eq_ok] at h
  obtain ⟨⟨q, k1⟩, hinode, h⟩ := h
  cases q with
  | none =>
    simp only [bind_eq_ok] at h
    obtain ⟨-, -, h⟩ := h
    obtain ⟨rfl, rfl⟩ := Prod.mk.inj (Except.ok.inj h)
    exact .inl ⟨none, _, _, hinode, .inl ⟨rfl, rfl⟩, rfl, rfl⟩
  | some ip =>
    dsimp only at h
    split at h
    next helf =>
      rw [bind_eq_ok] at h
      obtain ⟨k2, hbad, h⟩ := h
      cases h
      exact .inl ⟨some ip, k1, k1, hinode, .inr ⟨ip, rfl, .inl ⟨helf, rfl⟩⟩, rfl, execBad_none hbad⟩
    next helf =>
      have helf : isElf k1.fs ip = true := by simpa using helf
      rw [bind_eq_ok] at h
      obtain ⟨⟨d, k2⟩, hsetup, h⟩ := h
      cases d with
      | none =>
        simp only [bind_eq_ok] at h
        obtain ⟨k3, hbad, h⟩ := h
        cases h
        exact .inl ⟨some ip, k1, k2, hinode, .inr ⟨ip, rfl, .inr ⟨helf, hsetup⟩⟩, rfl, execBad_none hbad⟩
      | some d => exact .inr ⟨ip, k1, d, k2, hinode, helf, hsetup, h⟩

/-- The old directory is freed once the process has the new one. -/
theorem execCommit_ok {path : Nat} {img : Image} (h : execCommit k img path = .ok k') :
    ∃ k1, Quiet d k k1 ∧ freevm (k1.modCur fun x =>
      { x with pgdir := img.pgdir, sz := img.sz, tf := { x.tf with eip := img.entry, esp := img.sp } })
        k1.cur.pgdir = .ok k' := by
  unfold execCommit at h
  rw [bind_eq_ok] at h
  obtain ⟨⟨bs, k1⟩, hstr, h⟩ := h
  exact ⟨k1, kernelString_quiet hstr, h⟩

end Paging
