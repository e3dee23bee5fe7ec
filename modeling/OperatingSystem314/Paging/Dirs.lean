import OperatingSystem314.Paging.Child
import OperatingSystem314.Paging.Exec

/-! # Which directories a routine writes to

    As in `Frame`, for whatever kernel the routines start from.  `Beside d`
    is for the routines that work in directory `d` without evicting
    anything, as those of `exec` do for small programs; `OnlyDirs ds` is
    for all of them. -/

namespace Paging

/-! ### Without eviction -/

/-- Only memory, the entries of directory `d` and the lists change. -/
structure Beside (d : Nat) (k k' : Kernel) : Prop where
  rest : k' = { k with
    proc := k'.proc, frame := k'.frame, freelist := k'.freelist, pgdir := k'.pgdir }
  procs : ∀ p, (k.proc p).SameButList (k'.proc p)
  pgdirs : ∀ e, e ≠ d → k'.pgdir e = k.pgdir e

namespace Beside

variable {d : Nat} {k k' k'' : Kernel}

theorem trans (h : Beside d k k') (h' : Beside d k' k'') : Beside d k k'' := by
  refine ⟨?_, fun p => (h.procs p).trans (h'.procs p), fun e he => ?_⟩
  · rw [h'.rest, h.rest]
  · rw [h'.pgdirs e he, h.pgdirs e he]

theorem of_lists (h : OnlyLists k k') : Beside d k k' := by
  refine ⟨?_, h.procs, fun e _ => ?_⟩
  · rw [h.rest]
  · rw [h.rest]

theorem refl (k : Kernel) : Beside d k k := .of_lists (.refl k)

theorem of_mem (h : OnlyMem k k') (hpgdirs : ∀ e, e ≠ d → k'.pgdir e = k.pgdir e) : Beside d k k' := by
  refine ⟨?_, fun p => ?_, hpgdirs⟩
  · obtain ⟨_, _, _, rfl⟩ := h
    rfl
  · rw [h.proc]
    exact .refl _

theorem curproc (h : Beside d k k') : k'.curproc = k.curproc := by rw [h.rest]

theorem locks (h : Beside d k k') : k'.locks = k.locks := by rw [h.rest]

theorem fs (h : Beside d k k') : k'.fs = k.fs := by rw [h.rest]

theorem cur (h : Beside d k k') : k.cur.SameButList k'.cur := by
  unfold Kernel.cur
  rw [h.curproc]
  exact h.procs _

theorem setPte (k : Kernel) (va : Nat) (x : Pte) : Beside d k (k.setPte d va x) := by
  apply of_mem (.setPte k d va x)
  intro e he
  simp [Kernel.setPte, he]

theorem setFrame (k : Kernel) (f : Nat) (bytes : Nat → UInt8) : Beside d k (k.setFrame f bytes) :=
  of_mem (.setFrame k f bytes) fun _ _ => rfl

end Beside

theorem kfree_beside {d f : Nat} {k k' : Kernel} (h : kfree k f = .ok k') : Beside d k k' := by
  apply Beside.of_mem (kfree_mem h)
  intro e _
  rw [kfree_ok h]

theorem kalloc_beside {d : Nat} {k k' : Kernel} {f : Option Nat} (h : kalloc k = (f, k')) :
    Beside d k k' := by
  apply Beside.of_mem (kalloc_mem h)
  intro e _
  unfold kalloc at h
  split at h
  · cases h
    rfl
  · cases h
    rfl

theorem walkpgdirAlloc_beside {d va : Nat} {k k' : Kernel} {b : Bool}
    (h : walkpgdirAlloc k d va = (b, k')) : Beside d k k' := by
  unfold walkpgdirAlloc at h
  split at h
  · cases h
    exact .refl k
  · split at h
    next k1 hk1 =>
      cases h
      exact kalloc_beside hk1
    next t k1 hk1 =>
      cases h
      apply (kalloc_beside hk1).trans
      refine .of_mem ⟨_, _, _, rfl⟩ fun e he => ?_
      exact Function.update_of_ne he _ _

theorem mappages_beside {d va : Nat} {k k' : Kernel} {x : Pte} {r : Int}
    (h : mappages k d va x = .ok (r, k')) : Beside d k k' := by
  unfold mappages at h
  split at h
  next k1 hk1 =>
    cases h
    exact walkpgdirAlloc_beside hk1
  next k1 hk1 =>
    rw [bind_eq_ok] at h
    obtain ⟨pte, -, h⟩ := h
    split at h
    · cases h
    · cases h
      exact (walkpgdirAlloc_beside hk1).trans (.setPte k1 va _)

theorem deallocPage_beside {d a : Nat} {k k' : Kernel} (h : deallocPage d k a = .ok k') : Beside d k k' := by
  unfold deallocPage at h
  split at h
  · cases h
    exact .refl k
  · split at h
    · split at h
      · cases h
      · rw [bind_eq_ok] at h
        obtain ⟨k1, hfree, h⟩ := h
        cases h
        exact (kfree_beside hfree).trans (.setPte k1 a _)
    · cases h
      exact .refl k

theorem deallocuvm_beside {d oldsz newsz n : Nat} {k k' : Kernel}
    (h : deallocuvm k d oldsz newsz = .ok (n, k')) : Beside d k k' := by
  unfold deallocuvm at h
  split at h
  · cases h
    exact .refl k
  · rw [bind_eq_ok] at h
    obtain ⟨k1, hfold, h⟩ := h
    cases h
    exact foldlM_ok Beside.refl Beside.trans deallocPage_beside hfold

theorem freevm_beside {d : Nat} {k k' : Kernel} (h : freevm k d = .ok k') : Beside d k k' := by
  unfold freevm at h
  split at h
  · cases h
  · simp only [bind_eq_ok] at h
    obtain ⟨⟨n, k1⟩, hdealloc, k2, hfold, h⟩ := h
    exact ((deallocuvm_beside hdealloc).trans
      (foldlM_ok Beside.refl Beside.trans kfree_beside hfold)).trans (kfree_beside h)

/-- Only the page that `setupkvm` takes for the directory, the first of the
    free list, becomes one. -/
theorem setupkvm_beside {k k' : Kernel} {r : Option Nat} (h : setupkvm k = .ok (r, k')) :
    (k.freelist = [] ∧ k' = k ∧ r = none) ∨
      ∃ d rest, k.freelist = d :: rest ∧ Beside d k k' ∧ (r = none ∨ r = some d) := by
  unfold setupkvm kalloc at h
  cases hfree : k.freelist with
  | nil =>
    rw [hfree] at h
    cases h
    exact .inl ⟨rfl, rfl, rfl⟩
  | cons d rest =>
    rw [hfree] at h
    simp only [] at h
    refine .inr ⟨d, rest, rfl, ?_⟩
    have hnew : ∀ free pd, Beside d k { k with freelist := free, pgdir := Function.update k.pgdir d pd } :=
      fun free pd => .of_mem ⟨_, _, _, rfl⟩ fun e he => Function.update_of_ne he _ _
    split at h
    · cases h
      exact ⟨hnew _ _, .inr rfl⟩
    · rw [bind_eq_ok] at h
      obtain ⟨k2, hfreevm, h⟩ := h
      cases h
      exact ⟨(hnew _ _).trans (freevm_beside hfreevm), .inl rfl⟩

theorem loadPages_beside {d ip vaddr offset sz : Nat} {pages : List Nat} {k k' : Kernel} {r : Int}
    (h : loadPages d ip vaddr offset sz pages k = .ok (r, k')) : Beside d k k' := by
  induction pages generalizing k with
  | nil =>
    cases h
    exact .refl _
  | cons i rest ih =>
    unfold loadPages at h
    split at h
    · cases h
    next pte hpte =>
      simp only [] at h
      split at h
      · cases h
        exact .setFrame k _ _
      · exact (Beside.setFrame k _ _).trans (ih h)

theorem loaduvm_beside {d vaddr ip offset sz : Nat} {k k' : Kernel} {r : Int}
    (h : loaduvm k d vaddr ip offset sz = .ok (r, k')) : Beside d k k' := by
  unfold loaduvm at h
  split at h
  · cases h
  · exact loadPages_beside h

theorem clearpteu_beside {d va : Nat} {k k' : Kernel} (h : clearpteu k d va = .ok k') : Beside d k k' := by
  unfold clearpteu at h
  split at h
  · cases h
  · cases h
    exact .setPte k va _

/-! ### `copyout` -/

/-- What each byte that is read keeps, `copyout` keeps, if writing to
    frames keeps it. -/
theorem copyBytes_ok {R : Kernel → Kernel → Prop} (hrefl : ∀ k, R k k)
    (htrans : ∀ {k k' k''}, R k k' → R k' k'' → R k k'') (hframe : ∀ k f bytes, R k (k.setFrame f bytes))
    {src : Nat → Kernel → Result (UInt8 × Kernel)}
    (hsrc : ∀ {i k b k'}, src i k = .ok (b, k') → R k k') {f n off i : Nat} {k k' : Kernel}
    (h : copyBytes src f n off i k = .ok k') : R k k' := by
  induction n generalizing off i k with
  | zero =>
    cases h
    exact hrefl _
  | succ n ih =>
    simp only [copyBytes, bind_eq_ok] at h
    obtain ⟨⟨b, k1⟩, hread, h⟩ := h
    exact htrans (htrans (hsrc hread) (hframe _ _ _)) (ih h)

theorem copyoutLoop_ok {R : Kernel → Kernel → Prop} (hrefl : ∀ k, R k k)
    (htrans : ∀ {k k' k''}, R k k' → R k' k'' → R k k'') (hframe : ∀ k f bytes, R k (k.setFrame f bytes))
    {src : Nat → Kernel → Result (UInt8 × Kernel)}
    (hsrc : ∀ {i k b k'}, src i k = .ok (b, k') → R k k') {d fuel va i len : Nat} {k k' : Kernel} {r : Int}
    (h : copyoutLoop d src fuel va i len k = .ok (r, k')) : R k k' := by
  induction fuel generalizing va i len k with
  | zero =>
    cases h
    exact hrefl _
  | succ fuel ih =>
    unfold copyoutLoop at h
    split at h
    · cases h
      exact hrefl _
    · rw [bind_eq_ok] at h
      obtain ⟨f, -, h⟩ := h
      cases f with
      | none =>
        cases h
        exact hrefl _
      | some f =>
        simp only [bind_eq_ok] at h
        obtain ⟨k1, hcopy, h⟩ := h
        exact htrans (copyBytes_ok hrefl htrans hframe hsrc hcopy) (ih h)

/-! ### Eviction -/

/-- Memory, the file system and the entries of the directories `ds` may
    change, and the paging metadata. -/
structure OnlyDirs (ds : List Nat) (k k' : Kernel) : Prop where
  rest : k' = { k with
    proc := k'.proc, fs := k'.fs, frame := k'.frame, freelist := k'.freelist, pgdir := k'.pgdir }
  procs : ∀ p, (k.proc p).SameButPaging (k'.proc p)
  pgdirs : ∀ e, e ∉ ds → k'.pgdir e = k.pgdir e

namespace OnlyDirs

variable {ds ds' : List Nat} {k k' k'' : Kernel}

theorem trans (h : OnlyDirs ds k k') (h' : OnlyDirs ds k' k'') : OnlyDirs ds k k'' := by
  refine ⟨?_, fun p => (h.procs p).trans (h'.procs p), fun e he => ?_⟩
  · rw [h'.rest, h.rest]
  · rw [h'.pgdirs e he, h.pgdirs e he]

theorem mono (h : OnlyDirs ds k k') (hsub : ds ⊆ ds') : OnlyDirs ds' k k' :=
  ⟨h.rest, h.procs, fun e he => h.pgdirs e fun hmem => he (hsub hmem)⟩

theorem of_beside {d : Nat} (h : Beside d k k') (hd : d ∈ ds) : OnlyDirs ds k k' := by
  refine ⟨?_, fun p => .of_list (h.procs p), fun e he => ?_⟩
  · rw [h.rest]
  · apply h.pgdirs
    rintro rfl
    exact he hd

theorem of_swaps (h : OnlySwaps k k') (hd : k.cur.pgdir ∈ ds) : OnlyDirs ds k k' := by
  refine ⟨?_, h.procs, fun e he => ?_⟩
  · rw [h.rest]
  · apply h.pgdirs
    rintro rfl
    exact he hd

theorem refl (k : Kernel) : OnlyDirs ds k k :=
  ⟨rfl, fun _ => .of_list (.refl _), fun _ _ => rfl⟩

theorem of_fs (h : k' = { k with fs := k'.fs }) : OnlyDirs ds k k' := by
  rw [h]
  exact ⟨rfl, fun _ => .of_list (.refl _), fun _ _ => rfl⟩

theorem setFrame (k : Kernel) (f : Nat) (bytes : Nat → UInt8) : OnlyDirs ds k (k.setFrame f bytes) :=
  ⟨rfl, fun _ => .of_list (.refl _), fun _ _ => rfl⟩

theorem curproc (h : OnlyDirs ds k k') : k'.curproc = k.curproc := by rw [h.rest]

theorem locks (h : OnlyDirs ds k k') : k'.locks = k.locks := by rw [h.rest]

theorem cur (h : OnlyDirs ds k k') : k.cur.SameButPaging k'.cur := by
  unfold Kernel.cur
  rw [h.curproc]
  exact h.procs _

theorem pgdir (h : OnlyDirs ds k k') : k'.cur.pgdir = k.cur.pgdir := h.cur.pgdir

end OnlyDirs

theorem makeRoom_dirs {ds : List Nat} {k k' : Kernel} (hcur : k.cur.pgdir ∈ ds)
    (h : makeRoom k = .ok k') : OnlyDirs ds k k' := by
  unfold makeRoom at h
  split at h
  · rw [bind_eq_ok] at h
    obtain ⟨-, -, hout⟩ := h
    exact .of_swaps (swapPageOut_swaps hout) hcur
  · cases h
    exact .refl k

/-- `allocuvm` works in the directory it is given, and evicts from that of
    the current process. -/
theorem allocLoop_dirs {ds : List Nat} {d oldsz newsz n : Nat} {pages : List Nat} {k k' : Kernel}
    (hd : d ∈ ds) (hcur : k.cur.pgdir ∈ ds) (h : allocLoop d oldsz newsz pages k = .ok (n, k')) :
    OnlyDirs ds k k' := by
  induction pages generalizing k with
  | nil =>
    cases h
    exact .refl _
  | cons a rest ih =>
    simp only [allocLoop, bind_eq_ok] at h
    obtain ⟨k1, hroom, h⟩ := h
    have h1 := makeRoom_dirs hcur hroom
    split at h
    next k2 hk2 =>
      simp only [bind_eq_ok] at h
      obtain ⟨-, -, ⟨m, k3⟩, hdealloc, h⟩ := h
      cases h
      exact h1.trans (.of_beside ((kalloc_beside hk2).trans (deallocuvm_beside hdealloc)) hd)
    next mem k2 hk2 =>
      simp only [bind_eq_ok] at h
      obtain ⟨⟨r, k3⟩, hmap, h⟩ := h
      have h3 := ((kalloc_beside hk2).trans (.setFrame k2 mem fun _ => 0)).trans (mappages_beside hmap)
      split at h
      · simp only [bind_eq_ok] at h
        obtain ⟨-, -, ⟨m, k4⟩, hdealloc, k5, hfree, h⟩ := h
        cases h
        exact h1.trans (.of_beside ((h3.trans (deallocuvm_beside hdealloc)).trans (kfree_beside hfree)) hd)
      · rw [bind_eq_ok] at h
        obtain ⟨k4, henq, h⟩ := h
        have h4 : OnlyDirs ds k k4 :=
          h1.trans (.of_beside (h3.trans (.of_lists (enqueueFIFO_lists henq))) hd)
        have hcur4 : k4.cur.pgdir ∈ ds := by
          rw [h4.pgdir]
          exact hcur
        split at h
        · rw [bind_eq_ok] at h
          obtain ⟨-, -, h⟩ := h
          exact h4.trans (ih hcur4 h)
        · exact h4.trans (ih hcur4 h)

theorem allocuvm_dirs {ds : List Nat} {d oldsz newsz n : Nat} {k k' : Kernel} (hd : d ∈ ds)
    (hcur : k.cur.pgdir ∈ ds) (h : allocuvm k d oldsz newsz = .ok (n, k')) : OnlyDirs ds k k' := by
  unfold allocuvm at h
  split at h
  · cases h
    exact .refl k
  split at h
  · cases h
    exact .refl k
  · exact allocLoop_dirs hd hcur h

end Paging
