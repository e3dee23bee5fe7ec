import OperatingSystem314.Paging.Child

/-! # New and released directories

    `setupkvm` and `freevm` return whenever the free list and the
    directory name pages that `kfree` accepts. -/

namespace Paging

/-! ### The free list -/

/-- The free list: distinct pages above the kernel image. -/
structure FreeList (k : Kernel) : Prop where
  pos : 0 < k.kend
  frames : ∀ f ∈ k.freelist, k.FrameOk f
  nodup : k.freelist.Nodup

/-- What a page has to be for `kfree` does not change with memory. -/
theorem OnlyMem.frameOk {k k' : Kernel} {f : Nat} (h : OnlyMem k k') : k'.FrameOk f ↔ k.FrameOk f := by
  unfold Kernel.FrameOk
  rw [h.kend]

theorem FreeList.of_drop {k k' : Kernel} (h : FreeList k) (hmem : OnlyMem k k') {n : Nat}
    (hfree : k'.freelist = k.freelist.drop n) : FreeList k' := by
  refine ⟨?_, ?_, ?_⟩
  · rw [hmem.kend]
    exact h.pos
  · intro f hf
    rw [hfree] at hf
    rw [hmem.frameOk]
    exact h.frames f (List.mem_of_mem_drop hf)
  · rw [hfree]
    exact h.nodup.sublist (List.drop_sublist n _)

theorem FreeList.cons {k : Kernel} {f : Nat} {rest : List Nat} (h : FreeList k)
    (hfree : k.freelist = f :: rest) :
    k.FrameOk f ∧ f ∉ rest ∧ FreeList { k with freelist := rest } := by
  have hnd := h.nodup
  rw [hfree] at hnd
  refine ⟨h.frames f (by simp [hfree]), (List.nodup_cons.mp hnd).1, ?_⟩
  have hmem : OnlyMem k { k with freelist := rest } := ⟨_, _, _, rfl⟩
  exact h.of_drop hmem (n := 1) (by simp [hfree])

theorem kfree_eq {k : Kernel} {f : Nat} (h : k.FrameOk f) :
    kfree k f = .ok { k.setFrame f (fun _ => 1) with freelist := f :: k.freelist } := by
  unfold kfree
  rw [if_pos h]

/-- A loop returns if each round does, and keeps what the rounds need. -/
theorem foldlM_returns {σ α : Type} {I : σ → Prop} {f : σ → α → Result σ} {l : List α}
    (hf : ∀ s, ∀ a ∈ l, I s → ∃ t, f s a = .ok t ∧ I t) {s : σ} (h : I s) :
    ∃ t, l.foldlM f s = .ok t ∧ I t := by
  induction l generalizing s with
  | nil => exact ⟨s, rfl, h⟩
  | cons a l ih =>
    obtain ⟨t, ht, hI⟩ := hf s a (by simp) h
    obtain ⟨u, hu, hIu⟩ := ih (fun s b hb => hf s b (by simp [hb])) hI
    exact ⟨u, by rw [List.foldlM_cons, ht, ok_bind, hu], hIu⟩

/-! ### `freevm` -/

/-- `kfree` accepts every page of the directory. -/
structure Freeable (k : Kernel) (d : Nat) : Prop where
  pos : 0 < k.kend
  dir : k.FrameOk d
  tables : ∀ t ∈ (k.pgdir d).tables, k.FrameOk t
  pages : ∀ va x, k.walkpgdir d va = some x → x.p = true → k.FrameOk x.ppn

/-- A directory without user pages. -/
theorem Freeable.of_new {k : Kernel} {d : Nat} {kern : List Nat} (hpos : 0 < k.kend) (hd : k.FrameOk d)
    (hkern : ∀ t ∈ kern, k.FrameOk t) (hdir : k.pgdir d = ⟨kern, fun _ => none⟩) : Freeable k d := by
  refine ⟨hpos, hd, ?_, ?_⟩
  · intro t ht
    rw [hdir] at ht
    simp only [Pgdir.tables, Option.map_none, List.filterMap_none, List.nil_append] at ht
    exact hkern t ht
  · intro va x hx
    simp [Kernel.walkpgdir, Pgdir.walk, hdir] at hx

theorem Pgdir.setPte_tables (pd : Pgdir) (va : Nat) (x : Pte) : (pd.setPte va x).tables = pd.tables := by
  unfold Pgdir.setPte
  split
  · rfl
  next t ht =>
    unfold Pgdir.tables
    refine congrArg (· ++ pd.kern) (List.filterMap_congr fun i _ => ?_)
    by_cases hi : i = PDX va
    · simp [hi, ht]
    · simp [hi]

theorem Freeable.of_freelist {k : Kernel} {d : Nat} (h : Freeable k d) (freelist : List Nat)
    (frame : Nat → Nat → UInt8) : Freeable { k with freelist, frame } d :=
  ⟨h.pos, h.dir, h.tables, h.pages⟩

theorem Freeable.setPte_zero {k : Kernel} {d a : Nat} (h : Freeable k d) : Freeable (k.setPte d a .zero) d := by
  refine ⟨h.pos, h.dir, ?_, ?_⟩
  · intro t ht
    simp only [Kernel.setPte, Function.update_self, Pgdir.setPte_tables] at ht
    exact h.tables t ht
  · intro va x hx hp
    by_cases hpage : va / PGSIZE = a / PGSIZE
    · cases hold : k.walkpgdir d a with
      | some y =>
        rw [walkpgdir_setPte_same hpage hold] at hx
        cases hx
        cases hp
      | none =>
        -- no table, no entry
        have hnone : (k.setPte d a .zero).walkpgdir d va = none := by
          rw [walkpgdir_congr hpage]
          simp only [Kernel.walkpgdir, Kernel.setPte, Function.update_self]
          cases ht : (k.pgdir d).pde (PDX a) with
          | none => simp [Pgdir.walk, Pgdir.setPte, ht]
          | some t => simp [Kernel.walkpgdir, Pgdir.walk, ht] at hold
        rw [hnone] at hx
        cases hx
    · rw [walkpgdir_setPte_ne hpage] at hx
      exact h.pages va x hx hp

theorem Freeable.deallocPage {k : Kernel} {d : Nat} (h : Freeable k d) (a : Nat) :
    ∃ k', Paging.deallocPage d k a = .ok k' ∧ Freeable k' d := by
  unfold Paging.deallocPage
  split
  · exact ⟨k, rfl, h⟩
  next x hx =>
    by_cases hp : x.p = true
    · have hok := h.pages a x hx hp
      have hne : x.ppn ≠ 0 := by
        have := hok.1
        have := h.pos
        omega
      rw [if_pos hp, if_neg hne, kfree_eq hok]
      exact ⟨_, rfl, (h.of_freelist _ _).setPte_zero⟩
    · rw [if_neg hp]
      exact ⟨k, rfl, h⟩

theorem freevm_returns {k : Kernel} {d : Nat} (h : Freeable k d) : ∃ k', freevm k d = .ok k' := by
  have hd : d ≠ 0 := by
    have := h.dir.1
    have := h.pos
    omega
  obtain ⟨k1, hfold1, h1⟩ := foldlM_returns (I := fun k => Freeable k d) (l := pageRange (PGROUNDUP 0) KERNBASE)
    (fun k a _ hk => hk.deallocPage a) h
  have hdealloc : deallocuvm k d KERNBASE 0 = .ok (0, k1) := by
    unfold deallocuvm
    rw [if_neg (by decide), hfold1]
    rfl
  obtain ⟨k2, hfold2, h2⟩ := foldlM_returns (I := fun k => Freeable k d ∧ (k.pgdir d).tables = (k1.pgdir d).tables)
    (l := (k1.pgdir d).tables)
    (fun k t ht hk => ⟨_, kfree_eq (hk.1.tables t (by rwa [hk.2])), hk.1.of_freelist _ _, hk.2⟩) ⟨h1, rfl⟩
  unfold freevm
  rw [if_neg hd, hdealloc, ok_bind]
  simp only [hfold2, ok_bind, kfree_eq h2.1.dir]
  exact ⟨_, rfl⟩

/-! ### `setupkvm` -/

/-- Pages a new directory takes: itself and the tables of the kernel half. -/
abbrev KVMPAGES : Nat := 1 + NKERNTABLES

/-- Without enough memory `setupkvm` gives everything back. -/
theorem setupkvm_short {k : Kernel} (h : FreeList k) (hlen : k.freelist.length < KVMPAGES) :
    ∃ k', setupkvm k = .ok (none, k') := by
  unfold setupkvm kalloc
  cases hfree : k.freelist with
  | nil => exact ⟨_, rfl⟩
  | cons d rest =>
    rw [hfree, List.length_cons] at hlen
    simp only []
    rw [if_neg (by simp only [List.length_take, KVMPAGES] at hlen ⊢; omega)]
    set k1 : Kernel := { k with
      freelist := rest.drop NKERNTABLES
      pgdir := Function.update k.pgdir d { kern := rest.take NKERNTABLES, pde := fun _ => none } } with hk1
    have hok : ∀ f ∈ d :: rest, k1.FrameOk f := fun f hf => h.frames f (by rwa [hfree])
    have hfreeable : Freeable k1 d := by
      refine .of_new h.pos (hok d (by simp)) ?_ (Function.update_self _ _ _)
      intro t ht
      exact hok t (List.mem_cons_of_mem _ (List.mem_of_mem_take ht))
    obtain ⟨k2, hk2⟩ := freevm_returns hfreeable
    rw [hk2]
    exact ⟨k2, rfl⟩

/-- With enough memory it returns a directory without user pages. -/
theorem setupkvm_eq {k : Kernel} (hlen : KVMPAGES ≤ k.freelist.length) :
    ∃ d rest, k.freelist = d :: rest ∧ setupkvm k = .ok (some d, { k with
      freelist := rest.drop NKERNTABLES
      pgdir := Function.update k.pgdir d { kern := rest.take NKERNTABLES, pde := fun _ => none } }) := by
  cases hfree : k.freelist with
  | nil =>
    rw [hfree] at hlen
    exact absurd hlen (by decide)
  | cons d rest =>
    rw [hfree, List.length_cons] at hlen
    refine ⟨d, rest, rfl, ?_⟩
    unfold setupkvm kalloc
    rw [hfree]
    simp only []
    rw [if_pos (by simp only [List.length_take, KVMPAGES] at hlen ⊢; omega)]
    rfl

/-- However much memory there is. -/
theorem setupkvm_some {k k' : Kernel} {d : Nat} (h : setupkvm k = .ok (some d, k')) :
    ∃ rest, k.freelist = d :: rest ∧ k' = { k with
      freelist := rest.drop NKERNTABLES
      pgdir := Function.update k.pgdir d { kern := rest.take NKERNTABLES, pde := fun _ => none } } := by
  unfold setupkvm kalloc at h
  cases hfree : k.freelist with
  | nil =>
    rw [hfree] at h
    cases h
  | cons f rest =>
    rw [hfree] at h
    simp only [] at h
    split at h
    · cases h
      exact ⟨rest, rfl, rfl⟩
    · rw [bind_eq_ok] at h
      obtain ⟨k1, -, h⟩ := h
      cases h

end Paging
