import OperatingSystem314.Paging.Release

/-! # What `copyuvm` copies

    `Copying k0 k d pg n t u`: the loop of `copyuvm` was entered in `k0`
    and has copied the first `n` pages of directory `pg` into `d`, with
    `t` page tables and `u` frames taken from the free list.

    The loop panics at the first page that is not present, unless memory
    runs out before it gets there: then it gives everything back and
    `copyuvm` returns a null pointer. -/

namespace Paging

/-! ### The invariant of the loop -/

structure Copying (k0 k : Kernel) (d pg n t u : Nat) : Prop where
  mem : OnlyMem k0 k
  pgdirs : ∀ e, e ≠ d → k.pgdir e = k0.pgdir e
  kern : (k.pgdir d).kern = (k0.pgdir d).kern
  freelist : k.freelist = k0.freelist.drop u
  frames : ∀ f, f ∉ k0.freelist → k.frame f = k0.frame f
  noTable : ∀ i, t ≤ i → (k.pgdir d).pde i = none
  hasTable : ∀ i, i < t → ∃ x, (k.pgdir d).pde i = some x ∧ x.ppn ∈ k0.freelist
  copied : ∀ i < n, ∃ x f, k0.walkpgdir pg (i * PGSIZE) = some x ∧ x.p = true ∧
    k.walkpgdir d (i * PGSIZE) = some { x with ppn := f } ∧ f ∈ k0.freelist ∧ f ∉ k.freelist ∧
    k.frame f = k0.frame x.ppn
  fresh : ∀ i, n ≤ i → ∀ x, k.walkpgdir d (i * PGSIZE) = some x → x = .zero

theorem PDX_page (i : Nat) : PDX (i * PGSIZE) = i / 1024 := by
  unfold PDX
  rw [Nat.mul_div_cancel _ (by decide)]

theorem page_div (i : Nat) : i * PGSIZE / PGSIZE = i := Nat.mul_div_cancel _ (by decide)

/-- The kernel after the page table for `va` was put into page `t`. -/
def Kernel.newTable (k : Kernel) (d va t : Nat) (rest : List Nat) : Kernel :=
  let pd := k.pgdir d
  { k with
    freelist := rest
    pgdir := Function.update k.pgdir d
      { pd with pde := Function.update pd.pde (PDX va) (some ⟨t, fun _ => .zero⟩) } }

theorem mappages_newTable {k : Kernel} {d va t : Nat} {rest : List Nat} {x : Pte}
    (hnone : (k.pgdir d).pde (PDX va) = none) (hfree : k.freelist = t :: rest) :
    mappages k d va x = .ok (0, (k.newTable d va t rest).setPte d va { x with p := true }) := by
  have halloc : walkpgdirAlloc k d va = (true, k.newTable d va t rest) := by
    simp [walkpgdirAlloc, hnone, kalloc, hfree, Kernel.newTable]
  have hwalk : (k.newTable d va t rest).walkpgdir d va = some .zero := by
    simp [Kernel.newTable, Kernel.walkpgdir, Pgdir.walk]
  simp [mappages, halloc, hwalk, Pte.zero]

theorem mappages_noTable {k : Kernel} {d va : Nat} {x : Pte} (hnone : (k.pgdir d).pde (PDX va) = none)
    (hfree : k.freelist = []) : mappages k d va x = .ok (-1, k) := by
  simp [mappages, walkpgdirAlloc, hnone, kalloc, hfree]

/-- `mappages` of one page, when it returns: either there is no frame for
    the page table, or the page is mapped, perhaps in a new table. -/
theorem mappages_cases {k k' : Kernel} {d va : Nat} {x : Pte} {r : Int} (h : mappages k d va x = .ok (r, k')) :
    (r < 0 ∧ k' = k ∧ (k.pgdir d).pde (PDX va) = none ∧ k.freelist = []) ∨
    (r = 0 ∧ ∃ k1, k' = k1.setPte d va { x with p := true } ∧
      (k1 = k ∨ ∃ t rest, (k.pgdir d).pde (PDX va) = none ∧ k.freelist = t :: rest ∧ k1 = k.newTable d va t rest) ∧
      ∃ y, k1.walkpgdir d va = some y ∧ y.p = false) := by
  cases htable : (k.pgdir d).pde (PDX va) with
  | some t =>
    right
    simp only [mappages, walkpgdirAlloc, htable, bind_eq_ok, deref_eq_ok] at h
    obtain ⟨y, hy, h⟩ := h
    split at h
    · cases h
    next hp =>
      cases h
      exact ⟨rfl, k, rfl, .inl rfl, y, hy, by simpa using hp⟩
  | none =>
    cases hfree : k.freelist with
    | nil =>
      rw [mappages_noTable htable hfree] at h
      cases h
      exact .inl ⟨by decide, rfl, rfl, rfl⟩
    | cons t rest =>
      rw [mappages_newTable htable hfree] at h
      cases h
      refine .inr ⟨rfl, _, rfl, .inr ⟨t, rest, rfl, rfl, rfl⟩, .zero, ?_, rfl⟩
      simp [Kernel.newTable, Kernel.walkpgdir, Pgdir.walk]

namespace Copying

variable {k0 k : Kernel} {d pg n t u : Nat}

/-- A copied page has a table. -/
theorem lt_tables (h : Copying k0 k d pg n t u) {i : Nat} {x : Pte}
    (hx : k.walkpgdir d (i * PGSIZE) = some x) : i / 1024 < t := by
  by_contra hge
  have hnone := h.noTable (i / 1024) (Nat.le_of_not_lt hge)
  rw [← PDX_page] at hnone
  simp [Kernel.walkpgdir, Pgdir.walk, hnone] at hx

/-- A frame is taken and filled. -/
theorem take (h : Copying k0 k d pg n t u) (hf : FreeList k0) {f : Nat} {rest : List Nat}
    (hfree : k.freelist = f :: rest) (bytes : Nat → UInt8) :
    Copying k0 ({ k with freelist := rest }.setFrame f bytes) d pg n t (u + 1) ∧
      f ∈ k0.freelist ∧ f ∉ rest := by
  have hin : f ∈ k0.freelist := by
    have hmem : f ∈ k.freelist := by simp [hfree]
    rw [h.freelist] at hmem
    exact List.mem_of_mem_drop hmem
  have hk := hf.of_drop h.mem h.freelist
  have hout := (hk.cons hfree).2.1
  refine ⟨⟨h.mem.trans ⟨_, _, _, rfl⟩, h.pgdirs, h.kern, ?_, ?_, h.noTable, h.hasTable, ?_, h.fresh⟩, hin, hout⟩
  · show rest = k0.freelist.drop (u + 1)
    rw [← List.drop_drop, ← h.freelist, hfree]
    rfl
  · intro g hg
    have hne : g ≠ f := by
      rintro rfl
      exact hg hin
    simp only [Kernel.setFrame, Function.update_of_ne hne]
    exact h.frames g hg
  · intro i hi
    obtain ⟨x, g, hx, hp, hwalk, hg, hgfree, hframe⟩ := h.copied i hi
    rw [hfree, List.mem_cons, not_or] at hgfree
    refine ⟨x, g, hx, hp, hwalk, hg, hgfree.2, ?_⟩
    simp only [Kernel.setFrame, Function.update_of_ne hgfree.1]
    exact hframe

/-- A page table is added. -/
theorem table (h : Copying k0 k d pg n t u) {va f : Nat} {rest : List Nat} (hva : PDX va = t)
    (hfree : k.freelist = f :: rest) : Copying k0 (k.newTable d va f rest) d pg n (t + 1) (u + 1) := by
  have hin : f ∈ k0.freelist := by
    have hmem : f ∈ k.freelist := by simp [hfree]
    rw [h.freelist] at hmem
    exact List.mem_of_mem_drop hmem
  have hpde : ∀ i, ((k.newTable d va f rest).pgdir d).pde i =
      if i = t then some ⟨f, fun _ => .zero⟩ else (k.pgdir d).pde i := by
    intro i
    simp [Kernel.newTable, Function.update_apply, hva]
  have hother : ∀ i, i / 1024 ≠ t →
      (k.newTable d va f rest).walkpgdir d (i * PGSIZE) = k.walkpgdir d (i * PGSIZE) := by
    intro i hi
    simp only [Kernel.walkpgdir, Pgdir.walk, hpde, PDX_page, if_neg hi]
  refine ⟨h.mem.trans ⟨_, _, _, rfl⟩, ?_, ?_, ?_, h.frames, ?_, ?_, ?_, ?_⟩
  · intro e he
    simp only [Kernel.newTable, Function.update_of_ne he]
    exact h.pgdirs e he
  · simp only [Kernel.newTable, Function.update_self]
    exact h.kern
  · show rest = k0.freelist.drop (u + 1)
    rw [← List.drop_drop, ← h.freelist, hfree]
    rfl
  · intro i hi
    rw [hpde, if_neg (by omega)]
    exact h.noTable i (by omega)
  · intro i hi
    rw [hpde]
    by_cases hit : i = t
    · rw [if_pos hit]
      exact ⟨_, rfl, hin⟩
    · rw [if_neg hit]
      exact h.hasTable i (by omega)
  · intro i hi
    obtain ⟨x, g, hx, hp, hwalk, hg, hgfree, hframe⟩ := h.copied i hi
    have hlt := h.lt_tables hwalk
    rw [hfree, List.mem_cons, not_or] at hgfree
    exact ⟨x, g, hx, hp, by rw [hother i (by omega), hwalk], hg, hgfree.2, hframe⟩
  · intro i hi x hx
    by_cases hit : i / 1024 = t
    · simp only [Kernel.walkpgdir, Pgdir.walk, hpde, PDX_page, hit, if_true, Option.map_some,
        Option.some.injEq] at hx
      exact hx.symm
    · rw [hother i hit] at hx
      exact h.fresh i hi x hx

/-- The next page is mapped to the frame it was copied into. -/
theorem map (h : Copying k0 k d pg n t u) (ht : n / 1024 < t) {x : Pte} {f : Nat}
    (hx : k0.walkpgdir pg (n * PGSIZE) = some x) (hp : x.p = true) (hf : f ∈ k0.freelist)
    (hout : f ∉ k.freelist) (hframe : k.frame f = k0.frame x.ppn) :
    mappages k d (n * PGSIZE) { x with ppn := f } =
        .ok (0, k.setPte d (n * PGSIZE) { x with ppn := f }) ∧
      Copying k0 (k.setPte d (n * PGSIZE) { x with ppn := f }) d pg (n + 1) t u := by
  have hwalk : k.walkpgdir d (n * PGSIZE) = some .zero := by
    obtain ⟨tab, htab, -⟩ := h.hasTable (n / 1024) ht
    have hsome : k.walkpgdir d (n * PGSIZE) = some (tab.pte (PTX (n * PGSIZE))) := by
      simp [Kernel.walkpgdir, Pgdir.walk, PDX_page, htab]
    rw [hsome, h.fresh n (Nat.le_refl n) _ hsome]
  have hother : ∀ i, i ≠ n → (k.setPte d (n * PGSIZE) { x with ppn := f }).walkpgdir d (i * PGSIZE) =
      k.walkpgdir d (i * PGSIZE) := by
    intro i hi
    apply walkpgdir_setPte_ne
    rw [page_div, page_div]
    exact hi
  have hpde : ∀ i, ((k.setPte d (n * PGSIZE) { x with ppn := f }).pgdir d).pde i = none ↔
      (k.pgdir d).pde i = none := by
    intro i
    simp only [Kernel.setPte, Function.update_self, Pgdir.setPte]
    cases htab : (k.pgdir d).pde (PDX (n * PGSIZE)) with
    | none => rfl
    | some tab =>
      by_cases hi : i = PDX (n * PGSIZE)
      · simp [hi, htab]
      · simp [hi]
  refine ⟨?_, h.mem.trans (.setPte k d _ _), ?_, ?_, h.freelist, h.frames, ?_, ?_, ?_, ?_⟩
  · have hmap := mappages_eq (x := { x with ppn := f }) hwalk rfl
    rwa [show ({ x with ppn := f, p := true } : Pte) = { x with ppn := f } from by rw [← hp]] at hmap
  · intro e he
    simp only [Kernel.setPte, Function.update_of_ne he]
    exact h.pgdirs e he
  · rw [← h.kern]
    simp only [Kernel.setPte, Function.update_self, Pgdir.setPte]
    cases (k.pgdir d).pde (PDX (n * PGSIZE)) <;> rfl
  · intro i hi
    rw [hpde]
    exact h.noTable i hi
  · intro i hi
    obtain ⟨tab, htab, hppn⟩ := h.hasTable i hi
    simp only [Kernel.setPte, Function.update_self, Pgdir.setPte]
    cases htab' : (k.pgdir d).pde (PDX (n * PGSIZE)) with
    | none => exact ⟨tab, htab, hppn⟩
    | some tab' =>
      by_cases hin : i = PDX (n * PGSIZE)
      · subst hin
        rw [htab] at htab'
        cases htab'
        exact ⟨_, Function.update_self _ _ _, hppn⟩
      · exact ⟨tab, by simp [hin, htab], hppn⟩
  · intro i hi
    by_cases hin : i = n
    · subst hin
      exact ⟨x, f, hx, hp, walkpgdir_setPte_self hwalk, hf, hout, hframe⟩
    · obtain ⟨y, g, hy, hyp, hwalk', hg⟩ := h.copied i (by omega)
      exact ⟨y, g, hy, hyp, by rw [hother i hin, hwalk'], hg⟩
  · intro i hi y hy
    rw [hother i (by omega)] at hy
    exact h.fresh i (by omega) y hy

/-- At any time the new directory can be given back. -/
theorem freeable (h : Copying k0 k d pg n t u) (hf : FreeList k0) (hd : k0.FrameOk d)
    (hkern : ∀ f ∈ (k0.pgdir d).kern, k0.FrameOk f) : Freeable k d := by
  refine ⟨?_, h.mem.frameOk.mpr hd, ?_, ?_⟩
  · rw [h.mem.kend]
    exact hf.pos
  · intro p hp
    rw [h.mem.frameOk]
    rw [Pgdir.tables, List.mem_append, h.kern] at hp
    rcases hp with hp | hp
    · obtain ⟨i, -, hi⟩ := List.mem_filterMap.mp hp
      obtain ⟨tab, htab, rfl⟩ := Option.map_eq_some_iff.mp hi
      have hit : i < t := by
        by_contra hge
        rw [h.noTable i (Nat.le_of_not_lt hge)] at htab
        cases htab
      obtain ⟨tab', htab', hppn⟩ := h.hasTable i hit
      rw [htab] at htab'
      cases htab'
      exact hf.frames _ hppn
    · exact hkern p hp
  · intro va x hx hp
    rw [h.mem.frameOk]
    have hpage : va / PGSIZE = va / PGSIZE * PGSIZE / PGSIZE := (page_div _).symm
    rw [walkpgdir_congr hpage] at hx
    by_cases hi : va / PGSIZE < n
    · obtain ⟨y, f, -, -, hwalk, hfin, -⟩ := h.copied _ hi
      rw [hwalk] at hx
      cases hx
      exact hf.frames f hfin
    · rw [h.fresh _ (Nat.le_of_not_lt hi) x hx] at hp
      cases hp

end Copying

/-! ### The loop -/

/-- Page tables for the first `n` pages, and frames for both. -/
def tablesFor (n : Nat) : Nat := (n + 1023) / 1024
def framesFor (n : Nat) : Nat := n + tablesFor n

/-- Page `i` of directory `pg` is present. -/
def PresentAt (k : Kernel) (pg i : Nat) : Prop :=
  ∃ x, k.walkpgdir pg (i * PGSIZE) = some x ∧ x.p = true

/-- What `copyuvm` needs of the kernel when it enters the loop. -/
structure CopyStart (k0 : Kernel) (d pg : Nat) : Prop where
  free : FreeList k0
  dir : k0.FrameOk d
  ne : pg ≠ d
  kern : ∀ f ∈ (k0.pgdir d).kern, k0.FrameOk f
  empty : ∀ i, (k0.pgdir d).pde i = none
  /-- no page of the parent lies in a free frame -/
  taken : ∀ va x, k0.walkpgdir pg va = some x → x.p = true → x.ppn ∉ k0.freelist

variable {k0 k : Kernel} {d pg n : Nat}

theorem CopyStart.copying (h : CopyStart k0 d pg) : Copying k0 k0 d pg 0 0 0 := by
  refine ⟨.refl k0, fun _ _ => rfl, rfl, rfl, fun _ _ => rfl, fun i _ => h.empty i, nofun, nofun, ?_⟩
  intro i _ x hx
  simp [Kernel.walkpgdir, Pgdir.walk, h.empty] at hx

/-- The entry of the parent is what it was when the loop was entered. -/
theorem Copying.parent {t u : Nat} (h : Copying k0 k d pg n t u) (hs : CopyStart k0 d pg) (va : Nat) :
    k.walkpgdir pg va = k0.walkpgdir pg va := by
  unfold Kernel.walkpgdir
  rw [h.pgdirs pg hs.ne]

/-- The number of tables grows when a page is the first of its table. -/
theorem tablesFor_succ (n : Nat) :
    tablesFor (n + 1) = n / 1024 + 1 ∧ (n % 1024 = 0 → tablesFor n = n / 1024) ∧
      (n % 1024 ≠ 0 → tablesFor n = n / 1024 + 1) := by
  unfold tablesFor
  omega

/-- One round of the loop, for a present page and a frame for it. -/
theorem copyPage_cons {va f : Nat} {x : Pte} {rest : List Nat} (hx : k.walkpgdir pg va = some x)
    (hp : x.p = true) (hfree : k.freelist = f :: rest) :
    copyPage d pg k va = (do
      let (r, k) ← mappages ({ k with freelist := rest }.setFrame f (k.frame x.ppn)) d va
        { x with ppn := f }
      if r < 0 then
        let k ← kfree k f
        return (false, k)
      else return (true, k)) := by
  unfold copyPage
  rw [hx]
  simp only [hp, not_true, if_false, kalloc, hfree]

/-- A present page is copied if memory lasts. -/
theorem Copying.copyPage_eq (h : Copying k0 k d pg n (tablesFor n) (framesFor n)) (hs : CopyStart k0 d pg)
    (hpage : PresentAt k0 pg n) (hroom : framesFor (n + 1) ≤ k0.freelist.length) :
    ∃ k', copyPage d pg k (n * PGSIZE) = .ok (true, k') ∧
      Copying k0 k' d pg (n + 1) (tablesFor (n + 1)) (framesFor (n + 1)) := by
  obtain ⟨x, hx, hp⟩ := hpage
  obtain ⟨hsucc, hfirst, hlater⟩ := tablesFor_succ n
  have hlen : k.freelist.length = k0.freelist.length - framesFor n := by
    rw [h.freelist, List.length_drop]
  have hsrc : k.frame x.ppn = k0.frame x.ppn := h.frames _ (hs.taken _ x hx hp)
  unfold framesFor at hlen hroom
  obtain ⟨f, rest, hfree⟩ := List.exists_cons_of_length_pos (by omega : 0 < k.freelist.length)
  obtain ⟨h1, hf, hout⟩ := h.take hs.free hfree (k.frame x.ppn)
  rw [copyPage_cons ((h.parent hs _).trans hx) hp hfree]
  set k1 := { k with freelist := rest }.setFrame f (k.frame x.ppn) with hk1
  have hframe1 : k1.frame f = k0.frame x.ppn := by
    rw [← hsrc]
    exact Function.update_self _ _ _
  by_cases hmod : n % 1024 = 0
  · -- the first page of a table
    have ht := hfirst hmod
    obtain ⟨t, rest', hfree'⟩ := List.exists_cons_of_length_pos (l := rest) (by
      rw [hfree, List.length_cons] at hlen
      omega)
    have hfree1 : k1.freelist = t :: rest' := hfree'
    have hdx : PDX (n * PGSIZE) = tablesFor n := by rw [PDX_page, ht]
    have h2 := h1.table hdx hfree1
    have hnone : (k1.pgdir d).pde (PDX (n * PGSIZE)) = none := by
      rw [PDX_page]
      exact h1.noTable _ (by omega)
    have hout2 : f ∉ rest' := by
      intro hmem
      exact hout (by simp [hfree', hmem])
    obtain ⟨-, h3⟩ := h2.map (by omega) hx hp hf hout2 hframe1
    rw [mappages_newTable hnone hfree1, ok_bind]
    rw [show ({ x with ppn := f, p := true } : Pte) = { x with ppn := f } from by rw [← hp]]
    refine ⟨_, rfl, ?_⟩
    rw [framesFor, hsucc, show n + 1 + (n / 1024 + 1) = framesFor n + 1 + 1 from by
      unfold framesFor
      omega, ← ht]
    exact h3
  · have ht := hlater hmod
    obtain ⟨hmap, h2⟩ := h1.map (by omega) hx hp hf hout hframe1
    rw [hmap, ok_bind]
    refine ⟨_, rfl, ?_⟩
    rw [framesFor, hsucc, show n + 1 + (n / 1024 + 1) = framesFor n + 1 from by
      unfold framesFor
      omega, ← ht]
    exact h2

/-- Where memory runs out, what was taken for the page is given back. -/
theorem Copying.copyPage_short (h : Copying k0 k d pg n (tablesFor n) (framesFor n))
    (hs : CopyStart k0 d pg) (hpage : PresentAt k0 pg n) (hfit : framesFor n ≤ k0.freelist.length)
    (hroom : k0.freelist.length < framesFor (n + 1)) :
    ∃ k', copyPage d pg k (n * PGSIZE) = .ok (false, k') ∧ Freeable k' d := by
  obtain ⟨x, hx, hp⟩ := hpage
  obtain ⟨hsucc, hfirst, hlater⟩ := tablesFor_succ n
  have hlen : k.freelist.length = k0.freelist.length - framesFor n := by
    rw [h.freelist, List.length_drop]
  have hfreeable := h.freeable hs.free hs.dir hs.kern
  unfold framesFor at hlen hroom hfit
  cases hfree : k.freelist with
  | nil =>
    unfold copyPage
    rw [h.parent hs, hx]
    simp only [hp, not_true, if_false, kalloc, hfree]
    exact ⟨k, rfl, hfreeable⟩
  | cons f rest =>
    -- there is a frame for the page, but none for its table
    rw [hfree, List.length_cons] at hlen
    have hrest : rest = [] := by
      apply List.eq_nil_of_length_eq_zero
      omega
    subst hrest
    obtain ⟨h1, hf, -⟩ := h.take hs.free hfree (k.frame x.ppn)
    have hmod : n % 1024 = 0 := by
      by_contra hne
      have := hlater hne
      omega
    have hnone : (k.pgdir d).pde (PDX (n * PGSIZE)) = none := by
      rw [PDX_page]
      exact h.noTable _ (by have := hfirst hmod; omega)
    rw [copyPage_cons ((h.parent hs _).trans hx) hp hfree]
    set k1 := { k with freelist := [] }.setFrame f (k.frame x.ppn) with hk1
    have hnone1 : (k1.pgdir d).pde (PDX (n * PGSIZE)) = none := hnone
    have hfree1 : k1.freelist = [] := rfl
    rw [mappages_noTable hnone1 hfree1, ok_bind]
    simp only [show (-1 : Int) < 0 from by decide, if_true]
    rw [kfree_eq (h1.mem.frameOk.mpr (hs.free.frames f hf)), ok_bind]
    exact ⟨_, rfl, hfreeable.of_freelist _ _⟩

/-- A page that is not present makes `copyuvm` panic. -/
theorem Copying.copyPage_panics {t u : Nat} (h : Copying k0 k d pg n t u) (hs : CopyStart k0 d pg)
    (hpage : ¬ PresentAt k0 pg n) (r : Bool × Kernel) : copyPage d pg k (n * PGSIZE) ≠ .ok r := by
  intro hok
  obtain ⟨b, k'⟩ := r
  obtain ⟨-, x, hx, hp⟩ := copyPage_mem hok
  rw [h.parent hs] at hx
  exact hpage ⟨x, hx, hp⟩

/-- Pages of a process of `sz` bytes. -/
def npages (sz : Nat) : Nat := (sz + PGSIZE - 1) / PGSIZE

/-- The pages from `n` on that the loop has still to copy. -/
def pagesFrom (n m : Nat) : List Nat := (List.range' n m).map (· * PGSIZE)

theorem pageRange_zero (sz : Nat) : pageRange 0 sz = pagesFrom 0 (npages sz) := by
  unfold pageRange pagesFrom npages
  rw [List.range_eq_range', Nat.sub_zero]
  exact List.map_congr_left fun i _ => Nat.zero_add _

/-- By induction on the pages left: the loop returns unless it reaches a
    page that is not present. -/
theorem Copying.copyLoop {m : Nat} (h : Copying k0 k d pg n (tablesFor n) (framesFor n))
    (hs : CopyStart k0 d pg) (hfit : framesFor n ≤ k0.freelist.length) :
    (∃ k', copyLoop d pg (pagesFrom n m) k = .ok (some d, k') ∧
        Copying k0 k' d pg (n + m) (tablesFor (n + m)) (framesFor (n + m)) ∧
        framesFor (n + m) ≤ k0.freelist.length) ∨
    (∃ j k', n ≤ j ∧ j < n + m ∧ k0.freelist.length < framesFor (j + 1) ∧
        (∀ i, n ≤ i → i ≤ j → PresentAt k0 pg i) ∧
        copyLoop d pg (pagesFrom n m) k = .ok (none, k')) ∨
    (∃ j, n ≤ j ∧ j < n + m ∧ ¬ PresentAt k0 pg j ∧ framesFor j ≤ k0.freelist.length ∧
        (∀ i, n ≤ i → i < j → PresentAt k0 pg i) ∧
        ∀ r, copyLoop d pg (pagesFrom n m) k ≠ .ok r) := by
  induction m generalizing n k with
  | zero =>
    left
    exact ⟨k, rfl, h, hfit⟩
  | succ m ih =>
    have hcons : pagesFrom n (m + 1) = n * PGSIZE :: pagesFrom (n + 1) m := rfl
    rw [hcons, Paging.copyLoop]
    by_cases hpage : PresentAt k0 pg n
    · by_cases hroom : framesFor (n + 1) ≤ k0.freelist.length
      · obtain ⟨k1, hk1, h1⟩ := h.copyPage_eq hs hpage hroom
        rw [hk1, ok_bind]
        simp only [if_true]
        rw [show n + (m + 1) = n + 1 + m from by omega]
        have hjoin : ∀ {j i : Nat}, n ≤ i → (∀ i, n + 1 ≤ i → i ≤ j → PresentAt k0 pg i) → i ≤ j →
            PresentAt k0 pg i := by
          intro j i hni hall hij
          rcases Nat.eq_or_lt_of_le hni with rfl | hlt
          · exact hpage
          · exact hall i hlt hij
        rcases ih h1 hroom with hdone | ⟨j, k', hj, hjm, hlen, hall, hk'⟩ | ⟨j, hj, hjm, hbad, hlen, hall, hk'⟩
        · exact .inl hdone
        · exact .inr (.inl ⟨j, k', by omega, hjm, hlen, fun i hi => hjoin hi hall, hk'⟩)
        · refine .inr (.inr ⟨j, by omega, hjm, hbad, hlen, fun i hi hij => ?_, hk'⟩)
          rcases Nat.eq_or_lt_of_le hi with rfl | hlt
          · exact hpage
          · exact hall i hlt hij
      · right
        left
        obtain ⟨k1, hk1, h1⟩ := h.copyPage_short hs hpage hfit (by omega)
        obtain ⟨k2, hk2⟩ := freevm_returns h1
        refine ⟨n, k2, Nat.le_refl n, by omega, by omega, ?_, ?_⟩
        · intro i hi hin
          rwa [Nat.le_antisymm hin hi]
        · rw [hk1, ok_bind]
          simp only [Bool.false_eq_true, if_false, hk2, ok_bind]
          rfl
    · right
      right
      refine ⟨n, Nat.le_refl n, by omega, hpage, hfit, fun i hi hin => by omega, fun r => ?_⟩
      intro hok
      rw [bind_eq_ok] at hok
      obtain ⟨r', hr', -⟩ := hok
      exact h.copyPage_panics hs hpage r' hr'

end Paging
