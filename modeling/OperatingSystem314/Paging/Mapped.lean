import OperatingSystem314.Paging.Memory

/-! # Which pages of a process are present

    `Mapped v lim q out` is the part of the memory of a process that its
    growth depends on, whatever the pages hold: the pages below `lim` are
    the present ones, `q`, and those that are marked as swapped out, `out`.
    A present page has a frame of its own.

    Page tables may be missing; `walkpgdir` adds them one by one. -/

namespace Paging

structure Mapped (v : MemView) (lim : Nat) (q out : List Nat) : Prop where
  nodup : (q ++ out).Nodup
  pages : ∀ a, a ∈ q ++ out ↔ a % PGSIZE = 0 ∧ a < lim
  small : lim ≤ KERNBASE
  resident : ∀ a ∈ q, ∃ x, v.walk a = some x ∧ x.p = true ∧ x.pg = false ∧ v.FrameOk x.ppn ∧
    x.ppn ∉ v.freelist
  /-- no two pages share a frame -/
  inj : ∀ a ∈ q, ∀ b ∈ q, ∀ x y, v.walk a = some x → v.walk b = some y → x.ppn = y.ppn → a = b
  pagedOut : ∀ a ∈ out, ∃ x, v.walk a = some x ∧ x.p = false ∧ x.pg = true
  unmapped : ∀ a, a % PGSIZE = 0 → lim ≤ a → a < KERNBASE → ∀ x, v.walk a = some x →
    x.p = false ∧ x.pg = false
  free : v.freelist.Nodup
  freeOk : ∀ f ∈ v.freelist, v.FrameOk f
  kend : 0 < v.kend

/-- `walkpgdir` puts an empty page table where there was none. -/
def MemView.addTable (v : MemView) (va t : Nat) : MemView :=
  { v with pd := { v.pd with pde := Function.update v.pd.pde (PDX va) (some ⟨t, fun _ => .zero⟩) } }

namespace MemView

variable {v : MemView} {va b t : Nat} {x : Pte}

theorem walk_addTable_self (h : PDX b = PDX va) : (v.addTable va t).walk b = some .zero := by
  simp [addTable, walk, Pgdir.walk, h]

theorem walk_addTable_ne (h : PDX b ≠ PDX va) : (v.addTable va t).walk b = v.walk b := by
  simp [addTable, walk, Pgdir.walk, h]

/-- A page with an entry has a table. -/
theorem PDX_ne (hnone : v.pd.pde (PDX va) = none) (hx : v.walk b = some x) : PDX b ≠ PDX va := by
  intro heq
  rw [walk, Pgdir.walk, heq, hnone] at hx
  cases hx

end MemView

namespace Mapped

variable {v : MemView} {lim a b t : Nat} {q out : List Nat} {x y : Pte}

theorem aligned (h : Mapped v lim q out) (ha : a ∈ q ++ out) : a % PGSIZE = 0 := ((h.pages a).mp ha).1

theorem page_ne (h : Mapped v lim q out) (ha : a ∈ q ++ out) (hb : b ∈ q ++ out) (hab : a ≠ b) :
    a / PGSIZE ≠ b / PGSIZE :=
  Paging.page_ne (h.aligned ha) (h.aligned hb) hab

/-- Entries outside the process are not those of its pages. -/
theorem outside_ne (h : Mapped v lim q out) (ha : a ∈ q ++ out) (hb : b % PGSIZE = 0) (hlim : lim ≤ b) :
    b / PGSIZE ≠ a / PGSIZE := by
  obtain ⟨hal, hlt⟩ := (h.pages a).mp ha
  exact Paging.page_ne hb hal (by omega)

theorem of_walk (h : Mapped v lim q out) (ha : a ∈ q) (hx : v.walk a = some x) :
    x.p = true ∧ x.pg = false ∧ v.FrameOk x.ppn ∧ x.ppn ∉ v.freelist := by
  obtain ⟨y, hy, hrest⟩ := h.resident a ha
  rw [hy] at hx
  cases hx
  exact hrest

theorem perm {out' : List Nat} (h : Mapped v lim q out) (hp : out.Perm out') : Mapped v lim q out' := by
  have hperm : (q ++ out).Perm (q ++ out') := hp.append_left q
  refine ⟨hperm.nodup_iff.mp h.nodup, ?_, h.small, h.resident, h.inj, ?_, h.unmapped, h.free, h.freeOk, h.kend⟩
  · intro a
    rw [← hperm.mem_iff, h.pages]
  · intro a ha
    exact h.pagedOut a (hp.mem_iff.mpr ha)

/-- Only the pages below the limit matter. -/
theorem lim_congr {lim' : Nat} (h : Mapped v lim q out) (hsmall : lim' ≤ KERNBASE)
    (hlim : ∀ a, a % PGSIZE = 0 → (a < lim ↔ a < lim')) : Mapped v lim' q out := by
  refine ⟨h.nodup, ?_, hsmall, h.resident, h.inj, h.pagedOut, ?_, h.free, h.freeOk, h.kend⟩
  · intro a
    rw [h.pages]
    exact and_congr_right fun ha => hlim a ha
  · intro a ha hle
    apply h.unmapped a ha
    by_contra hlt
    exact absurd ((hlim a ha).mp (by omega)) (by omega)

/-- The oldest page is written off: its frame is freed, its entry marked. -/
theorem evict (h : Mapped v lim (a :: q) out) (hx : v.walk a = some x) :
    Mapped ((v.free x.ppn).setPte a .swapped) lim q (out ++ [a]) := by
  obtain ⟨-, -, hok, htaken⟩ := h.of_walk (by simp) hx
  have hperm : (a :: q ++ out).Perm (q ++ (out ++ [a])) := by
    rw [← List.append_assoc]
    exact (List.perm_append_singleton a (q ++ out)).symm
  have hmem : ∀ c, c ∈ q → c ≠ a := by
    rintro c hc rfl
    exact (List.nodup_cons.mp h.nodup).1 (by simp [hc])
  have hwalk : ∀ c ∈ a :: q ++ out, c ≠ a → ((v.free x.ppn).setPte a .swapped).walk c = v.walk c := by
    intro c hc hca
    rw [MemView.walk_setPte_ne (h.page_ne hc (by simp) hca), MemView.free_walk]
  have hppn : ∀ c ∈ q, ∀ z, v.walk c = some z → z.ppn ≠ x.ppn := by
    intro c hc z hz heq
    exact hmem c hc (h.inj c (by simp [hc]) a (by simp) z x hz hx heq)
  refine ⟨hperm.nodup_iff.mp h.nodup, ?_, h.small, ?_, ?_, ?_, ?_, ?_, ?_, h.kend⟩
  · intro c
    rw [← hperm.mem_iff, h.pages]
  · intro c hc
    obtain ⟨z, hz, hp, hpg, hzok, hztaken⟩ := h.resident c (by simp [hc])
    refine ⟨z, ?_, hp, hpg, hzok, ?_⟩
    · rw [hwalk c (by simp [hc]) (hmem c hc), hz]
    · simp [hppn c hc z hz, hztaken]
  · intro c hc e he z w hz hw
    rw [hwalk c (by simp [hc]) (hmem c hc)] at hz
    rw [hwalk e (by simp [he]) (hmem e he)] at hw
    exact h.inj c (by simp [hc]) e (by simp [he]) z w hz hw
  · intro c hc
    rcases List.mem_append.mp hc with hc | hc
    · have hca : c ≠ a := by
        intro heq
        rw [heq] at hc
        exact (List.nodup_cons.mp h.nodup).1 (by simp [hc])
      rw [hwalk c (by simp [hc]) hca]
      exact h.pagedOut c hc
    · rw [List.mem_singleton.mp hc]
      exact ⟨.swapped, MemView.walk_setPte_self hx, rfl, rfl⟩
  · intro c hc hlim
    rw [MemView.walk_setPte_ne (h.outside_ne (by simp) hc hlim), MemView.free_walk]
    exact h.unmapped c hc hlim
  · exact List.nodup_cons.mpr ⟨htaken, h.free⟩
  · intro f hf
    rcases List.mem_cons.mp hf with rfl | hf
    · exact hok
    · exact h.freeOk f hf

/-- A frame is taken for something else than a page. -/
theorem take {f : Nat} {rest : List Nat} (h : Mapped v lim q out) (hfree : v.freelist = f :: rest) :
    Mapped { v with freelist := rest } lim q out := by
  have hnd := h.free
  rw [hfree] at hnd
  refine ⟨h.nodup, h.pages, h.small, ?_, h.inj, h.pagedOut, h.unmapped, (List.nodup_cons.mp hnd).2, ?_, h.kend⟩
  · intro a ha
    obtain ⟨x, hx, hp, hpg, hok, htaken⟩ := h.resident a ha
    refine ⟨x, hx, hp, hpg, hok, ?_⟩
    intro hmem
    exact htaken (by simp [hfree, show x.ppn ∈ rest from hmem])
  · intro e he
    exact h.freeOk e (by simp [hfree, show e ∈ rest from he])

theorem setFrame (h : Mapped v lim q out) (f : Nat) (bytes : Nat → UInt8) : Mapped (v.setFrame f bytes) lim q out :=
  ⟨h.nodup, h.pages, h.small, h.resident, h.inj, h.pagedOut, h.unmapped, h.free, h.freeOk, h.kend⟩

theorem addTable (h : Mapped v lim q out) (hnone : v.pd.pde (PDX b) = none) : Mapped (v.addTable b t) lim q out := by
  have hwalk : ∀ c x, v.walk c = some x → (v.addTable b t).walk c = some x := by
    intro c x hx
    rw [MemView.walk_addTable_ne (MemView.PDX_ne hnone hx), hx]
  have hback : ∀ c x, (v.addTable b t).walk c = some x → x = .zero ∨ v.walk c = some x := by
    intro c x hx
    by_cases hcb : PDX c = PDX b
    · rw [MemView.walk_addTable_self hcb] at hx
      cases hx
      exact .inl rfl
    · rw [MemView.walk_addTable_ne hcb] at hx
      exact .inr hx
  have hold : ∀ c ∈ q, ∀ x, (v.addTable b t).walk c = some x → v.walk c = some x := by
    intro c hc x hx
    obtain ⟨y, hy, -⟩ := h.resident c hc
    rw [hwalk c y hy] at hx
    rw [hy, hx]
  refine ⟨h.nodup, h.pages, h.small, ?_, ?_, ?_, ?_, h.free, h.freeOk, h.kend⟩
  · intro c hc
    obtain ⟨x, hx, hrest⟩ := h.resident c hc
    exact ⟨x, hwalk c x hx, hrest⟩
  · intro c hc e he x y hx hy
    exact h.inj c hc e he x y (hold c hc x hx) (hold e he y hy)
  · intro c hc
    obtain ⟨x, hx, hrest⟩ := h.pagedOut c hc
    exact ⟨x, hwalk c x hx, hrest⟩
  · intro c hc hle hlt x hx
    rcases hback c x hx with rfl | hx
    · exact ⟨rfl, rfl⟩
    · exact h.unmapped c hc hle hlt x hx

/-- One more page, in a frame that is not used for another. -/
theorem map {f : Nat} (h : Mapped v lim q out) (hy : v.walk lim = some y) (hlim : lim % PGSIZE = 0)
    (hsmall : lim + PGSIZE ≤ KERNBASE) (hok : v.FrameOk f) (htaken : f ∉ v.freelist)
    (hown : ∀ a ∈ q, ∀ x, v.walk a = some x → x.ppn ≠ f) :
    Mapped (v.setPte lim ⟨f, true, true, true, false⟩) (lim + PGSIZE) (q ++ [lim]) out := by
  have hself : (v.setPte lim ⟨f, true, true, true, false⟩).walk lim = some ⟨f, true, true, true, false⟩ :=
    MemView.walk_setPte_self hy
  have hpage : ∀ c ∈ q ++ out, c / PGSIZE ≠ lim / PGSIZE := by
    intro c hc
    exact (h.outside_ne hc hlim (Nat.le_refl lim)).symm
  have hwalk : ∀ c ∈ q ++ out, (v.setPte lim ⟨f, true, true, true, false⟩).walk c = v.walk c :=
    fun c hc => MemView.walk_setPte_ne (hpage c hc)
  have hout : lim ∉ q ++ out := fun hmem => absurd ((h.pages lim).mp hmem).2 (Nat.lt_irrefl lim)
  have hperm : (lim :: (q ++ out)).Perm (q ++ [lim] ++ out) := by
    rw [List.append_assoc]
    exact List.perm_middle.symm
  refine ⟨hperm.nodup_iff.mp (List.nodup_cons.mpr ⟨hout, h.nodup⟩), ?_, hsmall, ?_, ?_, ?_, ?_, h.free,
    h.freeOk, h.kend⟩
  · intro c
    rw [← hperm.mem_iff, List.mem_cons, h.pages]
    simp only [PGSIZE] at *
    omega
  · intro c hc
    rcases List.mem_append.mp hc with hc | hc
    · obtain ⟨x, hx, hrest⟩ := h.resident c hc
      exact ⟨x, by rw [hwalk c (by simp [hc]), hx], hrest⟩
    · rw [List.mem_singleton.mp hc]
      exact ⟨_, hself, rfl, rfl, hok, htaken⟩
  · intro c hc e he x z hx hz heq
    rcases List.mem_append.mp hc with hc | hc <;> rcases List.mem_append.mp he with he | he
    · rw [hwalk c (by simp [hc])] at hx
      rw [hwalk e (by simp [he])] at hz
      exact h.inj c hc e he x z hx hz heq
    · rw [List.mem_singleton.mp he, hself] at hz
      cases hz
      rw [hwalk c (by simp [hc])] at hx
      exact absurd heq (hown c hc x hx)
    · rw [List.mem_singleton.mp hc, hself] at hx
      cases hx
      rw [hwalk e (by simp [he])] at hz
      exact absurd heq.symm (hown e he z hz)
    · rw [List.mem_singleton.mp hc, List.mem_singleton.mp he]
  · intro c hc
    rw [hwalk c (by simp [hc])]
    exact h.pagedOut c hc
  · intro c hc hle
    have hne : c / PGSIZE ≠ lim / PGSIZE := Paging.page_ne hc hlim (by simp only [PGSIZE] at *; omega)
    rw [MemView.walk_setPte_ne hne]
    exact h.unmapped c hc (by omega)

end Mapped

end Paging
