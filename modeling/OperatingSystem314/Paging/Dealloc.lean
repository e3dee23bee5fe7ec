import OperatingSystem314.Paging.Growth
import OperatingSystem314.Paging.Release

/-! # What `deallocuvm` takes away

    `Dealloced k k' d l`: the pages `l` of directory `d` are gone, and
    nothing else is.  In particular the list, the slots and the counters
    are what they were: `deallocuvm` knows the page table only.

    * `dealloced_of_ok`: whenever the loop returns.
    * `dealloced`: it returns where `kfree` accepts the frames. -/

namespace Paging

structure Dealloced (k k' : Kernel) (d : Nat) (l : List Nat) : Prop where
  mem : OnlyMem k k'
  outside : ∀ a, (∀ b ∈ l, a / PGSIZE ≠ b / PGSIZE) → k'.walkpgdir d a = k.walkpgdir d a
  gone : ∀ a ∈ l, ∀ x, k'.walkpgdir d a = some x → x.p = false
  /-- what is still present was not visited -/
  present : ∀ a x, k'.walkpgdir d a = some x → x.p = true → k.walkpgdir d a = some x
  frame : ∀ f, (∀ a ∈ l, ∀ x, k.walkpgdir d a = some x → x.p = true → x.ppn ≠ f) → k'.frame f = k.frame f

namespace Dealloced

variable {k k1 k' : Kernel} {d a : Nat} {l : List Nat}

theorem nil (k : Kernel) (d : Nat) : Dealloced k k d [] :=
  ⟨.refl k, fun _ _ => rfl, nofun, fun _ _ hx _ => hx, fun _ _ => rfl⟩

/-- One page. -/
theorem page (h : deallocPage d k a = .ok k') : Dealloced k k' d [a] := by
  have hmem := deallocPage_mem h
  unfold deallocPage at h
  split at h
  next hnone =>
    cases h
    refine ⟨.refl k, fun _ _ => rfl, ?_, fun _ _ hx _ => hx, fun _ _ => rfl⟩
    intro b hb x hx
    rw [List.mem_singleton.mp hb, hnone] at hx
    cases hx
  next x hx =>
    split at h
    next hp =>
      split at h
      · cases h
      · rw [bind_eq_ok] at h
        obtain ⟨k1, hfree, h⟩ := h
        cases h
        have hwalk : ∀ b, k1.walkpgdir d b = k.walkpgdir d b := by
          rw [kfree_ok hfree]
          intro b
          rfl
        have hframe : k1.frame = Function.update k.frame x.ppn fun _ => 1 := by
          rw [kfree_ok hfree]
        refine ⟨hmem, ?_, ?_, ?_, ?_⟩
        · intro b hb
          rw [walkpgdir_setPte_ne (hb a (List.mem_singleton_self a)), hwalk]
        · intro b hb y hy
          rw [List.mem_singleton.mp hb, walkpgdir_setPte_self ((hwalk a).trans hx)] at hy
          cases hy
          rfl
        · intro b y hy hyp
          rcases walkpgdir_setPte_cases hy with ⟨-, rfl⟩ | ⟨-, hold⟩
          · cases hyp
          · rwa [hwalk] at hold
        · intro f hf
          have hne := hf a (List.mem_singleton_self a) x hx hp
          show k1.frame f = k.frame f
          rw [hframe, Function.update_of_ne (Ne.symm hne)]
    next hp =>
      cases h
      refine ⟨.refl k, fun _ _ => rfl, ?_, fun _ _ hy _ => hy, fun _ _ => rfl⟩
      intro b hb y hy
      rw [List.mem_singleton.mp hb, hx] at hy
      cases hy
      simpa using hp

theorem cons (h : Dealloced k k1 d [a]) (h' : Dealloced k1 k' d l) : Dealloced k k' d (a :: l) := by
  refine ⟨h.mem.trans h'.mem, ?_, ?_, ?_, ?_⟩
  · intro b hb
    rw [h'.outside b fun c hc => hb c (List.mem_cons_of_mem a hc), h.outside b]
    intro c hc
    rw [List.mem_singleton.mp hc]
    exact hb a List.mem_cons_self
  · intro b hb x hx
    rcases List.mem_cons.mp hb with rfl | hb
    · -- the rounds that follow make no entry present
      by_contra hp
      have hp' : x.p = true := by simpa using hp
      have := h.gone b (List.mem_singleton_self b) x (h'.present b x hx hp')
      exact hp this
    · exact h'.gone b hb x hx
  · intro b x hx hp
    exact h.present b x (h'.present b x hx hp) hp
  · intro f hf
    rw [h'.frame f, h.frame f]
    · intro b hb
      rw [List.mem_singleton.mp hb]
      exact hf a List.mem_cons_self
    · intro b hb x hx hp
      exact hf b (List.mem_cons_of_mem a hb) x (h.present b x hx hp) hp

end Dealloced

/-- What the loop of `deallocuvm` has done when it ends, by induction on
    the pages it visits. -/
theorem dealloced_of_ok {d : Nat} {l : List Nat} {k k' : Kernel} (h : l.foldlM (deallocPage d) k = .ok k') :
    Dealloced k k' d l := by
  induction l generalizing k with
  | nil =>
    cases h
    exact .nil _ d
  | cons a l ih =>
    rw [List.foldlM_cons, bind_eq_ok] at h
    obtain ⟨k1, hpage, h⟩ := h
    exact (Dealloced.page hpage).cons (ih h)

/-- `kfree` accepts the frames of the present pages of `l`. -/
structure Releasable (k : Kernel) (d : Nat) (l : List Nat) : Prop where
  pos : 0 < k.kend
  frameOk : ∀ a ∈ l, ∀ x, k.walkpgdir d a = some x → x.p = true → k.FrameOk x.ppn

/-- The loop ends. -/
theorem dealloced {k : Kernel} {d : Nat} {l : List Nat} (h : Releasable k d l) :
    ∃ k', l.foldlM (deallocPage d) k = .ok k' ∧ Dealloced k k' d l := by
  have hpage : ∀ k1 : Kernel, ∀ a ∈ l, Releasable k1 d l → ∃ k2, deallocPage d k1 a = .ok k2 ∧ Releasable k2 d l := by
    intro k1 a ha h1
    have hstep : ∃ k2, deallocPage d k1 a = .ok k2 := by
      unfold deallocPage
      split
      · exact ⟨_, rfl⟩
      next x hx =>
        by_cases hp : x.p = true
        · have hok := h1.frameOk a ha x hx hp
          have hne : x.ppn ≠ 0 := by
            have := hok.1
            have := h1.pos
            omega
          rw [if_pos hp, if_neg hne, kfree_eq hok]
          exact ⟨_, rfl⟩
        · rw [if_neg hp]
          exact ⟨_, rfl⟩
    obtain ⟨k2, hk2⟩ := hstep
    have hd := Dealloced.page hk2
    refine ⟨k2, hk2, ?_, ?_⟩
    · rw [hd.mem.kend]
      exact h1.pos
    · intro b hb x hx hp
      rw [hd.mem.frameOk]
      exact h1.frameOk b hb x (hd.present b x hx hp) hp
  obtain ⟨k', hk', -⟩ := foldlM_returns hpage h
  exact ⟨k', hk', dealloced_of_ok hk'⟩

/-- Every page of a range is aligned, and in it. -/
theorem mem_pageRange {lo hi a : Nat} (hlo : lo % PGSIZE = 0) :
    a ∈ pageRange lo hi ↔ a % PGSIZE = 0 ∧ lo ≤ a ∧ a < hi := by
  rw [pageRange_eq, mem_nextPages hlo]
  refine and_congr_right fun ha => and_congr_right fun hle => ?_
  simp only [PGSIZE] at *
  omega

/-! ### The undo of `allocuvm` -/

/-- The entry of a page of the current process; `0` without a page table. -/
def Kernel.entry (k : Kernel) (a : Nat) : Pte := (k.walkpgdir k.cur.pgdir a).getD .zero

section entry

variable {k k' : Kernel} {a b : Nat} {x : Pte}

theorem entry_of_walk (hx : k.walkpgdir k.cur.pgdir a = some x) : k.entry a = x := by
  rw [Kernel.entry, hx]
  rfl

theorem walk_of_entry (hp : (k.entry a).p = true) : k.walkpgdir k.cur.pgdir a = some (k.entry a) := by
  unfold Kernel.entry at hp ⊢
  cases hx : k.walkpgdir k.cur.pgdir a with
  | some x => rfl
  | none =>
    rw [hx] at hp
    cases hp

/-- What a page holds, by its entry. -/
theorem holds_iff_entry {bytes : Nat → UInt8} : Holds k a bytes ↔
    ((k.entry a).p = true ∧ ∀ j < PGSIZE, k.frame (k.entry a).ppn j = bytes j) ∨
    ∃ i f, k.cur.pagesInSwapFile i = ⟨a, true⟩ ∧ k.cur.swapFile = some f ∧
      ∀ j < PGSIZE, k.fs.slotByte f i j = bytes j := by
  refine or_congr_left ⟨?_, ?_⟩
  · rintro ⟨x, hx, hp, hbytes⟩
    rw [entry_of_walk hx]
    exact ⟨hp, hbytes⟩
  · rintro ⟨hp, hbytes⟩
    exact ⟨_, walk_of_entry hp, hp, hbytes⟩

end entry

/-- Nothing changed below `lim`, and neither the process nor the files. -/
structure Undone (k k' : Kernel) (lim : Nat) : Prop where
  mem : OnlyMem k k'
  entry : ∀ a, a % PGSIZE = 0 → a < lim → k'.entry a = k.entry a
  frame : ∀ a, a % PGSIZE = 0 → a < lim → (k.entry a).p = true →
    k'.frame (k.entry a).ppn = k.frame (k.entry a).ppn

namespace Undone

variable {k k1 k' : Kernel} {lim a f : Nat}

theorem refl (k : Kernel) (lim : Nat) : Undone k k lim := ⟨.refl k, fun _ _ _ => rfl, fun _ _ _ _ => rfl⟩

theorem trans (h : Undone k k1 lim) (h' : Undone k1 k' lim) : Undone k k' lim := by
  refine ⟨h.mem.trans h'.mem, ?_, ?_⟩
  · intro a ha hlt
    rw [h'.entry a ha hlt, h.entry a ha hlt]
  · intro a ha hlt hp
    have hframe := h'.frame a ha hlt
    rw [h.entry a ha hlt] at hframe
    rw [hframe hp, h.frame a ha hlt hp]

/-- A frame is filled that no page below `lim` lies in. -/
theorem fill (h : Undone k k1 lim)
    (hf : ∀ a, a % PGSIZE = 0 → a < lim → (k.entry a).p = true → (k.entry a).ppn ≠ f)
    (freelist : List Nat) (bytes : Nat → UInt8) : Undone k { k1.setFrame f bytes with freelist } lim := by
  refine ⟨h.mem.trans ⟨_, _, _, rfl⟩, h.entry, ?_⟩
  intro a ha hlt hp
  rw [← h.frame a ha hlt hp]
  exact Function.update_of_ne (hf a ha hlt hp) _ _

theorem holds {bytes : Nat → UInt8} (h : Undone k k' lim) (ha : a % PGSIZE = 0) (hlt : a < lim) :
    Holds k' a bytes ↔ Holds k a bytes := by
  rw [holds_iff_entry, holds_iff_entry, h.mem.cur, h.mem.fs, h.entry a ha hlt]
  refine or_congr_left (and_congr_right fun hp => ?_)
  rw [h.frame a ha hlt hp]

end Undone

/-- The frames of the pages below `lim` are neither free nor mapped above. -/
structure Sound (k : Kernel) (lim : Nat) : Prop where
  free : ∀ a, a % PGSIZE = 0 → a < lim → (k.entry a).p = true → (k.entry a).ppn ∉ k.freelist
  apart : ∀ a b, a % PGSIZE = 0 → a < lim → b % PGSIZE = 0 → lim ≤ b → b < KERNBASE →
    (k.entry a).p = true → (k.entry b).p = true → (k.entry a).ppn ≠ (k.entry b).ppn

/-- `deallocuvm` of the pages from `oldsz` on leaves the others alone. -/
theorem Sound.dealloc {k k' : Kernel} {oldsz newsz m : Nat} (h : Sound k (PGROUNDUP oldsz)) (hsmall : newsz ≤ KERNBASE)
    (hrun : deallocuvm k k.cur.pgdir newsz oldsz = .ok (m, k')) : Undone k k' (PGROUNDUP oldsz) := by
  unfold deallocuvm at hrun
  split at hrun
  · cases hrun
    exact .refl k _
  · rw [bind_eq_ok] at hrun
    obtain ⟨k1, hfold, hrun⟩ := hrun
    cases hrun
    have hd := dealloced_of_ok hfold
    have hmem : ∀ b ∈ pageRange (PGROUNDUP oldsz) newsz, b % PGSIZE = 0 ∧ PGROUNDUP oldsz ≤ b ∧ b < newsz :=
      fun b hb => (mem_pageRange (PGROUNDUP_aligned oldsz)).mp hb
    refine ⟨hd.mem, ?_, ?_⟩
    · intro a ha hlt
      unfold Kernel.entry
      rw [hd.mem.cur, hd.outside a]
      intro b hb
      obtain ⟨hal, hle, -⟩ := hmem b hb
      exact page_ne ha hal (by omega)
    · intro a ha hlt hp
      apply hd.frame
      intro b hb y hy hyp heq
      obtain ⟨hal, hle, hb⟩ := hmem b hb
      apply h.apart a b ha hlt hal hle (Nat.lt_of_lt_of_le hb hsmall) hp
      · rw [entry_of_walk hy]
        exact hyp
      · rw [entry_of_walk hy, heq]

end Paging
