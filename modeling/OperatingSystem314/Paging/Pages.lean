import OperatingSystem314.Lib.Ownership
import OperatingSystem314.Paging.Exec
import OperatingSystem314.Paging.Child

/-! # Pages in use

    `InUse ds hs k`: the directories `ds` with their page tables and the
    frames of their present entries, and the pages `hs` that some routine
    holds, are all different, and none of them is free.  Frame `0` is not
    counted: an entry can come to map it, since that is what `PTE_ADDR` of
    an absent entry is.

    Every routine keeps it, from whatever state, as long as it returns. -/

namespace Paging

open Ownership

/-! ### The parts of a directory -/

/-- What a directory occupies: the frames of its present entries, its page
    tables, those of the kernel half, and a page for itself. -/
inductive Part where
  | page (n : Nat)
  | table (i : Nat)
  | kern (i : Nat)
  | dir
  deriving DecidableEq

/-- The frame of a present entry, unless it is frame `0`. -/
def Pte.frame (x : Pte) : Option Nat := if x.p ∧ x.ppn ≠ 0 then some x.ppn else none

/-- The page in which a part of the directory in page `d` lies. -/
def Pgdir.part (pd : Pgdir) (d : Nat) : Part → Option Nat
  | .page n => (pd.walk (n * PGSIZE)).bind Pte.frame
  | .table i => (pd.pde i).map PageTable.ppn
  | .kern i => pd.kern[i]?
  | .dir => some d

/-- A part of some directory, or a page that is held. -/
abbrev Place : Type := Sum (Nat × Part) Nat

def inUse (pgdir : Nat → Pgdir) (ds hs : List Nat) : Place → Option Nat
  | .inl (d, part) => if d ∈ ds then (pgdir d).part d part else none
  | .inr f => if f ∈ hs then some f else none

structure InUse (ds hs : List Nat) (k : Kernel) : Prop where
  kend : 0 < k.kend
  dirs : ds.Nodup
  held : hs.Nodup
  /-- `PTE_ADDR` of an absent entry is `0` -/
  absent : ∀ d ∈ ds, ∀ va x, k.walkpgdir d va = some x → x.p = false → x.ppn = 0
  inv : Inv (inUse k.pgdir ds hs) k.freelist k.FrameOk

theorem inUse_inl {pgdir : Nat → Pgdir} {ds hs : List Nat} {d g : Nat} {part : Part} :
    inUse pgdir ds hs (.inl (d, part)) = some g ↔ d ∈ ds ∧ (pgdir d).part d part = some g := by
  show (if d ∈ ds then (pgdir d).part d part else none) = some g ↔ _
  split
  · simp [*]
  · simp [*]

theorem inUse_inr {pgdir : Nat → Pgdir} {ds hs : List Nat} {f g : Nat} :
    inUse pgdir ds hs (.inr f) = some g ↔ f ∈ hs ∧ f = g := by
  show (if f ∈ hs then some f else none) = some g ↔ _
  split
  · simp [*]
  · simp [*]

theorem Pte.frame_eq_some {x : Pte} {f : Nat} : x.frame = some f ↔ x.p = true ∧ x.ppn ≠ 0 ∧ x.ppn = f := by
  unfold Pte.frame
  split
  next h => simp [h.1, h.2]
  next h =>
    constructor
    · exact nofun
    · rintro ⟨hp, h0, -⟩
      exact absurd ⟨hp, h0⟩ h

section pgdir

variable (pd : Pgdir) {va d i : Nat} {x : Pte}

/-- Writing an entry moves no page table. -/
theorem Pgdir.setPte_table : ((pd.setPte va x).pde i).map PageTable.ppn = (pd.pde i).map PageTable.ppn := by
  unfold Pgdir.setPte
  split
  · rfl
  next t ht =>
    by_cases hi : i = PDX va
    · simp [hi, ht]
    · simp [hi]

theorem Pgdir.setPte_kern : (pd.setPte va x).kern = pd.kern := by
  unfold Pgdir.setPte
  split <;> rfl

/-- The parts after an entry was written. -/
theorem Pgdir.part_setPte {part : Part} {g : Nat} (h : (pd.setPte va x).part d part = some g) :
    (part = .page (va / PGSIZE) ∧ x.frame = some g) ∨
      (part ≠ .page (va / PGSIZE) ∧ pd.part d part = some g) := by
  cases part with
  | page n =>
    obtain ⟨y, hy, hg⟩ := Option.bind_eq_some_iff.mp h
    have hn : n * PGSIZE / PGSIZE = n := Nat.mul_div_cancel n (by decide)
    rcases pd.walk_setPte_cases hy with ⟨hpage, rfl⟩ | ⟨hpage, hold⟩
    · rw [hn] at hpage
      exact .inl ⟨by rw [hpage], hg⟩
    · right
      rw [hn] at hpage
      refine ⟨fun heq => hpage (Part.page.inj heq), ?_⟩
      exact Option.bind_eq_some_iff.mpr ⟨y, hold, hg⟩
  | table i =>
    rw [show (pd.setPte va x).part d (.table i) = pd.part d (.table i) from pd.setPte_table] at h
    exact .inr ⟨nofun, h⟩
  | kern i =>
    have hkern : (pd.setPte va x).part d (.kern i) = pd.part d (.kern i) := by
      unfold Pgdir.part
      rw [Pgdir.setPte_kern]
    rw [hkern] at h
    exact .inr ⟨nofun, h⟩
  | dir => exact .inr ⟨nofun, h⟩

end pgdir

namespace InUse

variable {ds hs : List Nat} {k k' : Kernel} {d f va : Nat} {x y : Pte}

/-- The same pages, whatever they contain. -/
theorem congr (h : InUse ds hs k) (hkend : k'.kend = k.kend) (hpgdir : k'.pgdir = k.pgdir)
    (hfree : k'.freelist = k.freelist) : InUse ds hs k' := by
  have hok : k'.FrameOk = k.FrameOk := by
    unfold Kernel.FrameOk
    rw [hkend]
  refine ⟨by rw [hkend]; exact h.kend, h.dirs, h.held, ?_, ?_⟩
  · unfold Kernel.walkpgdir
    rw [hpgdir]
    exact h.absent
  · rw [hok, hpgdir, hfree]
    exact h.inv

/-- The pages after an entry of one directory was written. -/
theorem inUse_setPte {i : Place} {g : Nat} (hi : inUse (k.setPte d va x).pgdir ds hs i = some g) :
    (i = .inl (d, .page (va / PGSIZE)) ∧ x.frame = some g) ∨
      (i ≠ .inl (d, .page (va / PGSIZE)) ∧ inUse k.pgdir ds hs i = some g) := by
  rcases i with ⟨e, part⟩ | f
  · obtain ⟨he, hi⟩ := inUse_inl.mp hi
    by_cases hed : e = d
    · subst hed
      have hupd : (k.setPte e va x).pgdir e = (k.pgdir e).setPte va x := Function.update_self _ _ _
      rw [hupd] at hi
      rcases Pgdir.part_setPte _ hi with ⟨rfl, hg⟩ | ⟨hne, hold⟩
      · exact .inl ⟨rfl, hg⟩
      · right
        refine ⟨fun heq => hne (congrArg Prod.snd (Sum.inl.inj heq)), ?_⟩
        exact inUse_inl.mpr ⟨he, hold⟩
    · have hupd : (k.setPte d va x).pgdir e = k.pgdir e := Function.update_of_ne hed _ _
      rw [hupd] at hi
      right
      refine ⟨fun heq => hed (congrArg Prod.fst (Sum.inl.inj heq)), ?_⟩
      exact inUse_inl.mpr ⟨he, hi⟩
  · exact .inr ⟨nofun, hi⟩

theorem absent_setPte (h : InUse ds hs k) (hx : x.p = false → x.ppn = 0) (e : Nat) (he : e ∈ ds) (a : Nat)
    (y : Pte) (hy : (k.setPte d va x).walkpgdir e a = some y) (hp : y.p = false) : y.ppn = 0 := by
  by_cases hed : e = d
  · subst hed
    rcases walkpgdir_setPte_cases hy with ⟨-, rfl⟩ | ⟨-, hold⟩
    · exact hx hp
    · exact h.absent e he a y hold hp
  · rw [walkpgdir_setPte_dir hed] at hy
    exact h.absent e he a y hy hp

/-- The page of an entry. -/
theorem inUse_page (hd : d ∈ ds) (hy : k.walkpgdir d va = some y) (hp : y.p = true) (h0 : y.ppn ≠ 0) :
    inUse k.pgdir ds hs (.inl (d, .page (va / PGSIZE))) = some y.ppn := by
  refine inUse_inl.mpr ⟨hd, ?_⟩
  refine Option.bind_eq_some_iff.mpr ⟨y, ?_, Pte.frame_eq_some.mpr ⟨hp, h0, rfl⟩⟩
  show k.walkpgdir d (PTE_ADDR va) = some y
  rw [walkpgdir_PTE_ADDR, hy]

/-! ### Entries -/

/-- An entry is written over with one that has no frame, or keeps its own. -/
theorem setPte (h : InUse ds hs k) (hx : x.p = false → x.ppn = 0)
    (hframe : ∀ g, x.frame = some g → inUse k.pgdir ds hs (.inl (d, .page (va / PGSIZE))) = some g) :
    InUse ds hs (k.setPte d va x) := by
  refine ⟨h.kend, h.dirs, h.held, h.absent_setPte hx, h.inv.mono ?_⟩
  intro i g hi
  rcases inUse_setPte hi with ⟨rfl, hg⟩ | ⟨-, hold⟩
  · exact hframe g hg
  · exact hold

theorem setPte_of_frame_none (h : InUse ds hs k) (hx : x.p = false → x.ppn = 0) (hframe : x.frame = none) :
    InUse ds hs (k.setPte d va x) := by
  apply h.setPte hx
  intro g hg
  rw [hframe] at hg
  cases hg

/-- The frame of a page is freed and its entry cleared. -/
theorem free_page (h : InUse ds hs k) (hd : d ∈ ds) (hy : k.walkpgdir d va = some y) (hp : y.p = true)
    (hfree : kfree k y.ppn = .ok k') (hxp : x.p = false) (hx0 : x.ppn = 0) :
    InUse ds hs (k'.setPte d va x) := by
  have hok : k.FrameOk y.ppn := by
    unfold kfree at hfree
    split at hfree
    · assumption
    · cases hfree
  have h0 : y.ppn ≠ 0 := by
    have := hok.1
    have := h.kend
    omega
  rw [kfree_ok hfree]
  -- in the other order, the frame is never free and mapped at once
  have hsub : ∀ i g, inUse (k.setPte d va x).pgdir ds hs i = some g →
      i ≠ .inl (d, .page (va / PGSIZE)) ∧ inUse k.pgdir ds hs i = some g := by
    intro i g hi
    rcases inUse_setPte hi with ⟨-, hg⟩ | hold
    · obtain ⟨hp', -⟩ := Pte.frame_eq_some.mp hg
      rw [hxp] at hp'
      cases hp'
    · exact hold
  obtain ⟨hinv, hnobody⟩ := h.inv.take (inUse_page hd hy hp h0) hsub
  exact ⟨h.kend, h.dirs, h.held, h.absent_setPte fun _ => hx0, hinv.release hnobody⟩

/-- A page that is held is mapped. -/
theorem map_page (h : InUse ds (x.ppn :: hs) k) (hp : x.p = true) : InUse ds hs (k.setPte d va x) := by
  have hheld := List.nodup_cons.mp h.held
  have hmem : x.ppn ∈ x.ppn :: hs := by simp
  have hown : inUse k.pgdir ds (x.ppn :: hs) (.inr x.ppn) = some x.ppn := inUse_inr.mpr ⟨hmem, rfl⟩
  refine ⟨h.kend, h.dirs, hheld.2, ?_, ?_⟩
  · intro e he a y hy hyp
    exact h.absent_setPte (fun hp' => by rw [hp] at hp'; cases hp') e he a y hy hyp
  refine h.inv.move (l := .inl (d, .page (va / PGSIZE))) hown ?_
  intro i g hi
  rcases inUse_setPte hi with ⟨rfl, hg⟩ | ⟨-, hold⟩
  · exact .inl ⟨rfl, (Pte.frame_eq_some.mp hg).2.2.symm⟩
  · right
    rcases i with ⟨e, part⟩ | f
    · exact ⟨nofun, inUse_inl.mpr (inUse_inl.mp hold)⟩
    · obtain ⟨hf, rfl⟩ := inUse_inr.mp hold
      refine ⟨?_, inUse_inr.mpr ⟨List.mem_cons_of_mem _ hf, rfl⟩⟩
      rintro heq
      cases heq
      exact hheld.1 hf

/-- The page at `b` hands its frame, if it has one, over to the page at `va`. -/
theorem exchange {b : Nat} {z : Pte} (h : InUse ds hs k) (hd : d ∈ ds) (hy : k.walkpgdir d b = some y)
    (hxp : x.p = true) (hx : x.ppn = y.ppn) (hzp : z.p = false) (hz0 : z.ppn = 0) :
    InUse ds hs ((k.setPte d va x).setPte d b z) := by
  set k1 := k.setPte d va x with hk1
  have habsent1 : ∀ e ∈ ds, ∀ a w, k1.walkpgdir e a = some w → w.p = false → w.ppn = 0 := by
    intro e he a w hw hwp
    exact h.absent_setPte (fun hp' => by rw [hxp] at hp'; cases hp') e he a w hw hwp
  have hsub : ∀ i g, inUse (k1.setPte d b z).pgdir ds hs i = some g →
      (i = .inl (d, .page (va / PGSIZE)) ∧ x.frame = some g) ∨
        (i ≠ .inl (d, .page (b / PGSIZE)) ∧ inUse k.pgdir ds hs i = some g) := by
    intro i g hi
    rcases inUse_setPte hi with ⟨-, hg⟩ | ⟨hne, hold1⟩
    · rw [(Pte.frame_eq_some.mp hg).1] at hzp
      cases hzp
    · rcases inUse_setPte hold1 with hnew | ⟨-, hold⟩
      · exact .inl hnew
      · exact .inr ⟨hne, hold⟩
  refine ⟨h.kend, h.dirs, h.held, ?_, ?_⟩
  · intro e he a w hw hwp
    by_cases hed : e = d
    · subst hed
      rcases walkpgdir_setPte_cases hw with ⟨-, rfl⟩ | ⟨-, hold⟩
      · exact hz0
      · exact habsent1 e he a w hold hwp
    · rw [walkpgdir_setPte_dir hed] at hw
      exact habsent1 e he a w hw hwp
  by_cases hy0 : y.p = true ∧ y.ppn ≠ 0
  · refine h.inv.move (l := .inl (d, .page (va / PGSIZE))) (inUse_page hd hy hy0.1 hy0.2) ?_
    intro i g hi
    rcases hsub i g hi with ⟨rfl, hg⟩ | hold
    · exact .inl ⟨rfl, (Pte.frame_eq_some.mp hg).2.2.symm.trans hx⟩
    · exact .inr hold
  · -- the page at `va` gets frame 0
    apply h.inv.mono
    intro i g hi
    rcases hsub i g hi with ⟨rfl, hg⟩ | ⟨-, hold⟩
    · have hx0 : x.ppn = 0 := by
        by_contra hne
        rw [hx] at hne
        exact hne (h.absent d hd b y hy (by simpa [hne] using hy0))
      exact absurd hx0 (Pte.frame_eq_some.mp hg).2.1
    · exact hold

/-! ### Pages that are held -/

/-- `kalloc` -/
theorem kalloc {rest : List Nat} (h : InUse ds hs k) (hfree : k.freelist = f :: rest) :
    InUse ds (f :: hs) { k with freelist := rest } := by
  have hinv := h.inv
  rw [hfree] at hinv
  obtain ⟨hinv, hf⟩ := hinv.alloc
  have hnew : f ∉ hs := fun hmem => hf.unowned (.inr f) (inUse_inr.mpr ⟨hmem, rfl⟩)
  refine ⟨h.kend, h.dirs, List.nodup_cons.mpr ⟨hnew, h.held⟩, h.absent, hinv.give hf (i := .inr f) ?_⟩
  rintro (⟨e, part⟩ | g') g hi
  · exact .inr (inUse_inl.mpr (inUse_inl.mp hi))
  · obtain ⟨hmem, rfl⟩ := inUse_inr.mp hi
    rcases List.mem_cons.mp hmem with rfl | hmem
    · exact .inl ⟨rfl, rfl⟩
    · exact .inr (inUse_inr.mpr ⟨hmem, rfl⟩)

theorem kfree (h : InUse ds (f :: hs) k) (hfree : Paging.kfree k f = .ok k') : InUse ds hs k' := by
  have hheld := List.nodup_cons.mp h.held
  have hown : inUse k.pgdir ds (f :: hs) (.inr f) = some f := inUse_inr.mpr ⟨by simp, rfl⟩
  rw [kfree_ok hfree]
  have hsub : ∀ j g, inUse k.pgdir ds hs j = some g →
      j ≠ .inr f ∧ inUse k.pgdir ds (f :: hs) j = some g := by
    rintro (⟨e, part⟩ | g') g hi
    · exact ⟨nofun, inUse_inl.mpr (inUse_inl.mp hi)⟩
    · obtain ⟨hmem, rfl⟩ := inUse_inr.mp hi
      refine ⟨?_, inUse_inr.mpr ⟨List.mem_cons_of_mem _ hmem, rfl⟩⟩
      intro heq
      cases heq
      exact hheld.1 hmem
  obtain ⟨hinv, hf⟩ := h.inv.take hown hsub
  exact ⟨h.kend, h.dirs, hheld.2, h.absent, hinv.release hf⟩

/-- A page that is held is forgotten, and never freed. -/
theorem forget (h : InUse ds (f :: hs) k) : InUse ds hs k := by
  refine ⟨h.kend, h.dirs, (List.nodup_cons.mp h.held).2, h.absent, h.inv.mono ?_⟩
  rintro (⟨e, part⟩ | g') g hi
  · exact inUse_inl.mpr (inUse_inl.mp hi)
  · obtain ⟨hmem, rfl⟩ := inUse_inr.mp hi
    exact inUse_inr.mpr ⟨List.mem_cons_of_mem _ hmem, rfl⟩

/-- Two pages that are held, in the other order. -/
theorem swap {g : Nat} (h : InUse ds (f :: g :: hs) k) : InUse ds (g :: f :: hs) k := by
  refine ⟨h.kend, h.dirs, (List.Perm.swap g f hs).nodup_iff.mp h.held, h.absent, h.inv.mono ?_⟩
  rintro (⟨e, part⟩ | g') a hi
  · exact inUse_inl.mpr (inUse_inl.mp hi)
  · obtain ⟨hmem, rfl⟩ := inUse_inr.mp hi
    exact inUse_inr.mpr ⟨(List.Perm.swap f g hs).mem_iff.mp hmem, rfl⟩

/-! ### Mapping -/

/-- A new page table: its entries are absent. -/
theorem new_table {t : Nat} (h : InUse ds (t :: hs) k) (hnone : (k.pgdir d).pde (PDX va) = none) :
    InUse ds hs { k with
      pgdir := Function.update k.pgdir d { k.pgdir d with
        pde := Function.update (k.pgdir d).pde (PDX va) (some ⟨t, fun _ => .zero⟩) } } := by
  set pd : Pgdir := { k.pgdir d with
    pde := Function.update (k.pgdir d).pde (PDX va) (some ⟨t, fun _ => .zero⟩) } with hpd
  have hheld := List.nodup_cons.mp h.held
  have hown : inUse k.pgdir ds (t :: hs) (.inr t) = some t := inUse_inr.mpr ⟨by simp, rfl⟩
  have hwalk : ∀ a y, pd.walk a = some y → y = .zero ∨ (k.pgdir d).walk a = some y := by
    intro a y hy
    by_cases hdx : PDX a = PDX va
    · simp only [Pgdir.walk, hpd, hdx, Function.update_self, Option.map_some, Option.some.injEq] at hy
      exact .inl hy.symm
    · simp only [Pgdir.walk, hpd, Function.update_of_ne hdx] at hy
      exact .inr hy
  have hpart : ∀ part g, pd.part d part = some g →
      (part = .table (PDX va) ∧ g = t) ∨ (k.pgdir d).part d part = some g := by
    intro part g hg
    cases part with
    | page n =>
      obtain ⟨y, hy, hyg⟩ := Option.bind_eq_some_iff.mp hg
      rcases hwalk _ _ hy with rfl | hold
      · cases (Pte.frame_eq_some.mp hyg).1
      · exact .inr (Option.bind_eq_some_iff.mpr ⟨y, hold, hyg⟩)
    | table i =>
      by_cases hi : i = PDX va
      · subst hi
        simp only [Pgdir.part, hpd, Function.update_self, Option.map_some, Option.some.injEq] at hg
        exact .inl ⟨rfl, hg.symm⟩
      · simp only [Pgdir.part, hpd, Function.update_of_ne hi] at hg
        exact .inr hg
    | kern i => exact .inr hg
    | dir => exact .inr hg
  refine ⟨h.kend, h.dirs, hheld.2, ?_, h.inv.move (l := .inl (d, .table (PDX va))) hown ?_⟩
  · intro e he a y hy hp
    by_cases hed : e = d
    · subst hed
      simp only [Kernel.walkpgdir, Function.update_self] at hy
      rcases hwalk a y hy with rfl | hold
      · rfl
      · exact h.absent e he a y hold hp
    · simp only [Kernel.walkpgdir, Function.update_of_ne hed] at hy
      exact h.absent e he a y hy hp
  · rintro (⟨e, part⟩ | g') g hi
    · obtain ⟨he, hg⟩ := inUse_inl.mp hi
      by_cases hed : e = d
      · subst hed
        simp only [Function.update_self] at hg
        rcases hpart part g hg with ⟨rfl, rfl⟩ | hold
        · exact .inl ⟨rfl, rfl⟩
        · exact .inr ⟨by simp, inUse_inl.mpr ⟨he, hold⟩⟩
      · simp only [Function.update_of_ne hed] at hg
        exact .inr ⟨by simp, inUse_inl.mpr ⟨he, hg⟩⟩
    · obtain ⟨hmem, rfl⟩ := inUse_inr.mp hi
      right
      refine ⟨?_, inUse_inr.mpr ⟨List.mem_cons_of_mem _ hmem, rfl⟩⟩
      intro heq
      cases heq
      exact hheld.1 hmem

theorem walkpgdirAlloc {b : Bool} (h : InUse ds hs k) (halloc : Paging.walkpgdirAlloc k d va = (b, k')) :
    InUse ds hs k' ∧ (b = false → k' = k) := by
  unfold Paging.walkpgdirAlloc at halloc
  split at halloc
  · cases halloc
    exact ⟨h, fun _ => rfl⟩
  next hnone =>
    unfold Paging.kalloc at halloc
    cases hfree : k.freelist with
    | nil =>
      rw [hfree] at halloc
      cases halloc
      exact ⟨h, fun _ => rfl⟩
    | cons t rest =>
      rw [hfree] at halloc
      cases halloc
      exact ⟨(h.kalloc hfree).new_table hnone, fun hb => Bool.noConfusion hb⟩

/-- On failure nothing has changed, and the page is still held. -/
theorem mappages {r : Int} (h : InUse ds (x.ppn :: hs) k) (hmap : Paging.mappages k d va x = .ok (r, k')) :
    (r < 0 ∧ k' = k) ∨ (r = 0 ∧ InUse ds hs k') := by
  unfold Paging.mappages at hmap
  split at hmap
  next k1 hk1 =>
    cases hmap
    exact .inl ⟨by decide, (h.walkpgdirAlloc hk1).2 rfl⟩
  next k1 hk1 =>
    have h1 := (h.walkpgdirAlloc hk1).1
    rw [bind_eq_ok] at hmap
    obtain ⟨pte, -, hmap⟩ := hmap
    split at hmap
    · cases hmap
    · cases hmap
      set y : Pte := { x with p := true } with hy
      have h2 : InUse ds (y.ppn :: hs) k1 := h1
      exact .inr ⟨rfl, h2.map_page rfl⟩

/-! ### Releasing directories -/

theorem deallocPage {a : Nat} (h : InUse ds hs k) (hd : d ∈ ds) (hok : Paging.deallocPage d k a = .ok k') :
    InUse ds hs k' := by
  unfold Paging.deallocPage at hok
  split at hok
  · cases hok
    exact h
  next y hy =>
    split at hok
    next hp =>
      split at hok
      · cases hok
      · rw [bind_eq_ok] at hok
        obtain ⟨k1, hfree, hok⟩ := hok
        cases hok
        exact h.free_page hd hy hp hfree rfl rfl
    · cases hok
      exact h

theorem deallocuvm {oldsz newsz n : Nat} (h : InUse ds hs k) (hd : d ∈ ds)
    (hok : Paging.deallocuvm k d oldsz newsz = .ok (n, k')) : InUse ds hs k' := by
  unfold Paging.deallocuvm at hok
  split at hok
  · cases hok
    exact h
  rw [bind_eq_ok] at hok
  obtain ⟨k1, hfold, hok⟩ := hok
  cases hok
  exact foldlM_ok (R := fun k k' => InUse ds hs k → InUse ds hs k') (fun _ h => h)
    (fun h1 h2 h => h2 (h1 h)) (fun hpage h => h.deallocPage hd hpage) hfold h

/-- The parts of a directory that `freevm` frees at the end are pages that
    nobody has any more once the directory is not in use. -/
theorem drop_dir (h : InUse (d :: ds) hs k) :
    InUse ds hs k ∧ ((k.pgdir d).tables ++ [d]).Nodup ∧
      ∀ f ∈ (k.pgdir d).tables ++ [d], Nobody (inUse k.pgdir ds hs) k.freelist k.FrameOk f := by
  have hds := List.nodup_cons.mp h.dirs
  have hmem : d ∈ d :: ds := by simp
  have hsub : ∀ i g, inUse k.pgdir ds hs i = some g →
      (∀ part, i ≠ .inl (d, part)) ∧ inUse k.pgdir (d :: ds) hs i = some g := by
    rintro (⟨e, part⟩ | g') g hi
    · obtain ⟨he, hg⟩ := inUse_inl.mp hi
      refine ⟨?_, inUse_inl.mpr ⟨List.mem_cons_of_mem _ he, hg⟩⟩
      intro part' heq
      cases heq
      exact hds.1 he
    · exact ⟨fun _ => nofun, inUse_inr.mpr (inUse_inr.mp hi)⟩
  have hinv : Inv (inUse k.pgdir ds hs) k.freelist k.FrameOk := h.inv.mono fun i g hi => (hsub i g hi).2
  -- every page to be freed is some part of the directory
  have hparts : ∀ f ∈ (k.pgdir d).tables ++ [d], ∃ part, (k.pgdir d).part d part = some f := by
    intro f hf
    rcases List.mem_append.mp hf with hf | hf
    · rcases List.mem_append.mp hf with hf | hf
      · obtain ⟨i, -, hi⟩ := List.mem_filterMap.mp hf
        exact ⟨.table i, hi⟩
      · obtain ⟨i, hi⟩ := List.getElem?_of_mem hf
        exact ⟨.kern i, hi⟩
    · obtain rfl := List.mem_singleton.mp hf
      exact ⟨.dir, rfl⟩
  have honce : ∀ part part' f, (k.pgdir d).part d part = some f → (k.pgdir d).part d part' = some f →
      part = part' := by
    intro part part' f hp hp'
    have heq := h.inv.once (.inl (d, part)) (.inl (d, part')) f (inUse_inl.mpr ⟨hmem, hp⟩)
      (inUse_inl.mpr ⟨hmem, hp'⟩)
    exact congrArg Prod.snd (Sum.inl.inj heq)
  refine ⟨⟨h.kend, hds.2, h.held, fun e he => h.absent e (List.mem_cons_of_mem _ he), hinv⟩, ?_, ?_⟩
  · rw [List.nodup_append]
    refine ⟨?_, List.nodup_singleton d, ?_⟩
    · unfold Pgdir.tables
      rw [List.nodup_append]
      refine ⟨?_, ?_, ?_⟩
      · refine List.Nodup.filterMap ?_ List.nodup_range
        intro i j f hi hj
        exact Part.table.inj (honce (.table i) (.table j) f hi hj)
      · rw [List.nodup_iff_injective_getElem]
        intro i j hij
        have hi : (k.pgdir d).part d (.kern i) = some (k.pgdir d).kern[i] := List.getElem?_eq_getElem i.isLt
        have hj : (k.pgdir d).part d (.kern j) = some (k.pgdir d).kern[i] :=
          (List.getElem?_eq_getElem j.isLt).trans (congrArg some hij.symm)
        exact Fin.ext (Part.kern.inj (honce _ _ _ hi hj))
      · rintro f hf _ hf' rfl
        obtain ⟨i, -, hi⟩ := List.mem_filterMap.mp hf
        obtain ⟨j, hj⟩ := List.getElem?_of_mem hf'
        cases honce (.table i) (.kern j) f hi hj
    · rintro f hf _ hf' rfl
      obtain rfl := List.mem_singleton.mp hf'
      rcases List.mem_append.mp hf with hf | hf
      · obtain ⟨i, -, hi⟩ := List.mem_filterMap.mp hf
        cases honce (.table i) .dir f hi rfl
      · obtain ⟨j, hj⟩ := List.getElem?_of_mem hf
        cases honce (.kern j) .dir f hj rfl
  · intro f hf
    obtain ⟨part, hpart⟩ := hparts f hf
    have hown : inUse k.pgdir (d :: ds) hs (.inl (d, part)) = some f := inUse_inl.mpr ⟨hmem, hpart⟩
    refine ⟨h.inv.ownOk _ _ hown, h.inv.taken _ _ hown, ?_⟩
    intro i hi
    obtain ⟨hne, hold⟩ := hsub i f hi
    exact hne part (h.inv.once _ _ f hold hown)

/-- Pages that nobody has, freed one after the other. -/
theorem kfree_all {fs : List Nat} (h : InUse ds hs k)
    (hfs : ∀ f ∈ fs, Nobody (inUse k.pgdir ds hs) k.freelist k.FrameOk f) (hnodup : fs.Nodup)
    (hok : fs.foldlM Paging.kfree k = .ok k') : InUse ds hs k' := by
  induction fs generalizing k with
  | nil =>
    cases hok
    exact h
  | cons f rest ih =>
    rw [List.foldlM_cons, bind_eq_ok] at hok
    obtain ⟨k1, hfree, hok⟩ := hok
    obtain ⟨hf, hrest⟩ := List.nodup_cons.mp hnodup
    have hk1 := kfree_ok hfree
    have h1 : InUse ds hs k1 := by
      rw [hk1]
      exact ⟨h.kend, h.dirs, h.held, h.absent, h.inv.release (hfs f (by simp))⟩
    refine ih h1 ?_ hrest hok
    intro g hg
    rw [hk1]
    apply (hfs g (by simp [hg])).release
    rintro rfl
    exact hf hg

theorem freevm (h : InUse (d :: ds) hs k) (hok : Paging.freevm k d = .ok k') : InUse ds hs k' := by
  unfold Paging.freevm at hok
  split at hok
  · cases hok
  simp only [bind_eq_ok] at hok
  obtain ⟨⟨n, k1⟩, hdealloc, k2, hfold, hfree⟩ := hok
  obtain ⟨h1, hnodup, hnobody⟩ := (h.deallocuvm (by simp) hdealloc).drop_dir
  have hall : ((k1.pgdir d).tables ++ [d]).foldlM Paging.kfree k1 = .ok k' := by
    rw [List.foldlM_append, hfold]
    show ([d].foldlM Paging.kfree k2) = .ok k'
    rw [List.foldlM_cons, hfree]
    rfl
  exact h1.kfree_all hnobody hnodup hall

/-! ### New directories -/

/-- The pages that `setupkvm` takes from the free list `d :: rest`, by their
    place. -/
def carved (d : Nat) (rest : List Nat) : Place → Option Nat
  | .inl (e, .dir) => if e = d then some d else none
  | .inl (e, .kern i) => if e = d then (rest.take NKERNTABLES)[i]? else none
  | _ => none

/-- `setupkvm` puts them into use. -/
theorem carve_dir {rest : List Nat} (h : InUse ds hs k) (hfree : k.freelist = d :: rest) :
    d ∉ ds ∧ InUse (d :: ds) hs { k with
      freelist := rest.drop NKERNTABLES
      pgdir := Function.update k.pgdir d { kern := rest.take NKERNTABLES, pde := fun _ => none } } := by
  set pd : Pgdir := { kern := rest.take NKERNTABLES, pde := fun _ => none } with hpd
  have hnodup := h.inv.nodup
  rw [hfree] at hnodup
  obtain ⟨hd, hrest⟩ := List.nodup_cons.mp hnodup
  have hds : d ∉ ds := fun hmem =>
    h.inv.taken (.inl (d, .dir)) d (inUse_inl.mpr ⟨hmem, rfl⟩) (by rw [hfree]; simp)
  refine ⟨hds, h.kend, List.nodup_cons.mpr ⟨hds, h.dirs⟩, h.held, ?_, ?_⟩
  · intro e he a y hy hp
    by_cases hed : e = d
    · subst hed
      simp [Kernel.walkpgdir, Pgdir.walk, hpd] at hy
    · simp only [Kernel.walkpgdir, Function.update_of_ne hed] at hy
      exact h.absent e ((List.mem_cons.mp he).resolve_left hed) a y hy hp
  have hsplit : rest.take NKERNTABLES ++ rest.drop NKERNTABLES = rest := List.take_append_drop _ _
  have hnd := hrest
  rw [← hsplit] at hnd
  obtain ⟨hndTake, -, hdisj⟩ := List.nodup_append.mp hnd
  set new : Place → Option Nat := carved d rest with hnewdef
  have hnewCases : ∀ i g, new i = some g → (i = .inl (d, .dir) ∧ g = d) ∨
      ∃ j, i = .inl (d, .kern j) ∧ (rest.take NKERNTABLES)[j]? = some g := by
    rintro (⟨e, part⟩ | f) g hg
    · cases part with
      | dir =>
        simp only [hnewdef, carved] at hg
        split at hg
        next he =>
          cases hg
          exact .inl ⟨by rw [he], rfl⟩
        · cases hg
      | kern j =>
        simp only [hnewdef, carved] at hg
        split at hg
        next he => exact .inr ⟨j, by rw [he], hg⟩
        · cases hg
      | page n => cases hg
      | table i => cases hg
    · cases hg
  have hnewFree : ∀ i g, new i = some g → g ∈ k.freelist ∧ g ∉ rest.drop NKERNTABLES := by
    intro i g hg
    rw [hfree]
    rcases hnewCases i g hg with ⟨-, rfl⟩ | ⟨j, -, hj⟩
    · exact ⟨by simp, fun hmem => hd (List.mem_of_mem_drop hmem)⟩
    · have hmem := List.mem_of_getElem? hj
      exact ⟨List.mem_cons_of_mem _ (List.mem_of_mem_take hmem), fun hdrop => hdisj g hmem g hdrop rfl⟩
  refine h.inv.carve ?_ hnewFree ?_ ?_
  · rw [hfree]
    exact (List.drop_sublist _ rest).trans (List.sublist_cons_self d rest)
  · intro i j g hi hj
    rcases hnewCases i g hi with ⟨rfl, rfl⟩ | ⟨a, rfl, ha⟩ <;>
      rcases hnewCases j _ hj with ⟨rfl, hg⟩ | ⟨b, rfl, hb⟩
    · rfl
    · exact absurd (List.mem_of_mem_take (List.mem_of_getElem? hb)) hd
    · rw [hg] at ha
      exact absurd (List.mem_of_mem_take (List.mem_of_getElem? ha)) hd
    · obtain ⟨hlta, hgeta⟩ := List.getElem?_eq_some_iff.mp ha
      obtain ⟨hltb, hgetb⟩ := List.getElem?_eq_some_iff.mp hb
      rw [hndTake.getElem_inj_iff.mp (hgeta.trans hgetb.symm)]
  · rintro (⟨e, part⟩ | f) g hi
    · obtain ⟨he, hg⟩ := inUse_inl.mp hi
      by_cases hed : e = d
      · right
        subst hed
        simp only [Function.update_self] at hg
        cases part with
        | dir =>
          simp only [hnewdef, carved, if_true]
          exact hg
        | kern j =>
          simp only [hnewdef, carved, if_true]
          exact hg
        | page n => simp [Pgdir.part, Pgdir.walk, hpd] at hg
        | table i => simp [Pgdir.part, hpd] at hg
      · left
        simp only [Function.update_of_ne hed] at hg
        exact inUse_inl.mpr ⟨(List.mem_cons.mp he).resolve_left hed, hg⟩
    · exact .inl (inUse_inr.mpr (inUse_inr.mp hi))

/-- The new directory, if there is one, was not in use, and no other has changed. -/
theorem setupkvm {r : Option Nat} (h : InUse ds hs k) (hok : Paging.setupkvm k = .ok (r, k')) :
    (r = none → InUse ds hs k') ∧ ∀ d, r = some d → d ∉ ds ∧ InUse (d :: ds) hs k' := by
  unfold Paging.setupkvm Paging.kalloc at hok
  cases hfree : k.freelist with
  | nil =>
    rw [hfree] at hok
    cases hok
    exact ⟨fun _ => h, nofun⟩
  | cons d rest =>
    rw [hfree] at hok
    simp only [] at hok
    obtain ⟨hd, h1⟩ := h.carve_dir hfree
    split at hok
    · cases hok
      refine ⟨nofun, ?_⟩
      rintro e heq
      cases heq
      exact ⟨hd, h1⟩
    · rw [bind_eq_ok] at hok
      obtain ⟨k2, hfreevm, hok⟩ := hok
      cases hok
      exact ⟨fun _ => h1.freevm hfreevm, nofun⟩

end InUse

end Paging
