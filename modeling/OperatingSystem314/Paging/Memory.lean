import Mathlib.Data.List.Nodup
import Mathlib.Data.List.Perm.Basic
import OperatingSystem314.Paging.PageTable

/-! # The memory of one process

    `Mem g v lim q s m` says that the page table of a process implements
    the flat memory `m` for the pages below `lim`: the pages `q` lie in
    frames of their own, the pages `s` are marked as swapped out, and there
    are no others.  `g` is the guard page, which user mode may not touch.

    It reads only the part of the kernel that `MemView` collects, so that
    whatever changes the queue, the slots or the file system keeps it.
    There is one lemma for each edit of the page table: eviction, exchange
    of two pages, growth by a page, and a store. -/

namespace Paging

/-- What the memory of a process depends on: its directory, the frames,
    and the free list. -/
structure MemView where
  pd : Pgdir
  frame : Nat → Nat → UInt8
  freelist : List Nat
  kend : Nat

def Kernel.view (k : Kernel) (d : Nat) : MemView := ⟨k.pgdir d, k.frame, k.freelist, k.kend⟩

namespace MemView

def walk (v : MemView) (va : Nat) : Option Pte := v.pd.walk va

def FrameOk (v : MemView) (f : Nat) : Prop := v.kend ≤ f ∧ f < PHYSTOP / PGSIZE

def setPte (v : MemView) (va : Nat) (x : Pte) : MemView := { v with pd := v.pd.setPte va x }

def setFrame (v : MemView) (f : Nat) (bytes : Nat → UInt8) : MemView :=
  { v with frame := Function.update v.frame f bytes }

/-- `kfree` of a page it accepts. -/
def free (v : MemView) (f : Nat) : MemView :=
  { v.setFrame f fun _ => 1 with freelist := f :: v.freelist }

section

variable {v : MemView} {va va' f : Nat} {x y : Pte} {bytes : Nat → UInt8}

@[simp] theorem setPte_frame : (v.setPte va x).frame = v.frame := rfl
@[simp] theorem setPte_freelist : (v.setPte va x).freelist = v.freelist := rfl
@[simp] theorem setPte_kend : (v.setPte va x).kend = v.kend := rfl
@[simp] theorem setFrame_walk : (v.setFrame f bytes).walk va = v.walk va := rfl
@[simp] theorem setFrame_freelist : (v.setFrame f bytes).freelist = v.freelist := rfl
@[simp] theorem setFrame_kend : (v.setFrame f bytes).kend = v.kend := rfl
@[simp] theorem free_walk : (v.free f).walk va = v.walk va := rfl
@[simp] theorem free_freelist : (v.free f).freelist = f :: v.freelist := rfl
@[simp] theorem free_kend : (v.free f).kend = v.kend := rfl

@[simp] theorem setFrame_self : (v.setFrame f bytes).frame f = bytes := by simp [setFrame]

theorem setFrame_ne {f' : Nat} (h : f' ≠ f) : (v.setFrame f bytes).frame f' = v.frame f' := by
  simp [setFrame, h]

theorem free_ne {f' : Nat} (h : f' ≠ f) : (v.free f).frame f' = v.frame f' := by
  simp [free, setFrame, h]

theorem walk_setPte_self (h : v.walk va = some y) : (v.setPte va x).walk va = some x :=
  Pgdir.walk_setPte_self _ h

theorem walk_setPte_ne (h : va' / PGSIZE ≠ va / PGSIZE) : (v.setPte va x).walk va' = v.walk va' :=
  Pgdir.walk_setPte_ne _ h

theorem walk_congr (h : va / PGSIZE = va' / PGSIZE) : v.walk va = v.walk va' :=
  Pgdir.walk_congr _ h

theorem walk_PTE_ADDR : v.walk (PTE_ADDR va) = v.walk va := Pgdir.walk_PTE_ADDR _

/-- Writing an entry makes no page table disappear. -/
theorem table_setPte (h : ∃ t, v.pd.pde 0 = some t) (va : Nat) (x : Pte) :
    ∃ t, (v.setPte va x).pd.pde 0 = some t := by
  obtain ⟨t, ht⟩ := h
  simp only [setPte, Pgdir.setPte]
  split
  · exact ⟨t, ht⟩
  · by_cases hva : PDX va = 0
    · simp [hva]
    · refine ⟨t, ?_⟩
      show Function.update v.pd.pde (PDX va) _ 0 = some t
      rw [Function.update_of_ne (Ne.symm hva)]
      exact ht

end

end MemView

/-! ### The invariant -/

/-- Page `a` of the memory `m` lies in the frame its entry `x` names. -/
structure Resident (g : Nat) (v : MemView) (m : Nat → UInt8) (a : Nat) (x : Pte) : Prop where
  walk : v.walk a = some x
  p : x.p = true
  w : x.w = true
  pg : x.pg = false
  u : a ≠ g → x.u = true
  frameOk : v.FrameOk x.ppn
  taken : x.ppn ∉ v.freelist
  bytes : ∀ j < PGSIZE, v.frame x.ppn j = m (a + j)

/-- What `Resident` depends on. -/
theorem Resident.congr {g : Nat} {v v' : MemView} {m m' : Nat → UInt8} {a : Nat} {x : Pte}
    (h : Resident g v m a x) (hwalk : v'.walk a = v.walk a) (hframe : v'.frame x.ppn = v.frame x.ppn)
    (hfree : x.ppn ∉ v'.freelist) (hkend : v'.kend = v.kend)
    (hm : ∀ j < PGSIZE, m' (a + j) = m (a + j)) : Resident g v' m' a x where
  walk := hwalk.trans h.walk
  p := h.p
  w := h.w
  pg := h.pg
  u := h.u
  frameOk := by
    unfold MemView.FrameOk
    rw [hkend]
    exact h.frameOk
  taken := hfree
  bytes := fun j hj => by rw [hframe, hm j hj, h.bytes j hj]

structure Mem (g : Nat) (v : MemView) (lim : Nat) (q s : List Nat) (m : Nat → UInt8) : Prop where
  nodup : (q ++ s).Nodup
  pages : ∀ a, a ∈ q ++ s ↔ a % PGSIZE = 0 ∧ a < lim
  small : lim ≤ MAX_TOTAL_PAGES * PGSIZE
  /-- the page table of the first 4 MB exists -/
  table : ∃ t, v.pd.pde 0 = some t
  resident : ∀ a ∈ q, ∃ x, Resident g v m a x
  /-- no two pages share a frame -/
  inj : ∀ a ∈ q, ∀ b ∈ q, ∀ x y, v.walk a = some x → v.walk b = some y → x.ppn = y.ppn → a = b
  swapped : ∀ a ∈ s, v.walk a = some .swapped
  unmapped : ∀ a, a % PGSIZE = 0 → lim ≤ a → v.walk a = none ∨ v.walk a = some .zero
  zero : ∀ va, lim ≤ PTE_ADDR va → m va = 0
  free : v.freelist.Nodup
  freeOk : ∀ f ∈ v.freelist, v.FrameOk f

namespace Mem

variable {g lim a b i : Nat} {v : MemView} {q s : List Nat} {m : Nat → UInt8} {x y : Pte}

theorem aligned (h : Mem g v lim q s m) (ha : a ∈ q ++ s) : a % PGSIZE = 0 := ((h.pages a).mp ha).1

/-- Different pages have different entries. -/
theorem page_ne (h : Mem g v lim q s m) (ha : a ∈ q ++ s) (hb : b ∈ q ++ s) (hab : a ≠ b) :
    a / PGSIZE ≠ b / PGSIZE :=
  Paging.page_ne (h.aligned ha) (h.aligned hb) hab

theorem resident_of_walk (h : Mem g v lim q s m) (ha : a ∈ q) (hx : v.walk a = some x) :
    Resident g v m a x := by
  obtain ⟨y, hy⟩ := h.resident a ha
  rw [hy.walk] at hx
  cases hx
  exact hy

/-- The entry of every page up to `MAX_TOTAL_PAGES` can be written. -/
theorem walk_some (h : Mem g v lim q s m) (ha : a < MAX_TOTAL_PAGES * PGSIZE) :
    ∃ x, v.walk a = some x := by
  obtain ⟨t, ht⟩ := h.table
  have hdx : PDX a = 0 := by
    simp only [PDX, PGSIZE, MAX_TOTAL_PAGES] at *
    omega
  exact ⟨t.pte (PTX a), by simp [MemView.walk, Pgdir.walk, hdx, ht]⟩

/-- Entries outside the process are not those of its pages. -/
theorem outside_ne (h : Mem g v lim q s m) (ha : a ∈ q ++ s) (hb : b % PGSIZE = 0) (hlim : lim ≤ b) :
    b / PGSIZE ≠ a / PGSIZE := by
  have ha' := (h.pages a).mp ha
  exact Paging.page_ne hb ha'.1 (by omega)

/-- The oldest page is written off: its frame is freed, its entry marked. -/
theorem evict (h : Mem g v lim (a :: q) s m) (hx : v.walk a = some x) :
    Mem g ((v.free x.ppn).setPte a .swapped) lim q (s ++ [a]) m := by
  have hra := h.resident_of_walk (by simp) hx
  have hperm : (a :: q ++ s).Perm (q ++ (s ++ [a])) := by
    rw [← List.append_assoc]
    exact (List.perm_append_singleton a (q ++ s)).symm
  have hmem : ∀ c, c ∈ q → c ≠ a := by
    rintro c hc rfl
    exact (List.nodup_cons.mp h.nodup).1 (by simp [hc])
  have hwalk : ∀ c ∈ a :: q ++ s, c ≠ a →
      ((v.free x.ppn).setPte a .swapped).walk c = v.walk c := fun c hc hca => by
    rw [MemView.walk_setPte_ne (h.page_ne hc (by simp) hca), MemView.free_walk]
  have hppn : ∀ c ∈ q, ∀ z, v.walk c = some z → z.ppn ≠ x.ppn := fun c hc z hz heq =>
    hmem c hc (h.inj c (by simp [hc]) a (by simp) z x hz hx heq)
  refine ⟨hperm.nodup_iff.mp h.nodup, fun c => ?_, h.small, MemView.table_setPte h.table a _, fun c hc => ?_,
    fun c hc d hd z w hz hw => ?_, fun c hc => ?_, fun c hc hlim => ?_, h.zero, ?_, fun f hf => ?_⟩
  · rw [← hperm.mem_iff, h.pages]
  · obtain ⟨z, hz⟩ := h.resident c (by simp [hc])
    have hne := hppn c hc z hz.walk
    refine ⟨z, hz.congr (hwalk c (by simp [hc]) (hmem c hc)) ?_ ?_ rfl fun _ _ => rfl⟩
    · rw [MemView.setPte_frame, MemView.free_ne hne]
    · simp [hne, hz.taken]
  · rw [hwalk c (by simp [hc]) (hmem c hc)] at hz
    rw [hwalk d (by simp [hd]) (hmem d hd)] at hw
    exact h.inj c (by simp [hc]) d (by simp [hd]) z w hz hw
  · rcases List.mem_append.mp hc with hc | hc
    · have hca : c ≠ a := fun heq => by
        rw [heq] at hc
        exact (List.nodup_cons.mp h.nodup).1 (by simp [hc])
      rw [hwalk c (by simp [hc]) hca, h.swapped c hc]
    · obtain rfl := List.mem_singleton.mp hc
      exact MemView.walk_setPte_self hx
  · rw [MemView.walk_setPte_ne (h.outside_ne (by simp) hc hlim), MemView.free_walk]
    exact h.unmapped c hc hlim
  · exact List.nodup_cons.mpr ⟨hra.taken, h.free⟩
  · rcases List.mem_cons.mp hf with rfl | hf
    · exact hra.frameOk
    · exact h.freeOk f hf

/-- A page of the swap file trades places with the oldest resident page. -/
theorem exchange (h : Mem g v lim (b :: q) s m) (hi : s[i]? = some a) (hy : v.walk b = some y)
    {bytes : Nat → UInt8} (hbytes : ∀ j < PGSIZE, bytes j = m (a + j)) :
    Mem g (((v.setPte a ⟨y.ppn, true, true, true, false⟩).setFrame y.ppn bytes).setPte b .swapped)
      lim (q ++ [a]) (s.set i b) m := by
  have hrb := h.resident_of_walk (by simp) hy
  obtain ⟨hlt, hget⟩ := List.getElem?_eq_some_iff.mp hi
  have has : a ∈ s := hget ▸ List.getElem_mem hlt
  have hs : s.Perm (a :: s.eraseIdx i) := hget ▸ (List.getElem_cons_eraseIdx_perm hlt).symm
  have hset : (s.set i b).Perm (b :: s.eraseIdx i) := List.set_perm_cons_eraseIdx hlt b
  have hperm : (b :: q ++ s).Perm (q ++ [a] ++ s.set i b) := by
    refine (hs.append_left _).trans (.trans ?_ (hset.symm.append_left _))
    refine List.perm_iff_count.mpr fun c => ?_
    simp only [List.count_append, List.count_cons, List.count_nil]
    omega
  have hnd : (b :: (q ++ a :: s.eraseIdx i)).Nodup := (hs.append_left (b :: q)).nodup_iff.mp h.nodup
  have hab : a ≠ b := fun heq => by simp [heq] at hnd
  obtain ⟨hb, hrest⟩ := List.nodup_cons.mp hnd
  obtain ⟨-, hae, hdisj⟩ := List.nodup_append.mp hrest
  have hq : ∀ c ∈ q, c ≠ a ∧ c ≠ b := fun c hc =>
    ⟨hdisj c hc a (by simp), fun heq => hb (by simp [← heq, hc])⟩
  have herase : ∀ c ∈ s.eraseIdx i, c ≠ a ∧ c ≠ b := fun c hc =>
    ⟨fun heq => (List.nodup_cons.mp hae).1 (heq ▸ hc), fun heq => hb (by simp [← heq, hc])⟩
  have hsub : ∀ c ∈ s.eraseIdx i, c ∈ s := fun c hc => hs.mem_iff.mpr (by simp [hc])
  set new : Pte := ⟨y.ppn, true, true, true, false⟩
  set v' := ((v.setPte a new).setFrame y.ppn bytes).setPte b .swapped with hv'
  -- the two entries that changed, and all the others
  have hwalka : v'.walk a = some new := by
    rw [hv', MemView.walk_setPte_ne (h.page_ne (by simp [has]) (by simp) hab), MemView.setFrame_walk]
    exact MemView.walk_setPte_self (h.swapped a has)
  have hwalkb : v'.walk b = some .swapped := by
    refine MemView.walk_setPte_self (y := y) ?_
    rw [MemView.setFrame_walk, MemView.walk_setPte_ne (h.page_ne (by simp) (by simp [has]) hab.symm)]
    exact hy
  have hwalk : ∀ c, c / PGSIZE ≠ a / PGSIZE → c / PGSIZE ≠ b / PGSIZE → v'.walk c = v.walk c := by
    intro c hca hcb
    rw [hv', MemView.walk_setPte_ne hcb, MemView.setFrame_walk, MemView.walk_setPte_ne hca]
  have hkeep : ∀ c ∈ b :: q ++ s, c ≠ a ∧ c ≠ b → v'.walk c = v.walk c := fun c hc hne =>
    hwalk c (h.page_ne hc (by simp [has]) hne.1) (h.page_ne hc (by simp) hne.2)
  have hppn : ∀ c ∈ q, ∀ z, v.walk c = some z → z.ppn ≠ y.ppn := fun c hc z hz heq =>
    (hq c hc).2 (h.inj c (by simp [hc]) b (by simp) z y hz hy heq)
  refine ⟨hperm.nodup_iff.mp h.nodup, fun c => ?_, h.small, ?_, fun c hc => ?_,
    fun c hc d hd z w hz hw heq => ?_, fun c hc => ?_, fun c hc hlim => ?_, h.zero, h.free, h.freeOk⟩
  · rw [← hperm.mem_iff, h.pages]
  · exact MemView.table_setPte (MemView.table_setPte h.table a new) b .swapped
  · rcases List.mem_append.mp hc with hc | hc
    · obtain ⟨z, hz⟩ := h.resident c (by simp [hc])
      refine ⟨z, hz.congr (hkeep c (by simp [hc]) (hq c hc)) ?_ hz.taken rfl fun _ _ => rfl⟩
      exact MemView.setFrame_ne (hppn c hc z hz.walk)
    · obtain rfl := List.mem_singleton.mp hc
      exact ⟨new, hwalka, rfl, rfl, rfl, fun _ => rfl, hrb.frameOk, hrb.taken, fun j hj => by
        rw [hv', MemView.setPte_frame, MemView.setFrame_self, hbytes j hj]⟩
  · -- only the page brought in uses the frame of the page written off
    have hold : ∀ {c z}, c ∈ q → v'.walk c = some z → v.walk c = some z := fun hcq hz => by
      rwa [hkeep _ (by simp [hcq]) (hq _ hcq)] at hz
    have hnewa : ∀ {z}, v'.walk a = some z → z.ppn = y.ppn := fun hz => by
      rw [hwalka] at hz
      cases hz
      rfl
    rcases List.mem_append.mp hc with hcq | hca <;> rcases List.mem_append.mp hd with hdq | hda
    · exact h.inj c (by simp [hcq]) d (by simp [hdq]) z w (hold hcq hz) (hold hdq hw) heq
    · rw [List.mem_singleton.mp hda] at hw
      exact absurd (heq.trans (hnewa hw)) (hppn c hcq z (hold hcq hz))
    · rw [List.mem_singleton.mp hca] at hz
      exact absurd (heq.symm.trans (hnewa hz)) (hppn d hdq w (hold hdq hw))
    · rw [List.mem_singleton.mp hca, List.mem_singleton.mp hda]
  · rcases List.mem_cons.mp (hset.mem_iff.mp hc) with rfl | hc
    · exact hwalkb
    · rw [hkeep c (by simp [hsub c hc]) (herase c hc), h.swapped c (hsub c hc)]
  · rw [hwalk c (h.outside_ne (by simp [has]) hc hlim) (h.outside_ne (by simp) hc hlim)]
    exact h.unmapped c hc hlim

/-- One more page, cleared, in the first free frame. -/
theorem grow {f : Nat} {rest : List Nat} (h : Mem g v lim q s m) (hfree : v.freelist = f :: rest)
    (hlim : lim % PGSIZE = 0) (hsmall : lim + PGSIZE ≤ MAX_TOTAL_PAGES * PGSIZE) :
    Mem g (({ v with freelist := rest }.setFrame f fun _ => 0).setPte lim ⟨f, true, true, true, false⟩)
      (lim + PGSIZE) (q ++ [lim]) s m := by
  have hnd : f ∉ rest ∧ rest.Nodup := List.nodup_cons.mp (hfree ▸ h.free)
  set new : Pte := ⟨f, true, true, true, false⟩
  set v' := ({ v with freelist := rest }.setFrame f fun _ => 0).setPte lim new with hv'
  obtain ⟨x, hx⟩ := h.walk_some (a := lim) (by simp only [PGSIZE, MAX_TOTAL_PAGES] at *; omega)
  have hwalkl : v'.walk lim = some new := MemView.walk_setPte_self (y := x) hx
  have hwalk : ∀ c, c / PGSIZE ≠ lim / PGSIZE → v'.walk c = v.walk c := fun c hc =>
    MemView.walk_setPte_ne hc
  have hpage : ∀ c ∈ q ++ s, c / PGSIZE ≠ lim / PGSIZE := fun c hc =>
    (h.outside_ne hc hlim (Nat.le_refl lim)).symm
  have hout : lim ∉ q ++ s := fun hmem => absurd ((h.pages lim).mp hmem).2 (Nat.lt_irrefl lim)
  have hppn : ∀ c ∈ q, ∀ z, v.walk c = some z → z.ppn ≠ f := fun c hc z hz heq =>
    (h.resident_of_walk hc hz).taken (by simp [hfree, heq])
  have hperm : (lim :: (q ++ s)).Perm (q ++ [lim] ++ s) := by
    rw [List.append_assoc]
    exact List.perm_middle.symm
  refine ⟨hperm.nodup_iff.mp (List.nodup_cons.mpr ⟨hout, h.nodup⟩), fun c => ?_, hsmall,
    MemView.table_setPte h.table lim new, fun c hc => ?_, fun c hc d hd z w hz hw heq => ?_,
    fun c hc => ?_, fun c hc hle => ?_, fun va hle => ?_, hnd.2, fun e he => ?_⟩
  · rw [← hperm.mem_iff, List.mem_cons, h.pages]
    simp only [PGSIZE] at *
    omega
  · rcases List.mem_append.mp hc with hcq | hcl
    · obtain ⟨z, hz⟩ := h.resident c hcq
      have hne := hppn c hcq z hz.walk
      refine ⟨z, hz.congr (hwalk c (hpage c (by simp [hcq]))) (MemView.setFrame_ne hne) ?_ rfl
        fun _ _ => rfl⟩
      exact fun hmem => hz.taken (by simp only [hfree]; exact List.mem_cons_of_mem f hmem)
    · obtain rfl := List.mem_singleton.mp hcl
      refine ⟨new, hwalkl, rfl, rfl, rfl, fun _ => rfl, h.freeOk f (by simp [hfree]), hnd.1,
        fun j hj => ?_⟩
      rw [hv', MemView.setPte_frame, MemView.setFrame_self, h.zero]
      rw [PTE_ADDR]
      simp only [PGSIZE] at *
      omega
  · have hold : ∀ {c z}, c ∈ q → v'.walk c = some z → v.walk c = some z := fun hcq hz => by
      rwa [hwalk _ (hpage _ (by simp [hcq]))] at hz
    have hnewl : ∀ {z}, v'.walk lim = some z → z.ppn = f := fun hz => by
      rw [hwalkl] at hz
      cases hz
      rfl
    rcases List.mem_append.mp hc with hcq | hcl <;> rcases List.mem_append.mp hd with hdq | hdl
    · exact h.inj c hcq d hdq z w (hold hcq hz) (hold hdq hw) heq
    · rw [List.mem_singleton.mp hdl] at hw
      exact absurd (heq.trans (hnewl hw)) (hppn c hcq z (hold hcq hz))
    · rw [List.mem_singleton.mp hcl] at hz
      exact absurd (heq.symm.trans (hnewl hz)) (hppn d hdq w (hold hdq hw))
    · rw [List.mem_singleton.mp hcl, List.mem_singleton.mp hdl]
  · rw [hwalk c (hpage c (by simp [hc])), h.swapped c hc]
  · rw [hwalk c (Paging.page_ne hc hlim (by simp only [PGSIZE] at *; omega))]
    exact h.unmapped c hc (by omega)
  · exact h.zero va (by omega)
  · refine h.freeOk e ?_
    rw [hfree]
    exact List.mem_cons_of_mem f he

/-- A resident page is written over. -/
theorem write (h : Mem g v lim q s m) (ha : a ∈ q) (hx : v.walk a = some x) {bytes m' : Nat → UInt8}
    (hbytes : ∀ j < PGSIZE, bytes j = m' (a + j)) (hother : ∀ va, PTE_ADDR va ≠ a → m' va = m va) :
    Mem g (v.setFrame x.ppn bytes) lim q s m' := by
  have hal := h.aligned (List.mem_append_left s ha)
  refine ⟨h.nodup, h.pages, h.small, h.table, fun c hc => ?_, h.inj, h.swapped, h.unmapped,
    fun va hle => ?_, h.free, h.freeOk⟩
  · obtain ⟨z, hz⟩ := h.resident c hc
    have hcal := h.aligned (List.mem_append_left s hc)
    by_cases hca : c = a
    · subst hca
      obtain rfl : z = x := by
        have := hz.walk
        rw [hx] at this
        exact (Option.some.inj this).symm
      refine ⟨z, hz.walk, hz.p, hz.w, hz.pg, hz.u, hz.frameOk, hz.taken, fun j hj => ?_⟩
      rw [MemView.setFrame_self, hbytes j hj]
    · have hne : z.ppn ≠ x.ppn := fun heq => hca (h.inj c hc a ha z x hz.walk hx heq)
      refine ⟨z, hz.congr rfl (MemView.setFrame_ne hne) hz.taken rfl fun j hj => ?_⟩
      apply hother
      -- the address lies in page `c`
      have hdiv : (c + j) / PGSIZE = c / PGSIZE := by
        simp only [PGSIZE] at *
        omega
      have hpage : PTE_ADDR (c + j) = PTE_ADDR c := by
        unfold PTE_ADDR
        rw [hdiv]
      rw [hpage, PTE_ADDR_of_aligned hcal]
      exact hca
  · have hin := ((h.pages a).mp (List.mem_append_left s ha)).2
    rw [hother va (by rintro rfl; omega)]
    exact h.zero va hle

/-- A byte stored in a resident page. -/
theorem store (h : Mem g v lim q s m) {va : Nat} (hva : PTE_ADDR va ∈ q)
    (hx : v.walk (PTE_ADDR va) = some x) (byte : UInt8) :
    Mem g (v.setFrame x.ppn (Function.update (v.frame x.ppn) (va % PGSIZE) byte)) lim q s
      (Function.update m va byte) := by
  have hsplit := PTE_ADDR_add va
  refine h.write hva hx (fun j hj => ?_) fun va' hne => ?_
  · by_cases hj' : j = va % PGSIZE
    · subst hj'
      rw [Function.update_self, hsplit, Function.update_self]
    · rw [Function.update_of_ne hj', Function.update_of_ne (by omega),
        (h.resident_of_walk hva hx).bytes j hj]
  · rw [Function.update_of_ne]
    rintro rfl
    exact hne rfl

/-- The guard page is taken away from user mode. -/
theorem clearU (h : Mem g v lim q s m) (hg : g ∈ q) (hx : v.walk g = some x) :
    Mem g (v.setPte g { x with u := false }) lim q s m := by
  have hres := h.resident_of_walk hg hx
  have hself : (v.setPte g { x with u := false }).walk g = some { x with u := false } :=
    MemView.walk_setPte_self hx
  have hkeep : ∀ c, c / PGSIZE ≠ g / PGSIZE → (v.setPte g { x with u := false }).walk c = v.walk c :=
    fun c hc => MemView.walk_setPte_ne hc
  have hgq : g ∈ q ++ s := List.mem_append_left s hg
  -- the frame of each page is the one that it had
  have hframe : ∀ c ∈ q, ∀ z, (v.setPte g { x with u := false }).walk c = some z →
      ∃ w, v.walk c = some w ∧ w.ppn = z.ppn := by
    intro c hc z hz
    by_cases hcg : c = g
    · subst hcg
      rw [hself] at hz
      cases hz
      exact ⟨x, hx, rfl⟩
    · rw [hkeep c (h.page_ne (List.mem_append_left s hc) hgq hcg)] at hz
      exact ⟨z, hz, rfl⟩
  refine ⟨h.nodup, h.pages, h.small, MemView.table_setPte h.table g _, fun c hc => ?_,
    fun c hc e he z w hz hw heq => ?_, fun c hc => ?_, fun c hc hle => ?_, h.zero, h.free, h.freeOk⟩
  · by_cases hcg : c = g
    · subst hcg
      exact ⟨_, hself, hres.p, hres.w, hres.pg, fun hne => absurd rfl hne, hres.frameOk, hres.taken, hres.bytes⟩
    · obtain ⟨z, hz⟩ := h.resident c hc
      refine ⟨z, hz.congr ?_ rfl hz.taken rfl fun _ _ => rfl⟩
      exact hkeep c (h.page_ne (List.mem_append_left s hc) hgq hcg)
  · obtain ⟨z', hz', hzz⟩ := hframe c hc z hz
    obtain ⟨w', hw', hww⟩ := hframe e he w hw
    exact h.inj c hc e he z' w' hz' hw' (by rw [hzz, hww, heq])
  · have hne : c ≠ g := fun heq => (List.nodup_append.mp h.nodup).2.2 g hg c hc heq.symm
    rw [hkeep c (h.page_ne (List.mem_append_right q hc) hgq hne)]
    exact h.swapped c hc
  · rw [hkeep c (h.outside_ne hgq hc hle)]
    exact h.unmapped c hc hle

/-- Only the pages below the limit matter. -/
theorem lim_congr {lim' : Nat} (h : Mem g v lim q s m) (hsmall : lim' ≤ MAX_TOTAL_PAGES * PGSIZE)
    (hlim : ∀ a, a % PGSIZE = 0 → (a < lim ↔ a < lim')) : Mem g v lim' q s m := by
  refine ⟨h.nodup, fun a => ?_, hsmall, h.table, h.resident, h.inj, h.swapped, fun a ha hle => ?_,
    fun va hle => ?_, h.free, h.freeOk⟩
  · rw [h.pages]
    exact and_congr_right fun ha => hlim a ha
  · exact h.unmapped a ha (Nat.le_of_not_lt fun hlt => absurd ((hlim a ha).mp hlt) (by omega))
  · exact h.zero va (Nat.le_of_not_lt fun hlt =>
      absurd ((hlim _ (PTE_ADDR_aligned va)).mp hlt) (by omega))

/-- The number of pages. -/
theorem length_eq {n : Nat} (h : Mem g v (n * PGSIZE) q s m) : (q ++ s).length = n := by
  have hperm : (q ++ s).Perm ((List.range n).map (· * PGSIZE)) := by
    refine (List.perm_ext_iff_of_nodup h.nodup (List.nodup_range.map ?_)).mpr fun a => ?_
    · intro i j hij
      exact Nat.eq_of_mul_eq_mul_right (by decide) hij
    · rw [h.pages, List.mem_map]
      constructor
      · rintro ⟨hal, hlt⟩
        have hdiv : a / PGSIZE * PGSIZE = a := Nat.div_mul_cancel (Nat.dvd_of_mod_eq_zero hal)
        refine ⟨a / PGSIZE, List.mem_range.mpr ?_, hdiv⟩
        exact Nat.div_lt_of_lt_mul (by rwa [Nat.mul_comm])
      · rintro ⟨i, hi, rfl⟩
        exact ⟨Nat.mul_mod_left i PGSIZE,
          Nat.mul_lt_mul_of_pos_right (List.mem_range.mp hi) (by decide)⟩
  simpa using hperm.length_eq

end Mem

end Paging
