import OperatingSystem314.Paging.Taken

/-! # Permissions of swapped pages

    `moveToSwapFile` and `swapPageIn` write entries with constant flags.
    A page that was swapped out and in is readable and writable by the
    user whatever it was before, and `exec` makes the page below the stack
    inaccessible.

    * `Opens`: a present entry is an old one, or has `PTE_U` and `PTE_W`.
    * `PageStep`: what a process does to its page table, beside anything
      that leaves the table alone.
    * `permissions_kept`: in runs that only evict pages with both bits.
    * `guard_page_opened`: a run that evicts the guard page. -/

namespace Paging

open Relation (ReflTransGen)

/-! ### New entries -/

/-- A present entry of the current directory was there before, or the user
    may read and write through it. -/
structure Opens (k k' : Kernel) : Prop where
  pgdir : k'.cur.pgdir = k.cur.pgdir
  entry : ∀ va y, k'.walkpgdir k'.cur.pgdir va = some y → y.p = true →
    k.walkpgdir k.cur.pgdir va = some y ∨ (y.u = true ∧ y.w = true)

namespace Opens

variable {k k' k'' : Kernel}

theorem refl (k : Kernel) : Opens k k := ⟨rfl, fun _ _ hy _ => .inl hy⟩

theorem trans (h : Opens k k') (h' : Opens k' k'') : Opens k k'' := by
  refine ⟨h'.pgdir.trans h.pgdir, fun va y hy hp => ?_⟩
  rcases h'.entry va y hy hp with hold | hnew
  · exact h.entry va y hold hp
  · exact .inr hnew

/-- Nothing happens to the directory. -/
theorem of_same (hcur : k'.cur.pgdir = k.cur.pgdir) (hdir : k'.pgdir k.cur.pgdir = k.pgdir k.cur.pgdir) :
    Opens k k' := by
  refine ⟨hcur, fun va y hy _ => .inl ?_⟩
  rwa [hcur, Kernel.walkpgdir, hdir] at hy

theorem of_lists (h : OnlyLists k k') : Opens k k' := by
  apply of_same h.cur.pgdir
  rw [h.rest]

theorem setPte {va : Nat} {x : Pte} (hx : x.p = true → x.u = true ∧ x.w = true) :
    Opens k (k.setPte k.cur.pgdir va x) := by
  refine ⟨rfl, fun a y hy hp => ?_⟩
  rw [Kernel.setPte_cur] at hy
  rcases walkpgdir_setPte_cases hy with ⟨-, rfl⟩ | ⟨-, hold⟩
  · exact .inr (hx hp)
  · exact .inl hold

theorem moveToSwapFile {a : Nat} (hok : Paging.moveToSwapFile k a = .ok k') : Opens k k' := by
  obtain ⟨honly, -, -, x, -, -, hpgdir⟩ := moveToSwapFile_ok hok
  split at hpgdir
  · have hset : Opens k (k.setPte k.cur.pgdir (PTE_ADDR a) .swapped) := setPte nofun
    refine hset.trans (of_same honly.pgdir ?_)
    rw [Kernel.setPte_cur, hpgdir]
    simp [Kernel.setPte]
  · exact of_same honly.pgdir hpgdir

theorem swapPageOut (hok : Paging.swapPageOut k = .ok k') : Opens k k' := by
  obtain ⟨a, k1, hdeq, hmove⟩ := swapPageOut_ok hok
  exact (of_lists (dequeueFIFO_lists hdeq)).trans (moveToSwapFile hmove)

theorem swapPageIn {va : Nat} (hok : Paging.swapPageIn k va = .ok k') : Opens k k' := by
  rcases swapPageIn_ok hok with ⟨-, rfl⟩ | ⟨i, b, k1, k2, y, -, hdeq, h2, henq, -, -, -, hpgdir⟩
  · exact refl _
  · have h1 : Opens k k1 := of_lists (dequeueFIFO_lists hdeq)
    set k3 := k1.setPte k1.cur.pgdir va ⟨y.ppn, true, true, true, false⟩ with hk3
    have h3 : Opens k1 k3 := setPte fun _ => ⟨rfl, rfl⟩
    have h4 : Opens k3 (k3.setPte k1.cur.pgdir b .swapped) := setPte (k := k3) nofun
    have h5 : Opens (k3.setPte k1.cur.pgdir b .swapped) k2 := by
      refine of_same (show _ = k1.cur.pgdir from h2.pgdir) (Eq.trans hpgdir ?_)
      have hcur : (k3.setPte k1.cur.pgdir b .swapped).cur.pgdir = k1.cur.pgdir := rfl
      rw [hcur]
      simp only [hk3, Kernel.setPte, Function.update_self]
    exact (((h1.trans h3).trans h4).trans h5).trans (of_lists (enqueueFIFO_lists henq))

theorem trapPgflt {user : Bool} {va : Nat} {e : FaultEnd} (hok : Paging.trapPgflt user k va = .ok (e, k')) :
    Opens k k' := by
  obtain ⟨-, ⟨-, -, k1, hout, hin⟩ | ⟨-, -, -, rfl⟩⟩ := trapPgflt_ok hok
  · exact (swapPageOut hout).trans (swapPageIn hin)
  · apply of_same
    · rw [Kernel.modCur_cur]
    · rfl

theorem mappages {a : Nat} {x : Pte} {r : Int} (hx : x.u = true ∧ x.w = true)
    (hok : Paging.mappages k k.cur.pgdir a x = .ok (r, k')) : Opens k k' := by
  rcases mappages_cases hok with ⟨-, rfl, -⟩ | ⟨-, k1, rfl, hk1, -⟩
  · exact refl _
  have h1 : Opens k k1 ∧ k1.cur.pgdir = k.cur.pgdir := by
    rcases hk1 with rfl | ⟨t, rest, hnone, -, rfl⟩
    · exact ⟨refl _, rfl⟩
    · refine ⟨⟨rfl, fun va z hz hp => .inl ?_⟩, rfl⟩
      have hcur : (k.newTable k.cur.pgdir a t rest).cur = k.cur := rfl
      rw [hcur] at hz
      by_cases hdx : PDX va = PDX a
      · -- the new table has no entries
        simp only [Kernel.newTable, Kernel.walkpgdir, Pgdir.walk, Function.update_self, hdx, Option.map_some,
          Option.some.injEq] at hz
        rw [← hz] at hp
        cases hp
      · simpa [Kernel.newTable, Kernel.walkpgdir, Pgdir.walk, hdx] using hz
  rw [← h1.2]
  exact h1.1.trans (setPte fun _ => hx)

theorem deallocPage {a : Nat} (hok : Paging.deallocPage k.cur.pgdir k a = .ok k') : Opens k k' := by
  unfold Paging.deallocPage at hok
  split at hok
  · cases hok
    exact refl _
  · split at hok
    · split at hok
      · cases hok
      · rw [bind_eq_ok] at hok
        obtain ⟨k1, hfree, hok⟩ := hok
        cases hok
        have hcur : k1.cur.pgdir = k.cur.pgdir := by rw [(kfree_mem hfree).cur]
        have h1 : Opens k k1 := of_same hcur (by rw [kfree_ok hfree])
        rw [← hcur]
        exact h1.trans (setPte nofun)
    · cases hok
      exact refl _

theorem deallocuvm {oldsz newsz n : Nat} (hok : Paging.deallocuvm k k.cur.pgdir oldsz newsz = .ok (n, k')) :
    Opens k k' := by
  unfold Paging.deallocuvm at hok
  split at hok
  · cases hok
    exact refl _
  rw [bind_eq_ok] at hok
  obtain ⟨k1, hfold, hok⟩ := hok
  cases hok
  generalize hd : k.cur.pgdir = d at hfold
  generalize pageRange (PGROUNDUP newsz) oldsz = pages at hfold
  induction pages generalizing k with
  | nil =>
    cases hfold
    exact refl _
  | cons a rest ih =>
    rw [List.foldlM_cons, bind_eq_ok] at hfold
    obtain ⟨k2, hpage, hfold⟩ := hfold
    rw [← hd] at hpage
    have h2 : Opens k k2 := deallocPage hpage
    exact h2.trans (ih (h2.pgdir.trans hd) hfold)

theorem makeRoom (hok : Paging.makeRoom k = .ok k') : Opens k k' := by
  unfold Paging.makeRoom at hok
  split at hok
  · rw [bind_eq_ok] at hok
    obtain ⟨-, -, hout⟩ := hok
    exact swapPageOut hout
  · cases hok
    exact refl _

theorem of_mem (hmem : OnlyMem k k') (hdir : k'.pgdir = k.pgdir) : Opens k k' := by
  apply of_same
  · rw [hmem.cur]
  · rw [hdir]

/-- The pages of a growth are the user's. -/
theorem allocRound {a : Nat} (h : AllocRound k.cur.pgdir a k k') : Opens k k' := by
  obtain ⟨k1, f, free, r, k2, hroom, -, hmap, -, henq⟩ := h
  have h1 : Opens k k1 := makeRoom hroom
  set kf : Kernel := ({ k1 with freelist := free } : Kernel).setFrame f fun _ => 0 with hkf
  have hf : Opens k1 kf := of_mem (take_mem k1 f free) rfl
  rw [← h1.pgdir, ← hf.pgdir] at hmap
  exact ((h1.trans hf).trans (mappages ⟨rfl, rfl⟩ hmap)).trans (of_lists (enqueueFIFO_lists henq))

theorem allocLoop {oldsz newsz n : Nat} {pages : List Nat}
    (hok : Paging.allocLoop k.cur.pgdir oldsz newsz pages k = .ok (n, k')) : Opens k k' := by
  induction pages generalizing k with
  | nil =>
    cases hok
    exact refl _
  | cons a rest ih =>
    rcases allocLoop_round hok with
      ⟨k1, kf, m, k3, hroom, -, -, hmem, hdir, hdealloc, hend⟩ | ⟨k1, hround, -, hrest⟩
    · have h3 : Opens k k3 := ((makeRoom hroom).trans (of_mem hmem hdir)).trans (deallocuvm hdealloc)
      rcases hend with rfl | ⟨f, hkfree⟩
      · exact h3
      · exact h3.trans (of_mem (kfree_mem hkfree) (by rw [kfree_ok hkfree]))
    · exact (allocRound hround).trans (ih hrest)

theorem setSz (k : Kernel) (sz : Nat) : Opens k (k.setSz sz) := by
  apply of_same
  · unfold Kernel.setSz
    rw [Kernel.modCur_cur]
  · rfl

end Opens

/-! ### Steps -/

/-- The page at `b`, if it is present, is one the user may read and write. -/
def Unrestricted (k : Kernel) (b : Nat) : Prop :=
  ∀ x, k.walkpgdir k.cur.pgdir b = some x → x.p = true → x.u = true ∧ x.w = true

/-- What may happen to the page table of process `p`, where `G` holds of the
    pages that are evicted or replaced. -/
inductive PageStep (G : Kernel → Nat → Prop) (p : ProcId) : Kernel → Kernel → Prop
  /-- the process takes a page fault, in user mode or in a system call -/
  | fault {k k' : Kernel} {user : Bool} {va : Nat} {e : FaultEnd} (hcur : k.curproc = p)
      (h : trapPgflt user k va = .ok (e, k')) (hfirst : PagedOut k va → G k (oldest k))
      (hsecond : PagedOut k va → slotOf (k.cur.recorded (oldest k)) (PTE_ADDR va) ≠ none → G k (replaced k)) :
      PageStep G p k k'
  | sbrk {k k' : Kernel} {n r : Int} (hcur : k.curproc = p) (h : sys_sbrk k n = .ok (r, k'))
      (hevicts : let newsz := ((k.cur.sz + n) % 2 ^ 32).toNat
        0 < n → newsz < KERNBASE → ∀ b, Evicts k.cur.pgdir (pageRange (PGROUNDUP k.cur.sz) newsz) k b → G k b) :
      PageStep G p k k'
  /-- `exec` makes room for a page of the new program -/
  | evict {k k' : Kernel} (hcur : k.curproc = p) (h : swapPageOut k = .ok k') (hfirst : G k (oldest k)) :
      PageStep G p k k'
  /-- whatever else happens leaves the page table alone -/
  | other {k k' : Kernel} (hdir : (k'.proc p).pgdir = (k.proc p).pgdir)
      (htable : k'.pgdir (k.proc p).pgdir = k.pgdir (k.proc p).pgdir) : PageStep G p k k'

/-- A page of the process, in memory or in the swap file. -/
def Belongs (p : ProcId) (va : Nat) (k : Kernel) : Prop :=
  va < (k.proc p).sz ∧ ∃ x, k.walkpgdir (k.proc p).pgdir va = some x ∧ x ≠ .zero

namespace PageStep

variable {G : Kernel → Nat → Prop} {p : ProcId} {k k' : Kernel} {va : Nat} {x : Pte}

/-- Whatever is evicted, a present entry is an old one or the user's. -/
theorem opens (h : PageStep G p k k') : (k'.proc p).pgdir = (k.proc p).pgdir ∧
    ∀ va y, k'.walkpgdir (k'.proc p).pgdir va = some y → y.p = true →
      k.walkpgdir (k.proc p).pgdir va = some y ∨ (y.u = true ∧ y.w = true) := by
  -- the steps of the process itself
  have hown : k.curproc = p → k'.curproc = k.curproc → Opens k k' → (k'.proc p).pgdir = (k.proc p).pgdir ∧
      ∀ va y, k'.walkpgdir (k'.proc p).pgdir va = some y → y.p = true →
        k.walkpgdir (k.proc p).pgdir va = some y ∨ (y.u = true ∧ y.w = true) := by
    rintro rfl hcur' hopens
    have hproc : k'.proc k.curproc = k'.cur := by rw [Kernel.cur, hcur']
    rw [hproc]
    exact ⟨hopens.pgdir, hopens.entry⟩
  cases h with
  | fault hcur htrap hfirst hsecond =>
    refine hown hcur ?_ (.trapPgflt htrap)
    obtain ⟨-, ⟨-, -, k1, hout, hin⟩ | ⟨-, -, -, rfl⟩⟩ := trapPgflt_ok htrap
    · rw [(swapPageIn_swaps hin).curproc, (swapPageOut_swaps hout).curproc]
    · rfl
  | sbrk hcur hsbrk hevicts =>
    refine hown hcur (sys_sbrk_dirs hsbrk).1 ?_
    obtain ⟨k1, hend, hcase⟩ := sys_sbrk_cases hsbrk
    have h1 : Opens k k1 := by
      rcases hcase with ⟨-, m, halloc⟩ | ⟨-, m, hdealloc, -⟩ | rfl
      · unfold allocuvm at halloc
        split at halloc
        · obtain ⟨-, rfl⟩ := Prod.mk.inj (Except.ok.inj halloc)
          exact .refl _
        split at halloc
        · obtain ⟨-, rfl⟩ := Prod.mk.inj (Except.ok.inj halloc)
          exact .refl _
        · exact .allocLoop halloc
      · exact .deallocuvm hdealloc
      · exact .refl _
    rcases hend with rfl | ⟨sz, rfl⟩
    · exact h1
    · exact h1.trans (.setSz k1 sz)
  | evict hcur hout hfirst => exact hown hcur (swapPageOut_swaps hout).curproc (.swapPageOut hout)
  | other hdir htable =>
    refine ⟨hdir, fun va y hy _ => .inl ?_⟩
    rwa [hdir, Kernel.walkpgdir, htable] at hy

/-- The page is the only one that is to be kept. -/
theorem restricted_ne (hcur : k.curproc = p) (hx : k.walkpgdir (k.proc p).pgdir va = some x) (hp : x.p = true)
    (hrestricted : ¬ (x.u = true ∧ x.w = true)) {b : Nat} (hb : Unrestricted k b) : b / PGSIZE ≠ va / PGSIZE := by
  subst hcur
  intro hpage
  apply hrestricted
  apply hb x _ hp
  rw [walkpgdir_congr hpage]
  exact hx

/-- A page that the user may not read and write is not evicted, so its entry
    stays as it is while it belongs to the process. -/
theorem keeps (h : PageStep Unrestricted p k k') (hsz : va < (k.proc p).sz)
    (hx : k.walkpgdir (k.proc p).pgdir va = some x) (hp : x.p = true) (hpg : x.pg = false)
    (hrestricted : ¬ (x.u = true ∧ x.w = true)) (hbelongs : Belongs p va k') :
    k'.walkpgdir (k'.proc p).pgdir va = some x := by
  set C : Nat → Prop := fun n => n = va / PGSIZE with hC
  -- the steps of the process itself
  have hown : k.curproc = p → k'.curproc = k.curproc → Keeps C k k' →
      k'.walkpgdir (k'.proc p).pgdir va = some x := by
    rintro rfl hcur' hkeeps
    have hproc : k'.proc k.curproc = k'.cur := by rw [Kernel.cur, hcur']
    rw [hproc]
    exact hkeeps.present va x rfl hx hp
  cases h with
  | @fault user vf e hcur htrap hfirst hsecond =>
    obtain ⟨-, ⟨hout', -, k1, hout, hin⟩ | ⟨-, -, -, rfl⟩⟩ := trapPgflt_ok htrap
    · apply hown hcur
      · rw [(swapPageIn_swaps hin).curproc, (swapPageOut_swaps hout).curproc]
      · have hold := restricted_ne hcur hx hp hrestricted (hfirst hout')
        refine (Keeps.swapPageOut hout hold).trans (.swapPageIn hin ?_ ?_)
        · -- the page that faulted is not in memory
          intro hpage
          rw [hC, PTE_ADDR_div] at hpage
          obtain ⟨y, hy, hypg⟩ := hout'
          subst hcur
          rw [walkpgdir_congr hpage] at hy
          have hxy : some y = some x := hy.symm.trans hx
          cases hxy
          rw [hpg] at hypg
          cases hypg
        · intro hslot hn
          rw [swapPageOut_slots hout, PTE_ADDR_of_aligned (PTE_ADDR_aligned vf)] at hslot
          rw [(swapPageOut_oldest hout).2] at hn
          exact restricted_ne hcur hx hp hrestricted (hsecond hout' hslot) hn
    · exact hown hcur rfl (.of_same (by rw [Kernel.modCur_cur]) rfl)
  | sbrk hcur hsbrk hevicts =>
    have hdirs := sys_sbrk_dirs hsbrk
    obtain ⟨k1, hend, hcase⟩ := sys_sbrk_cases hsbrk
    have hset : Keeps C k1 k' := by
      rcases hend with rfl | ⟨sz, rfl⟩
      · exact .refl _
      · exact .of_same (by unfold Kernel.setSz; rw [Kernel.modCur_cur]) rfl
    rcases hcase with ⟨hn, m, halloc⟩ | ⟨-, m, hdealloc, -⟩ | rfl
    · apply hown hcur hdirs.1
      refine Keeps.trans ?_ hset
      unfold allocuvm at halloc
      split at halloc
      · obtain ⟨-, rfl⟩ := Prod.mk.inj (Except.ok.inj halloc)
        exact .refl _
      next hsmall =>
      split at halloc
      · obtain ⟨-, rfl⟩ := Prod.mk.inj (Except.ok.inj halloc)
        exact .refl _
      · refine allocLoop_keeps halloc (fun b hb => ?_) (fun a ha hpage => ?_)
        · exact restricted_ne hcur hx hp hrestricted (hevicts hn (Nat.lt_of_not_le hsmall) b hb)
        · -- the new pages lie above the old size
          have hup := PGROUNDUP_aligned k.cur.sz
          obtain ⟨halign, hlo, -⟩ := (mem_pageRange hup).mp ha
          have hle := le_PGROUNDUP k.cur.sz
          have hlt : va < k.cur.sz := by
            rw [Kernel.cur, hcur]
            exact hsz
          rw [hC] at hpage
          simp only [PGSIZE] at *
          omega
    · -- a page that is given up does not belong to the process any more
      subst hcur
      have hdir : (k'.proc k.curproc).pgdir = k.cur.pgdir := hdirs.2.1 _
      have htable : ∀ y, k1.walkpgdir k.cur.pgdir va = some y → k'.walkpgdir k.cur.pgdir va = some y := by
        intro y hy
        rcases hend with rfl | ⟨sz, rfl⟩
        · exact hy
        · exact hy
      obtain ⟨-, y, hy, hne⟩ := hbelongs
      rw [hdir] at hy ⊢
      rcases deallocuvm_entry hdealloc hx with hkept | hzero
      · exact htable x hkept
      · rw [htable _ hzero] at hy
        exact absurd (Option.some.inj hy).symm hne
    · exact hown hcur hdirs.1 hset
  | evict hcur hout hfirst =>
    exact hown hcur (swapPageOut_swaps hout).curproc
      (.swapPageOut hout (restricted_ne hcur hx hp hrestricted hfirst))
  | other hdir htable =>
    rw [hdir, Kernel.walkpgdir, htable]
    exact hx

end PageStep

/-! ### The steps of the kernel are such steps -/

section kernel

variable {p q : ProcId} {k k' : Kernel} {op : UserOp}

/-- Every step, whatever it evicts. -/
abbrev AnyStep (p : ProcId) : Kernel → Kernel → Prop := PageStep (fun _ _ => True) p

theorem trapPgflt_swaps {user : Bool} {va : Nat} {e : FaultEnd} (h : trapPgflt user k va = .ok (e, k')) :
    (∀ r, (k'.proc r).pgdir = (k.proc r).pgdir) ∧ ∀ d, d ≠ k.cur.pgdir → k'.pgdir d = k.pgdir d := by
  obtain ⟨-, ⟨-, -, k1, hout, hin⟩ | ⟨-, -, -, rfl⟩⟩ := trapPgflt_ok h
  · have hswaps := (swapPageOut_swaps hout).trans (swapPageIn_swaps hin)
    exact ⟨fun r => (hswaps.procs r).pgdir, hswaps.pgdirs⟩
  · refine ⟨fun r => ?_, fun _ _ => rfl⟩
    unfold Kernel.modCur Kernel.setCur
    by_cases hr : r = k.curproc
    · rw [hr, Kernel.setProc_self]
      rfl
    · rw [Kernel.setProc_ne _ _ hr]

/-- What the process does itself. -/
theorem procStep_pageSteps (h : procStep p op k = .ok k') : ReflTransGen (AnyStep p) k k' := by
  have hsched : AnyStep p k { k with curproc := p } := .other rfl rfl
  have hacc : ∀ {store : Bool} {va : Nat} {f : Option Nat} {k1 : Kernel},
      access store { k with curproc := p } va = .ok (f, k1) → ReflTransGen (AnyStep p) k k1 := by
    intro store va f k1 hok
    unfold access at hok
    simp only [] at hok
    split at hok
    · cases hok
      exact .single hsched
    · rw [bind_eq_ok] at hok
      obtain ⟨⟨e, k2⟩, htrap, hok⟩ := hok
      cases hok
      exact .tail (.single hsched) (.fault rfl htrap (fun _ => trivial) fun _ _ => trivial)
  unfold procStep at h
  cases op with
  | load va =>
    simp only [bind_eq_ok] at h
    obtain ⟨⟨f, k1⟩, hok, h⟩ := h
    cases h
    exact hacc hok
  | store va b =>
    simp only [bind_eq_ok] at h
    obtain ⟨⟨f, k1⟩, hok, h⟩ := h
    cases f with
    | none =>
      cases h
      exact hacc hok
    | some f =>
      cases h
      exact (hacc hok).tail (.other rfl rfl)
  | sbrk n =>
    simp only [bind_eq_ok] at h
    obtain ⟨⟨r, k1⟩, hok, h⟩ := h
    cases h
    exact .tail (.single hsched) (.sbrk rfl hok fun _ _ _ _ => trivial)

/-- What a process with another page directory does. -/
theorem procStep_other (hne : (k.proc p).pgdir ≠ (k.proc q).pgdir) (h : procStep q op k = .ok k') :
    AnyStep p k k' := by
  have hacc : ∀ {store : Bool} {va : Nat} {f : Option Nat} {k1 : Kernel},
      access store { k with curproc := q } va = .ok (f, k1) →
      (k1.proc p).pgdir = (k.proc p).pgdir ∧ k1.pgdir (k.proc p).pgdir = k.pgdir (k.proc p).pgdir := by
    intro store va f k1 hok
    unfold access at hok
    simp only [] at hok
    split at hok
    · cases hok
      exact ⟨rfl, rfl⟩
    · rw [bind_eq_ok] at hok
      obtain ⟨⟨e, k2⟩, htrap, hok⟩ := hok
      cases hok
      obtain ⟨hdir, htable⟩ := trapPgflt_swaps htrap
      exact ⟨hdir p, htable _ hne⟩
  unfold procStep at h
  cases op with
  | load va =>
    simp only [bind_eq_ok] at h
    obtain ⟨⟨f, k1⟩, hok, h⟩ := h
    cases h
    exact .other (hacc hok).1 (hacc hok).2
  | store va b =>
    simp only [bind_eq_ok] at h
    obtain ⟨⟨f, k1⟩, hok, h⟩ := h
    cases f with
    | none =>
      cases h
      exact .other (hacc hok).1 (hacc hok).2
    | some f =>
      cases h
      exact .other (hacc hok).1 (hacc hok).2
  | sbrk n =>
    simp only [bind_eq_ok] at h
    obtain ⟨⟨r, k1⟩, hok, h⟩ := h
    cases h
    obtain ⟨-, hdir, htable⟩ := sys_sbrk_dirs hok
    exact .other (hdir p) (htable _ hne)

/-- What `exec` does before it commits, in the new directory `d`. -/
theorem LoadStep.pageStep {d : Nat} (hcur : k.curproc = p) (hne : (k.proc p).pgdir ≠ d) (h : LoadStep d k k') :
    AnyStep p k k' := by
  have hbeside : ∀ {k1 : Kernel}, Beside d k k1 → AnyStep p k k1 := by
    intro k1 hk1
    exact .other (hk1.procs p).pgdir (hk1.pgdirs _ hne)
  cases h with
  | evict hout => exact .evict hcur hout trivial
  | fault htrap => exact .fault hcur htrap (fun _ => trivial) fun _ _ => trivial
  | @map _ f a rest r hfree hmap hr =>
    have h1 : Beside d k (({ k with freelist := rest } : Kernel).setFrame f fun _ => 0) :=
      .of_mem ⟨_, _, _, rfl⟩ fun _ _ => rfl
    exact hbeside (h1.trans (mappages_beside hmap))
  | @unmap k1 k2 _ f a _ _ _ rest r hfree hmap hr hdealloc hkfree =>
    have h1 : Beside d k (({ k with freelist := rest } : Kernel).setFrame f fun _ => 0) :=
      .of_mem ⟨_, _, _, rfl⟩ fun _ _ => rfl
    exact hbeside (((h1.trans (mappages_beside hmap)).trans (deallocuvm_beside hdealloc)).trans
      (kfree_beside hkfree))
  | dealloc hdealloc => exact hbeside (deallocuvm_beside hdealloc)
  | enqueue henq => exact hbeside (.of_lists (enqueueFIFO_lists henq))
  | write f bytes => exact .other rfl rfl
  | guardPage hclear => exact hbeside (clearpteu_beside hclear)
  | files fs => exact .other rfl rfl

end kernel

/-! ### Runs -/

/-- A step that evicts only pages which the user may read and write, and
    after which the page still belongs to the process. -/
def KeepingStep (p : ProcId) (va : Nat) (k k' : Kernel) : Prop :=
  PageStep Unrestricted p k k' ∧ Belongs p va k'

/-- An access by the user to a page that is in memory and not the user's. -/
theorem access_killed {store : Bool} {k k' : Kernel} {va : Nat} {x : Pte} {f : Option Nat}
    (hx : k.walkpgdir k.cur.pgdir va = some x) (hpg : x.pg = false) (hu : x.u = false)
    (h : access store k va = .ok (f, k')) : f = none ∧ (k'.proc k.curproc).killed = true := by
  unfold access at h
  simp only [hx, Option.filter_some, hu, Bool.and_false, Bool.false_and, Bool.false_eq_true, if_false] at h
  rw [bind_eq_ok] at h
  obtain ⟨⟨e, k1⟩, htrap, h⟩ := h
  cases h
  refine ⟨rfl, ?_⟩
  obtain ⟨-, ⟨⟨y, hy, hypg⟩, -⟩ | ⟨-, -, -, rfl⟩⟩ := trapPgflt_ok htrap
  · rw [hx] at hy
    cases hy
    rw [hpg] at hypg
    cases hypg
  · unfold Kernel.modCur Kernel.setCur
    rw [Kernel.setProc_self]

/-- Along any run that evicts only pages which the user may read and write,
    a page keeps its permissions, and one that is not the user's stays in
    memory, where an access to it kills the process. -/
theorem permissions_kept {p : ProcId} {k k' : Kernel} {va : Nat} {x : Pte}
    (hx : k.walkpgdir (k.proc p).pgdir va = some x) (hp : x.p = true) (hpg : x.pg = false)
    (hsz : va < (k.proc p).sz) (hrun : ReflTransGen (KeepingStep p va) k k') :
    (∀ y, k'.walkpgdir (k'.proc p).pgdir va = some y → y.p = true → y.u = x.u ∧ y.w = x.w) ∧
    (x.u = false → k'.walkpgdir (k'.proc p).pgdir va = some x ∧
      ∀ store f k'', access store { k' with curproc := p } va = .ok (f, k'') →
        f = none ∧ (k''.proc p).killed = true) := by
  by_cases hfree : x.u = true ∧ x.w = true
  · -- a new entry gives the same permissions as the old one
    refine ⟨?_, ?_⟩
    · induction hrun with
      | refl =>
        intro y hy _
        rw [hx] at hy
        cases hy
        exact ⟨rfl, rfl⟩
      | tail _ hstep ih =>
        intro y hy hyp
        rcases hstep.1.opens.2 va y hy hyp with hold | hnew
        · exact ih y hold hyp
        · exact ⟨hnew.1.trans hfree.1.symm, hnew.2.trans hfree.2.symm⟩
    · intro hu
      rw [hfree.1] at hu
      cases hu
  · -- the page is never evicted
    have hkept : va < (k'.proc p).sz ∧ k'.walkpgdir (k'.proc p).pgdir va = some x := by
      induction hrun with
      | refl => exact ⟨hsz, hx⟩
      | tail _ hstep ih => exact ⟨hstep.2.1, hstep.1.keeps ih.1 ih.2 hp hpg hfree hstep.2⟩
    refine ⟨?_, fun hu => ⟨hkept.2, ?_⟩⟩
    · intro y hy _
      rw [hkept.2] at hy
      cases hy
      exact ⟨rfl, rfl⟩
    · intro store f k'' hacc
      have hcur : ({ k' with curproc := p } : Kernel).walkpgdir ({ k' with curproc := p } : Kernel).cur.pgdir va =
          some x := hkept.2
      exact access_killed hcur hpg hu hacc

open Layout

/-- Fifteen pages in memory and one in the swap file; the page that is not
    the user's is the newest one in memory. -/
def guardLast : Kernel := alone (14 * PGSIZE) fifteen [15 * PGSIZE] fun _ => 0

/-- The process has read the page in the swap file. -/
def guardKept : Kernel := (reached (trapPgflt true guardLast (15 * PGSIZE))).get (by decide +kernel)

theorem guardLast_entry : guardLast.walkpgdir (guardLast.proc SELF).pgdir (14 * PGSIZE) =
    some ⟨FRAMES + 14, true, true, false, false⟩ := by decide +kernel

theorem guardKept_entry : guardKept.walkpgdir (guardKept.proc SELF).pgdir (14 * PGSIZE) =
    some ⟨FRAMES + 14, true, true, false, false⟩ := by decide +kernel

/-- The fault takes the pages `0` and `1` from the list. -/
theorem guardKept_step : KeepingStep SELF (14 * PGSIZE) guardLast guardKept := by
  have hopen : ∀ {b f : Nat}, guardLast.walkpgdir guardLast.cur.pgdir b = some ⟨f, true, true, true, false⟩ →
      Unrestricted guardLast b := by
    intro b f hb y hy _
    rw [hb] at hy
    cases hy
    exact ⟨rfl, rfl⟩
  have hfirst : guardLast.walkpgdir guardLast.cur.pgdir (oldest guardLast) = some ⟨FRAMES, true, true, true, false⟩ := by
    decide +kernel
  have hsecond : guardLast.walkpgdir guardLast.cur.pgdir (replaced guardLast) =
      some ⟨FRAMES + 1, true, true, true, false⟩ := by decide +kernel
  have hsz : 14 * PGSIZE < (guardKept.proc SELF).sz := by decide +kernel
  obtain ⟨e, htrap⟩ := of_reached (show reached (trapPgflt true guardLast (15 * PGSIZE)) = some guardKept from
    (Option.some_get _).symm)
  refine ⟨.fault rfl htrap (fun _ => hopen hfirst) (fun _ _ => hopen hsecond), hsz, _, guardKept_entry, nofun⟩

theorem permissions_kept_guardLast :
    guardKept.walkpgdir (guardKept.proc SELF).pgdir (14 * PGSIZE) = some ⟨FRAMES + 14, true, true, false, false⟩ ∧
    ∀ store f k'', access store { guardKept with curproc := SELF } (14 * PGSIZE) = .ok (f, k'') →
      f = none ∧ (k''.proc SELF).killed = true := by
  have hsz : 14 * PGSIZE < (guardLast.proc SELF).sz := by decide +kernel
  exact (permissions_kept guardLast_entry rfl rfl hsz (.single guardKept_step)).2 rfl

/-! ### The guard page is evicted -/

theorem guardOut_runs : (runSelf SELF [.load (15 * PGSIZE)] sixteenAlone).isSome = true := by decide +kernel

/-- The process has read the page in the swap file, in exchange for page
    `1`, which is not the user's. -/
def guardOut : Kernel := (runSelf SELF [.load (15 * PGSIZE)] sixteenAlone).get guardOut_runs

/-- It has tried to read page `1`. -/
def guardOpened : Kernel := (runSelf SELF [.load PGSIZE] guardOut).get (by decide +kernel)

theorem sixteenAlone_guard : sixteenAlone.walkpgdir sixteenAlone.cur.pgdir PGSIZE =
    some ⟨FRAMES + 1, true, true, false, false⟩ := by decide +kernel

/-- Page `1` comes back as a page that the user may read and write: the
    access kills the process before the page was swapped out, and reaches
    the page afterwards. -/
theorem guard_page_opened : Owned sixteenAlone ∧
    sixteenAlone.walkpgdir sixteenAlone.cur.pgdir PGSIZE = some ⟨FRAMES + 1, true, true, false, false⟩ ∧
    (∀ store f k'', access store sixteenAlone PGSIZE = .ok (f, k'') →
      f = none ∧ (k''.proc sixteenAlone.curproc).killed = true) ∧
    procStep SELF (.load (15 * PGSIZE)) sixteenAlone = .ok guardOut ∧
    guardOut.walkpgdir guardOut.cur.pgdir PGSIZE = some .swapped ∧
    procStep SELF (.load PGSIZE) guardOut = .ok guardOpened ∧
    guardOpened.walkpgdir guardOpened.cur.pgdir PGSIZE = some ⟨FRAMES + 3, true, true, true, false⟩ ∧
    ∀ store, access store guardOpened PGSIZE = .ok (some (FRAMES + 3), guardOpened) := by
  have hout : guardOut.walkpgdir guardOut.cur.pgdir PGSIZE = some .swapped := by decide +kernel
  have hback : guardOpened.walkpgdir guardOpened.cur.pgdir PGSIZE = some ⟨FRAMES + 3, true, true, true, false⟩ := by
    decide +kernel
  refine ⟨alone_owned sixteenPages_paged.mem, sixteenAlone_guard,
    fun _ _ _ hacc => access_killed sixteenAlone_guard rfl rfl hacc, procStep_of_runSelf (Option.some_get _).symm,
    hout, procStep_of_runSelf (Option.some_get _).symm, hback, ?_⟩
  intro store
  simp [access, hback, Option.filter_some]

end Paging
