import OperatingSystem314.Lib.Runs
import OperatingSystem314.Paging.Dealloc

/-! # Growth beyond the capacity

    `growproc` has no limit of its own: it refuses to grow a process only
    where `allocuvm` runs out of frames or reaches `KERNBASE`.  By then the
    eviction may have lost pages, for `moveToSwapFile` frees the frame of a
    page whether or not it found a slot for it.

    * `Swapping.allocuvm_short`: which pages are lost by the time
      `allocuvm` fails.
    * `overgrowth_refused_iff`: when a growth past the capacity fails and
      loses nothing, and when an eviction records the page. -/

namespace Paging

open Spill

namespace Swapping

variable {k k' : Kernel} {lim a n : Nat} {st : PageStore}

/-- A page that was lost holds nothing. -/
theorem not_holds_lost {bytes : Nat → UInt8} (h : Swapping k lim st) (ha : a ∈ st.lost) : ¬ Holds k a bytes := by
  rintro (⟨x, hx, hp, -⟩ | ⟨i, f, hi, -⟩)
  · obtain ⟨y, hy, hyp, -⟩ := h.walk_out (List.mem_append_right st.spilled ha)
    rw [hx] at hy
    cases hy
    rw [hp] at hyp
    cases hyp
  · have hmem := List.mem_of_getElem? (h.slots.getElem?_eq hi)
    have hnd := (List.nodup_append.mp h.mapped.nodup).2.1
    exact (List.nodup_append.mp hnd).2.2 a hmem a ha rfl

/-- A resident page holds what is in its frame. -/
theorem exists_holds (h : Swapping k lim st) (ha : a ∈ st.resident) : ∃ bytes, Holds k a bytes := by
  obtain ⟨x, hx, hp, -⟩ := h.walk_resident ha
  exact ⟨k.frame x.ppn, .inl ⟨x, hx, hp, fun _ _ => rfl⟩⟩

/-- The present entries of the user half are those of the resident pages. -/
theorem mem_resident {x : Pte} (h : Swapping k lim st) (ha : a % PGSIZE = 0) (hsmall : a < KERNBASE)
    (hx : k.walkpgdir k.cur.pgdir a = some x) (hp : x.p = true) : a ∈ st.resident := by
  have hlt : a < lim := by
    by_contra hle
    have := (h.mapped.unmapped a ha (by omega) hsmall x hx).1
    rw [hp] at this
    cases this
  refine (List.mem_append.mp ((h.mapped.pages a).mpr ⟨ha, hlt⟩)).resolve_right ?_
  intro hout
  obtain ⟨y, hy, hyp, -⟩ := h.walk_out hout
  rw [hx] at hy
  cases hy
  rw [hp] at hyp
  cases hyp

theorem sound (h : Swapping k lim st) {n : Nat} (hsmall : n ≤ KERNBASE) : Sound k n := by
  refine ⟨?_, ?_⟩
  · intro b hb hblt hp
    have hx := walk_of_entry hp
    exact (h.mapped.of_walk (h.mem_resident hb (by omega) hx hp) hx).2.2.2
  · intro b c hb hblt hc hle hclt hp hcp heq
    have hx := walk_of_entry hp
    have hy := walk_of_entry hcp
    have := h.mapped.inj b (h.mem_resident hb (by omega) hx hp) c (h.mem_resident hc hclt hy hcp) _ _ hx hy heq
    omega

/-- `deallocuvm` of the pages from `oldsz` on. -/
theorem dealloc {oldsz newsz : Nat} (h : Swapping k lim st) (hlt : oldsz < newsz) (hsmall : newsz ≤ KERNBASE) :
    ∃ k', deallocuvm k k.cur.pgdir newsz oldsz = .ok (oldsz, k') ∧ Undone k k' (PGROUNDUP oldsz) := by
  have hreleasable : Releasable k k.cur.pgdir (pageRange (PGROUNDUP oldsz) newsz) := by
    refine ⟨h.mapped.kend, ?_⟩
    intro b hb x hx hp
    obtain ⟨hal, -, hblt⟩ := (mem_pageRange (PGROUNDUP_aligned oldsz)).mp hb
    exact (h.mapped.of_walk (h.mem_resident hal (by omega) hx hp) hx).2.2.1
  obtain ⟨k', hfold, -⟩ := dealloced hreleasable
  have hrun : deallocuvm k k.cur.pgdir newsz oldsz = .ok (oldsz, k') := by
    unfold deallocuvm
    rw [if_neg (Nat.not_le.mpr hlt), hfold]
    rfl
  exact ⟨k', hrun, (h.sound (PGROUNDUP_le_KERNBASE (by omega))).dealloc hsmall hrun⟩

/-- The round in which `kalloc` or `mappages` finds no frame. -/
theorem round_short {oldsz newsz : Nat} (h : Swapping k lim st) (hok : st.Ok MAX_PSYC_PAGES MAX_PSYC_PAGES)
    (hold : oldsz ≤ lim) (hlt : lim < newsz) (hsmall : newsz ≤ KERNBASE)
    (hshort : k.framesFor st < min (st.resident.length + 1) MAX_PSYC_PAGES + (if k.hasTable (PDX lim) then 0 else 1))
    (rest : List Nat) :
    ∃ k1 k', Paging.allocLoop k.cur.pgdir oldsz newsz (lim :: rest) k = .ok (0, k') ∧ Swapping k1 lim st.room ∧
      (∀ b ∈ st.room.resident ++ st.room.spilled, ∀ bytes, Holds k b bytes → Holds k1 b bytes) ∧
      Undone k1 k' (PGROUNDUP oldsz) := by
  obtain ⟨k1, hroom, h1, hkept1, hframes1, htable1, hholds1⟩ := h.makeRoom
  have hres := hok.resident_push (by decide : 0 < MAX_PSYC_PAGES) lim
  have hpush : (st.room.resident ++ [lim]).length = min (st.resident.length + 1) MAX_PSYC_PAGES := hres
  rw [List.length_append, List.length_singleton] at hpush
  unfold Kernel.framesFor at hshort
  have hshort1 : k1.freelist.length < 1 + (if k1.hasTable (PDX lim) then 0 else 1) := by
    rw [htable1]
    omega
  have hprint : cprintf k1 = .ok () := cprintf_ok h1.locks
  cases hfree : k1.freelist with
  | nil =>
    obtain ⟨k', hdealloc, hundone⟩ := h1.dealloc (by omega : oldsz < newsz) hsmall
    rw [hkept1.pgdir] at hdealloc
    refine ⟨k1, k', ?_, h1, hholds1, hundone⟩
    rw [Paging.allocLoop, hroom]
    simp only [ok_bind, kalloc, hfree, hprint, hdealloc, pure_eq_ok]
  | cons f tail =>
    rw [hfree, List.length_cons] at hshort1
    -- the only frame that is left is taken for the page, and none for its table
    have htail : tail = [] := by
      apply List.eq_nil_of_length_eq_zero
      split at hshort1
      · omega
      · omega
    subst htail
    have hnone : (k1.pgdir k1.cur.pgdir).pde (PDX lim) = none := by
      cases htable : (k1.pgdir k1.cur.pgdir).pde (PDX lim) with
      | none => rfl
      | some t => simp [Kernel.hasTable, htable] at hshort1
    obtain ⟨k2, hk2⟩ : ∃ k2, k2 = ({ k1 with freelist := [] } : Kernel).setFrame f fun _ => 0 := ⟨_, rfl⟩
    have h2 : Swapping k2 lim st.room := by
      rw [hk2]
      exact { h1 with mapped := (h1.mapped.take hfree).setFrame f fun _ => 0 }
    have hcur2 : k2.cur = k1.cur := by
      rw [hk2]
      rfl
    have hmap : mappages k2 k.cur.pgdir lim ⟨f, true, true, true, false⟩ = .ok (-1, k2) := by
      have hnone2 : (k2.pgdir k.cur.pgdir).pde (PDX lim) = none := by
        rw [hk2, ← hkept1.pgdir]
        exact hnone
      have hfree2 : k2.freelist = [] := by
        rw [hk2]
        rfl
      simp [mappages, walkpgdirAlloc, hnone2, kalloc, hfree2]
    have htaken : ∀ b, b % PGSIZE = 0 → b < PGROUNDUP oldsz → (k1.entry b).p = true → (k1.entry b).ppn ≠ f := by
      intro b hb hblt hp heq
      apply (h1.sound (PGROUNDUP_le_KERNBASE (by omega : oldsz ≤ KERNBASE))).free b hb hblt hp
      rw [hfree, heq]
      exact List.mem_cons_self
    have hundone2 : Undone k1 k2 (PGROUNDUP oldsz) := by
      rw [hk2]
      exact (Undone.refl k1 _).fill htaken _ _
    obtain ⟨k3, hdealloc, hundone3⟩ := h2.dealloc (by omega : oldsz < newsz) hsmall
    rw [hcur2, hkept1.pgdir] at hdealloc
    have hundone := hundone2.trans hundone3
    have hokf : k3.FrameOk f := by
      rw [hundone.mem.frameOk]
      exact h1.mapped.freeOk f (by simp [Kernel.view, hfree])
    refine ⟨k1, { k3.setFrame f (fun _ => 1) with freelist := f :: k3.freelist }, ?_, h1, hholds1,
      hundone.fill htaken _ _⟩
    rw [Paging.allocLoop, hroom]
    simp only [ok_bind, kalloc, hfree]
    rw [← hk2, hmap]
    simp only [ok_bind]
    rw [if_pos (by decide), cprintf_ok h2.locks]
    simp only [ok_bind, hdealloc, kfree_eq hokf, pure_eq_ok]

end Swapping

/-! ### The round that fails -/

theorem nextPages_concat (lim n : Nat) : nextPages lim (n + 1) = nextPages lim n ++ [lim + n * PGSIZE] := by
  rw [nextPages_add]
  rfl

theorem EnoughFrames.mono {k : Kernel} {r lim m n : Nat} (h : EnoughFrames k r (nextPages lim n)) (hle : m ≤ n) :
    EnoughFrames k r (nextPages lim m) := by
  obtain ⟨d, rfl⟩ := Nat.exists_eq_add_of_le hle
  intro hm
  have hn : nextPages lim (m + d) ≠ [] := by
    rw [nextPages_add]
    exact List.append_ne_nil_of_left_ne_nil hm _
  have hall := h hn
  rw [length_nextPages] at hall ⊢
  have htables := newTables_append k.hasTable (nextPages lim m) (nextPages (lim + m * PGSIZE) d)
  rw [← nextPages_add] at htables
  omega

namespace Swapping

variable {k : Kernel} {lim n : Nat} {st : PageStore}

/-- Making room for a page brings none back. -/
theorem mem_of_room {b : Nat} (h : Swapping k lim st.room) (hb : b ∈ st.room.resident ++ st.room.spilled) :
    b ∈ st.resident ++ st.spilled := by
  have hitem : b ∈ st.items :=
    (Store.items_makeRoom MAX_PSYC_PAGES MAX_PSYC_PAGES st).mem_iff.mp (List.mem_append_left _ hb)
  refine (List.mem_append.mp hitem).resolve_right ?_
  intro hlost
  have hlost' : b ∈ st.room.lost := Store.mem_lost_push (c := MAX_PSYC_PAGES) (d := MAX_PSYC_PAGES) hlost b
  exact (List.nodup_append.mp h.items_nodup).2.2 b hb b hlost' rfl

/-- The loop of `allocuvm` when there are not enough frames: `j` is the
    number of rounds that succeed, and the last eviction is that of the
    round that fails. -/
theorem allocLoop_short {oldsz newsz : Nat} (h : Swapping k lim st) (hok : st.Ok MAX_PSYC_PAGES MAX_PSYC_PAGES)
    (hlim : lim % PGSIZE = 0) (hold : oldsz ≤ lim) (hlt : lim + n * PGSIZE < newsz + PGSIZE) (hsmall : newsz < KERNBASE)
    (hshort : ¬ EnoughFrames k st.resident.length (nextPages lim n)) :
    ∃ j, j < n ∧ EnoughFrames k st.resident.length (nextPages lim j) ∧
      ¬ EnoughFrames k st.resident.length (nextPages lim (j + 1)) ∧
      ∃ k1 k', Paging.allocLoop k.cur.pgdir oldsz newsz (nextPages lim n) k = .ok (0, k') ∧
        Swapping k1 (lim + j * PGSIZE) (st.grown (nextPages lim j)).room ∧
        (∀ b ∈ (st.grown (nextPages lim j)).room.resident ++ (st.grown (nextPages lim j)).room.spilled,
          b ∈ st.resident ++ st.spilled → ∀ bytes, Holds k b bytes → Holds k1 b bytes) ∧
        Undone k1 k' (PGROUNDUP oldsz) := by
  have hex : ∃ m, ¬ EnoughFrames k st.resident.length (nextPages lim m) := ⟨n, hshort⟩
  obtain ⟨m, hm, hfirst⟩ : ∃ m, ¬ EnoughFrames k st.resident.length (nextPages lim m) ∧
      ∀ i < m, EnoughFrames k st.resident.length (nextPages lim i) := by
    classical
    exact ⟨Nat.find hex, Nat.find_spec hex, fun i hi => not_not.mp (Nat.find_min hex hi)⟩
  have hmn : m ≤ n := by
    by_contra hgt
    exact hshort (hfirst n (by omega))
  obtain ⟨j, rfl⟩ : ∃ j, m = j + 1 := by
    apply Nat.exists_eq_succ_of_ne_zero
    rintro rfl
    exact hm fun hne => absurd rfl hne
  have henough := hfirst j (Nat.lt_succ_self j)
  have hjn : (j + 1) * PGSIZE ≤ n * PGSIZE := Nat.mul_le_mul_right _ hmn
  rw [Nat.succ_mul] at hjn
  have hend : lim + j * PGSIZE < newsz := by
    apply Nat.lt_of_add_lt_add_right (n := PGSIZE)
    rw [Nat.add_assoc]
    exact Nat.lt_of_le_of_lt (Nat.add_le_add_left hjn lim) hlt
  -- the rounds that succeed
  obtain ⟨kj, hloop, hj, hkept, hframes, htables, hholds⟩ := h.allocLoop (n := j) hok hlim
    (Nat.le_of_lt (hend.trans hsmall)) (by
    intro hne
    have := henough (List.ne_nil_of_length_pos (by rw [length_nextPages]; omega))
    rwa [length_nextPages] at this)
  have hokj : (st.grown (nextPages lim j)).Ok MAX_PSYC_PAGES MAX_PSYC_PAGES := hok.pushAll (by decide)
  have hresj : (st.grown (nextPages lim j)).resident.length = min (st.resident.length + j) MAX_PSYC_PAGES := by
    have := hok.resident_pushAll (by decide : 0 < MAX_PSYC_PAGES) (l := nextPages lim j)
    rwa [length_nextPages] at this
  have hlast := nextPages_concat lim j
  have hrest : ∃ rest, nextPages lim n = nextPages lim j ++ (lim + j * PGSIZE) :: rest := by
    obtain ⟨d, rfl⟩ := Nat.exists_eq_add_of_le hmn
    exact ⟨_, by rw [nextPages_add, hlast, List.append_assoc]; rfl⟩
  obtain ⟨rest, hrest⟩ := hrest
  -- the one that fails
  have hshortj : kj.framesFor (st.grown (nextPages lim j)) <
      min ((st.grown (nextPages lim j)).resident.length + 1) MAX_PSYC_PAGES +
        (if kj.hasTable (PDX (lim + j * PGSIZE)) then 0 else 1) := by
    have hm' : ¬ (min (st.resident.length + (j + 1)) MAX_PSYC_PAGES + newTables k.hasTable (nextPages lim (j + 1)) ≤
        k.framesFor st) := by
      intro hle
      apply hm
      intro _
      rwa [length_nextPages]
    have htable := htables [lim + j * PGSIZE]
    rw [← hlast] at htable
    simp only [newTables, Nat.add_zero] at htable
    rw [hresj]
    omega
  obtain ⟨k1, k', hfail, h1, hholds1, hundone⟩ :=
    hj.round_short hokj (by omega : oldsz ≤ _) hend (Nat.le_of_lt hsmall) hshortj rest
  rw [hkept.pgdir] at hfail
  refine ⟨j, hmn, henough, hm, k1, k', ?_, h1, ?_, hundone⟩
  · rw [hrest, hloop, hfail]
  · intro b hb hold' bytes hbytes
    -- what is still there had been there before the last eviction
    exact hholds1 b hb bytes ((hholds b (h1.mem_of_room hb)).1 hold' bytes hbytes)

end Swapping

/-! ### `growproc` -/

theorem holds_setSz {k : Kernel} {sz a : Nat} {bytes : Nat → UInt8} :
    Holds (k.setSz sz) a bytes ↔ Holds k a bytes := by
  have hcur : (k.setSz sz).cur = { k.cur with sz } := Kernel.modCur_cur k _
  unfold Holds
  rw [hcur]
  rfl

/-- Sizes of the user half do not wrap. -/
theorem newsz_eq {sz n : Nat} (hsz : sz ≤ KERNBASE) (hn : n < 2 ^ 31) : (((sz : Int) + n) % 2 ^ 32).toNat = sz + n := by
  simp only [KERNBASE] at hsz
  omega

namespace Swapping

variable {k : Kernel} {lim n : Nat} {st : PageStore}

theorem setSz (h : Swapping k lim st) (sz : Nat) : Swapping (k.setSz sz) lim st := by
  have hcur : (k.setSz sz).cur = { k.cur with sz } := Kernel.modCur_cur k _
  refine ⟨h.locks, ?_, ?_, ?_, ?_, ?_, ?_, ?_⟩
  · rw [hcur]
    exact h.pid
  · rw [hcur]
    exact h.fifo.congr rfl rfl
  · rw [hcur]
    exact h.counted
  · rw [hcur]
    exact h.slots.congr rfl
  · rw [hcur]
    exact h.slotsCounted
  · rw [hcur]
    exact h.file
  · rw [hcur]
    exact h.mapped

/-- The address space ends. -/
theorem growproc_kernbase (h : Swapping k k.cur.sz st) (hn : 0 < n) (hn31 : n < 2 ^ 31) (hend : KERNBASE ≤ k.cur.sz + n) :
    growproc k n = .ok (-1, k) := by
  simp only [growproc, newsz_eq h.mapped.small hn31]
  rw [if_pos (by omega), Paging.allocuvm, if_pos hend, ok_bind]
  simp only []
  rw [if_pos ⟨by omega, trivial⟩]
  rfl

theorem growproc_grows (h : Swapping k k.cur.sz st) (hok : st.Ok MAX_PSYC_PAGES MAX_PSYC_PAGES) (hn : 0 < n)
    (hn31 : n < 2 ^ 31) (hsmall : k.cur.sz + n < KERNBASE) {new : List Nat}
    (hnew : new = pageRange (PGROUNDUP k.cur.sz) (k.cur.sz + n)) (hframes : EnoughFrames k st.resident.length new) :
    ∃ k', growproc k n = .ok (0, k') ∧ Swapping k' k'.cur.sz (st.grown new) ∧
      ∀ b ∈ (st.grown new).resident ++ (st.grown new).spilled,
        (b ∈ st.resident ++ st.spilled → ∀ bytes, Holds k b bytes → Holds k' b bytes) ∧
        (b ∈ new → Holds k' b fun _ => 0) := by
  obtain ⟨k', hrun, h', -, hholds⟩ := h.allocuvm hok (Nat.le_add_right _ n) hsmall hnew hframes
  have hcur : (k'.setSz (k.cur.sz + n)).cur.sz = k.cur.sz + n := by
    rw [Kernel.setSz, Kernel.modCur_cur]
  refine ⟨k'.setSz (k.cur.sz + n), ?_, ?_, ?_⟩
  · simp only [growproc, newsz_eq h.mapped.small hn31]
    rw [if_pos (by omega), hrun, ok_bind]
    simp only []
    rw [if_neg (by omega)]
    rfl
  · rw [hcur]
    exact h'.setSz _
  · simp only [holds_setSz]
    exact hholds

/-- `growproc` when there are not enough frames. -/
theorem growproc_short (h : Swapping k k.cur.sz st) (hok : st.Ok MAX_PSYC_PAGES MAX_PSYC_PAGES) (hn : 0 < n)
    (hn31 : n < 2 ^ 31) (hsmall : k.cur.sz + n < KERNBASE) {new : List Nat}
    (hnew : new = pageRange (PGROUNDUP k.cur.sz) (k.cur.sz + n)) (hframes : ¬ EnoughFrames k st.resident.length new) :
    ∃ j lim, EnoughFrames k st.resident.length (nextPages (PGROUNDUP k.cur.sz) j) ∧
      ¬ EnoughFrames k st.resident.length (nextPages (PGROUNDUP k.cur.sz) (j + 1)) ∧ j < new.length ∧
      ∃ k1 k', growproc k n = .ok (-1, k') ∧
        Swapping k1 lim (st.grown (nextPages (PGROUNDUP k.cur.sz) j)).room ∧
        (∀ b ∈ (st.grown (nextPages (PGROUNDUP k.cur.sz) j)).room.resident ++
            (st.grown (nextPages (PGROUNDUP k.cur.sz) j)).room.spilled,
          b ∈ st.resident ++ st.spilled → ∀ bytes, Holds k b bytes → Holds k1 b bytes) ∧
        Undone k1 k' (PGROUNDUP k.cur.sz) := by
  have hup := le_PGROUNDUP k.cur.sz
  rw [pageRange_eq] at hnew
  obtain ⟨m, hm⟩ : ∃ m, m = (k.cur.sz + n - PGROUNDUP k.cur.sz + PGSIZE - 1) / PGSIZE := ⟨_, rfl⟩
  rw [← hm] at hnew
  have hm0 : m ≠ 0 := by
    rintro rfl
    rw [hnew] at hframes
    exact hframes fun hne => absurd rfl hne
  have hlt : PGROUNDUP k.cur.sz + m * PGSIZE < k.cur.sz + n + PGSIZE := by
    simp only [PGSIZE] at hm ⊢
    omega
  rw [hnew] at hframes
  obtain ⟨j, hj, henough, hfirst, k1, k', hloop, h1, hholds, hundone⟩ :=
    h.round_up.allocLoop_short hok (PGROUNDUP_aligned k.cur.sz) hup hlt hsmall hframes
  refine ⟨j, _, henough, hfirst, by rw [hnew, length_nextPages]; exact hj, k1, k', ?_, h1, hholds, hundone⟩
  simp only [growproc, newsz_eq h.mapped.small hn31]
  rw [if_pos (by omega), Paging.allocuvm, if_neg (Nat.not_le.mpr hsmall), if_neg (by omega), pageRange_eq, ← hm, hloop, ok_bind]
  simp only []
  rw [if_pos ⟨by omega, trivial⟩]
  rfl

end Swapping

/-! ### Growth past the capacity -/

/-- The growth is refused, and every page keeps what it holds. -/
def Refused (k : Kernel) (n : Nat) : Prop :=
  ∃ k', growproc k n = .ok (-1, k') ∧
    ∀ a, a % PGSIZE = 0 → a < k.cur.sz → ∀ bytes, Holds k a bytes → Holds k' a bytes

/-- There are not enough frames for `MAX_PSYC_PAGES` pages and for the page
    tables that the pages `l` need. -/
def FewFrames (k : Kernel) (l : List Nat) : Prop :=
  k.freelist.length + k.cur.nPagesInPhyMemory < ((MAX_PSYC_PAGES + newTables k.hasTable l : Nat) : Int)

instance (k : Kernel) (l : List Nat) : Decidable (FewFrames k l) := by
  unfold FewFrames; infer_instance

/-- `allocuvm` fails before `moveToSwapFile` has to do without a slot, or
    before it has come to the pages that the process had. -/
def FailsInTime (k : Kernel) (n : Nat) : Prop :=
  KERNBASE ≤ k.cur.sz + n ∨
  FewFrames k (pageRange (PGROUNDUP k.cur.sz) (MAX_TOTAL_PAGES * PGSIZE)) ∨
  (k.cur.sz ≤ MAX_PSYC_PAGES * PGSIZE ∧ FewFrames k (pageRange (PGROUNDUP k.cur.sz) (k.cur.sz + n)))

instance (k : Kernel) (n : Nat) : Decidable (FailsInTime k n) := by
  unfold FailsInTime; infer_instance

namespace Swapping

variable {k : Kernel} {n j : Nat} {st : PageStore}

theorem fewFrames_iff {l : List Nat} (h : Swapping k k.cur.sz st) :
    FewFrames k l ↔ k.framesFor st < MAX_PSYC_PAGES + newTables k.hasTable l := by
  unfold FewFrames Kernel.framesFor
  rw [h.counted]
  omega

/-- Where nothing is lost yet, the process has as many pages as the two
    tables list; otherwise more than both can hold. -/
theorem pages_cases (h : Swapping k k.cur.sz st) (hok : st.Ok MAX_PSYC_PAGES MAX_PSYC_PAGES) :
    (st.lost = [] ∧ (st.resident.length + st.spilled.length) * PGSIZE = PGROUNDUP k.cur.sz) ∨
    (st.lost ≠ [] ∧ st.resident.length = MAX_PSYC_PAGES ∧ st.spilled.length = MAX_PSYC_PAGES ∧
      MAX_TOTAL_PAGES * PGSIZE < PGROUNDUP k.cur.sz) := by
  have hlen := h.mapped.length_eq
  simp only [List.length_append] at hlen
  by_cases hlost : st.lost = []
  · left
    rw [hlost, List.length_nil, Nat.add_zero] at hlen
    exact ⟨hlost, hlen⟩
  · right
    obtain ⟨hr, hs⟩ := hok.full hlost
    have hpos := List.length_pos_iff.mpr hlost
    refine ⟨hlost, hr, hs, ?_⟩
    rw [← hlen]
    apply Nat.mul_lt_mul_of_pos_right
    · simp only [MAX_TOTAL_PAGES, MAX_PSYC_PAGES] at *
      omega
    · decide

/-- With the round `j + 1` failing, no page is lost just when all the
    evicted ones found a slot, or were new. -/
theorem refused_iff_short (h : Swapping k k.cur.sz st) (hok : st.Ok MAX_PSYC_PAGES MAX_PSYC_PAGES) {k1 k' : Kernel}
    {lim : Nat} (hrun : growproc k n = .ok (-1, k'))
    (h1 : Swapping k1 lim (st.grown (nextPages (PGROUNDUP k.cur.sz) j)).room)
    (hholds : ∀ b ∈ (st.grown (nextPages (PGROUNDUP k.cur.sz) j)).room.resident ++
        (st.grown (nextPages (PGROUNDUP k.cur.sz) j)).room.spilled,
      b ∈ st.resident ++ st.spilled → ∀ bytes, Holds k b bytes → Holds k1 b bytes)
    (hundone : Undone k1 k' (PGROUNDUP k.cur.sz)) :
    Refused k n ↔ st.resident.length + st.spilled.length ≤ MAX_PSYC_PAGES ∨
      st.resident.length + st.spilled.length + (j + 1) ≤ MAX_TOTAL_PAGES := by
  obtain ⟨new, hnew⟩ : ∃ new, new = nextPages (PGROUNDUP k.cur.sz) (j + 1) := ⟨_, rfl⟩
  have hlast := hnew.trans (nextPages_concat (PGROUNDUP k.cur.sz) j)
  have hlen : new.length = j + 1 := by rw [hnew, length_nextPages]
  -- what the failing round evicts is what it would have evicted
  have hlost : (st.grown (nextPages (PGROUNDUP k.cur.sz) j)).room.lost = (st.grown new).lost := by
    rw [hlast]
    unfold PageStore.grown
    rw [Store.pushAll_append]
    rfl
  constructor
  · rintro ⟨k2, hrun2, hkeeps⟩
    rw [hrun] at hrun2
    cases hrun2
    by_contra hnot
    rw [not_or] at hnot
    obtain ⟨hmany, hmore⟩ := hnot
    obtain ⟨a, ha, hgone⟩ := hok.exists_lost (l := new) (by decide) (Nat.lt_of_not_le hmany) (by
      rw [hlen]
      simp only [MAX_TOTAL_PAGES, MAX_PSYC_PAGES] at *
      omega)
    obtain ⟨hal, hlt⟩ := (h.mapped.pages a).mp (List.mem_append_left _ ha)
    obtain ⟨bytes, hbytes⟩ := h.exists_holds ha
    rw [← hlost] at hgone
    refine h1.not_holds_lost hgone (?_ : Holds k1 a bytes)
    rw [← hundone.holds hal ((lt_PGROUNDUP hal).mpr hlt)]
    exact hkeeps a hal hlt bytes hbytes
  · intro hfew
    refine ⟨k', hrun, ?_⟩
    intro a hal hlt bytes hbytes
    have hup := (lt_PGROUNDUP hal).mpr hlt
    have hitem := (h.mem_items).mpr ⟨hal, hlt⟩
    have hold : a ∉ st.lost := fun hmem => h.not_holds_lost hmem hbytes
    have hstill := (List.mem_append.mp hitem).resolve_right hold
    rw [hundone.holds hal hup]
    refine hholds a ?_ hstill bytes hbytes
    have hitem1 : a ∈ (st.grown (nextPages (PGROUNDUP k.cur.sz) j)).room.items := by
      apply (Store.items_makeRoom _ _ _).mem_iff.mpr
      apply Store.items_pushAll.mem_iff.mpr
      exact List.mem_append_right _ hitem
    refine (List.mem_append.mp hitem1).resolve_right ?_
    rw [hlost]
    intro hgone
    rcases hfew with hfew | hfew
    · -- the slots hold all the pages that the process had
      rcases hok.lost_new (by decide) hfew hgone with hmem | hmem
      · exact hold hmem
      · rw [hnew, mem_nextPages (PGROUNDUP_aligned _)] at hmem
        omega
    · have hnone : st.lost = [] := by
        by_contra hne
        obtain ⟨hr, hs⟩ := hok.full hne
        rw [hr, hs] at hfew
        simp only [MAX_TOTAL_PAGES, MAX_PSYC_PAGES] at hfew
        omega
      rw [hok.lost_eq_nil (by decide) hnone (by rw [hlen]; exact hfew)] at hgone
      exact absurd hgone List.not_mem_nil

end Swapping

/-! ### Counting the pages -/

theorem enough_iff {k : Kernel} {st : PageStore} {lim i : Nat} :
    EnoughFrames k st.resident.length (nextPages lim i) ↔
      i = 0 ∨ min (st.resident.length + i) MAX_PSYC_PAGES + newTables k.hasTable (nextPages lim i) ≤ k.framesFor st := by
  unfold EnoughFrames Kernel.framesFor
  rw [length_nextPages]
  cases i with
  | zero => simp
  | succ i => simp [nextPages_succ]

/-- How many pages there are from a limit on up to the capacity. -/
theorem roomLeft_eq {sz t : Nat} (h : t * PGSIZE = PGROUNDUP sz) :
    (MAX_TOTAL_PAGES * PGSIZE - PGROUNDUP sz + PGSIZE - 1) / PGSIZE = MAX_TOTAL_PAGES - t := by
  rw [← h]
  simp only [MAX_TOTAL_PAGES, PGSIZE]
  omega

/-- A growth past the capacity takes more pages than that. -/
theorem roomLeft_lt {sz n t : Nat} (h : t * PGSIZE = PGROUNDUP sz) (hmax : MAX_TOTAL_PAGES * PGSIZE < sz + n) :
    MAX_TOTAL_PAGES < t + (sz + n - PGROUNDUP sz + PGSIZE - 1) / PGSIZE := by
  rw [← h]
  have hle := le_PGROUNDUP sz
  rw [← h] at hle
  simp only [MAX_TOTAL_PAGES, PGSIZE] at *
  omega

theorem pages_le_iff {sz t : Nat} (h : t * PGSIZE = PGROUNDUP sz) :
    sz ≤ MAX_PSYC_PAGES * PGSIZE ↔ t ≤ MAX_PSYC_PAGES := by
  simp only [PGROUNDUP, MAX_PSYC_PAGES, PGSIZE] at *
  omega

namespace Swapping

variable {k : Kernel} {n j : Nat} {st : PageStore}

/-- The pages of the process (`r` of them in the list), those that there is
    room for (`c`), and those that it asks for (`m`). -/
theorem counts (h : Swapping k k.cur.sz st) (hok : st.Ok MAX_PSYC_PAGES MAX_PSYC_PAGES)
    (hmax : MAX_TOTAL_PAGES * PGSIZE < k.cur.sz + n) {c m : Nat}
    (hc : c = (MAX_TOTAL_PAGES * PGSIZE - PGROUNDUP k.cur.sz + PGSIZE - 1) / PGSIZE)
    (hm : m = (k.cur.sz + n - PGROUNDUP k.cur.sz + PGSIZE - 1) / PGSIZE) :
    c ≤ m ∧ c = MAX_TOTAL_PAGES - (st.resident.length + st.spilled.length) ∧
      MAX_PSYC_PAGES ≤ st.resident.length + c ∧
      (k.cur.sz ≤ MAX_PSYC_PAGES * PGSIZE ↔ st.resident.length + st.spilled.length ≤ MAX_PSYC_PAGES) := by
  have hs := hok.spilled_le
  rcases h.pages_cases hok with ⟨-, hlen⟩ | ⟨-, hr, hfull, hmany⟩
  · have hroom := roomLeft_eq hlen
    have hmore := roomLeft_lt hlen hmax
    rw [← hc] at hroom
    rw [← hm] at hmore
    refine ⟨?_, hroom, ?_, pages_le_iff hlen⟩
    · omega
    · simp only [MAX_TOTAL_PAGES, MAX_PSYC_PAGES] at *
      omega
  · have hzero : c = 0 := by
      rw [hc, Nat.sub_eq_zero_of_le (Nat.le_of_lt hmany)]
      decide
    have hsz : MAX_PSYC_PAGES * PGSIZE < k.cur.sz := by
      simp only [PGROUNDUP, MAX_TOTAL_PAGES, MAX_PSYC_PAGES, PGSIZE] at hmany ⊢
      omega
    rw [hzero, hr, hfull]
    refine ⟨Nat.zero_le m, rfl, Nat.le_refl _, ?_⟩
    exact iff_of_false (Nat.not_le.mpr hsz) (by decide)

/-- When a growth past the capacity is refused in time. -/
theorem refused_iff (h : Swapping k k.cur.sz st) (hok : st.Ok MAX_PSYC_PAGES MAX_PSYC_PAGES) (hn : 0 < n)
    (hn31 : n < 2 ^ 31) (hmax : MAX_TOTAL_PAGES * PGSIZE < k.cur.sz + n) : Refused k n ↔ FailsInTime k n := by
  by_cases hend : KERNBASE ≤ k.cur.sz + n
  · refine iff_of_true ⟨k, h.growproc_kernbase hn hn31 hend, ?_⟩ (.inl hend)
    intro a _ _ bytes hbytes
    exact hbytes
  have hsmall := Nat.lt_of_not_le hend
  obtain ⟨m, hm⟩ : ∃ m, m = (k.cur.sz + n - PGROUNDUP k.cur.sz + PGSIZE - 1) / PGSIZE := ⟨_, rfl⟩
  obtain ⟨c, hc⟩ : ∃ c, c = (MAX_TOTAL_PAGES * PGSIZE - PGROUNDUP k.cur.sz + PGSIZE - 1) / PGSIZE := ⟨_, rfl⟩
  have hnew : nextPages (PGROUNDUP k.cur.sz) m = pageRange (PGROUNDUP k.cur.sz) (k.cur.sz + n) := by
    rw [pageRange_eq, ← hm]
  unfold FailsInTime
  rw [or_iff_right hend, h.fewFrames_iff, h.fewFrames_iff, ← hnew, pageRange_eq, ← hc]
  obtain ⟨hcm, hcount, hlist, hsz⟩ := h.counts hok hmax hc hm
  rw [hsz]
  have hown : st.resident.length ≤ k.framesFor st := Nat.le_add_left _ _
  -- frames for the pages that there is room for
  have hroom : ∀ {i}, c ≤ i → EnoughFrames k st.resident.length (nextPages (PGROUNDUP k.cur.sz) i) →
      ¬ k.framesFor st < MAX_PSYC_PAGES + newTables k.hasTable (nextPages (PGROUNDUP k.cur.sz) c) := by
    intro i hle henough
    rcases enough_iff.mp (henough.mono hle) with rfl | hframes
    · simp only [nextPages_zero, newTables]
      omega
    · omega
  by_cases henough : EnoughFrames k st.resident.length (nextPages (PGROUNDUP k.cur.sz) m)
  · -- the growth succeeds
    obtain ⟨k', hrun, -⟩ := h.growproc_grows hok hn hn31 hsmall hnew henough
    refine iff_of_false ?_ ?_
    · rintro ⟨k2, hrun2, -⟩
      rw [hrun] at hrun2
      cases hrun2
    · rintro (hfew | ⟨hsmallsz, hfew⟩)
      · exact hroom hcm henough hfew
      · rcases enough_iff.mp henough with hzero | hframes
        · simp only [MAX_TOTAL_PAGES, MAX_PSYC_PAGES] at *
          omega
        · omega
  · obtain ⟨j, lim, hj, hfirst, -, k1, k', hrun, h1, hholds, hundone⟩ :=
      h.growproc_short hok hn hn31 hsmall hnew henough
    rw [h.refused_iff_short hok hrun h1 hholds hundone]
    constructor
    · rintro (hfew | hfew)
      · right
        refine ⟨hfew, ?_⟩
        have := enough_iff.not.mp henough
        omega
      · left
        have := enough_iff.not.mp fun henoughc => hfirst (EnoughFrames.mono henoughc (by omega : j + 1 ≤ c))
        omega
    · rintro (hfew | ⟨hfew, -⟩)
      · by_contra hnot
        rw [not_or] at hnot
        exact hroom (by omega : c ≤ j) hj hfew
      · exact .inl hfew

end Swapping

/-! ### What an eviction records -/

/-- The eviction wrote the page to a slot that was free. -/
def Recorded (k k' : Kernel) (a : Nat) (bytes : Nat → UInt8) : Prop :=
  ∃ i f, (k.cur.pagesInSwapFile i).in_use = false ∧ k'.cur.pagesInSwapFile i = ⟨a, true⟩ ∧
    k'.cur.swapFile = some f ∧ ∀ j < PGSIZE, k'.fs.slotByte f i j = bytes j

/-- A write that returns was not made with a spinlock held. -/
theorem locks_of_writeToSwapFile {k k' : Kernel} {p : ProcId} {src : Nat → UInt8} {off : Nat} {size r : Int}
    (h : writeToSwapFile k p src off size = .ok (r, k')) (hsize : 0 < size) : k.locks = [] := by
  simp only [writeToSwapFile, bind_eq_ok] at h
  obtain ⟨f, -, h⟩ := h
  by_contra hlocks
  rw [if_pos ⟨hsize, hlocks⟩] at h
  cases h

theorem recordPage_kend {k k' : Kernel} {a : Nat} {x : Pte} (h : recordPage k a x = .ok k') : k'.kend = k.kend := by
  rcases recordPage_cases h with rfl | ⟨i, fs, rfl⟩
  · rfl
  · rfl

/-- A page that leaves memory had a frame that `kfree` accepts. -/
theorem frameOk_of_moveToSwapFile {k k' : Kernel} {a : Nat} {x : Pte} (hx : k.walkpgdir k.cur.pgdir a = some x)
    (hp : x.p = true) (h : moveToSwapFile k a = .ok k') : k.FrameOk x.ppn := by
  have hne : x ≠ .zero := by
    rintro rfl
    simp [Pte.zero] at hp
  simp only [moveToSwapFile, hx, deref_some, ok_bind, if_neg hne, bind_eq_ok, deref_eq_ok] at h
  obtain ⟨k1, hrec, y, hy, h⟩ := h
  obtain ⟨h1, hpgdir, -⟩ := recordPage_ok hrec
  rw [walkpgdir_PTE_ADDR, h1.pgdir, Kernel.walkpgdir, hpgdir] at hy
  obtain rfl : x = y := Option.some.inj (hx.symm.trans hy)
  rw [if_neg hne, if_pos hp] at h
  rw [bind_eq_ok] at h
  obtain ⟨k2, hfree, -⟩ := h
  unfold kfree at hfree
  split at hfree
  next hok =>
    rwa [Kernel.FrameOk, recordPage_kend hrec] at hok
  next => cases hfree

/-- `moveToSwapFile` frees the frame and marks the page, but records it
    only if a slot is free. -/
theorem moveToSwapFile_records {k k' : Kernel} {a : Nat} {x : Pte} (ha : a % PGSIZE = 0)
    (hx : k.walkpgdir k.cur.pgdir a = some x) (hp : x.p = true)
    (hfile : ∀ i, freeSlot k.cur = some i → ∃ f, k.cur.swapFile = some f ∧ SwapFile k.fs f i)
    (hok : moveToSwapFile k a = .ok k') :
    k'.walkpgdir k.cur.pgdir a = some .swapped ∧
      (Recorded k k' a (k.frame x.ppn) ↔ freeSlot k.cur ≠ none) := by
  constructor
  · obtain ⟨-, -, -, y, hy, -, hpgdir⟩ := moveToSwapFile_ok hok
    rw [hx] at hy
    cases hy
    rw [if_pos hp, PTE_ADDR_of_aligned ha] at hpgdir
    rw [Kernel.walkpgdir, hpgdir]
    exact Pgdir.walk_setPte_self _ hx
  cases hslot : freeSlot k.cur with
  | none =>
    refine iff_of_false ?_ (fun hne => hne rfl)
    rintro ⟨i, f, hfree, -⟩
    have := List.find?_eq_none.mp hslot i (List.mem_finRange i)
    simp [hfree] at this
  | some i =>
    refine iff_of_true ?_ (by simp)
    obtain ⟨f, hf, hsf⟩ := hfile i hslot
    have hfree : (k.cur.pagesInSwapFile i).in_use = false := by
      simpa using List.find?_some hslot
    obtain ⟨k2, hk2⟩ : ∃ k2, k2 = k.modCur fun p => p.setSlot i ⟨a, true⟩ := ⟨_, rfl⟩
    have hcur2 : k2.cur = k.cur.setSlot i ⟨a, true⟩ := by
      rw [hk2]
      exact Kernel.modCur_cur k _
    have hlocks : k.locks = [] := by
      simp only [moveToSwapFile, bind_eq_ok, deref_eq_ok] at hok
      obtain ⟨y, -, hok⟩ := hok
      split at hok
      · cases hok
      · simp only [bind_eq_ok] at hok
        obtain ⟨k1, hrec, -⟩ := hok
        simp only [recordPage, hslot, bind_eq_ok] at hrec
        obtain ⟨⟨r, k3⟩, hwrite, -⟩ := hrec
        have hlocks1 := locks_of_writeToSwapFile hwrite (by decide)
        exact hlocks1
    obtain ⟨fs', hwrite, -, hbytes⟩ := writeToSwapFile_eq (k := k2) (f := f) (by rw [hcur2]; exact hf)
      (by rw [hk2]; exact hlocks) (by rw [hk2]; exact hsf) (Nat.le_refl i.val) i.isLt (k.frame x.ppn)
    rw [hk2] at hwrite
    obtain ⟨k3, hmove, -, -, hfs, hcur, -⟩ := moveToSwapFile_eq hlocks ha hx hp
      (frameOk_of_moveToSwapFile hx hp hok) hslot hwrite
    rw [hok] at hmove
    cases hmove
    refine ⟨i, f, hfree, ?_, ?_, ?_⟩
    · rw [hcur]
      simp
    · rw [hcur]
      exact hf
    · intro j hj
      rw [hfs, hbytes i j hj, if_pos rfl]

/-! ### The states that growth leads to -/

/-- `sbrk` of `n` more bytes, when it succeeds. -/
def grow (k : Kernel) (n : Nat) : Option Kernel :=
  match growproc k n with
  | .ok (r, k') => if r = 0 then some k' else none
  | .error _ => none

theorem grow_eq_some {k k' : Kernel} {n : Nat} (h : grow k n = some k') : growproc k n = .ok (0, k') := by
  unfold grow at h
  split at h
  next r k1 hrun =>
    split at h
    next hr =>
      cases h
      rw [hrun, hr]
    next => cases h
  next => cases h

/-- A positive `int`. -/
def Positive (_ : Kernel) (n : Nat) : Prop := 0 < n ∧ n < 2 ^ 31

/-- The pages are in the list, in the slots, or lost. -/
def Stored (k : Kernel) : Prop := ∃ st, Swapping k k.cur.sz st ∧ st.Ok MAX_PSYC_PAGES MAX_PSYC_PAGES

/-- Wherever growth leads, the pages are in the list, in the slots, or
    lost, and none is lost while the slots are not full. -/
theorem Swapping.reachable {k0 k : Kernel} {q s : List Nat} (h : Swapping k0 k0.cur.sz ⟨q, s, []⟩)
    (hreach : Runs.Reachable grow Positive k0 k) :
    ∃ st, Swapping k k.cur.sz st ∧ st.Ok MAX_PSYC_PAGES MAX_PSYC_PAGES := by
  show Stored k
  refine hreach.invariant ?_ ?_
  · exact ⟨_, h, h.fifo.length_le, h.slots.length_le, fun hne => absurd rfl hne⟩
  · rintro k1 n k2 ⟨st, h1, hok⟩ ⟨hn, hn31⟩ hgrow
    have hrun := grow_eq_some hgrow
    by_cases hend : KERNBASE ≤ k1.cur.sz + n
    · rw [h1.growproc_kernbase hn hn31 hend] at hrun
      cases hrun
    have hsmall := Nat.lt_of_not_le hend
    by_cases henough : EnoughFrames k1 st.resident.length (pageRange (PGROUNDUP k1.cur.sz) (k1.cur.sz + n))
    · obtain ⟨k', hrun', h', -⟩ := h1.growproc_grows hok hn hn31 hsmall rfl henough
      rw [hrun] at hrun'
      cases hrun'
      exact ⟨_, h', hok.pushAll (by decide)⟩
    · obtain ⟨j, lim, -, -, -, -, k', hrun', -⟩ := h1.growproc_short hok hn hn31 hsmall rfl henough
      rw [hrun] at hrun'
      cases hrun'

/-- In the states that growth leads to, a growth past the capacity is
    refused, with every page intact, just when `allocuvm` fails in time;
    and an eviction records the page just when a slot is free. -/
theorem overgrowth_refused_iff {k0 k : Kernel} {q s : List Nat} (h : Swapping k0 k0.cur.sz ⟨q, s, []⟩)
    (hreach : Runs.Reachable grow Positive k0 k) :
    (∀ {n : Nat}, 0 < n → n < 2 ^ 31 → MAX_TOTAL_PAGES * PGSIZE < k.cur.sz + n → (Refused k n ↔ FailsInTime k n)) ∧
    ∀ {k k' : Kernel} {a : Nat} {x : Pte}, a % PGSIZE = 0 → k.walkpgdir k.cur.pgdir a = some x → x.p = true →
      (∀ i, freeSlot k.cur = some i → ∃ f, k.cur.swapFile = some f ∧ SwapFile k.fs f i) →
      moveToSwapFile k a = .ok k' → k'.walkpgdir k.cur.pgdir a = some .swapped ∧
        (Recorded k k' a (k.frame x.ppn) ↔ freeSlot k.cur ≠ none) := by
  constructor
  · intro n hn hn31 hmax
    obtain ⟨st, hk, hok⟩ := h.reachable hreach
    exact hk.refused_iff hok hn hn31 hmax
  · intro k k' a x ha hx hp hfile hmove
    exact moveToSwapFile_records ha hx hp hfile hmove

/-- Three pages that are to become 31, and the eviction of the first. -/
theorem overgrowth_refused_iff_threePages :
    (Refused threePages (28 * PGSIZE) ↔ FailsInTime threePages (28 * PGSIZE)) ∧
    ∃ k' x, moveToSwapFile threePages 0 = .ok k' ∧ threePages.walkpgdir threePages.cur.pgdir 0 = some x ∧
      k'.walkpgdir threePages.cur.pgdir 0 = some .swapped ∧
      (Recorded threePages k' 0 (threePages.frame x.ppn) ↔ freeSlot threePages.cur ≠ none) := by
  constructor
  · exact (overgrowth_refused_iff threePages_swapping .refl).1 (by decide) (by decide) (by decide)
  · obtain ⟨x, hx, hp, -⟩ := threePages_swapping.walk_resident (List.mem_cons_self (a := 0))
    obtain ⟨k', hk'⟩ : ∃ k', moveToSwapFile threePages 0 = .ok k' := by
      cases h : moveToSwapFile threePages 0 with
      | ok k' => exact ⟨k', rfl⟩
      | error e =>
        have hsome : (moveToSwapFile threePages 0).toOption.isSome = true := by decide +kernel
        rw [h] at hsome
        cases hsome
    have hfile : ∀ i, freeSlot threePages.cur = some i →
        ∃ f, threePages.cur.swapFile = some f ∧ SwapFile threePages.fs f i := by
      intro i hi
      obtain ⟨f, hf, hsf⟩ := threePages_swapping.file
      have hfree := threePages_swapping.slots.freeSlot_eq (by decide)
      rw [hi] at hfree
      cases hfree
      exact ⟨f, hf, hsf⟩
    exact ⟨k', x, hk', hx, (overgrowth_refused_iff threePages_swapping .refl).2 (by decide) hx hp hfile hk'⟩

/-! ### A full process -/

/-- Thirty pages: the first fifteen in the swap file, the others in memory. -/
def thirtyPages : Kernel := layout PGSIZE (nextPages (15 * PGSIZE) 15) (nextPages 0 15) fun _ => 0

theorem thirtyPages_swapping :
    Swapping thirtyPages thirtyPages.cur.sz ⟨nextPages (15 * PGSIZE) 15, nextPages 0 15, []⟩ := by
  have hpaged : Paged PGSIZE thirtyPages (30 * PGSIZE) (nextPages (15 * PGSIZE) 15) (nextPages 0 15) fun _ => 0 := by
    refine layout_paged (by decide) ?_ (by decide) (by decide) fun _ _ => rfl
    intro a
    rw [List.mem_append, mem_nextPages (by decide), mem_nextPages (by decide), List.length_append, length_nextPages,
      length_nextPages]
    simp only [PGSIZE]
    omega
  exact hpaged.swapping rfl rfl (by decide)

/-- The next page is granted, and the page that entered the list first is
    lost: neither in memory nor in the swap file. -/
theorem overgrowth_loses_page : Swapping thirtyPages thirtyPages.cur.sz ⟨nextPages (15 * PGSIZE) 15, nextPages 0 15, []⟩ ∧
    MAX_TOTAL_PAGES * PGSIZE < thirtyPages.cur.sz + PGSIZE ∧
    ∃ k', growproc thirtyPages PGSIZE = .ok (0, k') ∧ (∃ bytes, Holds thirtyPages (15 * PGSIZE) bytes) ∧
      ∀ bytes, ¬ Holds k' (15 * PGSIZE) bytes := by
  have hok : (⟨nextPages (15 * PGSIZE) 15, nextPages 0 15, []⟩ : PageStore).Ok MAX_PSYC_PAGES MAX_PSYC_PAGES :=
    ⟨by decide, by decide, fun hne => absurd rfl hne⟩
  obtain ⟨k', hrun, h', -⟩ := thirtyPages_swapping.growproc_grows (n := PGSIZE) hok (by decide) (by decide) (by decide) rfl
    (by decide +kernel)
  refine ⟨thirtyPages_swapping, by decide, k', hrun, ?_, ?_⟩
  · exact thirtyPages_swapping.exists_holds (by decide)
  · intro bytes
    exact h'.not_holds_lost (by decide +kernel)

end Paging
