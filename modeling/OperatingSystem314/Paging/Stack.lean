import OperatingSystem314.Paging.Load

/-! # The stack that `exec` builds

    Two pages behind the program: the first is the guard page, the strings
    of the caller and the words of `ustack` are copied to the second one
    from its end down.  `copyout` writes through the entries, so what
    would not fit meets the guard page, and `exec` fails. -/

namespace Paging

/-- The string `bs`, with its null byte, lies at `a`. -/
def CString (m : Nat → UInt8) (a : Nat) (bs : List UInt8) : Prop := ∀ j ≤ bs.length, m (a + j) = strByte bs j

/-- User mode may not touch the page at `g`. -/
def GuardedPage (k : Kernel) (d g : Nat) : Prop :=
  ∀ va x, PTE_ADDR va = g → k.walkpgdir d va = some x → x.u = false

/-- What the arguments leave between `lo` and `top`: the strings, and below
    them, from `sp` on, the words that `main` finds. -/
structure ArgStack (m : Nat → UInt8) (lo top sp : Nat) (strs : List (List UInt8)) (args : List Nat) : Prop where
  low : lo ≤ sp
  strings : List.Forall₂ (CString m) args strs
  within : ∀ a ∈ args, sp + 4 * (args.length + 4) ≤ a ∧ a < top
  words : ∀ j < 4 * (args.length + 4),
    m (sp + j) = wordByte ([0xffffffff, args.length, sp + 12] ++ args ++ [0]) j

/-- One string that can be read without a fault. -/
theorem pushArgs_cons {d arg sp len : Nat} {argv ustack : List Nat} {k : Kernel}
    (hlen : strlen k arg = .ok (len, k)) : pushArgs d (arg :: argv) sp ustack k =
      (if MAXARG ≤ ustack.length then .ok (none, k)
      else do
        let (r, k) ← copyout k d (pushDown sp (len + 1)) (fun i k => kernelLoad k (arg + i)) (len + 1)
        if r < 0 then return (none, k)
        else pushArgs d argv (pushDown sp (len + 1)) (ustack ++ [pushDown sp (len + 1)]) k) := by
  rw [pushArgs]
  split
  · rfl
  · rw [hlen, ok_bind]
    dsimp only
    rw [hlen, ok_bind]

namespace Building

variable {k0 k k' : Kernel} {g d n base : Nat} {m : Nat → UInt8}

/-- Where `copyout` succeeded, the stack pointer stayed above the guard page. -/
theorem pushDown_above (h : Building k0 g d n m k) (hn : n ≤ MAX_PSYC_PAGES) (hguard : GuardedPage k d g)
    (hg : g % PGSIZE = 0) (hbase : base = g + PGSIZE) {sp l : Nat} (hlow : base ≤ sp)
    (htop : sp ≤ n * PGSIZE) (hal : sp % 4 = 0) (hl : 0 < l) (hlmax : l ≤ KERNBASE)
    (hall : ∀ j < l, ∃ x, k.walkpgdir d (pushDown sp l + j) = some x ∧ x.p = true ∧ x.u = true) :
    base ≤ pushDown sp l ∧ pushDown sp l + l ≤ sp ∧ pushDown sp l % 4 = 0 := by
  have hsmall : n * PGSIZE ≤ MAX_PSYC_PAGES * PGSIZE := Nat.mul_le_mul_right _ hn
  simp only [MAX_PSYC_PAGES, PGSIZE, KERNBASE] at hsmall htop hlmax hg hbase
  by_cases hwrap : l ≤ sp
  · have hpush : pushDown sp l = (sp - l) / 4 * 4 := by
      unfold pushDown
      rw [show (sp + 2 ^ 32 - l) % 2 ^ 32 = sp - l from by omega]
    refine ⟨?_, by omega, by omega⟩
    by_contra hbelow
    -- then the last word of the guard page would have been written
    obtain ⟨x, hx, -, hu⟩ := hall (base - 4 - pushDown sp l) (by omega)
    rw [show pushDown sp l + (base - 4 - pushDown sp l) = base - 4 from by omega] at hx
    have hpage : PTE_ADDR (base - 4) = g := by
      unfold PTE_ADDR
      simp only [PGSIZE]
      omega
    rw [hguard _ x hpage hx] at hu
    cases hu
  · -- the pointer has wrapped around, and there is no page
    obtain ⟨x, hx, hp, -⟩ := hall 0 hl
    have hin := (mem_pagesBelow.mp (h.page_of_present hx hp)).2
    have hpush : pushDown sp l = (sp + 2 ^ 32 - l) / 4 * 4 := by
      unfold pushDown
      rw [show (sp + 2 ^ 32 - l) % 2 ^ 32 = sp + 2 ^ 32 - l from by omega]
    unfold PTE_ADDR at hin
    simp only [PGSIZE] at hin
    omega

/-- The strings are pushed one after the other, by induction on them. -/
theorem pushArgs {argv : List Nat} {strs : List (List UInt8)} {sp : Nat} {ustack : List Nat}
    {r : Option (Nat × List Nat)} (h : Building k0 g d n m k) (hr : Ready k0 d) (hn : n ≤ MAX_PSYC_PAGES)
    (hguard : GuardedPage k d g) (hg : g % PGSIZE = 0) (hbase : base = g + PGSIZE) (hlow : base ≤ sp)
    (htop : sp ≤ n * PGSIZE) (hal : sp % 4 = 0) (hargs : List.Forall₂ (StringAt k0) argv strs)
    (hok : Paging.pushArgs d argv sp ustack k = .ok (r, k')) :
    (r = none ∧ Beside d k0 k') ∨
      ∃ sp' args m', r = some (sp', ustack ++ args) ∧ Building k0 g d n m' k' ∧ k'.pgdir = k.pgdir ∧
        base ≤ sp' ∧ sp' ≤ sp ∧ sp' % 4 = 0 ∧ (∀ va, va < sp' ∨ sp ≤ va → m' va = m va) ∧
        List.Forall₂ (CString m') args strs ∧ (∀ a ∈ args, sp' ≤ a ∧ a < sp) ∧
        ustack.length + args.length ≤ max ustack.length MAXARG := by
  induction hargs generalizing sp ustack m k with
  | nil =>
    cases hok
    refine .inr ⟨sp, [], m, by rw [List.append_nil], h, rfl, hlow, Nat.le_refl sp, hal, fun _ _ => rfl, .nil,
      nofun, Nat.le_max_left _ _⟩
  | @cons arg s argv strs hs _ ih =>
    rw [pushArgs_cons (hs.congr (h.userByte hr)).strlen_eq] at hok
    split at hok
    · cases hok
      exact .inl ⟨rfl, h.beside⟩
    next hmax =>
      rw [bind_eq_ok] at hok
      obtain ⟨⟨r1, k1⟩, hcopy, hok⟩ := hok
      have hsrc : Source k0 g d n (fun i k => kernelLoad k (arg + i)) (s.length + 1) (strByte s) := by
        intro i hi m' k2 h2
        exact kernelLoad_eq ((hs.congr (h2.userByte hr)).bytes i (Nat.le_of_lt_succ hi))
      rcases h.copyoutLoop hn hsrc (Nat.le_refl _) (Nat.le_of_eq (Nat.zero_add _)) hcopy with
        ⟨hneg, hfail⟩ | ⟨rfl, h1, hpgdir1, hall⟩
      · simp only [if_pos hneg] at hok
        cases hok
        exact .inl ⟨rfl, hfail⟩
      · simp only [Int.lt_irrefl, if_false, Nat.zero_add] at hok h1
        obtain ⟨hlow1, hroom, hal1⟩ := h.pushDown_above hn hguard hg hbase hlow htop hal (Nat.succ_pos _)
          (Nat.succ_le_of_lt hs.short) hall
        set sp1 := pushDown sp (s.length + 1) with hsp1
        have hguard1 : GuardedPage k1 d g := by
          unfold GuardedPage Kernel.walkpgdir
          rw [hpgdir1]
          exact hguard
        rcases ih h1 hguard1 hlow1 (by omega) hal1 hok with hfail | ⟨sp', args, m', rfl, h', hpgdir', hlow', hle',
          hal', hsame, hstrings, hwithin, hlen⟩
        · exact .inl hfail
        · right
          refine ⟨sp', sp1 :: args, m', by rw [List.append_assoc]; rfl, h', hpgdir'.trans hpgdir1, hlow', by omega,
            hal', ?_, .cons ?_ hstrings, ?_, ?_⟩
          · intro va hva
            rw [hsame va (by omega)]
            rcases hva with hlt | hge
            · exact patch_below (by omega)
            · exact patch_above (by omega)
          · intro j hj
            rw [hsame _ (by omega), patch_in (by omega)]
          · intro a ha
            rcases List.mem_cons.mp ha with rfl | ha
            · omega
            · have := hwithin a ha
              omega
          · simp only [List.length_append, List.length_cons, List.length_nil, MAXARG] at hlen hmax ⊢
            omega

/-- The guard page, and the rest is as it was. -/
theorem clearpteu (h : Building k0 g d n m k) (hg : g ∈ pagesBelow n)
    (hok : Paging.clearpteu k d g = .ok k') : Building k0 g d n m k' ∧ GuardedPage k' d g := by
  unfold Paging.clearpteu at hok
  split at hok
  · cases hok
  next x hx =>
    cases hok
    have hal := (mem_pagesBelow.mp hg).1
    have hdiv : ∀ {va}, PTE_ADDR va = g → va / PGSIZE = g / PGSIZE := by
      intro va hva
      rw [← hva, PTE_ADDR_div]
    constructor
    · rcases h.mem with ⟨rfl, -, -⟩ | hmem
      · exact absurd hg (by simp [pagesBelow, pagesFrom])
      refine ⟨h.beside.trans (.setPte k g _), h.fifo, h.counted, h.suffix, h.frames, ?_, .inr ?_⟩
      · intro va y hy hp
        rcases walkpgdir_setPte_cases hy with ⟨-, rfl⟩ | ⟨-, hold⟩
        · exact h.own g x hx hp
        · exact h.own va y hold hp
      · have hview : (k.setPte d g { x with u := false }).view d = (k.view d).setPte g { x with u := false } := by
          simp [Kernel.view, Kernel.setPte, MemView.setPte]
        rw [hview]
        exact hmem.clearU hg hx
    · intro va y hva hy
      rcases walkpgdir_setPte_cases hy with ⟨-, rfl⟩ | ⟨hne, -⟩
      · rfl
      · exact absurd (hdiv hva) hne

end Building

theorem npages_PGROUNDUP (sz : Nat) : npages (PGROUNDUP sz) = npages sz := by
  unfold npages PGROUNDUP
  simp only [PGSIZE]
  omega

theorem npages_stack (sz : Nat) : npages (PGROUNDUP sz + 2 * PGSIZE) = npages sz + 2 := by
  unfold npages PGROUNDUP
  simp only [PGSIZE]
  omega

/-- Pushing words keeps the pointer aligned. -/
theorem pushDown_words {sp l : Nat} (hal : sp % 4 = 0) (hl : l % 4 = 0) :
    pushDown sp l = (sp + 2 ^ 32 - l) % 2 ^ 32 := by
  unfold pushDown
  omega

theorem Building.execStack {k0 k k' : Kernel} {d sz : Nat} {m : Nat → UInt8} {argv : List Nat}
    {strs : List (List UInt8)} {r : Option (Nat × Nat)}
    (h : Building k0 (PGROUNDUP sz) d (npages sz) m k) (hr : Ready k0 d)
    (hfit : PGROUNDUP sz + 2 * PGSIZE ≤ MAX_PSYC_PAGES * PGSIZE)
    (hargs : List.Forall₂ (StringAt k0) argv strs) (hok : Paging.execStack d sz argv k = .ok (r, k')) :
    (r = none ∧ Beside d k0 k') ∨
      ∃ sp args m', r = some (PGROUNDUP sz + 2 * PGSIZE, sp) ∧
        Building k0 (PGROUNDUP sz) d (npages sz + 2) m' k' ∧
        (∀ va < PGROUNDUP sz + PGSIZE, m' va = m va) ∧
        ArgStack m' (PGROUNDUP sz + PGSIZE) (PGROUNDUP sz + 2 * PGSIZE) sp strs args := by
  unfold Paging.execStack at hok
  simp only [] at hok
  set base := PGROUNDUP sz with hbase
  have hal : base % PGSIZE = 0 := PGROUNDUP_aligned sz
  have hn : npages sz + 2 ≤ MAX_PSYC_PAGES := by
    rw [← npages_stack]
    unfold npages
    simp only [PGSIZE, MAX_PSYC_PAGES] at *
    omega
  rw [bind_eq_ok] at hok
  obtain ⟨⟨sz', k1⟩, halloc, hok⟩ := hok
  have h0 : Building k0 base d (npages base) m k := by
    rw [hbase, npages_PGROUNDUP]
    exact h
  rcases h0.allocuvm hr hfit halloc with ⟨rfl, hfail⟩ | ⟨hsz', h1⟩
  · rw [if_pos rfl] at hok
    cases hok
    exact .inl ⟨rfl, hfail⟩
  obtain rfl : sz' = base + 2 * PGSIZE := by omega
  rw [hbase, npages_stack, ← hbase] at h1
  rw [if_neg (by simp only [PGSIZE]; omega), Nat.add_sub_cancel] at hok
  rw [bind_eq_ok] at hok
  obtain ⟨k2, hclear, hok⟩ := hok
  have hbelow : base = npages sz * PGSIZE := rfl
  have hguardPage : base ∈ pagesBelow (npages sz + 2) := by
    rw [mem_pagesBelow]
    refine ⟨hal, ?_⟩
    rw [Nat.add_mul, ← hbelow]
    simp only [PGSIZE]
    omega
  obtain ⟨h2, hguard⟩ := h1.clearpteu hguardPage hclear
  have htop : base + 2 * PGSIZE = (npages sz + 2) * PGSIZE := by
    rw [Nat.add_mul, ← hbelow]
  rw [bind_eq_ok] at hok
  obtain ⟨⟨r1, k3⟩, hpush, hok⟩ := hok
  rcases h2.pushArgs hr hn hguard hal rfl (by omega : base + PGSIZE ≤ _) (Nat.le_of_eq htop) (by
    simp only [PGSIZE] at *; omega) hargs hpush with ⟨rfl, hfail⟩ | ⟨sp, args, m3, rfl, h3, hpgdir3, hlow, hle, hal4, hsame, hstrings, hwithin, hlen⟩
  · cases hok
    exact .inl ⟨rfl, hfail⟩
  simp only [List.nil_append] at hok
  set len := args.length with hlenargs
  have hlenmax : len ≤ MAXARG := by simpa using hlen
  rw [bind_eq_ok] at hok
  obtain ⟨⟨r2, k4⟩, hcopy, hok⟩ := hok
  have hl : (3 + len + 1) * 4 = 4 * (len + 4) := by omega
  have hpushed : (sp + 2 ^ 32 - (3 + len + 1) * 4) % 2 ^ 32 = pushDown sp (4 * (len + 4)) := by
    rw [hl, pushDown_words hal4 (Nat.mul_mod_right 4 _)]
  rw [hpushed, hl] at hcopy
  have hsrc : Building.Source k0 base d (npages sz + 2)
      (fun i k => .ok (wordByte (ustackWords sp args) i, k)) (4 * (len + 4))
      (wordByte (ustackWords sp args)) := fun _ _ _ _ _ => rfl
  have hguard3 : GuardedPage k3 d base := by
    unfold GuardedPage Kernel.walkpgdir
    rw [hpgdir3]
    exact hguard
  rcases h3.copyoutLoop hn hsrc (Nat.le_refl _) (Nat.le_of_eq (Nat.zero_add _)) hcopy with
    ⟨hneg, hfail⟩ | ⟨rfl, h4, -, hall⟩
  · rw [if_pos hneg] at hok
    cases hok
    exact .inl ⟨rfl, hfail⟩
  · rw [if_neg (Int.lt_irrefl 0), hpushed] at hok
    cases hok
    obtain ⟨hlow4, hroom, -⟩ := h3.pushDown_above hn hguard3 hal rfl hlow (by omega) hal4 (by omega)
      (by simp only [MAXARG, KERNBASE] at *; omega) hall
    set sp' := pushDown sp (4 * (len + 4)) with hsp'
    simp only [Nat.zero_add] at h4
    have hwords : ustackWords sp args = [0xffffffff, len, sp' + 12] ++ args ++ [0] := by
      have hsub : sp' = sp - 4 * (len + 4) := by
        rw [hsp', pushDown_words hal4 (Nat.mul_mod_right 4 _)]
        simp only [MAX_PSYC_PAGES, PGSIZE] at hfit hle
        omega
      unfold ustackWords
      simp only [← hlenargs]
      rw [show (sp + 2 ^ 32 - (len + 1) * 4) % 2 ^ 32 = sp' + 12 from by
        simp only [MAX_PSYC_PAGES, PGSIZE] at hfit hle
        omega]
    refine .inr ⟨sp', args, _, rfl, h4, ?_, hlow4, ?_, ?_, ?_⟩
    · intro va hva
      rw [patch_below (by omega), hsame va (by omega)]
    · -- the strings lie above the words
      have hboth := (List.forall₂_and_left (p := fun a => sp ≤ a) args strs).mpr
        ⟨fun a ha => (hwithin a ha).1, hstrings⟩
      refine hboth.imp ?_
      rintro a s ⟨ha, hs⟩ j hj
      rw [patch_above (by omega), hs j hj]
    · intro a ha
      have := hwithin a ha
      omega
    · intro j hj
      rw [patch_in hj, hwords]

end Paging
