import OperatingSystem314.Paging.Image

/-! # What `exec` puts into the image

    The segments of the file, on top of pages of zeros, and the strings of
    the caller on the second page of the stack.  Each routine either fails
    or changes the contents as a patch of the flat memory. -/

namespace Paging

/-! ### Segments -/

section readi

variable {fs : Fs} {ip off n : Nat}

/-- Reading as many bytes as were asked for does not wrap. -/
theorem readi_all (h : fs.readi ip off n = n) : off + n < 2 ^ 32 := by
  unfold Fs.readi at h
  simp only [] at h
  split at h
  · omega
  split at h
  · omega
  next hr =>
    rw [not_or] at hr
    omega

end readi

namespace Building

variable {k0 k k' : Kernel} {g d n : Nat} {m : Nat → UInt8}

/-- The loop of `loaduvm` from byte `i` of the segment on, by induction on
    the pages: the bytes before `i` are there already. -/
theorem loadPages {ip vaddr offset sz i : Nat} {r : Int} {pages : List Nat} {file : Nat → UInt8}
    (hfile : ∀ j, file j = (k0.fs.inode ip).byte (offset + j)) (hpages : pages = pageRange i sz)
    (h : Building k0 g d n (patch m vaddr (min i sz) file) k) (hal : vaddr % PGSIZE = 0)
    (hi : i % PGSIZE = 0) (hend : vaddr + sz ≤ n * PGSIZE) (hoff : offset + i < 2 ^ 32)
    (hok : Paging.loadPages d ip vaddr offset sz pages k = .ok (r, k')) :
    (r < 0 ∧ Beside d k0 k') ∨ (r = 0 ∧ Building k0 g d n (patch m vaddr sz file) k') := by
  induction pages generalizing i k with
  | nil =>
    cases hok
    have hle : sz ≤ i := by
      by_contra hlt
      rw [pageRange_succ (by omega)] at hpages
      cases hpages
    rw [Nat.min_eq_right hle] at h
    exact .inr ⟨rfl, h⟩
  | cons a rest ih =>
    have hlt : i < sz := by
      by_contra hge
      rw [pageRange_nil (by omega)] at hpages
      cases hpages
    rw [pageRange_succ hlt] at hpages
    obtain ⟨rfl, hrest⟩ := List.cons.inj hpages
    rw [Nat.min_eq_left (by omega)] at h
    unfold Paging.loadPages at hok
    have hpage : vaddr + a ∈ pagesBelow n := by
      rw [mem_pagesBelow]
      simp only [PGSIZE] at *
      omega
    have haddr : PTE_ADDR (vaddr + a) = vaddr + a := PTE_ADDR_of_aligned (mem_pagesBelow.mp hpage).1
    obtain ⟨x, hx, -, hres⟩ := h.resident (by rwa [haddr] : PTE_ADDR (vaddr + a) ∈ pagesBelow n)
    rw [hx] at hok
    have hmod : (offset + a) % 2 ^ 32 = offset + a := Nat.mod_eq_of_lt hoff
    simp only [hmod] at hok
    set n' := min (sz - a) PGSIZE with hn'
    split at hok
    · cases hok
      exact .inl ⟨by decide, h.beside.trans (.setFrame k _ _)⟩
    next hread =>
      push Not at hread
      have hwrap := readi_all hread
      have hfs : k.fs = k0.fs := h.beside.fs
      -- the page holds the next bytes of the file
      have h1 : Building k0 g d n (patch m vaddr (min (a + PGSIZE) sz) file) (k.setFrame x.ppn fun j =>
          if (j : Int) < k.fs.readi ip (offset + a) n' then k.fs.bytes ip (offset + a) j else k.frame x.ppn j) := by
        refine h.setFrame hpage hx ?_ ?_
        · intro j hj
          rw [hread]
          have hbytes : k.frame x.ppn j = patch m vaddr a file (vaddr + a + j) := by
            have := hres.bytes j hj
            rwa [haddr] at this
          split
          next hjn =>
            have hjn : a + j < min (a + PGSIZE) sz := by omega
            rw [show vaddr + a + j = vaddr + (a + j) from by omega, patch_in hjn, hfile, hfs]
            unfold Fs.bytes
            rw [Nat.add_assoc]
          next hjn =>
            have hge : min (a + PGSIZE) sz ≤ a + j := by
              simp only [PGSIZE] at *
              omega
            rw [hbytes, patch_above (by omega), patch_above (by omega)]
        · intro va hva
          by_cases hlow : va < vaddr + a
          · unfold patch
            by_cases hge : vaddr ≤ va
            · rw [if_pos ⟨hge, by omega⟩, if_pos ⟨hge, by omega⟩]
            · rw [if_neg (by omega), if_neg (by omega)]
          · -- the page of `va` comes after page `a`
            have hdiv : va / PGSIZE ≠ (vaddr + a) / PGSIZE := by
              intro heq
              apply hva
              rw [← haddr]
              unfold PTE_ADDR
              rw [heq]
            have hfar : vaddr + a + PGSIZE ≤ va := by
              simp only [PGSIZE] at *
              omega
            rw [patch_above (by omega), patch_above (by omega)]
      by_cases hlast : a + PGSIZE < sz
      · have hfull : n' = PGSIZE := Nat.min_eq_right (by omega)
        rw [hfull, Nat.add_assoc] at hwrap
        refine ih (i := a + PGSIZE) hrest h1 ?_ hwrap hok
        rw [Nat.add_mod_right]
        exact hi
      · -- that was the last page
        rw [pageRange_nil (by omega)] at hrest
        subst hrest
        unfold Paging.loadPages at hok
        obtain ⟨rfl, rfl⟩ := Prod.mk.inj (Except.ok.inj hok)
        rw [Nat.min_eq_right (by omega)] at h1
        exact .inr ⟨rfl, h1⟩

theorem loaduvm {ip vaddr offset sz : Nat} {r : Int} (h : Building k0 g d n m k)
    (hend : vaddr + sz ≤ n * PGSIZE) (hoff : offset < 2 ^ 32)
    (hok : Paging.loaduvm k d vaddr ip offset sz = .ok (r, k')) :
    (r < 0 ∧ Beside d k0 k') ∨
      (r = 0 ∧ Building k0 g d n (patch m vaddr sz fun j => (k0.fs.inode ip).byte (offset + j)) k') := by
  unfold Paging.loaduvm at hok
  split at hok
  · cases hok
  next hal =>
    push Not at hal
    refine loadPages (i := 0) (fun _ => rfl) rfl ?_ hal rfl hend hoff hok
    rw [Nat.zero_min, patch_zero]
    exact h

end Building

/-! ### The program headers -/

theorem uintAt_lt (b : Nat → UInt8) (o : Nat) : uintAt b o < 2 ^ 32 := by
  have h0 := (b o).toNat_lt
  have h1 := (b (o + 1)).toNat_lt
  have h2 := (b (o + 2)).toNat_lt
  have h3 := (b (o + 2 + 1)).toNat_lt
  unfold uintAt ushortAt
  omega

/-- The contents that `n` program headers from offset `off` on describe,
    each segment on top of what was there. -/
def segmentsMem (fs : Fs) (ip : Nat) : (n off : Nat) → (Nat → UInt8) → Nat → UInt8
  | 0, _, m => m
  | n + 1, off, m =>
    let ph := proghdr (fs.bytes ip off)
    segmentsMem fs ip n ((off + PROGHDR) % 2 ^ 32)
      (if ph.type = ELF_PROG_LOAD then
        patch m ph.vaddr ph.filesz fun j => (fs.inode ip).byte (ph.off + j)
      else m)

/-- Where the last of the segments ends. -/
def segmentsEnd (fs : Fs) (ip : Nat) : (n off sz : Nat) → Nat
  | 0, _, sz => sz
  | n + 1, off, sz =>
    let ph := proghdr (fs.bytes ip off)
    segmentsEnd fs ip n ((off + PROGHDR) % 2 ^ 32)
      (if ph.type = ELF_PROG_LOAD then max sz (ph.vaddr + ph.memsz) else sz)

theorem le_segmentsEnd (fs : Fs) (ip n off sz : Nat) : sz ≤ segmentsEnd fs ip n off sz := by
  induction n generalizing off sz with
  | zero => exact Nat.le_refl sz
  | succ n ih =>
    refine Nat.le_trans ?_ (ih _ _)
    split
    · exact Nat.le_max_left _ _
    · exact Nat.le_refl sz

namespace Building

variable {k0 k k' : Kernel} {g d ip : Nat} {m : Nat → UInt8}

/-- One program header: a segment that is loaded leaves its bytes. -/
theorem loadSegment {off sz : Nat} {r : Option Nat} (h : Building k0 g d (npages sz) m k) (hr : Ready k0 d)
    (hfit : segmentsEnd k0.fs ip 1 off sz ≤ MAX_PSYC_PAGES * PGSIZE)
    (hok : Paging.loadSegment d ip off sz k = .ok (r, k')) :
    (r = none ∧ Beside d k0 k') ∨
      (r = some (segmentsEnd k0.fs ip 1 off sz) ∧
        Building k0 g d (npages (segmentsEnd k0.fs ip 1 off sz)) (segmentsMem k0.fs ip 1 off m) k') := by
  have hfs : k.fs = k0.fs := h.beside.fs
  simp only [segmentsEnd, segmentsMem] at hfit ⊢
  unfold Paging.loadSegment at hok
  rw [hfs] at hok
  simp only [] at hok
  set ph := proghdr (k0.fs.bytes ip off) with hph
  have hoff : ph.off < 2 ^ 32 := uintAt_lt _ _
  split at hok
  · cases hok
    exact .inl ⟨rfl, h.beside⟩
  split at hok
  next htype =>
    cases hok
    rw [if_neg htype, if_neg htype]
    exact .inr ⟨rfl, h⟩
  next htype =>
    push Not at htype
    rw [if_pos htype] at hfit
    rw [if_pos htype, if_pos htype]
    split at hok
    · cases hok
      exact .inl ⟨rfl, h.beside⟩
    split at hok
    · cases hok
      exact .inl ⟨rfl, h.beside⟩
    rw [bind_eq_ok] at hok
    obtain ⟨⟨sz', k1⟩, halloc, hok⟩ := hok
    simp only [] at hok
    rcases h.allocuvm hr (by omega) halloc with ⟨rfl, hfail⟩ | ⟨hsz', h1⟩
    · cases hok
      exact .inl ⟨rfl, hfail⟩
    split at hok
    · cases hok
      exact .inl ⟨rfl, h1.beside⟩
    split at hok
    · cases hok
      exact .inl ⟨rfl, h1.beside⟩
    rw [bind_eq_ok] at hok
    obtain ⟨⟨r1, k2⟩, hload, hok⟩ := hok
    have hend : ph.vaddr + ph.filesz ≤ npages sz' * PGSIZE := by
      have : sz' ≤ npages sz' * PGSIZE := le_PGROUNDUP sz'
      omega
    rcases h1.loaduvm hend hoff hload with ⟨hneg, hfail⟩ | ⟨rfl, h2⟩
    · simp only [if_pos hneg] at hok
      cases hok
      exact .inl ⟨rfl, hfail⟩
    · simp only [Int.lt_irrefl, if_false] at hok
      cases hok
      rw [← hsz']
      exact .inr ⟨rfl, h2⟩

/-- All of them, by induction on their number. -/
theorem loadSegments {n off sz : Nat} {r : Option Nat} (h : Building k0 g d (npages sz) m k) (hr : Ready k0 d)
    (hfit : segmentsEnd k0.fs ip n off sz ≤ MAX_PSYC_PAGES * PGSIZE)
    (hok : Paging.loadSegments d ip n off sz k = .ok (r, k')) :
    (r = none ∧ Beside d k0 k') ∨
      (r = some (segmentsEnd k0.fs ip n off sz) ∧
        Building k0 g d (npages (segmentsEnd k0.fs ip n off sz)) (segmentsMem k0.fs ip n off m) k') := by
  induction n generalizing off sz m k with
  | zero =>
    cases hok
    exact .inr ⟨rfl, h⟩
  | succ n ih =>
    unfold Paging.loadSegments at hok
    rw [bind_eq_ok] at hok
    obtain ⟨⟨r1, k1⟩, hseg, hok⟩ := hok
    have hle : segmentsEnd k0.fs ip 1 off sz ≤ MAX_PSYC_PAGES * PGSIZE :=
      Nat.le_trans (le_segmentsEnd k0.fs ip n ((off + PROGHDR) % 2 ^ 32) _) hfit
    rcases h.loadSegment hr hle hseg with ⟨rfl, hfail⟩ | ⟨rfl, h1⟩
    · cases hok
      exact .inl ⟨rfl, hfail⟩
    · exact ih h1 hfit hok

end Building

/-! ### Strings of the caller -/

/-- Byte `i` of a string, with the null byte at its end. -/
def strByte (bs : List UInt8) (i : Nat) : UInt8 := (bs[i]?).getD 0

/-- The string `bs` lies at `va`, in pages that are present. -/
structure StringAt (k : Kernel) (va : Nat) (bs : List UInt8) : Prop where
  short : bs.length < MAXSTR
  nonzero : ∀ b ∈ bs, b ≠ 0
  bytes : ∀ i ≤ bs.length, k.userByte k.cur.pgdir (va + i) = some (strByte bs i)

theorem touch_present {k : Kernel} {va : Nat} {x : Pte} (hx : k.walkpgdir k.cur.pgdir va = some x)
    (hp : x.p = true) (fuel : Nat) : touch false false (fuel + 1) k va = .ok (some x.ppn, k) := by
  simp [touch, hx, Option.filter_some, hp]

/-- A byte of a present page is read without a fault. -/
theorem kernelLoad_eq {k : Kernel} {va : Nat} {b : UInt8} (h : k.userByte k.cur.pgdir va = some b) :
    kernelLoad k va = .ok (b, k) := by
  unfold Kernel.userByte at h
  split at h
  next x hx =>
    split at h
    next hp =>
      have htouch : touch false false MAXFAULTS k va = .ok (some x.ppn, k) := touch_present hx hp (NCELLS + 1)
      unfold kernelLoad
      rw [htouch, ok_bind]
      simp only [deref_some, ok_bind, Option.some.inj h]
      rfl
    · cases h
  · cases h

namespace StringAt

variable {k k' : Kernel} {va : Nat} {b : UInt8} {bs : List UInt8}

theorem tail (h : StringAt k va (b :: bs)) : StringAt k (va + 1) bs := by
  refine ⟨Nat.lt_of_succ_lt h.short, fun c hc => h.nonzero c (by simp [hc]), ?_⟩
  intro i hi
  have hbyte := h.bytes (i + 1) (Nat.succ_le_succ hi)
  rw [show va + 1 + i = va + (i + 1) from by omega, hbyte]
  rfl

theorem congr (h : StringAt k va bs)
    (hsame : ∀ a, k'.userByte k'.cur.pgdir a = k.userByte k.cur.pgdir a) : StringAt k' va bs := by
  refine ⟨h.short, h.nonzero, ?_⟩
  intro i hi
  rw [hsame, h.bytes i hi]

/-- Reading the string changes nothing, by induction on the string. -/
theorem kernelString_eq {fuel : Nat} (h : StringAt k va bs) (hfuel : bs.length < fuel) :
    kernelString fuel k va = .ok (bs, k) := by
  induction bs generalizing va fuel with
  | nil =>
    obtain ⟨fuel, rfl⟩ : ∃ n, fuel = n + 1 := ⟨fuel - 1, by omega⟩
    have hbyte := kernelLoad_eq (h.bytes 0 (Nat.zero_le _))
    rw [Nat.add_zero] at hbyte
    unfold kernelString
    rw [hbyte, ok_bind]
    rfl
  | cons c bs ih =>
    rw [List.length_cons] at hfuel
    obtain ⟨fuel, rfl⟩ : ∃ n, fuel = n + 1 := ⟨fuel - 1, by omega⟩
    have hbyte := kernelLoad_eq (h.bytes 0 (Nat.zero_le _))
    rw [Nat.add_zero] at hbyte
    have hne : strByte (c :: bs) 0 ≠ 0 := h.nonzero c (by simp)
    have hrest : kernelString fuel k (va + 1) = .ok (bs, k) := ih h.tail (by omega)
    unfold kernelString
    rw [hbyte, ok_bind]
    simp only [if_neg hne, hrest, ok_bind]
    rfl

theorem strlen_eq (h : StringAt k va bs) : strlen k va = .ok (bs.length, k) := by
  unfold strlen
  rw [h.kernelString_eq h.short, ok_bind]
  rfl

end StringAt

/-! ### `copyout` -/

namespace Building

variable {k0 k k' : Kernel} {g d n : Nat} {m : Nat → UInt8}

/-- A source that can be read while the image is built. -/
def Source (k0 : Kernel) (g d n : Nat) (src : Nat → Kernel → Result (UInt8 × Kernel)) (len : Nat)
    (bytes : Nat → UInt8) : Prop :=
  ∀ i < len, ∀ m k, Building k0 g d n m k → src i k = .ok (bytes i, k)

section copyout

variable {src : Nat → Kernel → Result (UInt8 × Kernel)} {len : Nat} {bytes : Nat → UInt8}

/-- One byte of a page is written. -/
theorem setByte (h : Building k0 g d n m k) {a off : Nat} {x : Pte} (ha : a ∈ pagesBelow n)
    (hx : k.walkpgdir d a = some x) (hoff : off < PGSIZE) (b : UInt8) :
    Building k0 g d n (patch m (a + off) 1 fun _ => b) (k.setByte x.ppn off b) := by
  have hal := (mem_pagesBelow.mp ha).1
  have haddr : PTE_ADDR a = a := PTE_ADDR_of_aligned hal
  obtain ⟨y, hy, -, hres⟩ := h.resident (by rwa [haddr] : PTE_ADDR a ∈ pagesBelow n)
  rw [hx] at hy
  cases hy
  apply h.setFrame ha hx
  · intro j hj
    by_cases hjoff : j = off
    · subst hjoff
      rw [Function.update_self]
      unfold patch
      rw [if_pos ⟨Nat.le_refl _, Nat.lt_succ_self _⟩]
    · rw [Function.update_of_ne hjoff]
      have hold := hres.bytes j hj
      rw [haddr] at hold
      rcases Nat.lt_or_gt_of_ne hjoff with hlt | hgt
      · rw [patch_below (by omega)]
        exact hold
      · rw [patch_above (by omega)]
        exact hold
  · intro va hva
    rcases Nat.lt_or_ge va (a + off) with hlt | hge
    · exact patch_below hlt
    · apply patch_above
      by_contra hlt
      apply hva
      have hdiv : va / PGSIZE = a / PGSIZE := by
        simp only [PGSIZE] at *
        omega
      rw [← haddr]
      unfold PTE_ADDR
      rw [hdiv]

/-- The bytes of a page, by induction on their number. -/
theorem copyBytes {a off i l : Nat} {x : Pte} (h : Building k0 g d n m k) (ha : a ∈ pagesBelow n)
    (hx : k.walkpgdir d a = some x) (hsrc : Source k0 g d n src len bytes) (hoff : off + l ≤ PGSIZE)
    (hi : i + l ≤ len) (hok : Paging.copyBytes src x.ppn l off i k = .ok k') :
    Building k0 g d n (patch m (a + off) l fun j => bytes (i + j)) k' ∧ k'.pgdir = k.pgdir := by
  induction l generalizing off i m k with
  | zero =>
    cases hok
    rw [patch_zero]
    exact ⟨h, rfl⟩
  | succ l ih =>
    unfold Paging.copyBytes at hok
    rw [hsrc i (by omega) m k h, ok_bind] at hok
    have h1 := h.setByte ha hx (by omega : off < PGSIZE) (bytes i)
    obtain ⟨h2, hpgdir⟩ := ih h1 hx (by omega) (by omega) hok
    refine ⟨?_, hpgdir⟩
    have hjoin : patch (patch m (a + off) 1 fun j => bytes (i + j)) (a + off + 1) l
        (fun j => bytes (i + (1 + j))) = patch m (a + off) (1 + l) fun j => bytes (i + j) := patch_patch
    have hone : patch m (a + off) 1 (fun _ => bytes i) = patch m (a + off) 1 fun j => bytes (i + j) := by
      apply patch_congr
      intro j hj
      rw [show j = 0 from by omega, Nat.add_zero]
    rw [Nat.add_comm l 1, ← hjoin, ← hone]
    have hsame : ∀ j, bytes (i + (1 + j)) = bytes (i + 1 + j) := fun j => by rw [Nat.add_assoc]
    simp only [hsame]
    exact h2

/-- The rounds of `copyout`: on success every byte lay in a page that user
    mode may touch. -/
theorem copyoutLoop {fuel va i l : Nat} {r : Int} (h : Building k0 g d n m k) (hn : n ≤ MAX_PSYC_PAGES)
    (hsrc : Source k0 g d n src len bytes) (hfuel : l ≤ fuel) (hi : i + l ≤ len)
    (hok : Paging.copyoutLoop d src fuel va i l k = .ok (r, k')) :
    (r < 0 ∧ Beside d k0 k') ∨
      (r = 0 ∧ Building k0 g d n (patch m va l fun j => bytes (i + j)) k' ∧ k'.pgdir = k.pgdir ∧
        ∀ j < l, ∃ x, k.walkpgdir d (va + j) = some x ∧ x.p = true ∧ x.u = true) := by
  induction fuel generalizing va i l m k with
  | zero =>
    obtain rfl : l = 0 := by omega
    cases hok
    rw [patch_zero]
    exact .inr ⟨rfl, h, rfl, fun j hj => absurd hj (Nat.not_lt_zero j)⟩
  | succ fuel ih =>
    unfold Paging.copyoutLoop at hok
    split at hok
    next hl =>
      subst hl
      cases hok
      rw [patch_zero]
      exact .inr ⟨rfl, h, rfl, fun j hj => absurd hj (Nat.not_lt_zero j)⟩
    next hl =>
      rw [bind_eq_ok] at hok
      obtain ⟨f, huva, hok⟩ := hok
      cases f with
      | none =>
        cases hok
        exact .inl ⟨by decide, h.beside⟩
      | some f =>
        -- the entry of the page
        obtain ⟨x, hx, hp, hu, rfl⟩ : ∃ x, k.walkpgdir d (PTE_ADDR va) = some x ∧ x.p = true ∧ x.u = true ∧
            x.ppn = f := by
          unfold uva2ka at huva
          split at huva
          · cases huva
          · rw [bind_eq_ok] at huva
            obtain ⟨x, hx, huva⟩ := huva
            split at huva
            · cases huva
            next hpu =>
              cases huva
              obtain ⟨hp, hu⟩ : x.p = true ∧ x.u = true := by simpa using hpu
              exact ⟨x, deref_eq_ok.mp hx, hp, hu, rfl⟩
        have ha : PTE_ADDR va ∈ pagesBelow n := by
          have := h.page_of_present hx hp
          rwa [PTE_ADDR_of_aligned (PTE_ADDR_aligned va)] at this
        have hsplit := PTE_ADDR_add va
        have hmod : va % PGSIZE < PGSIZE := Nat.mod_lt _ (by decide)
        simp only [bind_eq_ok] at hok
        obtain ⟨k1, hcopy, hok⟩ := hok
        set l1 := min (PGSIZE - (va - PTE_ADDR va)) l with hl1
        have hoff : va - PTE_ADDR va + l1 ≤ PGSIZE := by omega
        obtain ⟨h1, hpgdir1⟩ := h.copyBytes ha hx hsrc hoff (by omega) hcopy
        rw [Nat.add_sub_cancel' (by omega : PTE_ADDR va ≤ va)] at h1
        -- the rest starts with the next page
        have hnext : (PTE_ADDR va + PGSIZE) % 2 ^ 32 = PTE_ADDR va + PGSIZE := by
          have hlt := (mem_pagesBelow.mp ha).2
          apply Nat.mod_eq_of_lt
          simp only [PGSIZE, MAX_PSYC_PAGES] at *
          omega
        rw [hnext] at hok
        have hhere : ∀ j < l1, ∃ x, k.walkpgdir d (va + j) = some x ∧ x.p = true ∧ x.u = true := by
          intro j hj
          refine ⟨x, ?_, hp, hu⟩
          rw [← hx]
          apply walkpgdir_congr
          rw [PTE_ADDR_div]
          simp only [PGSIZE] at *
          omega
        by_cases hlast : l ≤ l1
        · have hl1l : l1 = l := by omega
          rw [hl1l, Nat.sub_self] at hok
          have hstop : Paging.copyoutLoop d src fuel (PTE_ADDR va + PGSIZE) (i + l) 0 k1 = .ok (0, k1) := by
            cases fuel <;> simp [Paging.copyoutLoop]
          rw [hstop] at hok
          cases hok
          rw [hl1l] at h1 hhere
          exact .inr ⟨rfl, h1, hpgdir1, hhere⟩
        · have hva : PTE_ADDR va + PGSIZE = va + l1 := by omega
          rw [hva] at hok
          rcases ih h1 (by omega) (by omega) hok with hfail | ⟨rfl, h2, hpgdir2, hthere⟩
          · exact .inl hfail
          · right
            have hjoin : patch (patch m va l1 fun j => bytes (i + j)) (va + l1) (l - l1)
                (fun j => bytes (i + (l1 + j))) = patch m va (l1 + (l - l1)) fun j => bytes (i + j) := patch_patch
            rw [Nat.add_sub_cancel' (by omega : l1 ≤ l)] at hjoin
            have hsame : ∀ j, bytes (i + (l1 + j)) = bytes (i + l1 + j) := fun j => by rw [Nat.add_assoc]
            simp only [hsame] at hjoin
            rw [hjoin] at h2
            refine ⟨rfl, h2, hpgdir2.trans hpgdir1, ?_⟩
            intro j hj
            by_cases hj1 : j < l1
            · exact hhere j hj1
            · obtain ⟨y, hy, hyp⟩ := hthere (j - l1) (by omega)
              refine ⟨y, ?_, hyp⟩
              rw [show va + l1 + (j - l1) = va + j from by omega] at hy
              unfold Kernel.walkpgdir at hy ⊢
              rwa [hpgdir1] at hy

end copyout

end Building

end Paging
