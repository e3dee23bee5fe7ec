import OperatingSystem314.Paging.Taken

/-! # Translations that the CPU keeps

    The CPU keeps translations it has used, and looks at the page table
    only when it has none.  `switchuvm` loads `cr3`, which makes it forget
    them all.  Apart from that it may forget what it likes, and it forgets
    the page that it takes a fault on.

    `trap` returns from a page fault without `switchuvm`, and so does
    `growproc` when it fails.  Only if the disk lets the process sleep does
    the scheduler call it.

    * `Machine`: the kernel and the translations of the current process.
    * `Machine.Careful`: no step takes away a page whose translation is
      kept.
    * `no_stale_translation`: in runs of careful steps every translation
      agrees with the page table.
    * `stale_translation`: a run that is not careful. -/

namespace Paging

open Relation (ReflTransGen)

/-! ### The machine -/

/-- The kernel, and by page number the entries of the current directory
    that the CPU keeps. -/
structure Machine where
  kernel : Kernel
  tlb : Nat → Option Pte

/-- Whether an access through this entry passes. -/
def Pte.allows (user store : Bool) (x : Pte) : Bool := x.p && (!user || x.u) && (!store || x.w)

/-- The entry through which `memmove` of `swapPageIn` fills the page. -/
def copied (k : Kernel) (va : Nat) : Option Pte :=
  (slotOf k.cur (PTE_ADDR va)).bind fun _ =>
    (k.walkpgdir k.cur.pgdir (oldest k)).map fun y => ⟨y.ppn, true, true, true, false⟩

namespace Machine

/-- `lcr3` -/
def flush (m : Machine) : Machine := { m with tlb := fun _ => none }

def setTlb (m : Machine) (va : Nat) (x : Option Pte) : Machine :=
  { m with tlb := Function.update m.tlb (va / PGSIZE) x }

/-- The case `T_PGFLT` of `trap`; `slept` says whether the process was
    scheduled again after it waited for the disk. -/
def trapPgflt (user slept : Bool) (m : Machine) (va : Nat) : Result (FaultEnd × Machine) := do
  cprintf m.kernel
  let pg := match m.kernel.walkpgdir m.kernel.cur.pgdir va with
    | some pte => pte.pg
    | none => false
  let m := m.setTlb va none
  if pg then
    let k ← swapPageOut m.kernel
    let x := copied k (PTE_ADDR va)
    let k ← swapPageIn k (PTE_ADDR va)
    let m := if slept then m.flush else m
    return (.resumed, { m with kernel := k }.setTlb va x)
  else if user then
    return (.killed, { m with kernel := m.kernel.modCur fun x => { x with killed := true } })
  else panic "trap"

/-- One attempt at an access: the frame it reaches, or `none` after a fault. -/
def access (user store slept : Bool) (m : Machine) (va : Nat) : Result (Option Nat × Machine) :=
  match (m.tlb (va / PGSIZE)).filter (Pte.allows user store) with
  | some pte => .ok (some pte.ppn, m)
  | none =>
    match (m.kernel.walkpgdir m.kernel.cur.pgdir va).filter (Pte.allows user store) with
    | some pte => .ok (some pte.ppn, m.setTlb va (some pte))
    | none => do
      let (_, m) ← m.trapPgflt user slept va
      return (none, m)

/-- `sys_sbrk`: `growproc` ends with `switchuvm` unless it fails. -/
def sys_sbrk (slept : Bool) (m : Machine) (n : Int) : Result Machine := do
  let (r, k) ← Paging.sys_sbrk m.kernel n
  let m := { m with kernel := k }
  return if slept ∨ 0 ≤ r then m.flush else m

end Machine

/-! ### Steps -/

inductive MachineOp where
  | load (user slept : Bool) (va : Nat)
  | store (user slept : Bool) (va : Nat) (b : UInt8)
  | sbrk (slept : Bool) (n : Int)
  /-- the CPU forgets a translation -/
  | forget (va : Nat)
  /-- the scheduler calls `switchuvm` for a process -/
  | schedule (p : ProcId)
  /-- whatever else the kernel does, with or without a `switchuvm` at the end -/
  | other (k : Kernel) (switchuvm : Bool)

namespace Machine

def step (m : Machine) : MachineOp → Result Machine
  | .load user slept va => do
    let (_, m) ← m.access user false slept va
    return m
  | .store user slept va b => do
    let (f, m) ← m.access user true slept va
    match f with
    | none => return m
    | some f => return { m with kernel := m.kernel.setByte f (va % PGSIZE) b }
  | .sbrk slept n => m.sys_sbrk slept n
  | .forget va => return m.setTlb va none
  | .schedule p => return { m with kernel := { m.kernel with curproc := p } }.flush
  | .other k switchuvm =>
    let m := { m with kernel := k }
    return if switchuvm then m.flush else m

/-- Whether the CPU keeps a translation for a page number. -/
def Cached (m : Machine) (n : Nat) : Prop := m.tlb n ≠ none

/-- An access that is let through neither by the translation the CPU keeps
    nor by the page table. -/
def Faults (m : Machine) (user store : Bool) (va : Nat) : Prop :=
  (m.tlb (va / PGSIZE)).filter (Pte.allows user store) = none ∧
    (m.kernel.walkpgdir m.kernel.cur.pgdir va).filter (Pte.allows user store) = none

/-- The fault does not take away a page that is cached, unless the process
    sleeps, and it does not replace the page that it brings in. -/
def FaultCareful (m : Machine) (slept : Bool) (va : Nat) : Prop :=
  let k := m.kernel
  PagedOut k va →
    (slept = false → ¬ m.Cached (oldest k / PGSIZE)) ∧
    (slotOf (k.cur.recorded (oldest k)) (PTE_ADDR va) ≠ none →
      replaced k / PGSIZE ≠ va / PGSIZE ∧ (slept = false → ¬ m.Cached (replaced k / PGSIZE)))

/-- A growth that runs out of memory neither evicts nor undoes a page that
    is cached, and a shrink to size 0, which is taken for a failure, gives
    up no such page. -/
def SbrkCareful (m : Machine) (n : Int) : Prop :=
  let k := m.kernel
  let newsz := ((k.cur.sz + n) % 2 ^ 32).toNat
  let pages := pageRange (PGROUNDUP k.cur.sz) newsz
  (0 < n → newsz < KERNBASE → RunsOut k.cur.pgdir pages k →
    (∀ b, Evicts k.cur.pgdir pages k b → ¬ m.Cached (b / PGSIZE)) ∧ ∀ a ∈ pages, ¬ m.Cached (a / PGSIZE)) ∧
  (n < 0 → newsz = 0 → ∀ a ∈ pageRange 0 k.cur.sz, ¬ m.Cached (a / PGSIZE))

/-- A step that leaves no translation of a page it takes away. -/
def Careful (m : Machine) : MachineOp → Prop
  | .load user slept va => m.Faults user false va → m.FaultCareful slept va
  | .store user slept va _ => m.Faults user true va → m.FaultCareful slept va
  | .sbrk slept n => slept = false → m.SbrkCareful n
  | .forget _ | .schedule _ => True
  | .other k switchuvm => switchuvm = false → Keeps m.Cached m.kernel k

def CarefulStep (m m' : Machine) : Prop := ∃ op, m.Careful op ∧ m.step op = .ok m'

/-! ### Translations that agree with the page table -/

/-- What the CPU keeps is in the page table, and present. -/
def Agrees (m : Machine) : Prop :=
  ∀ va x, m.tlb (va / PGSIZE) = some x →
    m.kernel.walkpgdir m.kernel.cur.pgdir va = some x ∧ x.p = true

theorem flush_agrees (m : Machine) : m.flush.Agrees := nofun

namespace Agrees

variable {m : Machine} {va : Nat}

/-- The kernel takes no page away that is cached. -/
theorem keeps {k : Kernel} (h : m.Agrees) (hkeeps : Keeps m.Cached m.kernel k) :
    Agrees { m with kernel := k } := by
  intro va x hx
  obtain ⟨hwalk, hp⟩ := h va x hx
  refine ⟨hkeeps.present va x ?_ hwalk hp, hp⟩
  have hx : m.tlb (va / PGSIZE) = some x := hx
  simp [Cached, hx]

theorem setTlb (h : m.Agrees) {x : Option Pte}
    (hx : ∀ y, x = some y → m.kernel.walkpgdir m.kernel.cur.pgdir va = some y ∧ y.p = true) :
    (m.setTlb va x).Agrees := by
  intro a y hy
  simp only [Machine.setTlb] at hy ⊢
  by_cases hpage : a / PGSIZE = va / PGSIZE
  · rw [hpage, Function.update_self] at hy
    rw [walkpgdir_congr hpage]
    exact hx y hy
  · rw [Function.update_of_ne hpage] at hy
    exact h a y hy

theorem forget (h : m.Agrees) (va : Nat) : (m.setTlb va none).Agrees := h.setTlb nofun

end Agrees


end Machine

/-! ### Page faults -/

/-- The page that `swapPageIn` fills is mapped the way `memmove` found it. -/
theorem swapPageIn_copied {k k' : Kernel} {va : Nat} {x e : Pte} (h : swapPageIn k va = .ok k')
    (hx : k.walkpgdir k.cur.pgdir va = some x) (hne : oldest k / PGSIZE ≠ va / PGSIZE)
    (he : copied k va = some e) : k'.walkpgdir k'.cur.pgdir va = some e ∧ e.p = true := by
  simp only [copied, Option.bind_eq_some_iff, Option.map_eq_some_iff] at he
  obtain ⟨i, hslot, y, hy, rfl⟩ := he
  refine ⟨?_, rfl⟩
  rcases swapPageIn_ok h with ⟨hnone, -⟩ | ⟨j, b, k1, k2, z, -, hdeq, h2, henq, -, -, hz, hpgdir⟩
  · rw [hslot] at hnone
    cases hnone
  obtain ⟨rfl, -⟩ := dequeueFIFO_unlinked hdeq
  have hlists1 := dequeueFIFO_lists hdeq
  have hlists2 := enqueueFIFO_lists henq
  have hold : ∀ a, k1.walkpgdir k1.cur.pgdir a = k.walkpgdir k.cur.pgdir a := by
    intro a
    rw [hlists1.cur.pgdir, Kernel.walkpgdir, hlists1.rest]
    rfl
  obtain rfl : z = y := by
    rw [hold, hy] at hz
    exact (Option.some.inj hz).symm
  have hva : (k1.pgdir k1.cur.pgdir).walk va = some x := (hold va).trans hx
  rw [hlists2.cur.pgdir, h2.pgdir, Kernel.walkpgdir, hlists2.rest]
  show (k2.pgdir k1.cur.pgdir).walk va = _
  rw [hpgdir, Pgdir.walk_setPte_ne _ (Ne.symm hne), Pgdir.walk_setPte_self _ hva]

namespace Machine

variable {m m' : Machine} {user store slept : Bool} {va : Nat}

/-- The kernel does what `trap` does. -/
theorem trapPgflt_kernel {e : FaultEnd} (h : m.trapPgflt user slept va = .ok (e, m')) :
    Paging.trapPgflt user m.kernel va = .ok (e, m'.kernel) := by
  simp only [Machine.trapPgflt, bind_eq_ok] at h
  obtain ⟨_, hprint, h⟩ := h
  simp only [Paging.trapPgflt, hprint, ok_bind]
  -- what happens if the entry is not marked
  have hdead : ∀ {r : FaultEnd × Machine}, (if user then
      .ok (.killed, { m.setTlb va none with kernel := m.kernel.modCur fun x => { x with killed := true } })
        else panic "trap" : Result (FaultEnd × Machine)) = .ok r →
      (if user then .ok (.killed, m.kernel.modCur fun x => { x with killed := true }) else panic "trap" :
        Result (FaultEnd × Kernel)) = .ok (r.1, r.2.kernel) := by
    intro r hr
    split at hr
    next huser =>
      cases hr
      rw [if_pos huser]
    · cases hr
  cases hwalk : m.kernel.walkpgdir m.kernel.cur.pgdir va with
  | none =>
    simp only [hwalk, Bool.false_eq_true, if_false] at h
    exact hdead h
  | some pte =>
    simp only [hwalk] at h
    cases hpg : pte.pg with
    | false =>
      simp only [hpg, Bool.false_eq_true, if_false] at h ⊢
      exact hdead h
    | true =>
      simp only [hpg, if_true, bind_eq_ok] at h
      obtain ⟨k1, hout, k2, hin, h⟩ := h
      cases h
      have hout : swapPageOut m.kernel = .ok k1 := hout
      simp only [hpg, if_true, hout, ok_bind, hin]
      rfl

/-- The translations after a fault, when it is resumed. -/
theorem trapPgflt_cases {e : FaultEnd} (h : m.trapPgflt user slept va = .ok (e, m')) :
    (PagedOut m.kernel va ∧ ∃ k1, swapPageOut m.kernel = .ok k1 ∧ swapPageIn k1 (PTE_ADDR va) = .ok m'.kernel ∧
      m'.tlb = ((if slept then (m.setTlb va none).flush else m.setTlb va none).setTlb va (copied k1 (PTE_ADDR va))).tlb) ∨
    (m'.kernel = m.kernel.modCur (fun x => { x with killed := true }) ∧ m'.tlb = (m.setTlb va none).tlb) := by
  simp only [Machine.trapPgflt, bind_eq_ok] at h
  obtain ⟨_, -, h⟩ := h
  generalize hpg : (match m.kernel.walkpgdir m.kernel.cur.pgdir va with
    | some pte => pte.pg
    | none => false) = pg at h
  split at h
  next htrue =>
    simp only [bind_eq_ok] at h
    obtain ⟨k1, hout, k2, hin, h⟩ := h
    cases h
    refine .inl ⟨?_, k1, hout, hin, rfl⟩
    rw [htrue] at hpg
    split at hpg
    next x hx => exact ⟨x, hx, hpg⟩
    · cases hpg
  next hpg =>
    split at h
    · cases h
      exact .inr ⟨rfl, rfl⟩
    · cases h

/-- A careful fault leaves translations that agree. -/
theorem Agrees.trapPgflt {e : FaultEnd} (h : m.Agrees) (hcareful : m.FaultCareful slept va)
    (hok : m.trapPgflt user slept va = .ok (e, m')) : m'.Agrees := by
  have hforget := h.forget va
  rcases trapPgflt_cases hok with ⟨hpg, k1, hout, hin, htlb⟩ | ⟨hkernel, htlb⟩
  · obtain ⟨hfirst, hsecond⟩ := hcareful hpg
    obtain ⟨x, hx, -⟩ := hpg
    obtain ⟨⟨k0, hdeq, hmove⟩, hold⟩ := swapPageOut_oldest hout
    have hslots : ∀ a, slotOf k1.cur a = slotOf (m.kernel.cur.recorded (oldest m.kernel)) a :=
      swapPageOut_slots hout
    -- what is kept apart from the page that faulted
    set m0 := if slept then (m.setTlb va none).flush else m.setTlb va none with hm0
    have h0 : m0.Agrees := by
      rw [hm0]
      split
      · exact flush_agrees _
      · exact hforget
    have hk0 : m0.kernel = m.kernel := by
      rw [hm0]
      split <;> rfl
    have hva : ¬ m0.Cached (va / PGSIZE) := by
      rw [hm0]
      split <;> simp [Cached, flush, Machine.setTlb]
    have hcached : ∀ n, m0.Cached n → slept = false ∧ m.Cached n := by
      intro n hn
      cases slept with
      | true => exact absurd rfl hn
      | false =>
        refine ⟨rfl, fun hnone => hn ?_⟩
        by_cases hpage : n = va / PGSIZE
        · rw [hpage]
          exact Function.update_self _ _ _
        · exact (Function.update_of_ne hpage _ _).trans hnone
    have h1 : Keeps m0.Cached m.kernel k1 :=
      .swapPageOut hout fun hn => hfirst (hcached _ hn).1 (hcached _ hn).2
    have h2 : Keeps m0.Cached k1 m'.kernel := by
      apply Keeps.swapPageIn hin
      · rwa [PTE_ADDR_div]
      · intro hslot hn
        rw [hslots, PTE_ADDR_of_aligned (PTE_ADDR_aligned va)] at hslot
        rw [hold] at hn
        exact (hsecond hslot).2 (hcached _ hn).1 (hcached _ hn).2
    have hm' : m' = ({ m0 with kernel := m'.kernel } : Machine).setTlb va (copied k1 (PTE_ADDR va)) := by
      cases m'
      exact congrArg (Machine.mk _) htlb
    rw [hm']
    have hkeeps : Keeps m0.Cached m0.kernel m'.kernel := by
      rw [hk0]
      exact h1.trans h2
    apply (h0.keeps hkeeps).setTlb
    -- the page that was filled
    intro y hy
    obtain ⟨z, hz, -⟩ := swapPageOut_entry hout hx
    rw [← walkpgdir_PTE_ADDR] at hz
    have hne : oldest k1 / PGSIZE ≠ PTE_ADDR va / PGSIZE := by
      rw [hold, PTE_ADDR_div]
      apply (hsecond _).1
      intro hnone
      rw [copied, PTE_ADDR_of_aligned (PTE_ADDR_aligned va), hslots, hnone] at hy
      cases hy
    rw [← walkpgdir_PTE_ADDR]
    exact swapPageIn_copied hin hz hne hy
  · have hm' : m' = { m.setTlb va none with kernel := m'.kernel } := by
      cases m'
      exact congrArg (Machine.mk _) htlb
    rw [hm', hkernel]
    apply hforget.keeps
    apply Keeps.of_same
    · rw [Kernel.modCur_cur]
      rfl
    · rfl

theorem allows_p {x : Pte} (h : x.allows user store = true) : x.p = true := by
  simp only [Pte.allows, Bool.and_eq_true] at h
  exact h.1.1

/-- An access changes the byte of a frame at most, beside what a fault does. -/
theorem Agrees.access {f : Option Nat} (h : m.Agrees) (hcareful : m.Faults user store va → m.FaultCareful slept va)
    (hok : m.access user store slept va = .ok (f, m')) : m'.Agrees := by
  unfold Machine.access at hok
  split at hok
  · cases hok
    exact h
  next htlb =>
    split at hok
    next x hx =>
      cases hok
      obtain ⟨hwalk, hallows⟩ := Option.filter_eq_some_iff.mp hx
      apply h.setTlb
      intro y hy
      cases hy
      exact ⟨hwalk, allows_p hallows⟩
    next hwalk =>
      rw [bind_eq_ok] at hok
      obtain ⟨⟨e, m1⟩, htrap, hok⟩ := hok
      cases hok
      exact h.trapPgflt (hcareful ⟨htlb, hwalk⟩) htrap

/-! ### `sbrk` -/

/-- A call that fails keeps what is cached. -/
theorem growproc_keeps {k' : Kernel} {n r : Int} (hcareful : m.SbrkCareful n)
    (h : growproc m.kernel n = .ok (r, k')) (hr : r < 0) : Keeps m.Cached m.kernel k' := by
  obtain ⟨hgrow, hshrink⟩ := hcareful
  -- the result is `-1`, so the size is not recorded
  have hend : ∀ {sz : Nat} {k2 : Kernel},
      (if n ≠ 0 ∧ sz = 0 then (.ok (-1, k2) : Result (Int × Kernel)) else .ok (0, k2.setSz sz)) = .ok (r, k') →
      sz = 0 ∧ k' = k2 := by
    intro sz k2 hret
    split at hret
    next hzero =>
      cases hret
      exact ⟨hzero.2, rfl⟩
    · cases hret
      exact absurd hr (Int.lt_irrefl 0)
  unfold growproc at h
  simp only [] at h
  split at h
  next hn =>
    rw [bind_eq_ok] at h
    obtain ⟨⟨sz, k2⟩, halloc, h⟩ := h
    obtain ⟨rfl, rfl⟩ := hend h
    unfold allocuvm at halloc
    split at halloc
    · cases halloc
      exact .refl _
    next hsmall =>
    split at halloc
    · obtain ⟨-, rfl⟩ := Prod.mk.inj (Except.ok.inj halloc)
      exact .refl _
    · by_cases hzero : ((m.kernel.cur.sz + n) % 2 ^ 32).toNat = 0
      · -- no page to allocate
        rw [hzero, pageRange_nil (Nat.zero_le _)] at halloc
        cases halloc
        exact .refl _
      · have hout := runsOut_of_allocLoop hzero halloc
        obtain ⟨hevicts, hpages⟩ := hgrow hn (Nat.lt_of_not_le hsmall) hout
        exact allocLoop_keeps halloc hevicts hpages
  next hn =>
    split at h
    next hneg =>
      rw [bind_eq_ok] at h
      obtain ⟨⟨sz, k2⟩, hdealloc, h⟩ := h
      obtain ⟨rfl, rfl⟩ := hend h
      by_cases hzero : ((m.kernel.cur.sz + n) % 2 ^ 32).toNat = 0
      · have hpages := hshrink hneg hzero
        rw [hzero] at hdealloc
        have hup : PGROUNDUP 0 = 0 := by decide
        apply Keeps.deallocuvm hdealloc
        rwa [hup]
      · -- the size is not 0, so nothing was there to give up
        unfold deallocuvm at hdealloc
        split at hdealloc
        · obtain ⟨-, rfl⟩ := Prod.mk.inj (Except.ok.inj hdealloc)
          exact .refl _
        · rw [bind_eq_ok] at hdealloc
          obtain ⟨k3, -, hdealloc⟩ := hdealloc
          exact absurd (congrArg Prod.fst (Except.ok.inj hdealloc)) hzero
    · obtain ⟨-, rfl⟩ := hend h
      exact .refl _

theorem Agrees.sys_sbrk {n : Int} (h : m.Agrees) (hcareful : slept = false → m.SbrkCareful n)
    (hok : m.sys_sbrk slept n = .ok m') : m'.Agrees := by
  simp only [Machine.sys_sbrk, bind_eq_ok] at hok
  obtain ⟨⟨r, k⟩, hsbrk, hok⟩ := hok
  cases hok
  dsimp only
  split
  · exact flush_agrees _
  next hkept =>
    push Not at hkept
    obtain ⟨hslept, hr⟩ := hkept
    apply h.keeps
    simp only [Paging.sys_sbrk, bind_eq_ok] at hsbrk
    obtain ⟨⟨r1, k1⟩, hgrow, hsbrk⟩ := hsbrk
    cases hsbrk
    apply growproc_keeps (hcareful (by simpa using hslept)) hgrow
    by_contra hpos
    rw [if_neg hpos] at hr
    omega

/-! ### Runs -/

theorem Agrees.setByte (h : m.Agrees) (f off : Nat) (b : UInt8) :
    Agrees { m with kernel := m.kernel.setByte f off b } :=
  h.keeps (.of_same rfl rfl)

theorem step_agrees {op : MachineOp} (h : m.Agrees) (hcareful : m.Careful op) (hok : m.step op = .ok m') :
    m'.Agrees := by
  unfold step at hok
  cases op with
  | load user slept va =>
    simp only [bind_eq_ok] at hok
    obtain ⟨⟨f, m1⟩, hacc, hok⟩ := hok
    cases hok
    exact h.access hcareful hacc
  | store user slept va b =>
    simp only [bind_eq_ok] at hok
    obtain ⟨⟨f, m1⟩, hacc, hok⟩ := hok
    have h1 := h.access hcareful hacc
    cases f with
    | none =>
      cases hok
      exact h1
    | some f =>
      cases hok
      exact h1.setByte f _ b
  | sbrk slept n => exact h.sys_sbrk hcareful hok
  | forget va =>
    cases hok
    exact h.forget va
  | schedule p =>
    cases hok
    exact flush_agrees _
  | other k switchuvm =>
    cases hok
    split
    · exact flush_agrees _
    next hkept => exact h.keeps (hcareful (by simpa using hkept))

/-- What the CPU keeps is right, an access reaches the frame that the page
    table gives to its page, and an access to a page that is not present
    faults. -/
structure NoStale (m : Machine) : Prop where
  agrees : m.Agrees
  reaches : ∀ user store slept va f m', m.access user store slept va = .ok (some f, m') →
    ∃ x, m.kernel.walkpgdir m.kernel.cur.pgdir va = some x ∧ x.p = true ∧ x.ppn = f
  faults : ∀ user store slept va f m', ¬ Present m.kernel va → m.access user store slept va = .ok (f, m') →
    f = none ∧ ∃ e, Paging.trapPgflt user m.kernel va = .ok (e, m'.kernel)
  /-- while the kernel keeps the frames apart, no other page's frame and no free one -/
  owned : ∀ user store slept va f m', FramesOwned m.kernel → Live m.kernel m.kernel.curproc →
    m.access user store slept va = .ok (some f, m') → f ∉ m.kernel.freelist ∧
      ∀ r vb y, Live m.kernel r → m.kernel.walkpgdir (m.kernel.proc r).pgdir vb = some y → y.p = true →
        y.ppn = f → r = m.kernel.curproc ∧ vb / PGSIZE = va / PGSIZE

theorem Agrees.reaches {f : Nat} (h : m.Agrees) (hok : m.access user store slept va = .ok (some f, m')) :
    ∃ x, m.kernel.walkpgdir m.kernel.cur.pgdir va = some x ∧ x.p = true ∧ x.ppn = f := by
  unfold Machine.access at hok
  split at hok
  next x hx =>
    cases hok
    obtain ⟨hwalk, hp⟩ := h va x (Option.filter_eq_some_iff.mp hx).1
    exact ⟨x, hwalk, hp, rfl⟩
  · split at hok
    next x hx =>
      cases hok
      obtain ⟨hwalk, hallows⟩ := Option.filter_eq_some_iff.mp hx
      exact ⟨x, hwalk, allows_p hallows, rfl⟩
    · rw [bind_eq_ok] at hok
      obtain ⟨⟨e, m1⟩, -, hok⟩ := hok
      cases hok

theorem Agrees.faults {f : Option Nat} (h : m.Agrees) (habsent : ¬ Present m.kernel va)
    (hok : m.access user store slept va = .ok (f, m')) :
    f = none ∧ ∃ e, Paging.trapPgflt user m.kernel va = .ok (e, m'.kernel) := by
  cases f with
  | some f =>
    obtain ⟨x, hx, hp, -⟩ := h.reaches hok
    exact absurd ⟨x, hx, hp⟩ habsent
  | none =>
    refine ⟨rfl, ?_⟩
    unfold Machine.access at hok
    split at hok
    · cases hok
    · split at hok
      · cases hok
      · rw [bind_eq_ok] at hok
        obtain ⟨⟨e, m1⟩, htrap, hok⟩ := hok
        cases hok
        exact ⟨e, trapPgflt_kernel htrap⟩

theorem Agrees.noStale (h : m.Agrees) : m.NoStale := by
  refine ⟨h, fun _ _ _ _ _ _ hok => h.reaches hok, fun _ _ _ _ _ _ habsent hok => h.faults habsent hok, ?_⟩
  intro user store slept va f m' howned hlive hok
  obtain ⟨x, hx, hp, rfl⟩ := h.reaches hok
  obtain ⟨honce, hfree, -⟩ := howned m.kernel.curproc va x hlive hx hp
  exact ⟨hfree, honce⟩

/-- Along any run of careful steps. -/
theorem no_stale_translation (h : m.Agrees) (hrun : ReflTransGen CarefulStep m m') : m'.NoStale := by
  have hagrees : m'.Agrees := by
    induction hrun with
    | refl => exact h
    | tail _ hstep ih =>
      obtain ⟨op, hcareful, hstep⟩ := hstep
      exact step_agrees ih hcareful hstep
  exact hagrees.noStale

/-! ### A fault that is not careful -/

open Layout

def Step (m m' : Machine) : Prop := ∃ op, m.step op = .ok m'

/-- The machine after some steps. -/
def run : List MachineOp → Machine → Option Machine
  | [], m => some m
  | op :: ops, m =>
    match m.step op with
    | .ok m => run ops m
    | .error _ => none

theorem of_run {ops : List MachineOp} (h : run ops m = some m') : ReflTransGen Step m m' := by
  induction ops generalizing m with
  | nil =>
    cases h
    exact .refl
  | cons op ops ih =>
    unfold run at h
    split at h
    next m1 hm1 => exact .head ⟨op, hm1⟩ (ih h)
    · cases h

/-- Fifteen pages in memory and one in the swap file, after `switchuvm`. -/
def switched : Machine := ⟨sixteenAlone, fun _ => none⟩

/-- The process has read the page in the swap file.  It reads two pages more
    and then one that was evicted, and the disk lets it sleep at no time. -/
def staleTlb : Machine :=
  (run [.load true false (15 * PGSIZE), .load true false (2 * PGSIZE), .load true false (3 * PGSIZE),
    .load true false 0] switched).get (by decide +kernel)

theorem hit {x : Pte} (hx : m.tlb (va / PGSIZE) = some x) (hallows : x.allows user store = true) :
    m.access user store slept va = .ok (some x.ppn, m) := by
  simp [access, hx, Option.filter_some, hallows]

/-- The two pages that the last fault took away are still reached by the
    process: a frame that is free, and the frame of the page that was
    brought in. -/
theorem stale_translation : Owned switched.kernel ∧ switched.NoStale ∧ ReflTransGen Step switched staleTlb ∧
    (¬ Present staleTlb.kernel (2 * PGSIZE) ∧ FRAMES + 2 ∈ staleTlb.kernel.freelist ∧
      staleTlb.access true true false (2 * PGSIZE) = .ok (some (FRAMES + 2), staleTlb)) ∧
    (¬ Present staleTlb.kernel (3 * PGSIZE) ∧
      staleTlb.kernel.walkpgdir staleTlb.kernel.cur.pgdir 0 = some ⟨FRAMES + 3, true, true, true, false⟩ ∧
      staleTlb.access true true false (3 * PGSIZE) = .ok (some (FRAMES + 3), staleTlb)) ∧
    ¬ staleTlb.NoStale := by
  have hgone : ∀ {a : Nat}, staleTlb.kernel.walkpgdir staleTlb.kernel.cur.pgdir a = some .swapped →
      ¬ Present staleTlb.kernel a := by
    rintro a hswapped ⟨x, hx, hp⟩
    rw [hswapped] at hx
    cases hx
    cases hp
  have h2 : ¬ Present staleTlb.kernel (2 * PGSIZE) := hgone (by decide +kernel)
  have h3 : ¬ Present staleTlb.kernel (3 * PGSIZE) := hgone (by decide +kernel)
  have hhit : staleTlb.access true true false (2 * PGSIZE) = .ok (some (FRAMES + 2), staleTlb) :=
    hit (x := ⟨FRAMES + 2, true, true, true, false⟩) (by decide +kernel) rfl
  have hhit' : staleTlb.access true true false (3 * PGSIZE) = .ok (some (FRAMES + 3), staleTlb) :=
    hit (x := ⟨FRAMES + 3, true, true, true, false⟩) (by decide +kernel) rfl
  refine ⟨alone_owned sixteenPages_paged.mem, (flush_agrees switched).noStale, of_run (Option.some_get _).symm,
    ⟨h2, by decide +kernel, hhit⟩, ⟨h3, by decide +kernel, hhit'⟩, ?_⟩
  intro hstale
  exact Option.some_ne_none _ (hstale.faults _ _ _ _ _ _ h2 hhit).1

/-- The process has read the page in the swap file. -/
def firstFault : Machine := (run [.load true false (15 * PGSIZE)] switched).get (by decide +kernel)

theorem step_of_run {op : MachineOp} (h : run [op] m = some m') : m.step op = .ok m' := by
  unfold run at h
  split at h
  next m1 hm1 =>
    rw [hm1]
    exact congrArg Except.ok (Option.some.inj h)
  · cases h

/-- After the first of these faults nothing is stale. -/
theorem no_stale_translation_first : firstFault.NoStale ∧ Present firstFault.kernel (15 * PGSIZE) := by
  have hstep : switched.step (.load true false (15 * PGSIZE)) = .ok firstFault :=
    step_of_run (Option.some_get _).symm
  refine ⟨no_stale_translation (flush_agrees switched) (.single ⟨_, ?_, hstep⟩), ?_⟩
  · intro _ _
    exact ⟨fun _ hcached => hcached rfl, fun _ => ⟨by decide +kernel, fun _ hcached => hcached rfl⟩⟩
  · exact ⟨⟨FRAMES + 1, true, true, true, false⟩, by decide +kernel, rfl⟩

end Machine

end Paging
