import OperatingSystem314.Lottery.Accounting
import OperatingSystem314.Lottery.Settickets

/-! # `sys_getpinfo`, from the call to the memory of the caller

    `sys_getpinfo` drops the result of `argptr`, and its loop passes over the
    unused slots, so that their `inuse` stays what it was in the structure
    of the caller, which `ps` and `simlot` do not initialise.

    * `sys_getpinfo_exact_iff`: when it is exact and checked.
    * `fillStruct_rows`: what it leaves in the structure is what
      `OneCpu.sys_getpinfo` says. -/

namespace Lottery.Call

open Syscall ByteMemory

/-! ### The structure -/

/-- `sizeof(struct pstat)` -/
abbrev sizeofPstat : Int := 1024

/-- The arrays of `struct pstat`, in its order. -/
inductive Field where
  | inuse | tickets | pid | ticks
  deriving DecidableEq

def Field.offset : Field → Nat
  | .inuse => 0
  | .tickets => 256
  | .pid => 512
  | .ticks => 768

theorem Field.offset_le (f : Field) : f.offset ≤ 768 := by cases f <;> decide

/-- The address of `temp->field[index]`. -/
def addr (temp : Nat) (f : Field) (index : Slot) : Nat := (temp + f.offset + 4 * index.val) % 2 ^ 32

/-- The element as an `int`. -/
def elem (m : ByteMemory) (temp : Nat) (f : Field) (index : Slot) : Int := (m.word (addr temp f index)).toInt

/-! ### The call -/

/-- What the loop stores for a used slot, in its order. -/
def row (t : Table) (temp : Nat) (p : Slot) : List (Nat × BitVec 32) :=
  [(addr temp .pid p, BitVec.ofInt 32 (t p).pid),
    (addr temp .ticks p, BitVec.ofInt 32 (t p).ticks),
    (addr temp .tickets p, BitVec.ofInt 32 (t p).tickets),
    (addr temp .inuse p, if (t p).state ≠ .UNUSED then 1 else 0)]

/-- The loop of `sys_getpinfo`; `none` once it has stored outside of the
    process. -/
def fillLoop (t : Table) (temp : Nat) : List Slot → ByteMemory → Option ByteMemory
  | [], m => some m
  | p :: ps, m =>
    if (t p).state ≠ .UNUSED then (m.storeAll (row t temp p)).bind (fillLoop t temp ps)
    else fillLoop t temp ps m

/-- `sys_getpinfo`; `temp₀` is what its pointer holds at the start. -/
def sys_getpinfo (c : Caller) (temp₀ : Nat) (t : Table) : Option (Int × ByteMemory) :=
  let temp := (c.argptr 0 sizeofPstat).getD temp₀
  if temp = 0 then some (-1, c.memory)
  else (fillLoop t temp slots c.memory).map fun m => (0, m)

/-! ### What it is for -/

/-- The structure at `temp` says of every slot whether it is used, and of
    the used ones what the table holds. -/
structure Exact (t : Table) (temp : Nat) (m : ByteMemory) : Prop where
  inuse : ∀ p, elem m temp .inuse p = if (t p).state ≠ .UNUSED then 1 else 0
  tickets : ∀ p, (t p).state ≠ .UNUSED → elem m temp .tickets p = (t p).tickets
  pid : ∀ p, (t p).state ≠ .UNUSED → elem m temp .pid p = (t p).pid
  ticks : ∀ p, (t p).state ≠ .UNUSED → elem m temp .ticks p = (t p).ticks

/-- The pointer that the caller passes, if the whole structure lies in it. -/
def structArg (c : Caller) : Option Nat :=
  (c.argint 0).bind fun i => if i.toNat + 1024 ≤ c.sz then some i.toNat else none

/-- The call is exact where the structure lies in the process, and else
    returns -1 and writes nothing. -/
def ExactOrRefused (c : Caller) (t : Table) (r : Option (Int × ByteMemory)) : Prop :=
  match structArg c with
  | some temp => ∃ m, r = some (0, m) ∧ Exact t temp m
  | none => r = some (-1, c.memory)

/-- The fields of the table are `int`s. -/
def Ints (t : Table) : Prop := ∀ p, IsInt (t p).pid ∧ IsInt (t p).tickets ∧ IsInt (t p).ticks

theorem argptr_struct (c : Caller) : c.argptr 0 sizeofPstat = structArg c :=
  c.argptr_eq 0 (by decide) (by decide)

/-! ### What the loop stores -/

/-- The value stored for a field. -/
def value (t : Table) (p : Slot) : Field → BitVec 32
  | .inuse => if (t p).state ≠ .UNUSED then 1 else 0
  | .tickets => BitVec.ofInt 32 (t p).tickets
  | .pid => BitVec.ofInt 32 (t p).pid
  | .ticks => BitVec.ofInt 32 (t p).ticks

/-- All stores of the loop, in their order. -/
def stores (t : Table) (temp : Nat) (ps : List Slot) : List (Nat × BitVec 32) :=
  ps.flatMap fun p => if (t p).state ≠ .UNUSED then row t temp p else []

theorem fillLoop_eq (t : Table) (temp : Nat) (ps : List Slot) (m : ByteMemory) :
    fillLoop t temp ps m = m.storeAll (stores t temp ps) := by
  induction ps generalizing m with
  | nil => rfl
  | cons p ps ih =>
    unfold fillLoop
    rw [stores, List.flatMap_cons, ← stores]
    split
    next hused =>
      rw [storeAll_append]
      congr 1
      funext m
      exact ih m
    next hunused =>
      rw [List.nil_append]
      exact ih m

theorem mem_row {t : Table} {temp : Nat} {p : Slot} {s : Nat × BitVec 32} :
    s ∈ row t temp p ↔ ∃ f, s = (addr temp f p, value t p f) := by
  constructor
  · intro h
    simp only [row, List.mem_cons, List.not_mem_nil, or_false] at h
    rcases h with h | h | h | h
    · exact ⟨.pid, h⟩
    · exact ⟨.ticks, h⟩
    · exact ⟨.tickets, h⟩
    · exact ⟨.inuse, h⟩
  · intro h
    obtain ⟨f, rfl⟩ := h
    cases f <;> simp [row, value]

theorem mem_stores {t : Table} {temp : Nat} {ps : List Slot} {s : Nat × BitVec 32} :
    s ∈ stores t temp ps ↔
      ∃ p ∈ ps, (t p).state ≠ .UNUSED ∧ ∃ f, s = (addr temp f p, value t p f) := by
  simp only [stores, List.mem_flatMap]
  constructor
  · intro h
    obtain ⟨p, hp, hs⟩ := h
    split at hs
    next hused => exact ⟨p, hp, hused, mem_row.mp hs⟩
    next => exact absurd hs List.not_mem_nil
  · intro h
    obtain ⟨p, hp, hused, hs⟩ := h
    exact ⟨p, hp, by rw [if_pos hused]; exact mem_row.mpr hs⟩

section Struct

variable {temp : Nat} {m : ByteMemory}

/-- Inside of the process the addresses do not wrap around. -/
theorem addr_eq (hm : m.size ≤ KERNBASE) (h : temp + 1024 ≤ m.size) (f : Field) (p : Slot) :
    addr temp f p = temp + f.offset + 4 * p.val := by
  have hsize : m.size ≤ 2 ^ 31 := hm
  have hp : p.val < 64 := p.isLt
  have hf := f.offset_le
  exact Nat.mod_eq_of_lt (by omega)

theorem addr_inside (hm : m.size ≤ KERNBASE) (h : temp + 1024 ≤ m.size) (f : Field) (p : Slot) :
    addr temp f p + 4 ≤ m.size := by
  have hp : p.val < 64 := p.isLt
  have hf := f.offset_le
  rw [addr_eq hm h]
  omega

/-- No two elements of the structure overlap. -/
theorem addr_apart (hm : m.size ≤ KERNBASE) (h : temp + 1024 ≤ m.size) {f g : Field} {p q : Slot}
    (hne : f ≠ g ∨ p ≠ q) : Apart (addr temp f p) (addr temp g q) := by
  have hp : p.val < 64 := p.isLt
  have hq : q.val < 64 := q.isLt
  rw [addr_eq hm h, addr_eq hm h]
  unfold Apart
  rcases hne with hfg | hpq
  · -- the arrays of two fields
    cases f <;> cases g <;> simp only [Field.offset, ne_eq, not_true_eq_false] at hfg ⊢ <;> omega
  · have hval : p.val ≠ q.val := fun heq => hpq (Fin.ext heq)
    cases f <;> cases g <;> simp only [Field.offset] <;> omega

theorem stores_apart (hm : m.size ≤ KERNBASE) (h : temp + 1024 ≤ m.size) (t : Table) {ps : List Slot}
    (hps : ps.Nodup) : (stores t temp ps).Pairwise fun s s' => Apart s.1 s'.1 := by
  unfold stores
  rw [List.pairwise_flatMap]
  constructor
  · intro p hp
    split
    · simp only [row, List.pairwise_cons, List.mem_cons, List.not_mem_nil, or_false,
        forall_eq_or_imp, forall_eq, false_imp_iff, implies_true, List.Pairwise.nil, and_true]
      refine ⟨⟨?_, ?_, ?_⟩, ⟨?_, ?_⟩, ?_⟩ <;> exact addr_apart hm h (Or.inl (by decide))
    · exact List.Pairwise.nil
  · refine hps.imp ?_
    intro p q hpq s hs s' hs'
    split at hs
    · split at hs'
      · obtain ⟨f, rfl⟩ := mem_row.mp hs
        obtain ⟨g, rfl⟩ := mem_row.mp hs'
        exact addr_apart hm h (Or.inr hpq)
      · exact absurd hs' List.not_mem_nil
    · exact absurd hs List.not_mem_nil

/-- The loop fills the structure: the elements of the used slots are stored,
    those of the unused ones stay, and so does the rest of the memory. -/
theorem fillLoop_spec (hm : m.size ≤ KERNBASE) (h : temp + 1024 ≤ m.size) (t : Table) :
    ∃ m', fillLoop t temp slots m = some m' ∧
      (∀ p f, (t p).state ≠ .UNUSED → elem m' temp f p = (value t p f).toInt) ∧
      (∀ p f, (t p).state = .UNUSED → elem m' temp f p = elem m temp f p) ∧
      ∀ x, x < temp ∨ temp + 1024 ≤ x → m'.byte x = m.byte x := by
  have hinside : ∀ s ∈ stores t temp slots, s.1 + 4 ≤ m.size := by
    intro s hs
    obtain ⟨p, -, -, f, rfl⟩ := mem_stores.mp hs
    exact addr_inside hm h f p
  obtain ⟨m', hm', hstored⟩ := storeAll_spec hinside (stores_apart hm h t (List.nodup_finRange NPROC))
  refine ⟨m', (fillLoop_eq t temp slots m).trans hm', ?_, ?_, ?_⟩
  · intro p f hused
    have hmem : (addr temp f p, value t p f) ∈ stores t temp slots :=
      mem_stores.mpr ⟨p, List.mem_finRange p, hused, f, rfl⟩
    have hword := hstored.word _ hmem
    rw [elem, hword]
  · intro p f hunused
    apply congrArg BitVec.toInt
    apply hstored.apart
    intro s hs
    obtain ⟨q, -, hused, g, rfl⟩ := mem_stores.mp hs
    exact addr_apart hm h (Or.inr fun heq => hused (heq ▸ hunused))
  · intro x hx
    apply hstored.byte
    intro s hs
    obtain ⟨p, -, -, f, rfl⟩ := mem_stores.mp hs
    have hp : p.val < 64 := p.isLt
    have hf := f.offset_le
    simp only [addr_eq hm h]
    omega

end Struct

/-! ### When the call is exact -/

/-- The value of a field that an `int` holds. -/
def field (t : Table) (p : Slot) : Field → Int
  | .inuse => if (t p).state ≠ .UNUSED then 1 else 0
  | .tickets => (t p).tickets
  | .pid => (t p).pid
  | .ticks => (t p).ticks

theorem value_toInt {t : Table} (ht : Ints t) (p : Slot) (f : Field) :
    (value t p f).toInt = field t p f := by
  obtain ⟨hpid, htickets, hticks⟩ := ht p
  cases f with
  | inuse =>
    simp only [value, field]
    split
    · rfl
    · rfl
  | tickets => rw [value, field, BitVec.toInt_ofInt, bmod_of_isInt htickets]
  | pid => rw [value, field, BitVec.toInt_ofInt, bmod_of_isInt hpid]
  | ticks => rw [value, field, BitVec.toInt_ofInt, bmod_of_isInt hticks]

/-- The filled structure is exact as far as the caller had cleared it. -/
theorem fillLoop_exact {temp : Nat} {m : ByteMemory} (hm : m.size ≤ KERNBASE)
    (h : temp + 1024 ≤ m.size) {t : Table} (ht : Ints t) :
    ∃ m', fillLoop t temp slots m = some m' ∧
      (Exact t temp m' ↔ ∀ p, (t p).state = .UNUSED → elem m temp .inuse p = 0) := by
  obtain ⟨m', hfill, hused, hunused, -⟩ := fillLoop_spec hm h t
  refine ⟨m', hfill, ?_⟩
  constructor
  · intro hexact p hp
    rw [← hunused p .inuse hp, hexact.inuse p, if_neg (by simpa using hp)]
  · intro hclear
    constructor
    · intro p
      by_cases hp : (t p).state = .UNUSED
      · rw [hunused p .inuse hp, hclear p hp, if_neg (by simpa using hp)]
      · rw [hused p .inuse hp, value_toInt ht, field]
    · intro p hp
      rw [hused p .tickets hp, value_toInt ht, field]
    · intro p hp
      rw [hused p .pid hp, value_toInt ht, field]
    · intro p hp
      rw [hused p .ticks hp, value_toInt ht, field]

/-- The structure, slot by slot. -/
def rows (m : ByteMemory) (temp : Nat) : Slot → OneCpu.Pstat := fun p =>
  ⟨elem m temp .inuse p ≠ 0, elem m temp .tickets p, elem m temp .pid p, elem m temp .ticks p⟩

/-- The loop over the memory does what `OneCpu.sys_getpinfo` does over the
    rows of the structure. -/
theorem fillStruct_rows {temp : Nat} {m : ByteMemory} (hm : m.size ≤ KERNBASE)
    (h : temp + 1024 ≤ m.size) {t : Table} (ht : Ints t) :
    ∃ m', fillLoop t temp slots m = some m' ∧
      rows m' temp = OneCpu.sys_getpinfo t (rows m temp) := by
  obtain ⟨m', hfill, hused, hunused, -⟩ := fillLoop_spec hm h t
  refine ⟨m', hfill, ?_⟩
  funext p
  unfold rows OneCpu.sys_getpinfo
  split
  next hp =>
    simp only [hused p _ hp, value_toInt ht, field, if_pos hp]
    rfl
  next hp =>
    have hp : (t p).state = .UNUSED := by simpa using hp
    simp only [hunused p _ hp]

/-- Where the structure lies in the process, it is not at address zero, and
    its `inuse` is zero for the unused slots already; else the pointer
    happens to be zero. -/
def Cleared (c : Caller) (temp₀ : Nat) (t : Table) : Prop :=
  match structArg c with
  | some temp => temp ≠ 0 ∧ ∀ p, (t p).state = .UNUSED → elem c.memory temp .inuse p = 0
  | none => temp₀ = 0

theorem structArg_le {c : Caller} {temp : Nat} (h : structArg c = some temp) : temp + 1024 ≤ c.sz := by
  unfold structArg at h
  obtain ⟨i, -, hi⟩ := Option.bind_eq_some_iff.mp h
  split at hi
  next hle =>
    cases hi
    exact hle
  next => cases hi

/-- `sys_getpinfo` is exact and checked just when the structure has been
    cleared, or the pointer that it does not check is zero. -/
theorem sys_getpinfo_exact_iff (c : Caller) (temp₀ : Nat) {t : Table} (ht : Ints t) :
    ExactOrRefused c t (sys_getpinfo c temp₀ t) ↔ Cleared c temp₀ t := by
  unfold ExactOrRefused Cleared sys_getpinfo
  rw [argptr_struct]
  cases harg : structArg c with
  | some temp =>
    obtain ⟨m', hfill, hexact⟩ := fillLoop_exact c.sz_le (structArg_le harg) ht
    simp only [Option.getD_some]
    by_cases hnull : temp = 0
    · simp [hnull]
    · rw [if_neg hnull, hfill, Option.map_some, ← hexact]
      simp [hnull]
  | none =>
    simp only [Option.getD_none]
    by_cases hnull : temp₀ = 0
    · simp [hnull]
    · rw [if_neg hnull]
      cases fillLoop t temp₀ slots c.memory with
      | none => simp [hnull]
      | some m => simp [hnull]

theorem ints_tableOf {tickets : List Int} (h : ∀ n ∈ tickets, IsInt n) : Ints (tableOf tickets) := by
  intro p
  have hp : p.val < 64 := p.isLt
  have hzero : IsInt 0 := by decide
  unfold tableOf
  split
  next n hn => exact ⟨⟨by dsimp only; omega, by dsimp only; omega⟩, h n (List.mem_of_getElem? hn), hzero⟩
  next => exact ⟨hzero, hzero, hzero⟩

/-- A process of 2048 bytes that passes the address 1024, its stack pointer
    at `esp`; the memory from 1024 on is zero but for `inuse[1]`. -/
def asks (esp : Nat) : Caller where
  memory := ⟨2048, fun x => if x = 5 then 4 else if x = 1028 then 1 else 0⟩
  esp
  sz_le := show 2048 ≤ 2 ^ 31 by norm_num

theorem sys_getpinfo_exact_asks :
    ExactOrRefused (asks 0) (tableOf [1]) (sys_getpinfo (asks 0) 0 (tableOf [1])) ↔
      Cleared (asks 0) 0 (tableOf [1]) :=
  sys_getpinfo_exact_iff (asks 0) 0 (ints_tableOf (by decide))

/-- One process in the table.  The call leaves `inuse` of the second slot at
    one; and where the pointer is not on the stack it writes to where the
    uninitialised pointer points, and returns zero. -/
theorem sys_getpinfo_stale :
    (structArg (asks 0) = some 1024 ∧ (tableOf [1] 1).state = .UNUSED ∧
      ¬ ExactOrRefused (asks 0) (tableOf [1]) (sys_getpinfo (asks 0) 0 (tableOf [1]))) ∧
    structArg (asks 2048) = none ∧
      (sys_getpinfo (asks 2048) 1024 (tableOf [1])).map Prod.fst = some 0 ∧
      ¬ ExactOrRefused (asks 2048) (tableOf [1]) (sys_getpinfo (asks 2048) 1024 (tableOf [1])) := by
  have harg : structArg (asks 0) = some 1024 := by decide +kernel
  have hnone : structArg (asks 2048) = none := by decide +kernel
  have hzero : (sys_getpinfo (asks 2048) 1024 (tableOf [1])).map Prod.fst = some 0 := by decide +kernel
  refine ⟨⟨harg, rfl, ?_⟩, hnone, hzero, ?_⟩
  · have hints : Ints (tableOf [1]) := ints_tableOf (by decide)
    obtain ⟨m', hfill, hexact⟩ := fillLoop_exact (asks 0).sz_le (structArg_le harg) hints
    have hdirty : elem (asks 0).memory 1024 .inuse 1 = 1 := by decide +kernel
    intro h
    unfold ExactOrRefused sys_getpinfo at h
    rw [argptr_struct, harg] at h
    simp only [Option.getD_some] at h
    rw [if_neg (by decide), hfill, Option.map_some] at h
    obtain ⟨m, hm, hclear⟩ := h
    cases hm
    have hzero := hexact.mp hclear 1 rfl
    rw [hdirty] at hzero
    exact absurd hzero (by decide)
  · intro h
    unfold ExactOrRefused at h
    rw [hnone] at h
    simp only [] at h
    rw [h] at hzero
    exact absurd hzero (by decide)

end Lottery.Call
