import OperatingSystem314.Syscall.Arguments

/-! # Adding up an array of the caller (`sys_addi` of `sysproc.c`)

    `sys_addi` takes the size of an array and a pointer to it.  It checks
    that the first element of the array lies in the process, as far as it
    checks at all: the results of `argint` and of `argptr` are dropped, and
    where they fail `size` and `arr` are what the kernel stack held.

    * `sys_addi_reads_own_iff`: when it reads the array of the caller and
      nothing else. -/

namespace Syscall

open ByteMemory

/-- What a call returns, `none` once it has read outside of the process,
    and the addresses of the words it has read. -/
structure Outcome where
  result : Option (BitVec 32)
  reads : List Nat
  deriving DecidableEq

/-- The loop of `sys_addi`, with `n` elements to go from the address `p` on.
    The pointer arithmetic wraps around like that of a `uint`. -/
def addLoop (m : ByteMemory) : (n : Nat) → (p : Nat) → (sum : BitVec 32) → Outcome
  | 0, _, sum => ⟨some sum, []⟩
  | n + 1, p, sum =>
    match m.load p with
    | none => ⟨none, [p]⟩
    | some w =>
      let rest := addLoop m n ((p + 4) % 2 ^ 32) (sum + w)
      ⟨rest.result, p :: rest.reads⟩

/-- `size₀` and `arr₀` are what the two variables hold at the start. -/
def sys_addi (c : Caller) (size₀ : BitVec 32) (arr₀ : Nat) : Outcome :=
  let size := (c.argint 0).getD size₀
  let arr := (c.argptr 1 4).getD arr₀
  addLoop c.memory size.toInt.toNat arr 0

/-- Every word of the array lies in the process and the call returns their
    sum, having read these words; or it returns an error, having read none. -/
def ReadsOwn (c : Caller) (r : Outcome) : Prop :=
  (∃ size arr, c.argint 0 = some size ∧ c.argint 1 = some arr ∧
    (∀ i < size.toInt.toNat, arr.toNat + 4 * i + 4 ≤ c.sz) ∧
    r.result = some ((List.range size.toInt.toNat).map fun i => c.memory.word (arr.toNat + 4 * i)).sum ∧
    r.reads = (List.range size.toInt.toNat).map fun i => arr.toNat + 4 * i) ∨
  (∃ e, r.result = some e ∧ e.toInt < 0 ∧ r.reads = [])

/-! ### The loop -/

section Loop

variable {m : ByteMemory}

/-- Inside of the process the loop reads the elements one after another. -/
theorem addLoop_inside (hm : m.size ≤ KERNBASE) {n p : Nat} (h : p + 4 * n ≤ m.size) (sum : BitVec 32) :
    addLoop m n p sum =
      ⟨some (sum + ((List.range n).map fun i => m.word (p + 4 * i)).sum),
        (List.range n).map fun i => p + 4 * i⟩ := by
  have hsize : m.size ≤ 2 ^ 31 := hm
  induction n generalizing p sum with
  | zero => simp [addLoop]
  | succ n ih =>
    have hload : m.load p = some (m.word p) := load_eq_some.mpr ⟨by omega, rfl⟩
    have hnext : (p + 4) % 2 ^ 32 = p + 4 := Nat.mod_eq_of_lt (by omega)
    have hshift : ∀ i, p + 4 + 4 * i = p + 4 * (i + 1) := fun i => by omega
    simp only [addLoop, hload, hnext]
    rw [ih (by omega)]
    simp only [hshift, List.range_succ_eq_map, List.map_cons, List.map_map, List.sum_cons,
      Nat.mul_zero, Nat.add_zero, Function.comp_def, Nat.succ_eq_add_one, add_assoc]

/-- A loop with something to add reads something. -/
theorem addLoop_reads (n p : Nat) (sum : BitVec 32) : (addLoop m (n + 1) p sum).reads ≠ [] := by
  unfold addLoop
  split
  · simp
  · simp

end Loop

/-! ### The call -/

theorem sys_addi_eq (c : Caller) (size₀ : BitVec 32) (arr₀ : Nat) :
    sys_addi c size₀ arr₀ =
      addLoop c.memory ((c.argint 0).getD size₀).toInt.toNat ((c.argptr 1 4).getD arr₀) 0 :=
  rfl

/-- The call reads the array of its caller and nothing else just when both
    arguments lie on the stack and the array, unless it is empty, ends
    inside of the process. -/
theorem sys_addi_reads_own_iff (c : Caller) (size₀ : BitVec 32) (arr₀ : Nat) :
    ReadsOwn c (sys_addi c size₀ arr₀) ↔
      ∃ size arr, c.argint 0 = some size ∧ c.argint 1 = some arr ∧
        (size.toInt ≤ 0 ∨ arr.toNat + 4 * size.toInt.toNat ≤ c.sz) := by
  constructor
  · intro h
    rcases h with ⟨size, arr, hsize, harr, hbound, -⟩ | ⟨e, hresult, herror, hreads⟩
    · refine ⟨size, arr, hsize, harr, ?_⟩
      by_cases hpos : size.toInt ≤ 0
      · exact Or.inl hpos
      · have hlast := hbound (size.toInt.toNat - 1) (by omega)
        exact Or.inr (by omega)
    · -- a loop that reads nothing returns zero, which is no error
      rw [sys_addi_eq] at hresult hreads
      cases hn : ((c.argint 0).getD size₀).toInt.toNat with
      | zero =>
        rw [hn] at hresult
        cases hresult
        exact absurd herror (by decide)
      | succ n =>
        rw [hn] at hreads
        exact absurd hreads (addLoop_reads n _ 0)
  · intro h
    obtain ⟨size, arr, hsize, harr, hbound⟩ := h
    have hargptr := @Caller.argptr_eq c 1 4 (by decide) (by decide)
    refine Or.inl ⟨size, arr, hsize, harr, ?_, ?_⟩
    · intro i hi
      omega
    · rw [sys_addi_eq, hsize, Option.getD_some]
      by_cases hpos : size.toInt ≤ 0
      · have hzero : size.toInt.toNat = 0 := by omega
        rw [hzero]
        simp [addLoop]
      · have hend : arr.toNat + 4 * size.toInt.toNat ≤ c.sz := hbound.resolve_left hpos
        have hfirst : arr.toNat + (4 : Int).toNat ≤ c.sz := by
          have : (4 : Int).toNat = 4 := rfl
          omega
        rw [hargptr, harr, Option.bind_some, if_pos hfirst, Option.getD_some,
          addLoop_inside c.sz_le hend, zero_add]
        exact ⟨rfl, rfl⟩

/-- A process of 16 bytes whose stack is all of it: it calls `addi` on an
    array of two elements that starts at the last word. -/
def lastWord : Caller where
  memory := ⟨16, fun x => if x = 4 then 2 else if x = 8 then 12 else 0⟩
  esp := 0
  sz_le := by decide

/-- The call reads the word behind the process. -/
theorem sys_addi_reads_outside :
    lastWord.argint 0 = some 2 ∧ lastWord.argint 1 = some 12 ∧
      sys_addi lastWord 0 0 = ⟨none, [12, 16]⟩ ∧ ¬ ReadsOwn lastWord (sys_addi lastWord 0 0) := by
  have hcall : sys_addi lastWord 0 0 = ⟨none, [12, 16]⟩ := by decide +kernel
  refine ⟨by decide +kernel, by decide +kernel, hcall, ?_⟩
  rw [hcall]
  intro h
  rcases h with ⟨_, _, _, _, _, hresult, _⟩ | ⟨_, hresult, _⟩
  · cases hresult
  · cases hresult

end Syscall
