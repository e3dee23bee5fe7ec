import OperatingSystem314.Lib.ByteMemory

/-! # System call arguments (`syscall.c`)

    The arguments of a system call lie on the user stack of the process that
    makes it, above the saved program counter.  `fetchint`, `argint` and
    `argptr` read them from there; what they return is the word they leave
    in `*ip` or `*pp`, and `none` is the -1 with which they leave it alone.

    An address is a natural number below `2^32`, and `uint` arithmetic on
    addresses wraps around.  An `int` is a word, read by `toInt`. -/

namespace Syscall

/-- Where the kernel begins; no process grows to there. -/
abbrev KERNBASE : Nat := 2 ^ 31

/-- The process that makes the call: its memory, whose size is `sz`, and
    the stack pointer of its trap frame. -/
structure Caller where
  memory : ByteMemory
  esp : Nat
  sz_le : memory.size ≤ KERNBASE

namespace Caller

variable (c : Caller)

abbrev sz : Nat := c.memory.size

/-! ### The routines -/

def fetchint (addr : Nat) : Option (BitVec 32) :=
  if addr ≥ c.sz ∨ (addr + 4) % 2 ^ 32 > c.sz then none else some (c.memory.word addr)

def argint (n : Nat) : Option (BitVec 32) := c.fetchint ((c.esp + 4 + 4 * n) % 2 ^ 32)

def argptr (n : Nat) (size : Int) : Option Nat :=
  match c.argint n with
  | none => none
  | some i =>
    if size < 0 ∨ i.toNat ≥ c.sz ∨ (i.toNat + size.toNat) % 2 ^ 32 > c.sz then none
    else some i.toNat

/-! ### What they check -/

/-- The two comparisons of `fetchint` admit the words that lie wholly inside
    of the process and no others. -/
theorem fetchint_eq (addr : Nat) : c.fetchint addr = c.memory.load addr := by
  have hsz : c.memory.size ≤ 2 ^ 31 := c.sz_le
  unfold fetchint ByteMemory.load sz
  by_cases h : addr + 4 ≤ c.memory.size
  · have hmod : (addr + 4) % 2 ^ 32 = addr + 4 := Nat.mod_eq_of_lt (by omega)
    rw [if_pos h, hmod, if_neg (by omega)]
  · rw [if_neg h, if_pos]
    by_contra hcon
    have hmod : (addr + 4) % 2 ^ 32 = addr + 4 := Nat.mod_eq_of_lt (by omega)
    omega

/-- A block that `argptr` accepts lies wholly inside of the process. -/
theorem argptr_eq (n : Nat) {size : Int} (hsize : 0 < size) (hsize' : size < 2 ^ 31) :
    c.argptr n size =
      (c.argint n).bind fun i => if i.toNat + size.toNat ≤ c.sz then some i.toNat else none := by
  have hsz : c.sz ≤ 2 ^ 31 := c.sz_le
  unfold argptr
  cases c.argint n with
  | none => rfl
  | some i =>
    simp only [Option.bind_some]
    by_cases h : i.toNat + size.toNat ≤ c.sz
    · have hmod : (i.toNat + size.toNat) % 2 ^ 32 = i.toNat + size.toNat :=
        Nat.mod_eq_of_lt (by omega)
      rw [if_pos h, hmod, if_neg (by omega)]
    · rw [if_neg h, if_pos]
      by_contra hcon
      have hmod : (i.toNat + size.toNat) % 2 ^ 32 = i.toNat + size.toNat :=
        Nat.mod_eq_of_lt (by omega)
      omega

end Caller

end Syscall
