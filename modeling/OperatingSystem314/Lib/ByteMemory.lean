import Mathlib.Data.BitVec
import Mathlib.Data.List.Basic
import Mathlib.Tactic.Ring

/-! # Byte-addressed memory with little-endian words

    A memory of finitely many bytes, and 32-bit loads and stores at any
    address, aligned or not.  An access that is not wholly inside fails.

    * `word_setWord_same`, `word_setWord_apart`: what a store changes.
    * `storeAll_spec`: a sequence of stores to words that do not overlap
      leaves each with its value and everything else as it was. -/

structure ByteMemory where
  size : Nat
  byte : Nat → BitVec 8

namespace ByteMemory

/-! ### Words -/

/-- The word at an address, the lowest byte first. -/
def word (m : ByteMemory) (a : Nat) : BitVec 32 :=
  (m.byte (a + 3) ++ m.byte (a + 2) ++ m.byte (a + 1) ++ m.byte a : BitVec (8 + 8 + 8 + 8))

def setWord (m : ByteMemory) (a : Nat) (v : BitVec 32) : ByteMemory where
  size := m.size
  byte := fun x => if a ≤ x ∧ x < a + 4 then v.extractLsb' (8 * (x - a)) 8 else m.byte x

def load (m : ByteMemory) (a : Nat) : Option (BitVec 32) :=
  if a + 4 ≤ m.size then some (m.word a) else none

def store (m : ByteMemory) (a : Nat) (v : BitVec 32) : Option ByteMemory :=
  if a + 4 ≤ m.size then some (m.setWord a v) else none

/-- Two words that share no byte. -/
def Apart (a b : Nat) : Prop := a + 4 ≤ b ∨ b + 4 ≤ a

instance (a b : Nat) : Decidable (Apart a b) := by
  unfold Apart; infer_instance

theorem Apart.symm {a b : Nat} (h : Apart a b) : Apart b a := Or.symm h

section Store

variable (m : ByteMemory) {a b : Nat} (v : BitVec 32)

@[simp] theorem size_setWord : (m.setWord a v).size = m.size := rfl

theorem byte_setWord_inside {x : Nat} (h : a ≤ x) (h' : x < a + 4) :
    (m.setWord a v).byte x = v.extractLsb' (8 * (x - a)) 8 :=
  if_pos ⟨h, h'⟩

theorem byte_setWord_outside {x : Nat} (h : x < a ∨ a + 4 ≤ x) :
    (m.setWord a v).byte x = m.byte x :=
  if_neg (by omega)

theorem word_congr {m m' : ByteMemory} (h : ∀ x, a ≤ x → x < a + 4 → m'.byte x = m.byte x) :
    m'.word a = m.word a := by
  unfold word
  rw [h a (by omega) (by omega), h (a + 1) (by omega) (by omega), h (a + 2) (by omega) (by omega),
    h (a + 3) (by omega) (by omega)]

@[simp] theorem word_setWord_same : (m.setWord a v).word a = v := by
  unfold word
  rw [byte_setWord_inside m v (by omega) (by omega), byte_setWord_inside m v (by omega) (by omega),
    byte_setWord_inside m v (by omega) (by omega), byte_setWord_inside m v (by omega) (by omega)]
  ext i hi
  simp only [BitVec.getElem_append, BitVec.getElem_extractLsb']
  grind

theorem word_setWord_apart (h : Apart a b) : (m.setWord a v).word b = m.word b := by
  apply word_congr
  intro x hx hx'
  apply byte_setWord_outside
  unfold Apart at h
  omega

end Store

theorem load_eq_some {m : ByteMemory} {a : Nat} {v : BitVec 32} :
    m.load a = some v ↔ a + 4 ≤ m.size ∧ m.word a = v := by
  unfold load
  split
  · simp [*]
  · simp [*]

theorem store_eq_some {m m' : ByteMemory} {a : Nat} {v : BitVec 32} :
    m.store a v = some m' ↔ a + 4 ≤ m.size ∧ m.setWord a v = m' := by
  unfold store
  split
  · simp [*]
  · simp [*]

/-! ### Sequences of stores -/

/-- Stores made one after another, up to the first that fails. -/
def storeAll (m : ByteMemory) : List (Nat × BitVec 32) → Option ByteMemory
  | [] => some m
  | s :: l => (m.store s.1 s.2).bind fun m => m.storeAll l

/-- Every word of the list has its value, and no other byte has changed. -/
structure Stored (m : ByteMemory) (l : List (Nat × BitVec 32)) (m' : ByteMemory) : Prop where
  size : m'.size = m.size
  word : ∀ s ∈ l, m'.word s.1 = s.2
  byte : ∀ x, (∀ s ∈ l, x < s.1 ∨ s.1 + 4 ≤ x) → m'.byte x = m.byte x

theorem Stored.apart {m m' : ByteMemory} {l : List (Nat × BitVec 32)} (h : Stored m l m') {b : Nat}
    (hb : ∀ s ∈ l, Apart s.1 b) : m'.word b = m.word b := by
  apply word_congr
  intro x hx hx'
  apply h.byte
  intro s hs
  have hapart := hb s hs
  unfold Apart at hapart
  omega

theorem storeAll_append (m : ByteMemory) (l l' : List (Nat × BitVec 32)) :
    m.storeAll (l ++ l') = (m.storeAll l).bind fun m => m.storeAll l' := by
  induction l generalizing m with
  | nil => rfl
  | cons s l ih =>
    simp only [List.cons_append, storeAll]
    cases m.store s.1 s.2 with
    | none => rfl
    | some m => exact ih m

theorem storeAll_spec {m : ByteMemory} {l : List (Nat × BitVec 32)}
    (hinside : ∀ s ∈ l, s.1 + 4 ≤ m.size) (hapart : l.Pairwise fun s s' => Apart s.1 s'.1) :
    ∃ m', m.storeAll l = some m' ∧ Stored m l m' := by
  induction l generalizing m with
  | nil => exact ⟨m, rfl, rfl, by simp, fun x _ => rfl⟩
  | cons s l ih =>
    rw [List.pairwise_cons] at hapart
    obtain ⟨hs, hl⟩ := hapart
    obtain ⟨m', hm', hstored⟩ := ih (m := m.setWord s.1 s.2)
      (fun s' hs' => hinside s' (List.mem_cons_of_mem s hs')) hl
    have hstore : m.store s.1 s.2 = some (m.setWord s.1 s.2) :=
      store_eq_some.mpr ⟨hinside s List.mem_cons_self, rfl⟩
    refine ⟨m', by rw [storeAll, hstore, Option.bind_some, hm'], hstored.size, ?_, ?_⟩
    · intro s' hs'
      rcases List.mem_cons.mp hs' with rfl | hs'
      · -- the later stores leave the first one alone
        rw [hstored.apart fun x hx => (hs x hx).symm, word_setWord_same]
      · exact hstored.word s' hs'
    · intro x hx
      rw [hstored.byte x fun s' hs' => hx s' (List.mem_cons_of_mem s hs')]
      exact byte_setWord_outside m s.2 (hx s List.mem_cons_self)

end ByteMemory
