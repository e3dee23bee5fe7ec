import Mathlib.Algebra.BigOperators.Group.Finset.Piecewise
import Mathlib.Order.Interval.Finset.Nat
import OperatingSystem314.Lib.Threads

/-! # Threads that take slots of an array

    An array of flags says which slots are taken, and each thread has at
    most one of them, which its program point names.

    * `Taken`: the flags that are set are those of the threads' slots, and no
      two threads have the same slot.
    * `keep`, `take`, `give`: the three things a step of a thread can do.
    * `Searching`: the same with the slots that threads have found, but not
      flagged yet.
    * `count_block_le`: where the slots lie in blocks, no block has more
      threads than slots. -/

namespace Threads

variable {ι α : Type} [Fintype ι] {slot : α → Option Nat} {arr : List Bool} {pc : ι → α}

/-- The flags `arr` are those of the slots that the threads have. -/
structure Taken (slot : α → Option Nat) (arr : List Bool) (pc : ι → α) : Prop where
  flagged : ∀ i k, slot (pc i) = some k → arr[k]? = some true
  alone : ∀ i j k, slot (pc i) = some k → slot (pc j) = some k → i = j
  number : arr.count true = count (fun a => (slot a).isSome) pc

theorem taken_init {a : α} (ha : slot a = none) (n : Nat) :
    Taken slot (List.replicate n false) (fun _ : ι => a) := by
  constructor
  · intro i k hk
    rw [ha] at hk
    cases hk
  · intro i j k hk
    rw [ha] at hk
    cases hk
  · rw [count_const a (by rw [ha]; rfl), List.count_replicate]
    rfl

namespace Taken

/-- Where fewer threads have a slot than there are slots, one is free. -/
theorem exists_free (h : Taken slot arr pc)
    (hlt : count (fun a => (slot a).isSome) pc < arr.length) : false ∈ arr := by
  by_contra hnone
  -- otherwise every flag is set
  have hall : ∀ b ∈ arr, b = true := by
    intro b hb
    cases b with
    | true => rfl
    | false => exact absurd hb hnone
  have hfull : arr.count true = arr.length := List.count_eq_length.mpr fun b hb => (hall b hb).symm
  have hnumber := h.number
  omega

/-- The threads in one block of `P` slots. -/
theorem count_block_le (h : Taken slot arr pc) {P : Nat} (hP : 0 < P) (b : Nat) :
    count (fun a => (slot a).any fun k => k / P = b) pc ≤ P := by
  classical
  set here := Finset.univ.filter fun i => ((slot (pc i)).any fun k => k / P = b) = true with hhere
  have hcard : count (fun a => (slot a).any fun k => k / P = b) pc = here.card := by
    rw [hhere, Finset.card_filter]
    unfold count
    apply Finset.sum_congr rfl
    intro i _
    show ((slot (pc i)).any fun k => k / P = b).toNat = _
    cases (slot (pc i)).any fun k => k / P = b with
    | true => rfl
    | false => rfl
  have hslot : ∀ i ∈ here, ∃ k, slot (pc i) = some k ∧ k / P = b := by
    intro i hi
    simpa [hhere, Option.any_eq_true] using hi
  -- the slots of the block are `b * P`, .., `b * P + P - 1`
  have hle : here.card ≤ (Finset.Ico (b * P) (b * P + P)).card := by
    apply Finset.card_le_card_of_injOn fun i => (slot (pc i)).getD 0
    · intro i hi
      obtain ⟨k, hk, rfl⟩ := hslot i hi
      simp only [hk, Option.getD_some, Finset.coe_Ico, Set.mem_Ico]
      have hdiv := Nat.div_add_mod k P
      have hmod := Nat.mod_lt k hP
      rw [Nat.mul_comm] at hdiv
      omega
    · intro i hi j hj hij
      obtain ⟨k, hk, -⟩ := hslot i hi
      obtain ⟨l, hl, -⟩ := hslot j hj
      simp only [hk, hl, Option.getD_some] at hij
      exact h.alone i j k hk (by rw [hl, hij])
  rw [hcard]
  simpa using hle

variable [DecidableEq ι] {i : ι} {b : α} {k : Nat}

/-- A step that changes no slot. -/
theorem keep (h : Taken slot arr pc) (hb : slot b = slot (pc i)) :
    Taken slot arr (Function.update pc i b) := by
  have hsame : ∀ j, slot (Function.update pc i b j) = slot (pc j) := by
    intro j
    by_cases hji : j = i
    · rw [hji, Function.update_self, hb]
    · rw [Function.update_of_ne hji]
  constructor
  · intro j l hl
    rw [hsame] at hl
    exact h.flagged j l hl
  · intro j j' l hl hl'
    rw [hsame] at hl hl'
    exact h.alone j j' l hl hl'
  · rw [h.number]
    have hnum := count_update (fun a => (slot a).isSome) pc i b
    simp only [hb] at hnum
    omega

/-- A step that takes a free slot. -/
theorem take (h : Taken slot arr pc) (hfree : arr[k]? = some false) (hi : slot (pc i) = none)
    (hb : slot b = some k) : Taken slot (arr.set k true) (Function.update pc i b) := by
  obtain ⟨hlt, hget⟩ := List.getElem?_eq_some_iff.mp hfree
  -- nobody had the slot before
  have hnobody : ∀ j, slot (pc j) ≠ some k := by
    intro j hj
    rw [h.flagged j k hj] at hfree
    cases hfree
  constructor
  · intro j l hl
    by_cases hji : j = i
    · rw [hji, Function.update_self, hb] at hl
      cases hl
      simp [hlt]
    · rw [Function.update_of_ne hji] at hl
      have hlk : k ≠ l := by
        intro hlk
        rw [hlk] at hnobody
        exact hnobody j hl
      rw [List.getElem?_set_ne hlk]
      exact h.flagged j l hl
  · intro j j' l hl hl'
    by_cases hji : j = i
    · by_cases hj'i : j' = i
      · rw [hji, hj'i]
      · rw [hji, Function.update_self, hb] at hl
        rw [Function.update_of_ne hj'i] at hl'
        cases hl
        exact absurd hl' (hnobody j')
    · rw [Function.update_of_ne hji] at hl
      by_cases hj'i : j' = i
      · rw [hj'i, Function.update_self, hb] at hl'
        cases hl'
        exact absurd hl (hnobody j)
      · rw [Function.update_of_ne hj'i] at hl'
        exact h.alone j j' l hl hl'
  · have hnum := count_update (fun a => (slot a).isSome) pc i b
    have hnumber := h.number
    rw [List.count_set hlt, hget]
    simp only [hi, hb, Option.isSome_none, Option.isSome_some, Bool.toNat_false, Bool.toNat_true] at hnum
    simp only [beq_self_eq_true, if_true]
    rw [if_neg (by decide)]
    omega

/-- A step that gives a slot back. -/
theorem give (h : Taken slot arr pc) (hi : slot (pc i) = some k) (hb : slot b = none) :
    Taken slot (arr.set k false) (Function.update pc i b) := by
  obtain ⟨hlt, hget⟩ := List.getElem?_eq_some_iff.mp (h.flagged i k hi)
  have hother : ∀ j l, slot (Function.update pc i b j) = some l → j ≠ i ∧ slot (pc j) = some l := by
    intro j l hl
    by_cases hji : j = i
    · rw [hji, Function.update_self, hb] at hl
      cases hl
    · rw [Function.update_of_ne hji] at hl
      exact ⟨hji, hl⟩
  constructor
  · intro j l hl
    obtain ⟨hji, hold⟩ := hother j l hl
    have hlk : k ≠ l := by
      intro hlk
      rw [← hlk] at hold
      exact hji (h.alone j i k hold hi)
    rw [List.getElem?_set_ne hlk]
    exact h.flagged j l hold
  · intro j j' l hl hl'
    exact h.alone j j' l (hother j l hl).2 (hother j' l hl').2
  · have hnum := count_update (fun a => (slot a).isSome) pc i b
    have hnumber := h.number
    have hpos : 0 < arr.count true := List.count_pos_iff.mpr (hget ▸ List.getElem_mem hlt)
    rw [List.count_set hlt, hget]
    simp only [hi, hb, Option.isSome_none, Option.isSome_some, Bool.toNat_false, Bool.toNat_true] at hnum
    simp only [beq_self_eq_true, if_true]
    rw [if_neg (by decide)]
    omega

end Taken

/-! ### Finding a slot first -/

section Searching

variable {find : α → Option Nat} {arr' : List Bool} {a b : α} {i : ι}

/-- What a step from `a` to `b` does to the slots: nothing, or it finds a
    free one, takes the one that was found, or gives the slot back. -/
inductive SlotStep (slot find : α → Option Nat) (arr : List Bool) (a b : α) (arr' : List Bool) : Prop
  | keep (harr : arr' = arr) (hslot : slot b = slot a) (hfind : find b = none)
  | find (k : Nat) (harr : arr' = arr) (hfree : arr[k]? = some false) (hslot : slot b = slot a)
      (hfind : find b = some k)
  | take (k : Nat) (hfound : find a = some k) (harr : arr' = arr.set k true) (ha : slot a = none)
      (hb : slot b = some k) (hfind : find b = none)
  | give (k : Nat) (ha : slot a = some k) (harr : arr' = arr.set k false) (hb : slot b = none)
      (hfind : find b = none)

/-- What a thread has found is free till it takes it. -/
structure Searching (slot find : α → Option Nat) (arr : List Bool) (pc : ι → α) : Prop where
  taken : Taken slot arr pc
  free : ∀ i k, find (pc i) = some k → arr[k]? = some false

variable [DecidableEq ι]

/-- The array may change as long as no other thread is about to take a slot. -/
theorem Searching.next (h : Searching slot find arr pc)
    (hstep : SlotStep slot find arr (pc i) b arr')
    (halone : arr' ≠ arr → ∀ j, j ≠ i → find (pc j) = none) :
    Searching slot find arr' (Function.update pc i b) := by
  -- the slots that the other threads have found stay free
  have hothers : (∀ k, find b = some k → arr'[k]? = some false) →
      ∀ j k, find (Function.update pc i b j) = some k → arr'[k]? = some false := by
    intro hb j k hj
    by_cases hji : j = i
    · rw [hji, Function.update_self] at hj
      exact hb k hj
    · rw [Function.update_of_ne hji] at hj
      by_cases harr : arr' = arr
      · rw [harr]
        exact h.free j k hj
      · rw [halone harr j hji] at hj
        cases hj
  cases hstep with
  | keep harr hslot hfind =>
    refine ⟨harr ▸ h.taken.keep hslot, hothers ?_⟩
    intro k hk
    rw [hfind] at hk
    cases hk
  | find k harr hfree hslot hfind =>
    refine ⟨harr ▸ h.taken.keep hslot, hothers ?_⟩
    intro l hl
    rw [hfind] at hl
    cases hl
    rw [harr]
    exact hfree
  | take k hfound harr ha hb hfind =>
    refine ⟨harr ▸ h.taken.take (h.free i k hfound) ha hb, hothers ?_⟩
    intro l hl
    rw [hfind] at hl
    cases hl
  | give k ha harr hb hfind =>
    refine ⟨harr ▸ h.taken.give ha hb, hothers ?_⟩
    intro l hl
    rw [hfind] at hl
    cases hl

theorem SlotStep.length_eq (hstep : SlotStep slot find arr a b arr') : arr'.length = arr.length := by
  cases hstep with
  | keep harr _ _ => rw [harr]
  | find _ harr _ _ _ => rw [harr]
  | take k _ harr _ _ _ => rw [harr, List.length_set]
  | give k _ harr _ _ => rw [harr, List.length_set]

omit [DecidableEq ι] in
/-- No slot is had, or found, twice; the threads that have found one are
    few enough to be told apart. -/
theorem Searching.alone (h : Searching slot find arr pc)
    (hone : ∀ i j k l, find (pc i) = some k → find (pc j) = some l → i = j) {i j : ι} {k : Nat}
    (hi : slot (pc i) = some k ∨ find (pc i) = some k) (hj : slot (pc j) = some k ∨ find (pc j) = some k) :
    i = j := by
  rcases hi with hi | hi
  · rcases hj with hj | hj
    · exact h.taken.alone i j k hi hj
    · have hflag := h.taken.flagged i k hi
      rw [h.free j k hj] at hflag
      cases hflag
  · rcases hj with hj | hj
    · have hflag := h.taken.flagged j k hj
      rw [h.free i k hi] at hflag
      cases hflag
    · exact hone i j k k hi hj

omit [DecidableEq ι] in
/-- Every slot that is had or found lies in the array. -/
theorem Searching.lt_length (h : Searching slot find arr pc) {i : ι} {k : Nat}
    (hi : slot (pc i) = some k ∨ find (pc i) = some k) : k < arr.length := by
  rcases hi with hi | hi
  · exact (List.getElem?_eq_some_iff.mp (h.taken.flagged i k hi)).1
  · exact (List.getElem?_eq_some_iff.mp (h.free i k hi)).1

end Searching

end Threads
