import Mathlib.Data.BitVec

/-! # Queues in a circular buffer

    A buffer of `size` places and counters of machine words that only grow,
    and wrap around.  The place of a counter is its remainder by `size`;
    `size` divides the number of words, so that the places go on where the
    counters wrap.

    * `contents`: the queue between two counters.
    * `contents_push`, `contents_pop`, `contents_unpush`: what the end and
      the start of the queue see of a step of a counter. -/

namespace CircularQueue

open Function (update update_self update_of_ne)

variable {α : Type*} {k : Nat}

/-- The number of places from `r` to `e`. -/
def used (r e : BitVec k) : Nat := (e - r).toNat

/-- The place of a counter. -/
def place (size : Nat) (c : BitVec k) : Nat := c.toNat % size

/-- What is in the buffer from `r` up to `e`. -/
def contents (data : Nat → α) (size : Nat) (r e : BitVec k) : List α :=
  (List.range (used r e)).map fun i => data (place size (r + BitVec.ofNat k i))

variable {data : Nat → α} {size : Nat} {r w e : BitVec k} {x : α}

@[simp] theorem used_self : used r r = 0 := by
  simp [used]

theorem used_lt : used r e < 2 ^ k := (e - r).isLt

/-- The queue holds `n` things just if its end is `n` after its start. -/
theorem eq_add_iff {n : Nat} (hn : n < 2 ^ k) : e = r + BitVec.ofNat k n ↔ used r e = n := by
  unfold used
  constructor
  · intro h
    rw [h, BitVec.add_comm, BitVec.add_sub_cancel, BitVec.toNat_ofNat, Nat.mod_eq_of_lt hn]
  · intro h
    rw [← h, BitVec.ofNat_toNat, BitVec.setWidth_eq, BitVec.add_comm, BitVec.sub_add_cancel]

theorem used_eq_zero : used r e = 0 ↔ r = e := by
  rw [← eq_add_iff (Nat.two_pow_pos k), BitVec.add_zero]
  exact eq_comm

theorem end_eq : r + BitVec.ofNat k (used r e) = e := ((eq_add_iff used_lt).mpr rfl).symm

theorem used_push (h : used r e + 1 < 2 ^ k) : used r (e + 1) = used r e + 1 := by
  apply (eq_add_iff h).mp
  rw [BitVec.ofNat_add, ← BitVec.add_assoc, end_eq]
  rfl

theorem used_unpush (h : r ≠ e) : used r (e - 1) + 1 = used r e := by
  have hpos : used r e ≠ 0 := fun hzero => h (used_eq_zero.mp hzero)
  have hlt : used r e < 2 ^ k := used_lt
  obtain ⟨n, hn⟩ := Nat.exists_eq_succ_of_ne_zero hpos
  have hpred : used r (e - 1) = n := by
    apply (eq_add_iff (by omega)).mp
    rw [← end_eq (r := r) (e := e), hn, Nat.succ_eq_add_one, BitVec.ofNat_add, ← BitVec.add_assoc]
    exact BitVec.add_sub_cancel _ _
  omega

theorem used_pop (h : r ≠ e) : used (r + 1) e + 1 = used r e := by
  have hpos : used r e ≠ 0 := fun hzero => h (used_eq_zero.mp hzero)
  have hlt : used r e < 2 ^ k := used_lt
  obtain ⟨n, hn⟩ := Nat.exists_eq_succ_of_ne_zero hpos
  have hnext : used (r + 1) e = n := by
    apply (eq_add_iff (by omega)).mp
    rw [← end_eq (r := r) (e := e), hn, Nat.succ_eq_add_one, Nat.add_comm n 1, BitVec.ofNat_add, ← BitVec.add_assoc]
    rfl
  omega

@[simp] theorem length_contents : (contents data size r e).length = used r e := by
  simp [contents]

@[simp] theorem contents_self : contents data size r r = [] := by
  simp [contents]

theorem getElem?_contents {i : Nat} (hi : i < used r e) :
    (contents data size r e)[i]? = some (data (place size (r + BitVec.ofNat k i))) := by
  simp [contents, hi]

/-- Places go on where the counters wrap. -/
theorem place_add (hsize : size ∣ 2 ^ k) (r : BitVec k) (n : Nat) :
    place size (r + BitVec.ofNat k n) = (r.toNat + n) % size := by
  unfold place
  rw [BitVec.toNat_add, BitVec.toNat_ofNat, Nat.add_mod_mod, Nat.mod_mod_of_dvd _ hsize]

/-- In a queue that is not full the next place is none of its places. -/
theorem place_ne (hsize : size ∣ 2 ^ k) (h : used r e < size) {i : Nat} (hi : i < used r e) :
    place size (r + BitVec.ofNat k i) ≠ place size e := by
  rw [← end_eq (r := r) (e := e), place_add hsize, place_add hsize]
  intro heq
  obtain ⟨d, hd⟩ : ∃ d, used r e = i + d := ⟨used r e - i, by omega⟩
  have hmod : (r.toNat + i + 0) % size = (r.toNat + i + d) % size := by
    rw [Nat.add_zero, heq, hd, Nat.add_assoc]
  have hzero : 0 % size = d % size := Nat.ModEq.add_left_cancel' (r.toNat + i) hmod
  rw [Nat.zero_mod, Nat.mod_eq_of_lt (by omega)] at hzero
  omega

theorem contents_push (hsize : size ∣ 2 ^ k) (h : used r e < size) (hone : used r e + 1 < 2 ^ k) :
    contents (update data (place size e) x) size r (e + 1) = contents data size r e ++ [x] := by
  unfold contents
  rw [used_push hone, List.range_succ, List.map_append, List.map_singleton, end_eq, update_self]
  congr 1
  apply List.map_congr_left
  intro i hi
  rw [update_of_ne (place_ne hsize h (List.mem_range.mp hi))]

theorem contents_pop (h : r ≠ e) : contents data size r e = data (place size r) :: contents data size (r + 1) e := by
  unfold contents
  rw [← used_pop h, List.range_succ_eq_map, List.map_cons, List.map_map, BitVec.add_zero]
  congr 1
  apply List.map_congr_left
  intro i _
  have hassoc : r + BitVec.ofNat k (i + 1) = r + 1 + BitVec.ofNat k i := by
    rw [Nat.add_comm i 1, BitVec.ofNat_add, ← BitVec.add_assoc]
    rfl
  simp only [Function.comp, Nat.succ_eq_add_one, hassoc]

/-- The last thing is taken back. -/
theorem contents_unpush (h : r ≠ e) :
    contents data size r e = contents data size r (e - 1) ++ [data (place size (e - 1))] := by
  unfold contents
  rw [← used_unpush h, List.range_succ, List.map_append, List.map_singleton, end_eq]

/-- Two queues of which the second starts where the first ends. -/
theorem contents_append (h : used r w + used w e < 2 ^ k) :
    used r e = used r w + used w e ∧ contents data size r e = contents data size r w ++ contents data size w e := by
  have hused : used r e = used r w + used w e := by
    apply (eq_add_iff h).mp
    rw [BitVec.ofNat_add, ← BitVec.add_assoc, end_eq, end_eq]
  refine ⟨hused, ?_⟩
  unfold contents
  rw [hused, List.range_add, List.map_append, List.map_map]
  congr 1
  apply List.map_congr_left
  intro i _
  simp only [Function.comp, BitVec.ofNat_add, ← BitVec.add_assoc, end_eq]

end CircularQueue
