import Mathlib.Data.List.Basic
import Mathlib.Data.List.Nodup
import Mathlib.Data.List.Perm.Basic

/-! # A FIFO store that spills into a bounded one

    A store keeps at most `c` items in a first place, in the order in which
    they came.  Where there is no room for one more, the oldest of them
    moves to a second place, which holds `d` items, and is lost when that
    is full, too.

    * `push c d`: one more item.
    * `pushAll_eq`: after any number of items, which of them are where. -/

namespace Spill

variable {α : Type}

structure Store (α : Type) where
  resident : List α
  spilled : List α
  lost : List α

namespace Store

/-- The oldest item leaves the first place. -/
def evict (d : Nat) (st : Store α) : Store α :=
  match st.resident with
  | [] => st
  | a :: q =>
    if st.spilled.length < d then ⟨q, st.spilled ++ [a], st.lost⟩ else ⟨q, st.spilled, st.lost ++ [a]⟩

def makeRoom (c d : Nat) (st : Store α) : Store α := if c ≤ st.resident.length then st.evict d else st

/-- A new item enters the first place. -/
def enter (st : Store α) (a : α) : Store α := { st with resident := st.resident ++ [a] }

def push (c d : Nat) (st : Store α) (a : α) : Store α := (st.makeRoom c d).enter a

def pushAll (c d : Nat) (st : Store α) (l : List α) : Store α := l.foldl (push c d) st

/-- Every item that ever came. -/
def items (st : Store α) : List α := st.resident ++ st.spilled ++ st.lost

/-- Both places hold no more than they can, and items are lost only once
    they are full. -/
structure Ok (c d : Nat) (st : Store α) : Prop where
  resident_le : st.resident.length ≤ c
  spilled_le : st.spilled.length ≤ d
  full : st.lost ≠ [] → st.resident.length = c ∧ st.spilled.length = d

/-- How many items have left the first place after `n` more. -/
def evicted (c : Nat) (st : Store α) (n : Nat) : Nat := st.resident.length + n - c

variable {c d : Nat} {st : Store α} {a : α} {l : List α}

theorem evict_cons {q : List α} (h : st.resident = a :: q) : st.evict d =
    if st.spilled.length < d then ⟨q, st.spilled ++ [a], st.lost⟩ else ⟨q, st.spilled, st.lost ++ [a]⟩ := by
  unfold evict
  rw [h]

/-- Items only change places. -/
theorem items_enter (st : Store α) (a : α) : (st.enter a).items.Perm (a :: st.items) := by
  unfold items enter
  simp only [List.append_assoc, List.singleton_append]
  exact List.perm_middle

theorem items_evict (d : Nat) (st : Store α) : (st.evict d).items.Perm st.items := by
  classical
  unfold evict items
  split
  · exact .refl _
  next b q hq =>
    rw [hq]
    split
    · apply List.perm_iff_count.mpr
      intro x
      simp only [List.count_append, List.count_cons, List.count_nil]
      omega
    · apply List.perm_iff_count.mpr
      intro x
      simp only [List.count_append, List.count_cons, List.count_nil]
      omega

theorem items_makeRoom (c d : Nat) (st : Store α) : (st.makeRoom c d).items.Perm st.items := by
  unfold makeRoom
  split
  · exact items_evict d st
  · exact .refl _

theorem items_push (c d : Nat) (st : Store α) (a : α) : (st.push c d a).items.Perm (a :: st.items) :=
  (items_enter _ a).trans ((items_makeRoom c d st).cons a)

@[simp] theorem pushAll_nil : st.pushAll c d [] = st := rfl
@[simp] theorem pushAll_cons : st.pushAll c d (a :: l) = (st.push c d a).pushAll c d l := rfl

theorem pushAll_append (l' : List α) : st.pushAll c d (l ++ l') = (st.pushAll c d l).pushAll c d l' :=
  List.foldl_append

theorem items_pushAll : (st.pushAll c d l).items.Perm (l ++ st.items) := by
  induction l generalizing st with
  | nil => exact .refl _
  | cons a l ih =>
    rw [pushAll_cons]
    refine ih.trans (((items_push c d st a).append_left l).trans ?_)
    rw [List.cons_append]
    exact List.perm_middle

/-- A store with no room for one more loses its oldest item. -/
theorem Ok.evict (h : st.Ok c d) (hfull : st.resident.length = c) (hc : 0 < c) :
    (st.evict d).resident.length + 1 = c ∧ (st.evict d).spilled.length ≤ d ∧
      ((st.evict d).lost ≠ [] → (st.evict d).spilled.length = d) := by
  obtain ⟨a, q, hq⟩ := List.exists_cons_of_length_pos (by omega : 0 < st.resident.length)
  rw [evict_cons hq]
  rw [hq, List.length_cons] at hfull
  split
  next hlt =>
    refine ⟨hfull, by simpa using Nat.succ_le_of_lt hlt, ?_⟩
    intro hlost
    have := (h.full hlost).2
    omega
  next hge =>
    have hle := h.spilled_le
    exact ⟨hfull, hle, fun _ => by simp only; omega⟩

theorem Ok.push (h : st.Ok c d) (hc : 0 < c) (a : α) : (st.push c d a).Ok c d := by
  have hle := h.resident_le
  unfold Store.push makeRoom
  split
  next hfull =>
    obtain ⟨hlen, hspilled, hlost⟩ := h.evict (by omega) hc
    refine ⟨?_, hspilled, ?_⟩
    · simp only [enter, List.length_append, List.length_singleton]
      omega
    · intro hne
      refine ⟨?_, hlost hne⟩
      simp only [enter, List.length_append, List.length_singleton]
      omega
  next hroom =>
    refine ⟨?_, h.spilled_le, ?_⟩
    · simp only [enter, List.length_append, List.length_singleton]
      omega
    · intro hne
      have := (h.full hne).1
      omega

theorem Ok.pushAll (h : st.Ok c d) (hc : 0 < c) : (st.pushAll c d l).Ok c d := by
  induction l generalizing st with
  | nil => exact h
  | cons a l ih => exact ih (h.push hc a)

theorem Ok.resident_push (h : st.Ok c d) (hc : 0 < c) (a : α) :
    (st.push c d a).resident.length = min (st.resident.length + 1) c := by
  have hle := h.resident_le
  unfold Store.push makeRoom
  split
  next hfull =>
    obtain ⟨hlen, -, -⟩ := h.evict (by omega) hc
    simp only [enter, List.length_append, List.length_singleton]
    omega
  next hroom =>
    simp only [enter, List.length_append, List.length_singleton]
    omega

theorem Ok.resident_pushAll (h : st.Ok c d) (hc : 0 < c) :
    (st.pushAll c d l).resident.length = min (st.resident.length + l.length) c := by
  induction l generalizing st with
  | nil =>
    have := h.resident_le
    simp only [pushAll_nil, List.length_nil]
    omega
  | cons a l ih =>
    rw [pushAll_cons, ih (h.push hc a), h.resident_push hc a, List.length_cons]
    omega

/-- Where the items are after `l` came: they leave the first place in the
    order in which they entered it, and fill up the second one. -/
theorem Ok.pushAll_eq (h : st.Ok c d) (hc : 0 < c) :
    st.pushAll c d l =
      { resident := (st.resident ++ l).drop (st.evicted c l.length)
        spilled := st.spilled ++
          ((st.resident ++ l).take (st.evicted c l.length)).take (d - st.spilled.length)
        lost := st.lost ++
          ((st.resident ++ l).take (st.evicted c l.length)).drop (d - st.spilled.length) } := by
  induction l generalizing st with
  | nil =>
    have hle := h.resident_le
    have hzero : st.evicted c ([] : List α).length = 0 := by
      unfold evicted
      simp only [List.length_nil]
      omega
    rw [hzero]
    simp
  | cons a l ih =>
    rw [pushAll_cons, ih (h.push hc a)]
    have hle := h.resident_le
    have hsle := h.spilled_le
    by_cases hfull : st.resident.length = c
    · obtain ⟨b, q, hq⟩ := List.exists_cons_of_length_pos (by omega : 0 < st.resident.length)
      have hlen : q.length + 1 = c := by
        rw [hq] at hfull
        exact hfull
      have hpush : st.push c d a = (st.evict d).enter a := by
        unfold Store.push makeRoom
        rw [if_pos (by omega)]
      have hevicted : st.evicted c (a :: l).length = l.length + 1 := by
        unfold evicted
        simp only [List.length_cons]
        omega
      rw [hpush, hevicted, hq, evict_cons hq]
      split
      next hlt =>
        have hevicted' : ((⟨q, st.spilled ++ [b], st.lost⟩ : Store α).enter a).evicted c l.length = l.length := by
          simp only [evicted, enter, List.length_append, List.length_singleton]
          omega
        obtain ⟨m, hm⟩ := Nat.exists_eq_add_of_lt hlt
        have hroom : d - st.spilled.length = m + 1 := by omega
        have hroom' : d - (st.spilled ++ [b]).length = m := by
          simp only [List.length_append, List.length_singleton]
          omega
        rw [hevicted']
        simp only [enter, hroom, hroom', List.append_assoc, List.nil_append, List.cons_append,
          List.drop_succ_cons, List.take_succ_cons]
      next hge =>
        have hevicted' : ((⟨q, st.spilled, st.lost ++ [b]⟩ : Store α).enter a).evicted c l.length = l.length := by
          simp only [evicted, enter, List.length_append, List.length_singleton]
          omega
        have hroom : d - st.spilled.length = 0 := by omega
        rw [hevicted']
        simp only [enter, hroom, List.append_assoc, List.nil_append, List.cons_append,
          List.drop_succ_cons, List.take_succ_cons, List.take_zero, List.drop_zero, List.append_nil]
    · have hpush : st.push c d a = st.enter a := by
        unfold Store.push makeRoom
        rw [if_neg (by omega)]
      have hevicted : (st.enter a).evicted c l.length = st.evicted c (a :: l).length := by
        simp only [evicted, enter, List.length_append, List.length_cons, List.length_nil]
        omega
      rw [hpush, hevicted]
      simp only [enter, List.append_assoc, List.singleton_append]

/-! ### What is lost -/

/-- What is lost stays lost. -/
theorem mem_lost_push (ha : a ∈ st.lost) (b : α) : a ∈ (st.push c d b).lost := by
  unfold push makeRoom evict enter
  split
  · split
    · exact ha
    · split
      · exact ha
      · exact List.mem_append_left _ ha
  · exact ha

theorem mem_lost_pushAll (ha : a ∈ st.lost) : a ∈ (st.pushAll c d l).lost := by
  induction l generalizing st with
  | nil => exact ha
  | cons b l ih => exact ih (mem_lost_push ha b)

theorem Ok.lost_pushAll (h : st.Ok c d) (hc : 0 < c) : (st.pushAll c d l).lost =
    st.lost ++ ((st.resident ++ l).take (st.evicted c l.length)).drop (d - st.spilled.length) := by
  rw [h.pushAll_eq hc]

/-- Nothing, as long as both places hold everything. -/
theorem Ok.lost_eq_nil (h : st.Ok c d) (hc : 0 < c) (hnone : st.lost = [])
    (hroom : st.resident.length + st.spilled.length + l.length ≤ c + d) : (st.pushAll c d l).lost = [] := by
  have hle := h.resident_le
  have hsle := h.spilled_le
  rw [h.lost_pushAll hc, hnone, List.nil_append]
  apply List.drop_eq_nil_of_le
  simp only [List.length_take, evicted]
  omega

/-- None of the old items, as long as the second place can hold them all. -/
theorem Ok.lost_new (h : st.Ok c d) (hc : 0 < c) (hroom : st.resident.length + st.spilled.length ≤ d)
    (ha : a ∈ (st.pushAll c d l).lost) : a ∈ st.lost ∨ a ∈ l := by
  rw [h.lost_pushAll hc] at ha
  rcases List.mem_append.mp ha with hold | hnew
  · exact .inl hold
  · right
    -- the old items are in front of those that are dropped
    rw [List.drop_take] at hnew
    have hdrop := List.mem_of_mem_take hnew
    rw [List.drop_append, List.drop_eq_nil_of_le (by omega), List.nil_append] at hdrop
    exact List.mem_of_mem_drop hdrop

/-- An old item, when the second place can not hold them all and the two
    together not the new ones, too. -/
theorem Ok.exists_lost (h : st.Ok c d) (hc : 0 < c) (hold : d < st.resident.length + st.spilled.length)
    (hnew : c + d < st.resident.length + st.spilled.length + l.length) :
    ∃ a ∈ st.resident, a ∈ (st.pushAll c d l).lost := by
  have hle := h.resident_le
  have hsle := h.spilled_le
  have hlt : d - st.spilled.length < st.resident.length := by omega
  refine ⟨st.resident[d - st.spilled.length], List.getElem_mem hlt, ?_⟩
  rw [h.lost_pushAll hc]
  apply List.mem_append_right
  have hlt' : d - st.spilled.length < ((st.resident ++ l).take (st.evicted c l.length)).length := by
    simp only [List.length_take, List.length_append, evicted]
    omega
  have hget : ((st.resident ++ l).take (st.evicted c l.length))[d - st.spilled.length] =
      st.resident[d - st.spilled.length] := by
    rw [List.getElem_take, List.getElem_append_left hlt]
  rw [← hget, List.drop_eq_getElem_cons hlt']
  exact List.mem_cons_self

end Store

end Spill
