import Mathlib.Data.List.Basic

/-! # Splitting at a separator

    A list is a sequence of complete lines, each ended by the separator, and
    a remainder without one.  Splitting can be done piece by piece: the
    remainder of the first part goes in front of the next (`split_append`). -/

namespace Lines

variable {α : Type*} [DecidableEq α] (sep : α)

/-- The complete lines, without their separators, and the remainder. -/
def split : List α → List (List α) × List α
  | [] => ([], [])
  | a :: s =>
    let q := split s
    if a = sep then ([] :: q.1, q.2)
    else match q.1 with
      | [] => ([], a :: q.2)
      | l :: ls => ((a :: l) :: ls, q.2)

variable {sep}

@[simp] theorem split_nil : split sep [] = ([], []) := rfl

@[simp] theorem split_sep (s : List α) : split sep (sep :: s) = ([] :: (split sep s).1, (split sep s).2) := by
  simp [split]

/-- Without a separator there is no complete line. -/
theorem split_of_not_mem {s : List α} (h : sep ∉ s) : split sep s = ([], s) := by
  induction s with
  | nil => rfl
  | cons a s ih =>
    have hne : a ≠ sep := fun heq => h (by simp [heq])
    have hs : sep ∉ s := fun hmem => h (List.mem_cons_of_mem a hmem)
    simp [split, hne, ih hs]

/-- The first line comes off the front. -/
theorem split_line {l : List α} (h : sep ∉ l) (s : List α) :
    split sep (l ++ sep :: s) = (l :: (split sep s).1, (split sep s).2) := by
  induction l with
  | nil => simp
  | cons a l ih =>
    have hne : a ≠ sep := fun heq => h (by simp [heq])
    have hl : sep ∉ l := fun hmem => h (List.mem_cons_of_mem a hmem)
    simp [split, hne, ih hl]

/-- A list either has no separator or starts with a complete line. -/
theorem line_cases (sep : α) (s : List α) : sep ∉ s ∨ ∃ l t, s = l ++ sep :: t ∧ sep ∉ l := by
  by_cases h : sep ∈ s
  · right
    obtain ⟨l, t, hs, hl⟩ := List.eq_append_cons_of_mem h
    exact ⟨l, t, hs, hl⟩
  · left
    exact h

theorem not_mem_remainder (s : List α) : sep ∉ (split sep s).2 := by
  induction s with
  | nil => simp
  | cons a s ih =>
    unfold split
    by_cases ha : a = sep
    · simpa [ha] using ih
    · cases hq : (split sep s).1 with
      | nil => simpa [ha, hq, Ne.symm ha] using ih
      | cons l ls => simpa [ha, hq] using ih

/-- Nothing is lost. -/
theorem flatten_split (s : List α) :
    ((split sep s).1.map (· ++ [sep])).flatten ++ (split sep s).2 = s := by
  induction s with
  | nil => rfl
  | cons a s ih =>
    unfold split
    by_cases ha : a = sep
    · simpa [ha] using ih
    · cases hq : (split sep s).1 with
      | nil =>
        rw [hq] at ih
        simpa [ha, hq] using ih
      | cons l ls =>
        rw [hq] at ih
        simpa [ha, hq] using ih

/-- What comes after a remainder continues it. -/
theorem split_append (s t : List α) :
    split sep (s ++ t) = ((split sep s).1 ++ (split sep ((split sep s).2 ++ t)).1,
      (split sep ((split sep s).2 ++ t)).2) := by
  -- by induction on the number of lines of `s`
  induction hn : s.length using Nat.strongRecOn generalizing s with
  | ind n ih =>
    rcases line_cases sep s with hno | ⟨l, u, rfl, hl⟩
    · simp [split_of_not_mem hno]
    · have hlt : u.length < n := by
        rw [← hn]
        simp
        omega
      have hu := ih u.length hlt u rfl
      rw [List.append_assoc, List.cons_append, split_line hl, split_line hl, hu]
      simp

/-- A complete line of the first part is a line of the whole. -/
theorem mem_split_append {s t l : List α} (h : l ∈ (split sep s).1) : l ∈ (split sep (s ++ t)).1 := by
  rw [split_append]
  exact List.mem_append_left _ h

end Lines
