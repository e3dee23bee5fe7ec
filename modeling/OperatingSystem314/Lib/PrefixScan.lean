import Mathlib.Algebra.BigOperators.Group.List.Basic
import Mathlib.Algebra.GroupWithZero.Nat
import Mathlib.Order.Interval.Finset.Nat

/-! # Scanning a list for a running sum

    A list of weighted items is scanned from its front; the scan stops at
    the first item at which the running sum of the weights reaches a given
    number.

    * `scan_append_cons`: which numbers make the scan stop at an item.
    * `card_scan`: how many numbers up to the sum of all weights do so.
    * `scan_isSome`: the scan of a list stops when the number is reached
      at all. -/

namespace PrefixScan

variable {α : Type} (w : α → Nat)

/-- The first item at which `acc` plus the weights so far reaches `k`. -/
def scan : List α → (acc k : Nat) → Option α
  | [], _, _ => none
  | a :: l, acc, k => if acc + w a < k then scan l (acc + w a) k else some a

def total (l : List α) : Nat := (l.map w).sum

variable {w} {a : α} {l pre post : List α} {acc k : Nat}

@[simp] theorem total_nil : total w [] = 0 := rfl

@[simp] theorem total_cons : total w (a :: l) = w a + total w l := by
  simp [total]

theorem total_append : total w (pre ++ l) = total w pre + total w l := by
  simp [total]

theorem mem_of_scan (h : scan w l acc k = some a) : a ∈ l := by
  induction l generalizing acc with
  | nil => cases h
  | cons b l ih =>
    unfold scan at h
    split at h
    · exact List.mem_cons_of_mem b (ih h)
    · cases h
      exact List.mem_cons_self

/-- The items before the point where the sum reaches `k` are passed over. -/
theorem scan_append (h : acc + total w pre < k) :
    scan w (pre ++ l) acc k = scan w l (acc + total w pre) k := by
  induction pre generalizing acc with
  | nil => simp
  | cons b pre ih =>
    rw [total_cons] at h
    rw [List.cons_append, scan, if_pos (by omega), ih (by omega), total_cons, Nat.add_assoc]

/-- Where the running sum has already reached `k`, the scan stops before. -/
theorem scan_append_ne (hpre : pre ≠ []) (h : k ≤ acc + total w pre) (ha : a ∉ pre) :
    scan w (pre ++ l) acc k ≠ some a := by
  induction pre generalizing acc with
  | nil => exact absurd rfl hpre
  | cons b pre ih =>
    rw [List.mem_cons, not_or] at ha
    rw [total_cons] at h
    rw [List.cons_append, scan]
    split
    · next hlt =>
      have hne : pre ≠ [] := by
        intro hnil
        rw [hnil, total_nil] at h
        omega
      exact ih hne (by omega) ha.2
    · intro hb
      exact ha.1 (Option.some.inj hb).symm

/-- The scan stops at an item that occurs once for the numbers above the
    sum before it, up to the sum with it; for the first item, also for the
    numbers that were reached from the start. -/
theorem scan_append_cons (hnodup : (pre ++ a :: post).Nodup) :
    scan w (pre ++ a :: post) 0 k = some a ↔
      (pre = [] ∨ total w pre < k) ∧ k ≤ total w pre + w a := by
  have ha : a ∉ pre := by
    intro hmem
    have := List.nodup_append.mp hnodup
    exact this.2.2 a hmem a List.mem_cons_self rfl
  have hpost : a ∉ post := by
    have := (List.nodup_append.mp hnodup).2.1
    exact (List.nodup_cons.mp this).1
  constructor
  · intro h
    by_cases hpre : total w pre < k
    · rw [scan_append (by omega), scan] at h
      split at h
      · exact absurd (mem_of_scan h) hpost
      · exact ⟨.inr hpre, by omega⟩
    · cases pre with
      | nil => exact ⟨.inl rfl, by simp at hpre; omega⟩
      | cons b pre => exact absurd h (scan_append_ne (by simp) (by omega) ha)
  · intro h
    obtain ⟨hpre | hpre, hk⟩ := h
    · subst hpre
      rw [List.nil_append, scan, if_neg (by rw [total_nil] at hk; omega)]
    · rw [scan_append (by omega), scan, if_neg (by omega)]

/-- Of the numbers from zero to the sum of all weights, as many stop the
    scan at an item as its weight says, and one more for the first item. -/
theorem card_scan [DecidableEq α] (hnodup : (pre ++ a :: post).Nodup) {T : Nat}
    (hT : T = total w (pre ++ a :: post)) :
    ((Finset.range (T + 1)).filter fun k => scan w (pre ++ a :: post) 0 k = some a).card =
      w a + if pre = [] then 1 else 0 := by
  rw [total_append, total_cons] at hT
  simp only [scan_append_cons hnodup]
  split
  · next hpre =>
    subst hpre
    rw [total_nil] at *
    have : ((Finset.range (T + 1)).filter fun k => (([] : List α) = [] ∨ 0 < k) ∧ k ≤ 0 + w a) =
        Finset.range (w a + 1) := by
      ext k
      simp only [Finset.mem_filter, Finset.mem_range, true_or, true_and]
      omega
    rw [this, Finset.card_range]
  · next hpre =>
    have : ((Finset.range (T + 1)).filter fun k =>
        (pre = [] ∨ total w pre < k) ∧ k ≤ total w pre + w a) =
        Finset.Ioc (total w pre) (total w pre + w a) := by
      ext k
      simp only [Finset.mem_filter, Finset.mem_range, Finset.mem_Ioc, hpre, false_or]
      omega
    rw [this, Nat.card_Ioc]
    omega

/-- A scan that can reach `k` stops. -/
theorem scan_isSome (hne : l ≠ []) (h : k ≤ acc + total w l) : (scan w l acc k).isSome := by
  induction l generalizing acc with
  | nil => exact absurd rfl hne
  | cons b l ih =>
    rw [total_cons] at h
    unfold scan
    split
    · next hlt =>
      have hl : l ≠ [] := by
        intro hnil
        rw [hnil, total_nil] at h
        omega
      exact ih hl (by omega)
    · rfl

end PrefixScan
