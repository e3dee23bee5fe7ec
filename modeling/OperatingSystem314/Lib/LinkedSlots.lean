import Mathlib.Data.List.Nodup
import Mathlib.Logic.Function.Basic

/-! # Singly linked lists threaded through slots

    A list is stored in a set of slots `ι`; each slot has a `next` link
    and a separate variable holds the first slot.  Nothing here says what
    the slots contain.

    * `Linked next h l`: following `next` from `h` visits exactly `l`.
    * `tailFrom`: the loop `while (t->next != 0) t = t->next`.

    The three edits a queue makes (link a node in behind the tail, unlink
    the head, touch the link of a node outside the list) each have one
    lemma about `Linked`. -/

namespace LinkedSlots

variable {ι : Type} {next next' : ι → Option ι} {h : Option ι} {l : List ι} {i j t : ι}

/-- Following `next` from `h` visits exactly the nodes of `l`, in order,
    and then ends. -/
def Linked (next : ι → Option ι) : Option ι → List ι → Prop
  | h, [] => h = none
  | h, i :: l => h = some i ∧ Linked next (next i) l

@[simp] theorem linked_nil : Linked next h [] ↔ h = none := Iff.rfl

@[simp] theorem linked_cons : Linked next h (i :: l) ↔ h = some i ∧ Linked next (next i) l :=
  Iff.rfl

theorem Linked.eq_nil (hl : Linked next none l) : l = [] := by
  cases l with
  | nil => rfl
  | cons i l => cases hl.1

theorem Linked.eq_cons (hl : Linked next (some i) l) :
    ∃ r, l = i :: r ∧ Linked next (next i) r := by
  cases l with
  | nil => cases hl
  | cons j r =>
    obtain ⟨hj, hr⟩ := hl
    cases hj
    exact ⟨r, rfl, hr⟩

/-- The list is determined by its first slot. -/
theorem Linked.unique : ∀ {h : Option ι} {l l' : List ι},
    Linked next h l → Linked next h l' → l = l'
  | none, _, _, hl, hl' => by rw [hl.eq_nil, hl'.eq_nil]
  | some i, l, l', hl, hl' => by
    obtain ⟨r, rfl, hr⟩ := hl.eq_cons
    obtain ⟨r', rfl, hr'⟩ := hl'.eq_cons
    rw [Linked.unique hr hr']

/-- From any node of the list on, the rest of the list is linked. -/
theorem Linked.suffix {a b : List ι} :
    ∀ {h : Option ι}, Linked next h (a ++ i :: b) → Linked next (some i) (i :: b) := by
  induction a with
  | nil => intro h hl; exact ⟨rfl, hl.2⟩
  | cons x a ih => intro h hl; exact ih hl.2

/-- A list that ends visits no slot twice: the rest of the list from a
    slot on depends on that slot only. -/
theorem Linked.nodup (hl : Linked next h l) : l.Nodup := by
  induction l generalizing h with
  | nil => exact List.nodup_nil
  | cons i l ih =>
    refine List.nodup_cons.mpr ⟨fun hi => ?_, ih hl.2⟩
    obtain ⟨a, b, rfl⟩ := List.append_of_mem hi
    have hwhole : Linked next (some i) (i :: (a ++ i :: b)) := ⟨rfl, hl.2⟩
    have hrest : Linked next (some i) (i :: b) := hl.2.suffix
    have hlen := congrArg List.length (hwhole.unique hrest)
    simp at hlen
    omega

/-- Only the links of the listed nodes matter. -/
theorem Linked.congr (hl : Linked next h l) (heq : ∀ i ∈ l, next' i = next i) :
    Linked next' h l := by
  induction l generalizing h with
  | nil => exact hl
  | cons i l ih =>
    refine ⟨hl.1, ?_⟩
    rw [heq i (by simp)]
    exact ih hl.2 fun j hj => heq j (by simp [hj])

/-- Linking `i` in behind the last node `t`. -/
theorem Linked.append_tail (hl : Linked next h (l ++ [t])) (hi : i ∉ l ++ [t])
    (ht : next' t = some i) (hi' : next' i = none)
    (heq : ∀ j ∈ l, next' j = next j) : Linked next' h (l ++ [t, i]) := by
  induction l generalizing h with
  | nil => exact ⟨hl.1, ht, hi'⟩
  | cons x l ih =>
    refine ⟨hl.1, ?_⟩
    rw [heq x (by simp)]
    exact ih hl.2 (fun hmem => hi (by simp_all)) fun j hj => heq j (by simp [hj])

/-! ### Walking to the tail -/

/-- `while (t->next != 0) t = t->next;` started at `t`, given up after
    `fuel` rounds (a walk that goes on for longer than there are slots is
    on a cycle). -/
def tailFrom (next : ι → Option ι) : Nat → ι → Option ι
  | 0, _ => none
  | fuel + 1, t =>
    match next t with
    | none => some t
    | some t' => tailFrom next fuel t'

/-- On a linked list the walk stops at the last node. -/
theorem Linked.tailFrom_eq {fuel : Nat} (hl : Linked next (some i) (l ++ [t]))
    (hfuel : l.length < fuel) : tailFrom next fuel i = some t := by
  induction fuel generalizing i l with
  | zero => omega
  | succ fuel ih =>
    cases l with
    | nil =>
      obtain ⟨hi, hnext⟩ := hl
      cases hi
      simp only [linked_nil] at hnext
      simp [tailFrom, hnext]
    | cons x l =>
      obtain ⟨hi, hrest⟩ := hl
      cases hi
      simp only [tailFrom]
      cases hn : next i with
      | none =>
        rw [hn] at hrest
        exact absurd hrest.eq_nil (by simp)
      | some j =>
        rw [hn] at hrest
        exact ih hrest (by simpa using hfuel)

/-- What the walk finds is a node without a successor. -/
theorem next_of_tailFrom {fuel : Nat} (hw : tailFrom next fuel i = some t) : next t = none := by
  induction fuel generalizing i with
  | zero => cases hw
  | succ fuel ih =>
    simp only [tailFrom] at hw
    split at hw
    · cases hw; assumption
    · exact ih hw

/-- A set of slots closed under `next` keeps the walk inside. -/
theorem mem_of_tailFrom {fuel : Nat} (S : ι → Prop) (hclosed : ∀ i j, S i → next i = some j → S j)
    (hi : S i) (hw : tailFrom next fuel i = some t) : S t := by
  induction fuel generalizing i with
  | zero => cases hw
  | succ fuel ih =>
    simp only [tailFrom] at hw
    split at hw
    · cases hw; exact hi
    · next j hj => exact ih (hclosed i j hi hj) hw

end LinkedSlots
