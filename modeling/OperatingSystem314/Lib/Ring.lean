import Mathlib.Data.List.Nodup
import Mathlib.Logic.Function.Basic

/-! # Doubly linked rings

    Nodes with a `next` and a `prev` link, in a ring that starts and ends at
    a head node.

    * `Ring k h l`: from `h` the links lead through `l` and back to `h`.
    * `find`: the loop `for(b = h->next; b != h; b = b->next)`, forwards or
      backwards.
    * `remove`, `insert`: how a node is taken out, and put in after the head. -/

namespace Ring

variable {α : Type*}

structure Links (α : Type*) where
  next : α → α
  prev : α → α

/-- The links lead from `a` through `l` to `c`, and back. -/
def Chain (k : Links α) : α → List α → α → Prop
  | a, [], c => k.next a = c ∧ k.prev c = a
  | a, b :: l, c => k.next a = b ∧ k.prev b = a ∧ Chain k b l c

structure Linked (k : Links α) (h : α) (l : List α) : Prop where
  chain : Chain k h l h
  nodup : (h :: l).Nodup

variable {k k' : Links α} {a b c h : α} {l l' : List α}

theorem chain_append : Chain k a (l ++ b :: l') c ↔ Chain k a l b ∧ Chain k b l' c := by
  induction l generalizing a with
  | nil => simp [Chain, and_assoc]
  | cons d l ih => simp [Chain, ih, and_assoc]

/-- Only the links of the nodes in between matter. -/
theorem Chain.congr (hc : Chain k a l c) (hnext : ∀ x ∈ a :: l, k'.next x = k.next x)
    (hprev : ∀ x ∈ l ++ [c], k'.prev x = k.prev x) : Chain k' a l c := by
  induction l generalizing a with
  | nil => exact ⟨(hnext a (by simp)).trans hc.1, (hprev c (by simp)).trans hc.2⟩
  | cons d l ih =>
    obtain ⟨h1, h2, h3⟩ := hc
    refine ⟨(hnext a (by simp)).trans h1, (hprev d (by simp)).trans h2, ih h3 ?_ ?_⟩
    · intro x hx
      exact hnext x (List.mem_cons_of_mem a hx)
    · intro x hx
      exact hprev x (List.mem_cons_of_mem d hx)

/-- The node before `b` is on the way to it. -/
theorem Chain.prev_mem (hc : Chain k a l b) : k.prev b ∈ a :: l := by
  induction l generalizing a with
  | nil => simp [hc.2]
  | cons d l ih => exact List.mem_cons_of_mem a (ih hc.2.2)

/-- The last link of a chain is led elsewhere. -/
theorem Chain.lead (hc : Chain k a l b) (hnodup : (a :: l).Nodup)
    (hnext : ∀ x ∈ a :: l, x ≠ k.prev b → k'.next x = k.next x) (hprev : ∀ x ∈ l, k'.prev x = k.prev x)
    (hlast : k'.next (k.prev b) = c) (hback : k'.prev c = k.prev b) : Chain k' a l c := by
  induction l generalizing a with
  | nil =>
    rw [hc.2] at hlast hback
    exact ⟨hlast, hback⟩
  | cons d l ih =>
    obtain ⟨h1, h2, h3⟩ := hc
    obtain ⟨ha, hd⟩ := List.nodup_cons.mp hnodup
    have hne : a ≠ k.prev b := fun heq => ha (heq ▸ h3.prev_mem)
    refine ⟨(hnext a (by simp) hne).trans h1, (hprev d (by simp)).trans h2, ih h3 hd ?_ ?_⟩
    · intro x hx
      exact hnext x (List.mem_cons_of_mem a hx)
    · intro x hx
      exact hprev x (List.mem_cons_of_mem d hx)

/-! ### Loops over the ring -/

/-- Follows `step` from `a` to the first node that satisfies `p`, or to `h`. -/
def find [DecidableEq α] (step : α → α) (h : α) (p : α → Bool) : Nat → α → Option α
  | 0, _ => none
  | fuel + 1, a => if a = h then none else if p a then some a else find step h p fuel (step a)

/-- The same ring, the other way round. -/
def Links.flip (k : Links α) : Links α := ⟨k.prev, k.next⟩

theorem Chain.flip (hc : Chain k a l c) : Chain k.flip c l.reverse a := by
  induction l generalizing a with
  | nil => exact ⟨hc.2, hc.1⟩
  | cons d l ih =>
    obtain ⟨h1, h2, h3⟩ := hc
    rw [List.reverse_cons]
    exact chain_append.mpr ⟨ih h3, h2, h1⟩

section find

variable [DecidableEq α] {p : α → Bool} {fuel : Nat}

theorem find_chain (hc : Chain k a l h) (hmem : h ∉ l) (hfuel : l.length < fuel) :
    find k.next h p fuel (k.next a) = l.find? p := by
  induction l generalizing a fuel with
  | nil =>
    obtain ⟨n, rfl⟩ := Nat.exists_eq_succ_of_ne_zero (Nat.ne_of_gt hfuel)
    simp [find, hc.1]
  | cons d l ih =>
    obtain ⟨n, rfl⟩ := Nat.exists_eq_succ_of_ne_zero (Nat.ne_of_gt (Nat.lt_of_le_of_lt (Nat.zero_le _) hfuel))
    obtain ⟨h1, -, h3⟩ := hc
    have hne : d ≠ h := fun heq => hmem (by simp [heq])
    have hrest := ih h3 (fun hin => hmem (List.mem_cons_of_mem d hin)) (Nat.lt_of_succ_lt_succ hfuel)
    cases hp : p d with
    | true => simp [find, h1, hne, hp]
    | false => simp [find, h1, hne, hp, hrest]

/-- The loop along `next` finds the first node of the list. -/
theorem Linked.find_next (hl : Linked k h l) (hfuel : l.length < fuel) :
    find k.next h p fuel (k.next h) = l.find? p :=
  find_chain hl.chain (List.nodup_cons.mp hl.nodup).1 hfuel

/-- The loop along `prev` finds the last one. -/
theorem Linked.find_prev (hl : Linked k h l) (hfuel : l.length < fuel) :
    find k.prev h p fuel (k.prev h) = l.reverse.find? p := by
  refine find_chain (k := k.flip) hl.chain.flip ?_ ?_
  · rw [List.mem_reverse]
    exact (List.nodup_cons.mp hl.nodup).1
  · rw [List.length_reverse]
    exact hfuel

end find

/-! ### Taking a node out and putting it in -/

section edit

variable [DecidableEq α]

open Function (update update_self update_of_ne)

/-- `b->next->prev = b->prev; b->prev->next = b->next` -/
def Links.remove (k : Links α) (b : α) : Links α :=
  let k : Links α := { k with prev := update k.prev (k.next b) (k.prev b) }
  { k with next := update k.next (k.prev b) (k.next b) }

/-- `b->next = h->next; b->prev = h; h->next->prev = b; h->next = b` -/
def Links.insert (k : Links α) (h b : α) : Links α :=
  let k : Links α := { k with next := update k.next b (k.next h) }
  let k : Links α := { k with prev := update k.prev b h }
  let k : Links α := { k with prev := update k.prev (k.next h) b }
  { k with next := update k.next h b }

theorem remove_prev : (k.remove b).prev = update k.prev (k.next b) (k.prev b) := rfl

theorem remove_next (h : k.next b ≠ b) : (k.remove b).next = update k.next (k.prev b) (k.next b) := by
  simp [Links.remove, update_of_ne (Ne.symm h)]

/-- A node of the ring is taken out. -/
theorem Linked.remove (hl : Linked k h (l ++ b :: l')) : Linked (k.remove b) h (l ++ l') := by
  obtain ⟨hfront, hback⟩ := chain_append.mp hl.chain
  have hnodup := hl.nodup
  have hsub : (h :: (l ++ l')).Nodup := by
    refine hnodup.sublist (List.Sublist.cons_cons h ?_)
    exact (List.Sublist.refl l).append (List.sublist_cons_self b l')
  rw [← List.cons_append, List.nodup_append] at hnodup
  obtain ⟨hfrontNodup, hbackNodup, hdisj⟩ := hnodup
  have hpred := hfront.prev_mem
  refine ⟨?_, hsub⟩
  cases l' with
  | nil =>
    -- the node was the last one
    obtain ⟨hnext, -⟩ := hback
    have hself : k.next b ≠ b := by
      rw [hnext]
      exact hdisj h (by simp) b (by simp)
    rw [List.append_nil]
    apply hfront.lead hfrontNodup
    · intro x _ hx
      rw [remove_next hself, update_of_ne hx]
    · intro x hx
      have hne : x ≠ h := by
        rintro rfl
        exact (List.nodup_cons.mp hfrontNodup).1 hx
      rw [remove_prev, hnext, update_of_ne hne]
    · rw [remove_next hself, update_self, hnext]
    · rw [remove_prev, hnext, update_self]
  | cons d l' =>
    obtain ⟨hnext, -, hrest⟩ := hback
    obtain ⟨hb, hdl⟩ := List.nodup_cons.mp hbackNodup
    obtain ⟨hd, -⟩ := List.nodup_cons.mp hdl
    have hfar : ∀ x ∈ h :: l, ∀ y ∈ d :: l', x ≠ y := by
      intro x hx y hy
      exact hdisj x hx y (List.mem_cons_of_mem b hy)
    have hself : k.next b ≠ b := by
      rw [hnext]
      rintro rfl
      exact hb (by simp)
    apply chain_append.mpr
    constructor
    · apply hfront.lead hfrontNodup
      · intro x _ hx
        rw [remove_next hself, update_of_ne hx]
      · intro x hx
        have hne : x ≠ d := hfar x (List.mem_cons_of_mem h hx) d (by simp)
        rw [remove_prev, hnext, update_of_ne hne]
      · rw [remove_next hself, update_self, hnext]
      · rw [remove_prev, hnext, update_self]
    · apply hrest.congr
      · intro x hx
        have hne : x ≠ k.prev b := (hfar _ hpred x hx).symm
        rw [remove_next hself, update_of_ne hne]
      · intro x hx
        have hne : x ≠ d := by
          rcases List.mem_append.mp hx with hx | hx
          · rintro rfl
            exact hd hx
          · rw [List.mem_singleton.mp hx]
            exact hfar h (by simp) d (by simp)
        rw [remove_prev, hnext, update_of_ne hne]

/-- A new node is put in after the head. -/
theorem Linked.insert (hl : Linked k h l) (hb : b ∉ h :: l) : Linked (k.insert h b) h (b :: l) := by
  have hbh : b ≠ h := fun heq => hb (by simp [heq])
  have hbl : b ∉ l := fun hmem => hb (List.mem_cons_of_mem h hmem)
  obtain ⟨hhl, hlnodup⟩ := List.nodup_cons.mp hl.nodup
  have hhead : (k.insert h b).next h = b := by simp [Links.insert]
  have hchain := hl.chain
  refine ⟨⟨hhead, ?_, ?_⟩, ?_⟩
  · -- the first node of the list is another one than `b`
    have hne : b ≠ k.next h := by
      cases l with
      | nil => rw [hchain.1]; exact hbh
      | cons d l =>
        rw [hchain.1]
        rintro rfl
        exact hbl (by simp)
    simp [Links.insert, update_of_ne hbh.symm, update_of_ne hne]
  · cases l with
    | nil =>
      obtain ⟨hnext, -⟩ := hchain
      constructor
      · simp [Links.insert, update_of_ne hbh, hnext]
      · simp [Links.insert, update_of_ne hbh.symm, hnext]
    | cons d l =>
      obtain ⟨hnext, -, hrest⟩ := hchain
      have hdb : d ≠ b := by
        rintro rfl
        exact hbl (by simp)
      refine ⟨?_, ?_, hrest.congr ?_ ?_⟩
      · simp [Links.insert, update_of_ne hbh, hnext]
      · simp [Links.insert, update_of_ne hbh.symm, hnext]
      · intro x hx
        have hxh : x ≠ h := by
          rintro rfl
          exact hhl hx
        have hxb : x ≠ b := by
          rintro rfl
          exact hbl hx
        simp [Links.insert, update_of_ne hxh, update_of_ne hxb]
      · intro x hx
        have hxd : x ≠ d := by
          rcases List.mem_append.mp hx with hx | hx
          · rintro rfl
            exact (List.nodup_cons.mp hlnodup).1 hx
          · rw [List.mem_singleton.mp hx]
            rintro rfl
            exact hhl (by simp)
        have hxb : x ≠ b := by
          rcases List.mem_append.mp hx with hx | hx
          · rintro rfl
            exact hbl (List.mem_cons_of_mem d hx)
          · rw [List.mem_singleton.mp hx]
            exact hbh.symm
        simp [Links.insert, update_of_ne hbh.symm, hnext, update_of_ne hxd, update_of_ne hxb]
  · refine List.nodup_cons.mpr ⟨?_, List.nodup_cons.mpr ⟨hbl, hlnodup⟩⟩
    intro hmem
    rcases List.mem_cons.mp hmem with heq | hmem
    · exact hbh heq.symm
    · exact hhl hmem

/-- A node moves to the front. -/
theorem Linked.moveFront (hl : Linked k h l) (hb : b ∈ l) :
    Linked ((k.remove b).insert h b) h (b :: l.erase b) := by
  obtain ⟨l1, l2, hnot, rfl, herase⟩ := List.exists_erase_eq hb
  rw [herase]
  refine hl.remove.insert ?_
  have hnodup := hl.nodup
  rw [← List.cons_append] at hnodup
  intro hmem
  rw [← List.cons_append] at hmem
  exact (List.nodup_middle.mp hnodup |> List.nodup_cons.mp).1 hmem

end edit

end Ring
