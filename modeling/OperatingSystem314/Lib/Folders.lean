import Mathlib.Data.List.Dedup
import Mathlib.Data.List.Nodup
import Mathlib.Logic.Function.Basic

/-! # Filing into folders

    Entries are filed into folders by name, and each folder has an index
    with a note for each entry.  A later entry replaces an earlier one of
    its name, the index too.

    * `foldl_add_text`: nothing is lost if no two names are the same and
      none is that of the index.
    * `length_listing_iff`: a folder lists as many names as were filed,
      and the index, only then. -/

/-- The files by folder and name. -/
abbrev Folders (κ ν α : Type) : Type := κ → ν → Option (List α)

namespace Folders

variable {κ ν α : Type}

structure Entry (κ ν α : Type) where
  folder : κ
  name : ν
  text : List α
  note : List α

/-- Each entry of the list gets a place of its own. -/
structure Distinct (index : ν) (es : List (Entry κ ν α)) : Prop where
  notIndex : ∀ e ∈ es, e.name ≠ index
  nodup : (es.map fun e => (e.folder, e.name)).Nodup

namespace Distinct

variable {index : ν} {e : Entry κ ν α} {es : List (Entry κ ν α)}

theorem tail (h : Distinct index (e :: es)) : Distinct index es :=
  ⟨fun e' he' => h.notIndex e' (List.mem_cons_of_mem e he'), (List.nodup_cons.mp h.nodup).2⟩

theorem head (h : Distinct index (e :: es)) : ∀ e' ∈ es, e.folder = e'.folder → e.name ≠ e'.name := by
  intro e' he' hfolder hname
  apply (List.nodup_cons.mp h.nodup).1
  exact List.mem_map.mpr ⟨e', he', (Prod.ext hfolder hname).symm⟩

end Distinct

variable [DecidableEq κ] [DecidableEq ν] (index : ν)

def add (o : Folders κ ν α) (e : Entry κ ν α) : Folders κ ν α :=
  let files := Function.update (o e.folder) e.name (some e.text)
  Function.update o e.folder (Function.update files index (some ((files index).getD [] ++ e.note)))

variable {index} {o : Folders κ ν α} {e : Entry κ ν α} {es : List (Entry κ ν α)} {k : κ} {n : ν}

/-! ### One entry -/

theorem add_folder_ne (h : k ≠ e.folder) : add index o e k = o k := Function.update_of_ne h _ _

theorem add_name_ne (hname : n ≠ e.name) (hindex : n ≠ index) : add index o e k n = o k n := by
  by_cases hk : k = e.folder
  · subst hk
    simp only [add, Function.update_self, Function.update_of_ne hindex, Function.update_of_ne hname]
  · rw [add_folder_ne hk]

theorem add_text (h : e.name ≠ index) : add index o e e.folder e.name = some e.text := by
  simp only [add, Function.update_self, Function.update_of_ne h]

theorem add_index (h : e.name ≠ index) :
    add index o e e.folder index = some ((o e.folder index).getD [] ++ e.note) := by
  simp only [add, Function.update_self, Function.update_of_ne h.symm]

/-- An entry keeps clear of the places of those after it. -/
theorem Distinct.add_eq {e' : Entry κ ν α} (h : Distinct index (e :: es)) (he' : e' ∈ es) :
    add index o e e'.folder e'.name = o e'.folder e'.name := by
  by_cases hfolder : e'.folder = e.folder
  · rw [add_name_ne (fun hname => h.head e' he' hfolder.symm hname.symm)]
    exact h.notIndex e' (List.mem_cons_of_mem e he')
  · rw [add_folder_ne hfolder]

/-- Which names there are then. -/
theorem isSome_add :
    (add index o e k n).isSome ↔ (o k n).isSome ∨ k = e.folder ∧ (n = e.name ∨ n = index) := by
  by_cases hk : k = e.folder
  · subst hk
    by_cases hindex : n = index
    · simp [add, hindex]
    · by_cases hname : n = e.name
      · simp [add, hname]
        subst hname
        simp [hindex]
      · simp [add_name_ne hname hindex, hname, hindex]
  · simp [add_folder_ne hk, hk]

/-! ### A list of entries -/

theorem isSome_foldl_add :
    (es.foldl (add index) o k n).isSome ↔
      (o k n).isSome ∨ ∃ e ∈ es, k = e.folder ∧ (n = e.name ∨ n = index) := by
  induction es generalizing o with
  | nil => simp
  | cons e es ih =>
    rw [List.foldl_cons, ih, isSome_add]
    simp only [List.mem_cons, exists_eq_or_imp, or_assoc]

/-- What no entry has the place of is not touched. -/
theorem foldl_add_of_notin (h : ∀ e ∈ es, k = e.folder → n ≠ e.name) (hindex : n ≠ index) :
    es.foldl (add index) o k n = o k n := by
  induction es generalizing o with
  | nil => rfl
  | cons e es ih =>
    rw [List.foldl_cons, ih fun e' he' => h e' (List.mem_cons_of_mem e he')]
    by_cases hk : k = e.folder
    · exact add_name_ne (h e List.mem_cons_self hk) hindex
    · rw [add_folder_ne hk]

/-- Every entry is where it was filed. -/
theorem foldl_add_text (h : Distinct index es) (he : e ∈ es) :
    es.foldl (add index) o e.folder e.name = some e.text := by
  induction es generalizing o with
  | nil => cases he
  | cons e' es ih =>
    rw [List.foldl_cons]
    rcases List.mem_cons.mp he with rfl | he
    · have hindex := h.notIndex e List.mem_cons_self
      rw [foldl_add_of_notin h.head hindex, add_text hindex]
    · exact ih h.tail he

/-- The index has the notes of the folder. -/
theorem foldl_add_index (h : ∀ e ∈ es, e.folder = k → e.name ≠ index) :
    (es.foldl (add index) o k index).getD [] =
      (o k index).getD [] ++ ((es.filter fun e => e.folder = k).map Entry.note).flatten := by
  induction es generalizing o with
  | nil => simp
  | cons e es ih =>
    rw [List.foldl_cons, ih fun e' he' => h e' (List.mem_cons_of_mem e he')]
    by_cases hk : e.folder = k
    · subst hk
      rw [add_index (h e List.mem_cons_self rfl)]
      simp
    · rw [add_folder_ne (Ne.symm hk)]
      simp [hk]

/-! ### The listing of a folder -/

section listing

variable {names listing : List ν}

theorem listing_perm (hl : listing.Nodup) (hmem : ∀ n, n ∈ listing ↔ n = index ∨ n ∈ names) :
    listing.Perm (index :: names).dedup := by
  rw [List.perm_ext_iff_of_nodup hl (List.nodup_dedup _)]
  intro n
  rw [hmem, List.mem_dedup, List.mem_cons]

theorem length_listing_le (hl : listing.Nodup) (hmem : ∀ n, n ∈ listing ↔ n = index ∨ n ∈ names) :
    listing.length ≤ names.length + 1 := by
  rw [(listing_perm hl hmem).length_eq]
  exact (List.dedup_sublist _).length_le

/-- The lengths are the same if and only if all of the names are different. -/
theorem length_listing_iff (hl : listing.Nodup) (hmem : ∀ n, n ∈ listing ↔ n = index ∨ n ∈ names) :
    listing.length = names.length + 1 ↔ index ∉ names ∧ names.Nodup := by
  rw [(listing_perm hl hmem).length_eq, ← List.nodup_cons, ← List.dedup_eq_self]
  constructor
  · intro hlen
    exact (List.dedup_sublist _).eq_of_length (by rw [hlen, List.length_cons])
  · intro heq
    rw [heq, List.length_cons]

end listing

end Folders
