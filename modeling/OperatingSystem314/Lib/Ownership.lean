import Mathlib.Data.List.Nodup

/-! # Resources with one owner each

    A resource of `φ` is free, or given to one of the places `κ`, or out of
    circulation: with nobody, as between an allocation and the moment the
    resource is put to use.

    * `Inv`: no resource has two owners, none is both free and given away,
      and no resource is free twice.
    * `Nobody`: a resource out of circulation.
    * `alloc`, `release`, `give`, `take`, `move`: the moves between them.
    * `carve`, `release_all`: several resources at once. -/

namespace Ownership

variable {κ φ : Type}

/-- `own i` is the resource at place `i`, and `ok` are the resources there are. -/
structure Inv (own : κ → Option φ) (free : List φ) (ok : φ → Prop) : Prop where
  once : ∀ i j f, own i = some f → own j = some f → i = j
  taken : ∀ i f, own i = some f → f ∉ free
  ownOk : ∀ i f, own i = some f → ok f
  nodup : free.Nodup
  freeOk : ∀ f ∈ free, ok f

structure Nobody (own : κ → Option φ) (free : List φ) (ok : φ → Prop) (f : φ) : Prop where
  valid : ok f
  notFree : f ∉ free
  unowned : ∀ i, own i ≠ some f

namespace Inv

variable {own own' : κ → Option φ} {free : List φ} {ok : φ → Prop} {f : φ} {i : κ}

/-- Places may lose their resources. -/
theorem mono (h : Inv own free ok) (hsub : ∀ j g, own' j = some g → own j = some g) :
    Inv own' free ok where
  once := fun j l g hj hl => h.once j l g (hsub j g hj) (hsub l g hl)
  taken := fun j g hj => h.taken j g (hsub j g hj)
  ownOk := fun j g hj => h.ownOk j g (hsub j g hj)
  nodup := h.nodup
  freeOk := h.freeOk

/-- The first free resource is taken out of the list. -/
theorem alloc (h : Inv own (f :: free) ok) : Inv own free ok ∧ Nobody own free ok f := by
  obtain ⟨hf, hnodup⟩ := List.nodup_cons.mp h.nodup
  constructor
  · refine ⟨h.once, ?_, h.ownOk, hnodup, ?_⟩
    · intro j g hj hg
      exact h.taken j g hj (List.mem_cons_of_mem f hg)
    · intro g hg
      exact h.freeOk g (List.mem_cons_of_mem f hg)
  · refine ⟨h.freeOk f List.mem_cons_self, hf, ?_⟩
    intro j hj
    exact h.taken j f hj List.mem_cons_self

/-- A resource that nobody has is put back. -/
theorem release (h : Inv own free ok) (hf : Nobody own free ok f) : Inv own (f :: free) ok := by
  refine ⟨h.once, ?_, h.ownOk, List.nodup_cons.mpr ⟨hf.notFree, h.nodup⟩, ?_⟩
  · intro j g hj hg
    rcases List.mem_cons.mp hg with rfl | hg
    · exact hf.unowned j hj
    · exact h.taken j g hj hg
  · intro g hg
    rcases List.mem_cons.mp hg with rfl | hg
    · exact hf.valid
    · exact h.freeOk g hg

/-- Place `i` gives its resource up. -/
theorem take (h : Inv own free ok) (hi : own i = some f)
    (hsub : ∀ j g, own' j = some g → j ≠ i ∧ own j = some g) :
    Inv own' free ok ∧ Nobody own' free ok f := by
  refine ⟨h.mono fun j g hj => (hsub j g hj).2, h.ownOk i f hi, h.taken i f hi, ?_⟩
  intro j hj
  obtain ⟨hne, hold⟩ := hsub j f hj
  exact hne (h.once j i f hold hi)

/-- Place `i` is given a resource that nobody has. -/
theorem give (h : Inv own free ok) (hf : Nobody own free ok f)
    (hsub : ∀ j g, own' j = some g → (j = i ∧ g = f) ∨ own j = some g) : Inv own' free ok := by
  refine ⟨?_, ?_, ?_, h.nodup, h.freeOk⟩
  · intro j l g hj hl
    rcases hsub j g hj with ⟨rfl, rfl⟩ | hj
    · rcases hsub l g hl with ⟨rfl, -⟩ | hl
      · rfl
      · exact absurd hl (hf.unowned l)
    · rcases hsub l g hl with ⟨rfl, rfl⟩ | hl
      · exact absurd hj (hf.unowned j)
      · exact h.once j l g hj hl
  · intro j g hj
    rcases hsub j g hj with ⟨-, rfl⟩ | hj
    · exact hf.notFree
    · exact h.taken j g hj
  · intro j g hj
    rcases hsub j g hj with ⟨-, rfl⟩ | hj
    · exact hf.valid
    · exact h.ownOk j g hj

/-- Place `i` hands its resource over to place `l`. -/
theorem move {l : κ} (h : Inv own free ok) (hi : own i = some f)
    (hsub : ∀ j g, own' j = some g → (j = l ∧ g = f) ∨ (j ≠ i ∧ own j = some g)) :
    Inv own' free ok := by
  classical
  have hrest : ∀ j g, (if j = i then none else own j) = some g → j ≠ i ∧ own j = some g := by
    intro j g hj
    split at hj
    · cases hj
    next hne => exact ⟨hne, hj⟩
  have hmid := h.take hi hrest
  apply hmid.1.give hmid.2 (i := l)
  intro j g hj
  rcases hsub j g hj with hl | ⟨hne, hold⟩
  · exact .inl hl
  · exact .inr (by rwa [if_neg hne])

/-- Some of the free resources are handed out at once, as `new` says. -/
theorem carve {free' : List φ} {new : κ → Option φ} (h : Inv own free ok) (hrest : free'.Sublist free)
    (hnew : ∀ i g, new i = some g → g ∈ free ∧ g ∉ free')
    (hinj : ∀ i j g, new i = some g → new j = some g → i = j)
    (hsub : ∀ i g, own' i = some g → own i = some g ∨ new i = some g) : Inv own' free' ok := by
  refine ⟨?_, ?_, ?_, h.nodup.sublist hrest, ?_⟩
  · intro i j g hi hj
    rcases hsub i g hi with hi | hi <;> rcases hsub j g hj with hj | hj
    · exact h.once i j g hi hj
    · exact absurd (hnew j g hj).1 (h.taken i g hi)
    · exact absurd (hnew i g hi).1 (h.taken j g hj)
    · exact hinj i j g hi hj
  · intro i g hi hg
    rcases hsub i g hi with hi | hi
    · exact h.taken i g hi (hrest.subset hg)
    · exact (hnew i g hi).2 hg
  · intro i g hi
    rcases hsub i g hi with hi | hi
    · exact h.ownOk i g hi
    · exact h.freeOk g (hnew i g hi).1
  · intro g hg
    exact h.freeOk g (hrest.subset hg)

/-- Resources that nobody has are put back, one after the other. -/
theorem release_all {gs : List φ} (h : Inv own free ok) (hgs : ∀ g ∈ gs, Nobody own free ok g)
    (hnodup : gs.Nodup) : Inv own (gs.reverse ++ free) ok := by
  refine ⟨h.once, ?_, h.ownOk, ?_, ?_⟩
  · intro i g hi hg
    rcases List.mem_append.mp hg with hg | hg
    · exact (hgs g (List.mem_reverse.mp hg)).unowned i hi
    · exact h.taken i g hi hg
  · refine List.nodup_append.mpr ⟨List.nodup_reverse.mpr hnodup, h.nodup, ?_⟩
    rintro g hg _ hg' rfl
    exact (hgs g (List.mem_reverse.mp hg)).notFree hg'
  · intro g hg
    rcases List.mem_append.mp hg with hg | hg
    · exact (hgs g (List.mem_reverse.mp hg)).valid
    · exact h.freeOk g hg

end Inv

namespace Nobody

variable {own own' : κ → Option φ} {free : List φ} {ok : φ → Prop} {f g : φ}

theorem mono (h : Nobody own free ok f) (hsub : ∀ j g, own' j = some g → own j = some g) :
    Nobody own' free ok f :=
  ⟨h.valid, h.notFree, fun j hj => h.unowned j (hsub j f hj)⟩

/-- Another resource is put back. -/
theorem release (h : Nobody own free ok f) (hne : f ≠ g) : Nobody own (g :: free) ok f := by
  refine ⟨h.valid, ?_, h.unowned⟩
  intro hmem
  rcases List.mem_cons.mp hmem with rfl | hmem
  · exact hne rfl
  · exact h.notFree hmem

/-- Another resource is taken out of the list. -/
theorem alloc (h : Nobody own (g :: free) ok f) : Nobody own free ok f :=
  ⟨h.valid, fun hmem => h.notFree (List.mem_cons_of_mem g hmem), h.unowned⟩

end Nobody

end Ownership
