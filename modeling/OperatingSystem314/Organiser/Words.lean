import OperatingSystem314.Organiser.Passes

/-! # What the script does with words

    * `mentions_iff`: the search in an array is membership, for words
      without blanks.
    * `get_file_extension_spec`: an extension is a part of the name without
      a dot.
    * `count_echo`: `echo` prints one line, or nothing at all. -/

namespace Organiser

/-! ### The search in an array -/

section mentions

variable {w x : Word} {list : List Word}

/-- Each word after its blank. -/
theorem blank_intercalate {l : List Word} (h : l ≠ []) : ' ' :: [' '].intercalate l = l.flatMap (' ' :: ·) := by
  induction l with
  | nil => exact absurd rfl h
  | cons w l ih =>
    cases l with
    | nil => simp
    | cons w' l =>
      rw [List.intercalate_cons_cons, List.flatMap_cons, ← ih (List.cons_ne_nil _ _)]
      simp

/-- Between blanks stand the words. -/
theorem blank_infix_iff (hw : ' ' ∉ w) : [' '] ++ w ++ [' '] <:+: [' '] ++ x ++ [' '] ↔ w ∈ x.splitOn ' ' := by
  constructor
  · rintro ⟨a, b, heq⟩
    have hleft : (a ++ ([' '] ++ w ++ [' ']) ++ b).splitOn ' ' = a.splitOn ' ' ++ w :: b.splitOn ' ' := by
      have hassoc : a ++ ([' '] ++ w ++ [' ']) ++ b = a ++ ' ' :: (w ++ ' ' :: b) := by simp
      rw [hassoc, List.splitOn_append_cons_self, List.splitOn_append_cons_self_of_not_mem hw]
    have hright : ([' '] ++ x ++ [' ']).splitOn ' ' = [] :: (x.splitOn ' ' ++ [[]]) := by
      have hassoc : [' '] ++ x ++ [' '] = [] ++ ' ' :: (x ++ ' ' :: []) := by simp
      rw [hassoc, List.splitOn_append_cons_self, List.splitOn_append_cons_self]
      rfl
    rw [heq, hright] at hleft
    -- neither the first nor the last of the parts is `w`
    obtain ⟨a0, as, ha⟩ := List.exists_cons_of_ne_nil (List.splitOn_ne_nil ' ' a)
    obtain ⟨bs, b0, hb⟩ := (List.eq_nil_or_concat (b.splitOn ' ')).resolve_left (List.splitOn_ne_nil ' ' b)
    have hends : a0 :: as ++ w :: (bs ++ [b0]) = a0 :: (as ++ w :: bs ++ [b0]) := by simp
    rw [ha, hb, List.concat_eq_append, hends] at hleft
    have hmid := (List.append_inj' (List.cons.inj hleft).2 rfl).1
    rw [hmid]
    simp
  · intro hmem
    obtain ⟨as, bs, hsplit⟩ := List.append_of_mem hmem
    have hx : x = [' '].intercalate (as ++ w :: bs) := by
      rw [← hsplit, List.intercalate_splitOn]
    have hblanks : ∃ b, bs.flatMap (' ' :: ·) ++ [' '] = ' ' :: b := by
      cases bs with
      | nil => exact ⟨[], rfl⟩
      | cons b bs => exact ⟨_, rfl⟩
    obtain ⟨b, hb⟩ := hblanks
    refine ⟨as.flatMap (' ' :: ·), b, ?_⟩
    have hne : as ++ w :: bs ≠ [] := by simp
    rw [hx, List.singleton_append, List.singleton_append, blank_intercalate hne, List.flatMap_append,
      List.flatMap_cons, List.append_assoc _ _ [' '], List.append_assoc _ _ [' '], hb]
    simp

/-- The words of a list of lines. -/
def wordsOf (list : List Word) : List Word := list.flatMap fun line => line.splitOn ' '

theorem splitOn_intercalate_words (h : list ≠ []) : ([' '].intercalate list).splitOn ' ' = wordsOf list := by
  induction list with
  | nil => exact absurd rfl h
  | cons w list ih =>
    cases list with
    | nil => simp [wordsOf]
    | cons w' list =>
      rw [List.intercalate_cons_cons, List.append_assoc, List.singleton_append, List.splitOn_append_cons_self,
        ih (List.cons_ne_nil _ _)]
      rfl

theorem mentions_of_mem (hw : ' ' ∉ w) (h : w ∈ wordsOf list) : mentions list w := by
  have hnil : list ≠ [] := by
    rintro rfl
    cases h
  unfold mentions
  rwa [blank_infix_iff hw, splitOn_intercalate_words hnil]

/-- The search finds the words of the lines. -/
theorem mentions_iff (hne : w ≠ []) (hw : ' ' ∉ w) : mentions list w ↔ w ∈ wordsOf list := by
  refine ⟨?_, mentions_of_mem hw⟩
  unfold mentions
  rw [blank_infix_iff hw]
  by_cases hnil : list = []
  · subst hnil
    simp [hne]
  · rw [splitOn_intercalate_words hnil]
    exact id

/-- A list of words is searched for a word. -/
theorem mentions_of_words (hne : w ≠ []) (hw : ' ' ∉ w) (hlist : ∀ v ∈ list, ' ' ∉ v) : mentions list w ↔ w ∈ list := by
  rw [mentions_iff hne hw, wordsOf, List.mem_flatMap]
  constructor
  · rintro ⟨v, hv, hmem⟩
    rw [List.splitOn_eq_singleton (hlist v hv), List.mem_singleton] at hmem
    rwa [hmem]
  · intro hmem
    refine ⟨w, hmem, ?_⟩
    rw [List.splitOn_eq_singleton hw]
    exact List.mem_singleton_self w

end mentions

/-! ### Extensions -/

theorem afterLast_suffix {pat w r : Word} (h : afterLast pat w = some r) : r <:+ w := by
  induction w with
  | nil =>
    unfold afterLast at h
    split at h
    · cases h
      exact List.suffix_refl _
    · cases h
  | cons c w ih =>
    unfold afterLast at h
    cases hw : afterLast pat w with
    | some r' =>
      rw [hw] at h
      cases h
      exact (ih hw).trans (List.suffix_cons c w)
    | none =>
      rw [hw, Option.none_or] at h
      split at h
      · cases h
        exact List.drop_suffix _ _
      · cases h

theorem trimTo_suffix (pat w : Word) : trimTo pat w <:+ w := by
  unfold trimTo
  cases h : afterLast pat w with
  | some r => exact afterLast_suffix h
  | none => exact List.suffix_refl w

/-- After the last dot there is none. -/
theorem afterLast_dot {w : Word} : (afterLast ['.'] w = none ↔ '.' ∉ w) ∧ ∀ r, afterLast ['.'] w = some r → '.' ∉ r := by
  induction w with
  | nil =>
    refine ⟨by simp [afterLast], ?_⟩
    intro r h
    cases h
  | cons c w ih =>
    obtain ⟨hnone, hsome⟩ := ih
    unfold afterLast
    cases hw : afterLast ['.'] w with
    | some r' =>
      have hdot : '.' ∈ w := by
        by_contra hn
        rw [hnone.mpr hn] at hw
        cases hw
      refine ⟨iff_of_false nofun fun hn => hn (List.mem_cons_of_mem c hdot), ?_⟩
      intro r h
      cases h
      exact hsome _ hw
    | none =>
      have hdot := hnone.mp hw
      by_cases hc : c = '.'
      · subst hc
        refine ⟨by simp, ?_⟩
        intro r h
        simp only [Option.none_or, List.cons_prefix_cons, List.nil_prefix, and_self, if_true, Option.some.injEq] at h
        rw [← h]
        exact hdot
      · have hpre : ¬ ['.'] <+: c :: w := by
          rw [List.cons_prefix_cons]
          exact fun h => hc h.1.symm
        refine ⟨by simp [hpre, hdot, Ne.symm hc], ?_⟩
        intro r h
        rw [Option.none_or, if_neg hpre] at h
        cases h

/-- The extension of a name has no dot and no other characters than the
    name, or it is `others`. -/
theorem get_file_extension_spec (n : Word) :
    '.' ∉ get_file_extension n ∧ (get_file_extension n = OTHERS ∨ get_file_extension n <:+ n) := by
  unfold get_file_extension
  simp only [List.length_eq_zero_iff, List.filter_eq_nil_iff]
  split
  next => exact ⟨by decide, .inl rfl⟩
  next hdot =>
    refine ⟨?_, .inr (trimTo_suffix _ _)⟩
    have hmem : '.' ∈ n := by simpa using hdot
    unfold trimTo
    cases h : afterLast ['.'] n with
    | none => exact absurd hmem (afterLast_dot.1.mp h)
    | some r => exact afterLast_dot.2 r h

theorem get_file_extension_noBlank {n : Word} (hn : Plain n) : ' ' ∉ get_file_extension n := by
  rcases (get_file_extension_spec n).2 with h | h
  · rw [h]
    decide
  · intro hmem
    exact hn.ordinary ' ' (h.subset hmem) (by decide)

/-! ### `echo` -/

/-- What has no line break is printed on one line, or not at all. -/
theorem count_echo {w : Word} (hw : '\n' ∉ w) : (echo w).count '\n' = if echo w = [] then 0 else 1 := by
  unfold echo
  split
  · split
    · simp
    · simp
  · rw [List.count_append, List.count_eq_zero_of_not_mem hw]
    simp

/-- So the lines are as many as the printings that print something. -/
theorem count_flatten_lines {ls : List Word} (h : ∀ l ∈ ls, l.count '\n' = if l = [] then 0 else 1) :
    ls.flatten.count '\n' = ls.countP fun l => l ≠ [] := by
  induction ls with
  | nil => rfl
  | cons l ls ih =>
    rw [List.flatten_cons, List.count_append, ih fun m hm => h m (List.mem_cons_of_mem l hm), h l List.mem_cons_self,
      List.countP_cons, Nat.add_comm]
    by_cases hl : l = []
    · simp [hl]
    · simp [hl]

/-- The pathname of a path with plain names. -/
theorem pathname_noBreak {p : Path} (hp : ∀ n ∈ p, Plain n) : '\n' ∉ pathname p := by
  unfold pathname
  split
  · decide
  · intro hmem
    have hall : ∀ l : List Word, (∀ n ∈ l, '\n' ∉ n) → '\n' ∉ ['/'].intercalate l := by
      intro l hl
      induction l with
      | nil => exact List.not_mem_nil
      | cons n l ih =>
        cases l with
        | nil => simpa using hl n List.mem_cons_self
        | cons n' l =>
          rw [List.intercalate_cons_cons, List.mem_append, List.mem_append]
          rintro ((h | h) | h)
          · exact hl n List.mem_cons_self h
          · simp at h
          · exact ih (fun m hm => hl m (List.mem_cons_of_mem n hm)) h
    refine hall _ ?_ hmem
    intro n hn
    rcases List.mem_cons.mp hn with rfl | hn
    · exact List.not_mem_nil
    · intro hbreak
      exact (hp n (List.mem_reverse.mp hn)).ordinary '\n' hbreak (by decide)

end Organiser
