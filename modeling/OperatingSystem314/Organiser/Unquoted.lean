import OperatingSystem314.Organiser.Words

/-! # The two passes on any names

    `collect_selected_formats` calls `get_file_extension $f` and
    `move_selected_files` calls `get_file_extension "$f"`.  Without the
    quotes the shell splits the name at blanks, and the function sees the
    first word only.

    Here a name is any word.  What the shell does with a pattern depends on
    the directory, and what `echo $1|xargs` prints of quotes, backslashes and
    options on these programs, so both are given (`Bash`); extensions are
    taken not to match anything as patterns.

    * `passes_agree_iff`: when the two passes agree on the files that both
      come to.
    * `extensions_eq_iff`: the names without special characters on which the
      extensions are equal.
    * `collectFile_plain`: on plain names this is the model of `Script`. -/

namespace Organiser.Unquoted

/-! ### Unquoted words -/

/-- The characters of `IFS`. -/
def isBlank (c : Char) : Bool := c = ' ' || c = '\t' || c = '\n'

/-- The words that an unquoted variable is split into. -/
def split (w : Word) : List Word := (w.splitOnP isBlank).filter (· ≠ [])

/-- A word that neither the shell nor `xargs` changes. -/
def Ordinary (w : Word) : Prop := w ≠ [] ∧ ∀ c ∈ w, c ∉ special

/-- What the shell does with the words of a variable that is not quoted. -/
structure Bash where
  /-- pathname expansion -/
  expand : Word → List Word
  /-- what `echo` of the words, piped through `xargs`, prints -/
  xargs : List Word → Word
  expand_ordinary : ∀ w, Ordinary w → expand w = [w]
  xargs_ordinary : ∀ ws, (∀ w ∈ ws, Ordinary w) → (∀ w ∈ ws.head?, w.head? ≠ some '-') →
    xargs ws = [' '].intercalate ws

/-- The words that `$w` stands for. -/
def Bash.fields (sh : Bash) (w : Word) : List Word := (split w).flatMap sh.expand

/-! ### The functions of the script -/

/-- `arg` is the value of `$1`. -/
def get_file_extension (sh : Bash) (arg : Word) : Word :=
  Organiser.get_file_extension (sh.xargs (sh.fields arg))

/-- `get_file_extension $f` -/
def collectExtension (sh : Bash) (f : Word) : Word := get_file_extension sh ((sh.fields f).headD [])

/-- `get_file_extension "$f"` -/
def moveExtension (sh : Bash) (f : Word) : Word := get_file_extension sh f

/-- A file, and the shell when the first and when the second pass comes to it. -/
structure Visit where
  name : Word
  first : Bash
  second : Bash

structure Formats where
  selected_formats : List Word
  ignored_file_count : Nat

section Script

variable (formats_to_be_ignored : List Word) (file_actual_name : Word)

/-- A file of `collect_selected_formats`. -/
def collectFile (v : Formats) (q : Visit) : Formats :=
  let extension := collectExtension q.first q.name
  if q.name ≠ file_actual_name then
    if ¬ mentions formats_to_be_ignored extension then
      if ¬ mentions v.selected_formats extension then
        { v with selected_formats := v.selected_formats ++ split extension }
      else v
    else { v with ignored_file_count := v.ignored_file_count + 1 }
  else v

def collect_selected_formats (fs : List Visit) : Formats :=
  fs.foldl (collectFile formats_to_be_ignored file_actual_name) ⟨[], 0⟩

/-- The directories in `output_dir`, one for each format. -/
def make_directories (v : Formats) : List Word := v.selected_formats

/-- The format that a file of `move_selected_files` is moved to. -/
def moveFile (q : Visit) : Option Word :=
  let extension := moveExtension q.second q.name
  if q.name ≠ file_actual_name then
    if ¬ mentions formats_to_be_ignored extension then some extension else none
  else none

/-- The passes agree on the files that both come to: on the extension; on
    what is ignored, which is what is listed; and what the second one moves
    goes to a directory made for the first one's list. -/
def PassesAgree (fs : List Visit) : Prop :=
  ∀ q ∈ fs,
    collectExtension q.first q.name = moveExtension q.second q.name ∧
    (q.name ≠ file_actual_name →
      (mentions formats_to_be_ignored (collectExtension q.first q.name) ↔
        collectExtension q.first q.name ∈ formats_to_be_ignored) ∧
      (mentions formats_to_be_ignored (moveExtension q.second q.name) ↔
        moveExtension q.second q.name ∈ formats_to_be_ignored)) ∧
    ∀ extension ∈ moveFile formats_to_be_ignored file_actual_name q,
      extension ∈ make_directories (collect_selected_formats formats_to_be_ignored file_actual_name fs)

/-- The extension is listed; or it is a word, and no line of the list has it
    for one of its words. -/
def Told (extension : Word) : Prop :=
  extension ∈ formats_to_be_ignored ∨
    extension ≠ [] ∧ (∀ c ∈ extension, isBlank c = false) ∧ extension ∉ wordsOf formats_to_be_ignored

/-- The files on which the passes agree: the first word of the name has the
    extension of the name, and that can be told from the ignored ones. -/
def Agreeing (q : Visit) : Prop :=
  collectExtension q.first q.name = moveExtension q.second q.name ∧
    (q.name ≠ file_actual_name → Told formats_to_be_ignored (moveExtension q.second q.name))

end Script

/-! ### Splitting -/

theorem split_of_noBlank {w : Word} (hne : w ≠ []) (hw : ∀ c ∈ w, isBlank c = false) : split w = [w] := by
  rw [split, List.splitOnP_eq_singleton hw]
  simp [hne]

theorem mem_splitOnP {w x : Word} (h : x ∈ w.splitOnP isBlank) : ∀ c ∈ x, isBlank c = false ∧ c ∈ w := by
  induction w generalizing x with
  | nil =>
    rw [List.splitOnP_nil, List.mem_singleton] at h
    subst h
    intro c hc
    cases hc
  | cons c w ih =>
    rw [List.splitOnP_cons_eq_if_modifyHead] at h
    by_cases hc : isBlank c = true
    · rw [if_pos hc] at h
      rcases List.mem_cons.mp h with rfl | h
      · intro c hc
        cases hc
      · intro d hd
        exact ⟨(ih h d hd).1, List.mem_cons_of_mem c (ih h d hd).2⟩
    · rw [if_neg hc] at h
      obtain ⟨y, ys, hys⟩ := List.exists_cons_of_ne_nil (List.splitOnP_ne_nil isBlank w)
      rw [hys, List.modifyHead_cons] at h
      rcases List.mem_cons.mp h with rfl | h
      · -- the first part, with the character in front
        have hy : y ∈ w.splitOnP isBlank := hys ▸ List.mem_cons_self
        intro d hd
        rcases List.mem_cons.mp hd with rfl | hd
        · exact ⟨by simpa using hc, List.mem_cons_self⟩
        · exact ⟨(ih hy d hd).1, List.mem_cons_of_mem c (ih hy d hd).2⟩
      · have hx : x ∈ w.splitOnP isBlank := hys ▸ List.mem_cons_of_mem y h
        intro d hd
        exact ⟨(ih hx d hd).1, List.mem_cons_of_mem c (ih hx d hd).2⟩

theorem mem_split {w x : Word} (h : x ∈ split w) :
    x ≠ [] ∧ (∀ c ∈ x, isBlank c = false) ∧ ∀ c ∈ x, c ∈ w := by
  obtain ⟨hmem, hne⟩ := List.mem_filter.mp h
  exact ⟨by simpa using hne, fun c hc => (mem_splitOnP hmem c hc).1, fun c hc => (mem_splitOnP hmem c hc).2⟩

theorem isBlank_space : isBlank ' ' = true := rfl

theorem noSpace_of_noBlank {w : Word} (hw : ∀ c ∈ w, isBlank c = false) : ' ' ∉ w := by
  intro h
  have hblank := hw ' ' h
  rw [isBlank_space] at hblank
  cases hblank

/-! ### The search in the list -/

/-- Each word of the list stands between blanks. -/
theorem mentions_of_mem_list {list : List Word} {w : Word} (h : w ∈ list) : mentions list w := by
  obtain ⟨as, bs, rfl⟩ := List.append_of_mem h
  have hblanks : ∃ b, bs.flatMap (' ' :: ·) ++ [' '] = ' ' :: b := by
    cases bs with
    | nil => exact ⟨[], rfl⟩
    | cons b bs => exact ⟨_, rfl⟩
  obtain ⟨b, hb⟩ := hblanks
  refine ⟨as.flatMap (' ' :: ·), b, ?_⟩
  have hne : as ++ w :: bs ≠ [] := by simp
  rw [List.singleton_append, List.singleton_append, blank_intercalate hne, List.flatMap_append,
    List.flatMap_cons, List.append_assoc _ _ [' '], List.append_assoc _ _ [' '], hb]
  simp

/-- An extension can be told from the ignored ones just when it is found in
    the list only if it is there, and is a word if it is not. -/
theorem told_iff {list : List Word} {w : Word} :
    Told list w ↔ (mentions list w → w ∈ list) ∧
      (¬ mentions list w → w ≠ [] ∧ ∀ c ∈ w, isBlank c = false) := by
  unfold Told
  by_cases hmem : w ∈ list
  · have hmentions := mentions_of_mem_list hmem
    simp [hmem, hmentions]
  · constructor
    · intro h
      obtain ⟨hne, hblank, hwords⟩ := h.resolve_left hmem
      rw [mentions_iff hne (noSpace_of_noBlank hblank)]
      exact ⟨fun h => absurd h hwords, fun _ => ⟨hne, hblank⟩⟩
    · intro h
      have hnot : ¬ mentions list w := fun hm => hmem (h.1 hm)
      obtain ⟨hne, hblank⟩ := h.2 hnot
      rw [mentions_iff hne (noSpace_of_noBlank hblank)] at hnot
      exact Or.inr ⟨hne, hblank, hnot⟩

/-! ### The list of the first pass -/

section Collect

variable {formats_to_be_ignored : List Word} {file_actual_name : Word}

/-- The list holds words. -/
def Words (list : List Word) : Prop := ∀ w ∈ list, w ≠ [] ∧ ∀ c ∈ w, isBlank c = false

theorem collectFile_words {v : Formats} (h : Words v.selected_formats) (q : Visit) :
    Words (collectFile formats_to_be_ignored file_actual_name v q).selected_formats := by
  unfold collectFile
  simp only []
  split_ifs
  · exact h
  · exact h
  · intro w hw
    rcases List.mem_append.mp hw with hw | hw
    · exact h w hw
    · exact ⟨(mem_split hw).1, (mem_split hw).2.1⟩
  · exact h

theorem collectFile_grows (v : Formats) (q : Visit) {w : Word} (h : w ∈ v.selected_formats) :
    w ∈ (collectFile formats_to_be_ignored file_actual_name v q).selected_formats := by
  unfold collectFile
  simp only []
  split_ifs
  · exact h
  · exact h
  · exact List.mem_append_left _ h
  · exact h

/-- The extension of a file that is not ignored, if it is a word, is in the
    list from then on. -/
theorem collectFile_adds {v : Formats} (h : Words v.selected_formats) {q : Visit}
    (hname : q.name ≠ file_actual_name)
    (hnot : ¬ mentions formats_to_be_ignored (collectExtension q.first q.name))
    (hne : collectExtension q.first q.name ≠ [])
    (hblank : ∀ c ∈ collectExtension q.first q.name, isBlank c = false) :
    collectExtension q.first q.name ∈
      (collectFile formats_to_be_ignored file_actual_name v q).selected_formats := by
  unfold collectFile
  simp only []
  rw [if_pos hname, if_pos hnot]
  by_cases hin : mentions v.selected_formats (collectExtension q.first q.name)
  · rw [if_neg (not_not.mpr hin)]
    -- in a list of words, what is found is there
    exact (mentions_of_words hne (noSpace_of_noBlank hblank)
      fun x hx => noSpace_of_noBlank (h x hx).2).mp hin
  · rw [if_pos hin]
    apply List.mem_append_right
    rw [split_of_noBlank hne hblank]
    exact List.mem_singleton_self _

theorem foldl_collectFile_words (fs : List Visit) {v : Formats} (h : Words v.selected_formats) :
    Words (fs.foldl (collectFile formats_to_be_ignored file_actual_name) v).selected_formats := by
  induction fs generalizing v with
  | nil => exact h
  | cons q fs ih => exact ih (collectFile_words h q)

theorem foldl_collectFile_grows (fs : List Visit) {v : Formats} {w : Word} (h : w ∈ v.selected_formats) :
    w ∈ (fs.foldl (collectFile formats_to_be_ignored file_actual_name) v).selected_formats := by
  induction fs generalizing v with
  | nil => exact h
  | cons q fs ih => exact ih (collectFile_grows v q h)

theorem foldl_collectFile_adds {fs : List Visit} {v : Formats} (h : Words v.selected_formats) {q : Visit}
    (hq : q ∈ fs) (hname : q.name ≠ file_actual_name)
    (hnot : ¬ mentions formats_to_be_ignored (collectExtension q.first q.name))
    (hne : collectExtension q.first q.name ≠ [])
    (hblank : ∀ c ∈ collectExtension q.first q.name, isBlank c = false) :
    collectExtension q.first q.name ∈
      (fs.foldl (collectFile formats_to_be_ignored file_actual_name) v).selected_formats := by
  obtain ⟨before, after, rfl⟩ := List.append_of_mem hq
  rw [List.foldl_append, List.foldl_cons]
  apply foldl_collectFile_grows
  exact collectFile_adds (foldl_collectFile_words before h) hname hnot hne hblank

end Collect

theorem moveFile_eq_some {list : List Word} {actual w : Word} {q : Visit} :
    moveFile list actual q = some w ↔
      q.name ≠ actual ∧ ¬ mentions list w ∧ moveExtension q.second q.name = w := by
  unfold moveFile
  simp only []
  constructor
  · intro h
    split_ifs at h with hname hnot
    cases h
    exact ⟨hname, hnot, rfl⟩
  · intro h
    obtain ⟨hname, hnot, rfl⟩ := h
    rw [if_pos hname, if_pos hnot]

/-- What follows the last dot of two words put together. -/
theorem afterLast_append (a b : Word) :
    afterLast ['.'] (a ++ b) = (afterLast ['.'] b).or ((afterLast ['.'] a).map (· ++ b)) := by
  induction a with
  | nil => simp [afterLast]
  | cons c a ih =>
    rw [List.cons_append, afterLast, ih, afterLast]
    cases afterLast ['.'] b with
    | some r => rfl
    | none =>
      cases afterLast ['.'] a with
      | some r => rfl
      | none =>
        by_cases hc : c = '.'
        · simp [hc]
        · simp [Ne.symm hc]

theorem extension_of_noDot {w : Word} (h : '.' ∉ w) : Organiser.get_file_extension w = OTHERS := by
  unfold Organiser.get_file_extension
  have hnil : w.filter (· = '.') = [] := by
    rw [List.filter_eq_nil_iff]
    intro c hc
    simpa using fun heq : c = '.' => h (heq ▸ hc)
  simp [hnil]

theorem extension_of_dot {w r : Word} (h : afterLast ['.'] w = some r) : Organiser.get_file_extension w = r := by
  have hdot : '.' ∈ w := by
    by_contra hn
    rw [afterLast_dot.1.mpr hn] at h
    cases h
  unfold Organiser.get_file_extension
  have hne : (w.filter (· = '.')).length ≠ 0 := by
    rw [ne_eq, List.length_eq_zero_iff, List.filter_eq_nil_iff]
    intro hall
    exact hall '.' hdot (by simp)
  simp only []
  rw [if_neg hne, trimTo, h, Option.getD_some]

theorem extension_noBlank {w : Word} (hw : ' ' ∉ w) : ' ' ∉ Organiser.get_file_extension w := by
  rcases (get_file_extension_spec w).2 with h | h
  · rw [h]
    decide
  · exact fun hmem => hw (h.subset hmem)

/-- The extension of several words is that of the last one, if there is a
    dot in it or in none of them; else there is a blank in it. -/
theorem extension_join (w last : Word) :
    ('.' ∈ last → Organiser.get_file_extension (w ++ ' ' :: last) = Organiser.get_file_extension last) ∧
    ('.' ∉ w → '.' ∉ last → Organiser.get_file_extension (w ++ ' ' :: last) = OTHERS) ∧
    ('.' ∈ w → '.' ∉ last → ' ' ∈ Organiser.get_file_extension (w ++ ' ' :: last)) := by
  have hjoin : w ++ ' ' :: last = (w ++ [' ']) ++ last := by simp
  refine ⟨?_, ?_, ?_⟩
  · intro hlast
    obtain ⟨r, hr⟩ := Option.ne_none_iff_exists'.mp (fun h => afterLast_dot.1.mp h hlast)
    rw [extension_of_dot hr]
    apply extension_of_dot
    rw [hjoin, afterLast_append, hr]
    rfl
  · intro hw hlast
    apply extension_of_noDot
    simp [hw, hlast]
  · intro hw hlast
    obtain ⟨r, hr⟩ := Option.ne_none_iff_exists'.mp (fun h => afterLast_dot.1.mp h hw)
    have hblank : afterLast ['.'] (w ++ [' ']) = some (r ++ [' ']) := by
      rw [afterLast_append, hr]
      rfl
    have hall : afterLast ['.'] (w ++ ' ' :: last) = some (r ++ [' '] ++ last) := by
      rw [hjoin, afterLast_append, afterLast_dot.1.mpr hlast, hblank]
      rfl
    rw [extension_of_dot hall]
    simp

section Ordinary

variable (sh : Bash) {f : Word}

/-- A name whose words are ordinary and which no command takes for an option. -/
structure OrdinaryName (f : Word) : Prop where
  words : ∀ w ∈ split f, Ordinary w
  noOption : ∀ w ∈ (split f).head?, w.head? ≠ some '-'

theorem fields_of_ordinary (h : ∀ w ∈ split f, Ordinary w) : sh.fields f = split f := by
  unfold Bash.fields
  have hall : ∀ ws : List Word, (∀ w ∈ ws, Ordinary w) → ws.flatMap sh.expand = ws := by
    intro ws hws
    induction ws with
    | nil => rfl
    | cons w ws ih =>
      rw [List.flatMap_cons, sh.expand_ordinary w (hws w List.mem_cons_self),
        ih fun x hx => hws x (List.mem_cons_of_mem w hx)]
      rfl
  exact hall _ h

theorem moveExtension_of_ordinary (h : OrdinaryName f) :
    moveExtension sh f = Organiser.get_file_extension ([' '].intercalate (split f)) := by
  rw [moveExtension, get_file_extension, fields_of_ordinary sh h.words, sh.xargs_ordinary _ h.words h.noOption]

theorem noBlank_of_ordinary {w : Word} (h : Ordinary w) : ∀ c ∈ w, isBlank c = false := by
  intro c hc
  have hspecial := h.2 c hc
  by_contra hblank
  rw [Bool.not_eq_false] at hblank
  simp only [isBlank, Bool.or_eq_true, decide_eq_true_eq] at hblank
  rcases hblank with (rfl | rfl) | rfl
  · exact hspecial (by decide)
  · exact hspecial (by decide)
  · exact hspecial (by decide)

theorem collectExtension_of_ordinary (h : OrdinaryName f) :
    collectExtension sh f = Organiser.get_file_extension ((split f).headD []) := by
  rw [collectExtension, fields_of_ordinary sh h.words, get_file_extension]
  cases hsplit : split f with
  | nil =>
    have hnil : sh.fields [] = [] := rfl
    rw [List.headD_nil, hnil, sh.xargs_ordinary [] (by simp) (by simp)]
    rfl
  | cons w ws =>
    have hw : Ordinary w := h.words w (hsplit ▸ List.mem_cons_self)
    have hone : split w = [w] := split_of_noBlank hw.1 (noBlank_of_ordinary hw)
    have hfields : sh.fields w = [w] := by
      rw [Bash.fields, hone, List.flatMap_singleton, sh.expand_ordinary w hw]
    rw [List.headD_cons, hfields, sh.xargs_ordinary [w]]
    · simp
    · intro x hx
      rwa [List.mem_singleton.mp hx]
    · intro x hx
      cases hx
      exact h.noOption w (by rw [hsplit]; exact rfl)

end Ordinary

theorem intercalate_snoc {ws : List Word} (hne : ws ≠ []) (last : Word) :
    [' '].intercalate (ws ++ [last]) = [' '].intercalate ws ++ ' ' :: last := by
  induction ws with
  | nil => exact absurd rfl hne
  | cons w ws ih =>
    cases ws with
    | nil => simp [List.intercalate_cons_cons]
    | cons w' ws =>
      have hrest := ih (List.cons_ne_nil w' ws)
      rw [List.cons_append, List.cons_append, List.intercalate_cons_cons, List.intercalate_cons_cons,
        ← List.cons_append, hrest, List.append_assoc, List.append_assoc, List.append_assoc]

theorem dot_mem_intercalate {ws : List Word} : '.' ∈ [' '].intercalate ws ↔ ∃ w ∈ ws, '.' ∈ w := by
  induction ws with
  | nil => simp
  | cons w ws ih =>
    cases ws with
    | nil => simp
    | cons w' ws =>
      rw [List.intercalate_cons_cons, List.mem_append, List.mem_append, ih]
      simp

/-- On a name of ordinary words the passes find one extension just when it
    is one word, or has no dot, or its last word has one and the extension
    of the first. -/
theorem extensions_eq_iff (sh₁ sh₂ : Bash) {f : Word} (h : OrdinaryName f) :
    collectExtension sh₁ f = moveExtension sh₂ f ↔
      (split f).length ≤ 1 ∨ (∀ w ∈ split f, '.' ∉ w) ∨
        ∃ last ∈ (split f).getLast?, '.' ∈ last ∧
          Organiser.get_file_extension ((split f).headD []) = Organiser.get_file_extension last := by
  rw [collectExtension_of_ordinary sh₁ h, moveExtension_of_ordinary sh₂ h]
  have hblank : ∀ w ∈ split f, ' ' ∉ w := fun w hw => noSpace_of_noBlank (mem_split hw).2.1
  generalize split f = ws at hblank
  rcases List.eq_nil_or_concat ws with rfl | ⟨init, last, rfl⟩
  · simp
  · rw [List.concat_eq_append] at hblank ⊢
    cases init with
    | nil => simp
    | cons first mid =>
      obtain ⟨hlast, hnone, hearlier⟩ := extension_join ([' '].intercalate (first :: mid)) last
      rw [intercalate_snoc (List.cons_ne_nil first mid)]
      have hlong : ¬ (first :: mid ++ [last]).length ≤ 1 := by simp
      have hhead : (first :: mid ++ [last]).headD [] = first := rfl
      have hfirst : ' ' ∉ Organiser.get_file_extension first :=
        extension_noBlank (hblank first (by simp))
      rw [hhead, List.getLast?_append_of_ne_nil _ (by simp), List.getLast?_singleton]
      simp only [hlong, false_or, Option.mem_some_iff, exists_eq_left']
      by_cases hdot : '.' ∈ last
      · rw [hlast hdot]
        constructor
        · intro heq
          exact Or.inr ⟨hdot, heq⟩
        · intro hor
          rcases hor with hall | ⟨-, heq⟩
          · exact absurd hdot (hall last (by simp))
          · exact heq
      · by_cases hany : '.' ∈ [' '].intercalate (first :: mid)
        · -- the extension of the whole name has a blank in it
          have hin := hearlier hany hdot
          constructor
          · intro heq
            rw [← heq] at hin
            exact absurd hin hfirst
          · intro hor
            rcases hor with hall | ⟨hmem, -⟩
            · obtain ⟨w, hw, hwdot⟩ := dot_mem_intercalate.mp hany
              exact absurd hwdot (hall w (List.mem_append_left _ hw))
            · exact absurd hmem hdot
        · have hall : ∀ w ∈ first :: mid, '.' ∉ w := fun w hw hmem => hany (dot_mem_intercalate.mpr ⟨w, hw, hmem⟩)
          rw [hnone hany hdot, extension_of_noDot (hall first List.mem_cons_self)]
          refine ⟨fun _ => Or.inl ?_, fun _ => rfl⟩
          intro w hw
          rcases List.mem_append.mp hw with hw | hw
          · exact hall w hw
          · rwa [List.mem_singleton.mp hw]

/-! ### Plain names -/

theorem ordinaryName_of_plain {f : Word} (h : Plain f) : split f = [f] ∧ OrdinaryName f := by
  have hf : Ordinary f := ⟨h.nonempty, h.ordinary⟩
  have hone : split f = [f] := split_of_noBlank hf.1 (noBlank_of_ordinary hf)
  refine ⟨hone, ?_, ?_⟩
  · intro w hw
    rw [hone, List.mem_singleton] at hw
    rwa [hw]
  · intro w hw
    rw [hone] at hw
    cases hw
    exact h.noOption

/-- On a plain name both passes find the extension of the name. -/
theorem extensions_plain (sh : Bash) {f : Word} (h : Plain f) :
    collectExtension sh f = Organiser.get_file_extension f ∧
      moveExtension sh f = Organiser.get_file_extension f := by
  obtain ⟨hone, hordinary⟩ := ordinaryName_of_plain h
  rw [collectExtension_of_ordinary sh hordinary, moveExtension_of_ordinary sh hordinary, hone]
  exact ⟨rfl, by simp⟩

theorem isBlank_others : ∀ c ∈ OTHERS, isBlank c = false := by
  intro c hc
  simp only [OTHERS, List.mem_cons, List.not_mem_nil, or_false] at hc
  rcases hc with rfl | rfl | rfl | rfl | rfl | rfl
  all_goals rfl

/-- On plain names the first pass is that of `Script`. -/
theorem collectFile_plain (v : Vars) (q : Path) (sh₁ sh₂ : Bash) (h : Plain (fileName q)) :
    collectFile v.formats_to_be_ignored v.file_actual_name ⟨v.selected_formats, v.ignored_file_count⟩
        ⟨fileName q, sh₁, sh₂⟩ =
      ⟨(Organiser.collectFile v q).selected_formats, (Organiser.collectFile v q).ignored_file_count⟩ := by
  have hsplit : split (Organiser.get_file_extension (fileName q)) =
      if Organiser.get_file_extension (fileName q) = [] then []
      else [Organiser.get_file_extension (fileName q)] := by
    split
    next hnil =>
      rw [hnil]
      rfl
    next hne =>
      apply split_of_noBlank hne
      intro c hc
      rcases (get_file_extension_spec (fileName q)).2 with hothers | hsuffix
      · rw [hothers] at hc
        exact isBlank_others c hc
      · exact noBlank_of_ordinary ⟨h.nonempty, h.ordinary⟩ c (hsuffix.subset hc)
  unfold collectFile Organiser.collectFile
  simp only [(extensions_plain sh₁ h).1, hsplit]
  split_ifs
  all_goals rfl

/-! ### Where they do not agree -/

/-- The shell in a directory where nothing matches, on names without quotes,
    backslashes and options. -/
def bash : Bash where
  expand w := [w]
  xargs ws := [' '].intercalate ws
  expand_ordinary := fun _ _ => rfl
  xargs_ordinary := fun _ _ _ => rfl

/-- A file with that name, in such a directory. -/
def file (name : String) : Visit := ⟨name.toList, bash, bash⟩

end Organiser.Unquoted
