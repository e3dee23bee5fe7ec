import OperatingSystem314.Lib.Folders
import OperatingSystem314.Organiser.WorkingDir
import OperatingSystem314.Organiser.Words

/-! # What the script makes in `output_dir`

    `output_dir` keeps folders of files (`Keeps`): `make_directories`
    makes one for each format, with an empty description, and each `mv`
    files one more (`Keeps.move`).

    * `foldl_moveFile_keeps`: so the second pass files its files, and
      what they replace depends on their names only.
    * `counts_foldl_countFormat`: the last loop counts what is listed. -/

namespace Organiser

open FileTree

/-- The part of `output_dir` that is in the folders of the formats. -/
abbrev Output : Type := Folders Word Word Char

/-! ### Two commands -/

section commands

variable {t : Tree} {p q : Path} {n : Word} {d : List Char}

theorem append_node (hp : t.IsDir p) (hn : ¬ t.IsDir (n :: p)) (text : List Char) :
    (append t (n :: p) text).node =
      Function.update t.node (n :: p) (some (.file ((t.read (n :: p)).getD [] ++ text))) :=
  write_node hp hn

/-- `mv` of a file into a directory. -/
theorem mv_node {r : Path} (hp : t.IsDir p) (hn : ¬ t.IsDir (fileName q :: p)) (hread : t.read q = some d)
    (hq : ¬ p <:+ q) (hr : r ≠ q) :
    (mv t q p).node r = Function.update t.node (fileName q :: p) (some (.file d)) r := by
  have hfile : t.IsFile q := isFile_iff.mpr ⟨d, read_eq_some.mp hread⟩
  have htarget : mvTarget t q p = fileName q :: p := by
    rw [mvTarget, if_pos hp]
    cases q with
    | nil => exact absurd t.root hfile.not_isDir
    | cons m q => rfl
  have hne : fileName q :: p ≠ q := fun heq => hq (heq ▸ List.suffix_cons _ p)
  have hsame : ∀ {r}, r ≠ q → (t.remove q).node r = t.node r := fun hr => remove_file_node hfile hr
  have hp' : (t.remove q).IsDir p := (isDir_congr (hsame fun heq => hq (heq ▸ List.suffix_refl p))).mpr hp
  have hn' : ¬ (t.remove q).IsDir (fileName q :: p) := fun h => hn ((isDir_congr (hsame hne)).mp h)
  unfold mv
  simp only [htarget]
  rw [if_pos ⟨hfile, hne, hn, hp⟩, rename, hread]
  show ((t.remove q).write (fileName q :: p) d).node r = _
  rw [write_node hp' hn', Function.update_apply, Function.update_apply, hsame hr]

/-- `mv` of a file into a directory, and the line for it. -/
theorem mv_append_node {r : Path} (hp : t.IsDir p) (hfiles : ∀ m ∈ [fileName q, DESC_TXT], ¬ t.IsDir (m :: p))
    (hread : t.read q = some d) (hq : ¬ p <:+ q) (hr : r ≠ q) (text : List Char) :
    (append (mv t q p) (DESC_TXT :: p) text).node r =
      if r = DESC_TXT :: p then
        some (.file ((if fileName q = DESC_TXT then some d else t.read (DESC_TXT :: p)).getD [] ++ text))
      else if r = fileName q :: p then some (.file d) else t.node r := by
  have hn := hfiles (fileName q) (by simp)
  have hdesc := hfiles DESC_TXT (by simp)
  have hne : ∀ {r}, p <:+ r → r ≠ q := fun hr heq => hq (heq ▸ hr)
  have hmv : ∀ {r}, r ≠ q → (mv t q p).node r = Function.update t.node (fileName q :: p) (some (.file d)) r :=
    fun hr => mv_node hp hn hread hq hr
  have hp' : (mv t q p).IsDir p := by
    rw [IsDir, hmv (hne (List.suffix_refl p)), Function.update_of_ne (List.cons_ne_self _ _).symm]
    exact hp
  have hread' : (mv t q p).read (DESC_TXT :: p) = if fileName q = DESC_TXT then some d else t.read (DESC_TXT :: p) := by
    by_cases hname : fileName q = DESC_TXT
    · rw [if_pos hname, read_eq_some, hmv (hne (List.suffix_cons _ p)), hname, Function.update_self]
    · rw [if_neg hname]
      apply read_congr
      rw [hmv (hne (List.suffix_cons _ p)), Function.update_of_ne]
      exact fun heq => hname (List.cons.inj heq).1.symm
  have hdesc' : ¬ (mv t q p).IsDir (DESC_TXT :: p) := by
    rw [IsDir, hmv (hne (List.suffix_cons _ p)), Function.update_apply]
    split
    · exact nofun
    · exact hdesc
  rw [append_node hp' hdesc', Function.update_apply, hread', hmv hr, Function.update_apply]

end commands

/-! ### The folders -/

/-- Directory `p` has a folder for each format, with these files. -/
structure Keeps (t : Tree) (p : Path) (formats : List Word) (o : Output) : Prop where
  isDir : t.IsDir p
  folders : ∀ f, t.IsDir (f :: p) ↔ f ∈ formats
  files : ∀ f ∈ formats, ∀ n, t.node (n :: f :: p) = (o f n).map .file

namespace Keeps

variable {t : Tree} {p : Path} {formats : List Word} {o : Output} {f n : Word}

theorem read (h : Keeps t p formats o) (hf : f ∈ formats) : t.read (n :: f :: p) = o f n := by
  unfold FileTree.read
  rw [h.files f hf n]
  cases o f n
  all_goals rfl

theorem not_isDir (h : Keeps t p formats o) (hf : f ∈ formats) : ¬ t.IsDir (n :: f :: p) := by
  rw [IsDir, h.files f hf n]
  cases o f n
  all_goals exact nofun

end Keeps

/-- Formats are not empty, and have no dot. -/
def Formats (formats : List Word) : Prop := ∀ f ∈ formats, f ≠ [] ∧ '.' ∉ f

/-- What the second pass files for a file. -/
def entry (t : Tree) (v : Vars) (q : Path) : Folders.Entry Word Word Char where
  folder := get_file_extension (fileName q)
  name := fileName q
  text := (t.read q).getD []
  note := echo (relative_path v q)

theorem dot_of_extension_nil {n : Word} (h : get_file_extension n = []) : '.' ∈ n := by
  unfold get_file_extension at h
  simp only [List.length_eq_zero_iff, List.filter_eq_nil_iff] at h
  split at h
  · cases h
  next hdot => simpa using hdot

section move

variable {t : Tree} {p q : Path} {formats : List Word} {o : Output} {d : List Char}

/-- A file with an empty extension goes to `output_dir` itself. -/
theorem Keeps.move_beside (h : Keeps t p formats o) (hformats : Formats formats) (hread : t.read q = some d)
    (hq : ¬ p <:+ q) (hext : get_file_extension (fileName q) = []) (text : List Char) :
    Keeps (append (mv t q p) (DESC_TXT :: p) text) p formats o := by
  have hfiles : ∀ m ∈ [fileName q, DESC_TXT], ¬ t.IsDir (m :: p) := by
    intro m hm hdir
    apply (hformats m ((h.folders m).mp hdir)).2
    rcases List.mem_cons.mp hm with rfl | hm
    · exact dot_of_extension_nil hext
    · rw [List.mem_singleton.mp hm]
      decide
  have hnode : ∀ {r}, p <:+ r → _ := fun {r} hr =>
    mv_append_node (r := r) h.isDir hfiles hread hq (fun heq => hq (heq ▸ hr)) text
  refine ⟨?_, ?_, ?_⟩
  · rw [IsDir, hnode (List.suffix_refl p), if_neg (List.cons_ne_self _ _).symm,
      if_neg (List.cons_ne_self _ _).symm]
    exact h.isDir
  · intro f
    rw [← h.folders f, IsDir, hnode (List.suffix_cons f p)]
    by_cases hdesc : f :: p = DESC_TXT :: p
    · rw [if_pos hdesc, (List.cons.inj hdesc).1]
      exact iff_of_false nofun (hfiles DESC_TXT (by simp))
    · rw [if_neg hdesc]
      by_cases hname : f :: p = fileName q :: p
      · rw [if_pos hname, (List.cons.inj hname).1]
        exact iff_of_false nofun (hfiles (fileName q) (by simp))
      · rw [if_neg hname]
        exact Iff.rfl
  · intro f hf n
    rw [hnode ((List.suffix_cons f p).trans (List.suffix_cons n _)), ← h.files f hf n, if_neg, if_neg]
    all_goals exact fun heq => List.cons_ne_self _ _ (List.cons.inj heq).2

/-- The others go to the folders of their formats. -/
theorem Keeps.move_in {e : Word} (h : Keeps t p formats o) (hread : t.read q = some d) (hq : ¬ p <:+ q)
    (he : e ∈ formats) (text : List Char) :
    Keeps (append (mv t q (e :: p)) (DESC_TXT :: e :: p) text) p formats
      (Folders.add DESC_TXT o ⟨e, fileName q, d, text⟩) := by
  have hdir : t.IsDir (e :: p) := (h.folders e).mpr he
  have hnode : ∀ {r}, p <:+ r → _ := fun {r} hr =>
    mv_append_node (r := r) hdir (fun m _ => h.not_isDir he) hread
      (fun hs => hq ((List.suffix_cons e p).trans hs)) (fun heq => hq (heq ▸ hr)) text
  -- a path of another length
  have hlen : ∀ {r : Path} (n : Word), r.length < p.length + 2 → r ≠ n :: e :: p := by
    rintro r n hr rfl
    simp at hr
  refine ⟨?_, ?_, ?_⟩
  · rw [IsDir, hnode (List.suffix_refl p), if_neg (hlen _ (by omega)), if_neg (hlen _ (by omega))]
    exact h.isDir
  · intro f
    rw [← h.folders f, IsDir, hnode (List.suffix_cons f p), if_neg (hlen _ (by simp)), if_neg (hlen _ (by simp))]
    exact Iff.rfl
  · intro f hf n
    rw [hnode ((List.suffix_cons f p).trans (List.suffix_cons n _)), h.read he, h.files f hf n]
    by_cases hfe : f = e
    · subst hfe
      by_cases hdesc : n = DESC_TXT
      · subst hdesc
        by_cases hname : fileName q = DESC_TXT
        · simp [Folders.add, hname]
        · simp [Folders.add, hname, Ne.symm hname]
      · by_cases hname : n = fileName q
        · simp [Folders.add, hname, hname ▸ hdesc]
        · simp [Folders.add, hname, hdesc]
    · rw [Folders.add_folder_ne hfe]
      simp [hfe]

end move

/-! ### The second pass -/

/-- Is the file moved to the folder of a format? -/
def Filed (v : Vars) (q : Path) : Prop := Chosen v q ∧ get_file_extension (fileName q) ≠ []

instance (v : Vars) (q : Path) : Decidable (Filed v q) := by
  unfold Filed Chosen; infer_instance

/-- The files of a list that are, as entries. -/
def entries (t : Tree) (v : Vars) (l : List Path) : List (Folders.Entry Word Word Char) :=
  (l.filter fun q => Filed v q).map (entry t v)

/-- The variables that the second pass changes. -/
theorem moveFile_frame (v : Vars) (q : Path) :
    ∃ tree visited moved overwritten, moveFile v q = { v with tree, visited, moved, overwritten } := by
  by_cases h : Chosen v q
  · exact ⟨_, _, _, _, moveFile_moves h⟩
  · exact ⟨_, _, _, _, moveFile_skips h⟩

theorem foldl_moveFile_frame (l : List Path) (v : Vars) :
    ∃ tree visited moved overwritten, l.foldl moveFile v = { v with tree, visited, moved, overwritten } := by
  induction l generalizing v with
  | nil => exact ⟨_, _, _, _, rfl⟩
  | cons q l ih =>
    obtain ⟨_, _, _, _, hq⟩ := moveFile_frame v q
    obtain ⟨_, _, _, _, hl⟩ := ih (moveFile v q)
    rw [List.foldl_cons, hl, hq]
    exact ⟨_, _, _, _, rfl⟩

section filing

variable {t : Tree} {p : Path} {formats : List Word} {v : Vars} {o : Output} {q : Path}

theorem entries_cons_filed {l : List Path} (h : Filed v q) : entries t v (q :: l) = entry t v q :: entries t v l := by
  simp [entries, h]

theorem entries_cons_not {l : List Path} (h : ¬ Filed v q) : entries t v (q :: l) = entries t v l := by
  simp [entries, h]

theorem entries_congr {v' : Vars} {tree : Tree} {visited moved overwritten : List Path} {l : List Path}
    (h : v' = { v with tree, visited, moved, overwritten }) : entries t v' l = entries t v l := by
  subst h
  rfl

/-- One file of the pass, with what it adds. -/
theorem moveFile_keeps (hp : p = OUTPUT_DIR :: v.output_dir_path) (hformats : Formats formats)
    (h : Keeps v.tree p formats o) (hfile : t.IsFile q) (hsame : v.tree.node q = t.node q) (hq : ¬ p <:+ q)
    (hext : Filed v q → get_file_extension (fileName q) ∈ formats) :
    Keeps (moveFile v q).tree p formats ((entries t v [q]).foldl (Folders.add DESC_TXT) o) := by
  obtain ⟨d, hd⟩ := Option.isSome_iff_exists.mp hfile
  have hread : v.tree.read q = some d := (read_congr hsame).trans hd
  by_cases hc : Chosen v q
  · rw [moveFile_moves hc]
    by_cases hnil : get_file_extension (fileName q) = []
    · rw [entries_cons_not fun hf => hf.2 hnil]
      simp only [Vars.formatDir, hnil, if_true, ← hp]
      exact h.move_beside hformats hread hq hnil _
    · rw [entries_cons_filed ⟨hc, hnil⟩]
      simp only [Vars.formatDir, hnil, if_false, ← hp]
      have hmove := h.move_in hread hq (hext ⟨hc, hnil⟩) (echo (relative_path v q))
      have hentry : entry t v q = ⟨get_file_extension (fileName q), fileName q, d, echo (relative_path v q)⟩ := by
        rw [entry, hd]
        rfl
      rwa [← hentry] at hmove
  · rw [moveFile_skips hc, entries_cons_not fun hf => hc hf.1]
    exact h

/-- Nothing is replaced where there is nothing. -/
theorem moveFile_overwritten (hp : p = OUTPUT_DIR :: v.output_dir_path) (h : Keeps v.tree p formats o)
    (hext : Chosen v q → get_file_extension (fileName q) ∈ formats ∧ get_file_extension (fileName q) ≠ [])
    (hq : q ≠ []) (hnone : Chosen v q → o (get_file_extension (fileName q)) (fileName q) = none) :
    (moveFile v q).overwritten = v.overwritten := by
  by_cases hc : Chosen v q
  · obtain ⟨hmem, hnil⟩ := hext hc
    rw [moveFile_moves hc]
    simp only [Vars.formatDir, hnil, if_false, ← hp]
    have hdst : mvTarget v.tree q (get_file_extension (fileName q) :: p) =
        fileName q :: get_file_extension (fileName q) :: p := by
      rw [mvTarget, if_pos ((h.folders _).mpr hmem)]
      cases q with
      | nil => exact absurd rfl hq
      | cons n q => rfl
    have hfree : ¬ v.tree.IsFile (fileName q :: get_file_extension (fileName q) :: p) := by
      rw [IsFile, h.read hmem, hnone hc]
      exact Bool.false_ne_true
    simp [mvReplaces, hdst, hfree]
  · rw [moveFile_skips hc]

/-- The whole pass, over files that lie outside `output_dir`. -/
theorem foldl_moveFile_keeps (hp : p = OUTPUT_DIR :: v.output_dir_path) (hformats : Formats formats)
    (h : Keeps v.tree p formats o) {l : List Path} (hnd : l.Nodup)
    (hl : ∀ q ∈ l, t.IsFile q ∧ v.tree.node q = t.node q ∧ ¬ p <:+ q)
    (hext : ∀ q ∈ l, Filed v q → get_file_extension (fileName q) ∈ formats) :
    Keeps (l.foldl moveFile v).tree p formats ((entries t v l).foldl (Folders.add DESC_TXT) o) ∧
      ((∀ q ∈ l, Chosen v q → Filed v q) → Folders.Distinct DESC_TXT (entries t v l) →
        (∀ e ∈ entries t v l, o e.folder e.name = none) → (l.foldl moveFile v).overwritten = v.overwritten) := by
  induction l generalizing v o with
  | nil => exact ⟨h, fun _ _ _ => rfl⟩
  | cons q l ih =>
    obtain ⟨hnotin, hnd⟩ := List.nodup_cons.mp hnd
    obtain ⟨hfile, hsame, hq⟩ := hl q List.mem_cons_self
    have hstep := moveFile_keeps hp hformats h hfile hsame hq (hext q List.mem_cons_self)
    obtain ⟨_, _, _, _, hframe⟩ := moveFile_frame v q
    have hchosen : ∀ r, Chosen (moveFile v q) r ↔ Chosen v r := by
      intro r
      rw [hframe]
      exact Iff.rfl
    have hfiled : ∀ r, Filed (moveFile v q) r ↔ Filed v r := fun r => and_congr_left' (hchosen r)
    have hout : (moveFile v q).output_dir_path = v.output_dir_path := (moveFile_outside v q).1
    -- the files to come are where they were
    have hl' : ∀ r ∈ l, t.IsFile r ∧ (moveFile v q).tree.node r = t.node r ∧ ¬ p <:+ r := by
      intro r hr
      obtain ⟨hfile', hsame', hr'⟩ := hl r (List.mem_cons_of_mem q hr)
      refine ⟨hfile', ?_, hr'⟩
      rw [← hsame']
      refine (moveFile_outside v q).2.2.2 r (hp ▸ hr') ?_
      rintro rfl
      exact hnotin hr
    obtain ⟨hkeeps, hover⟩ := ih (v := moveFile v q) (o := (entries t v [q]).foldl (Folders.add DESC_TXT) o)
      (by rw [hout, hp]) hstep hnd hl' fun r hr hf => hext r (List.mem_cons_of_mem q hr) ((hfiled r).mp hf)
    rw [entries_congr hframe] at hkeeps hover
    have hcons : entries t v (q :: l) = entries t v [q] ++ entries t v l := by
      by_cases hf : Filed v q
      · rw [entries_cons_filed hf, entries_cons_filed hf]
        rfl
      · rw [entries_cons_not hf, entries_cons_not hf]
        rfl
    refine ⟨?_, ?_⟩
    · rw [List.foldl_cons, hcons, List.foldl_append]
      exact hkeeps
    · intro hall hdistinct hnone
      have hself : (moveFile v q).overwritten = v.overwritten := by
        refine moveFile_overwritten hp h ?_ ?_ ?_
        · intro hc
          have hf := hall q List.mem_cons_self hc
          exact ⟨hext q List.mem_cons_self hf, hf.2⟩
        · rintro rfl
          exact hfile.not_isDir t.root
        · intro hc
          have hf := hall q List.mem_cons_self hc
          refine hnone (entry t v q) ?_
          rw [entries_cons_filed hf]
          exact List.mem_cons_self
      rw [List.foldl_cons, hover, hself]
      · intro r hr hc
        exact (hfiled r).mpr (hall r (List.mem_cons_of_mem q hr) ((hchosen r).mp hc))
      · by_cases hf : Filed v q
        · rw [entries_cons_filed hf] at hdistinct
          exact hdistinct.tail
        · rwa [entries_cons_not hf] at hdistinct
      · intro e he
        by_cases hf : Filed v q
        · rw [entries_cons_filed hf] at hdistinct hnone ⊢
          exact (hdistinct.add_eq he).trans (hnone e (List.mem_cons_of_mem _ he))
        · rw [entries_cons_not hf] at hnone ⊢
          exact hnone e he

end filing

/-! ### Before the second pass -/

/-- One file of the first pass. -/
theorem mem_collectFile {v : Vars} {q : Path} (hplain : Plain (fileName q)) (hsel : ∀ f ∈ v.selected_formats, ' ' ∉ f)
    (g : Word) :
    g ∈ (collectFile v q).selected_formats ↔
      g ∈ v.selected_formats ∨ Filed v q ∧ get_file_extension (fileName q) = g := by
  by_cases hf : Filed v q
  · obtain ⟨⟨hname, hformat⟩, hnil⟩ := hf
    have hmentions := mentions_of_words hnil (get_file_extension_noBlank hplain) hsel
    by_cases hmem : get_file_extension (fileName q) ∈ v.selected_formats
    · simp only [collectFile, if_pos hname, if_pos hformat, hmentions.mpr hmem, not_true_eq_false, if_false]
      refine ⟨.inl, ?_⟩
      rintro (hg | ⟨-, rfl⟩)
      · exact hg
      · exact hmem
    · have hnot : ¬ mentions v.selected_formats (get_file_extension (fileName q)) := fun hm => hmem (hmentions.mp hm)
      simp only [collectFile, if_pos hname, if_pos hformat, if_pos hnot, hnil, if_false, List.mem_append,
        List.mem_singleton]
      refine or_congr_right ?_
      exact ⟨fun hg => ⟨⟨⟨hname, hformat⟩, hnil⟩, hg.symm⟩, fun hg => hg.2.symm⟩
  · have hsame : (collectFile v q).selected_formats = v.selected_formats := by
      by_cases hname : fileName q = v.file_actual_name
      · simp [collectFile, hname]
      · by_cases hformat : mentions v.formats_to_be_ignored (get_file_extension (fileName q))
        · simp [collectFile, hname, hformat]
        · have hnil : get_file_extension (fileName q) = [] := by
            by_contra hnil
            exact hf ⟨⟨hname, hformat⟩, hnil⟩
          unfold collectFile
          simp only [if_pos hname, if_pos hformat, if_pos hnil, List.append_nil]
          split
          all_goals rfl
    rw [hsame]
    exact ⟨.inl, fun hg => hg.elim id fun hg => absurd hg.1 hf⟩

/-- Which formats the first pass selects. -/
theorem mem_selected {l : List Path} {v : Vars} (hplain : ∀ q ∈ l, Plain (fileName q))
    (hsel : ∀ f ∈ v.selected_formats, ' ' ∉ f) (f : Word) :
    f ∈ (l.foldl collectFile v).selected_formats ↔
      f ∈ v.selected_formats ∨ ∃ q ∈ l, Filed v q ∧ get_file_extension (fileName q) = f := by
  induction l generalizing v with
  | nil => simp
  | cons q l ih =>
    have hq := hplain q List.mem_cons_self
    have hstep := mem_collectFile hq hsel
    obtain ⟨_, _, hframe⟩ := collectFile_frame v q
    have hfiled : ∀ r, Filed (collectFile v q) r ↔ Filed v r := by
      intro r
      rw [hframe]
      exact Iff.rfl
    have hsel' : ∀ g ∈ (collectFile v q).selected_formats, ' ' ∉ g := by
      intro g hg
      rcases (hstep g).mp hg with hg | ⟨-, rfl⟩
      · exact hsel g hg
      · exact get_file_extension_noBlank hq
    rw [List.foldl_cons, ih (fun r hr => hplain r (List.mem_cons_of_mem q hr)) hsel', hstep]
    simp only [hfiled, List.mem_cons, exists_eq_or_imp, or_assoc]

/-- An `output_dir` in which only folders with empty descriptions have been made. -/
structure Fresh (t : Tree) (p : Path) (formats : List Word) : Prop where
  isDir : t.IsDir p
  folders : ∀ f, t.node (f :: p) = if f ∈ formats then some .dir else none
  files : ∀ f ∈ formats, ∀ n, t.node (n :: f :: p) = if n = DESC_TXT then some (.file []) else none

/-- The folders of the formats, each with its description. -/
def emptyFolders : Output := fun _ n => if n = DESC_TXT then some [] else none

namespace Fresh

variable {t : Tree} {p : Path} {formats : List Word} {v : Vars} {f : Word}

theorem keeps (h : Fresh t p formats) : Keeps t p formats emptyFolders := by
  refine ⟨h.isDir, ?_, ?_⟩
  · intro f
    rw [IsDir, h.folders]
    split
    next hf => exact iff_of_true rfl hf
    next hf => exact iff_of_false nofun hf
  · intro f hf n
    rw [h.files f hf, emptyFolders]
    split
    all_goals rfl

/-- One folder more. -/
theorem makeDirectory (hp : p = OUTPUT_DIR :: v.output_dir_path) (h : Fresh v.tree p formats) (hf : f ≠ []) :
    Fresh (makeDirectory v f).tree p (formats ++ [f]) := by
  have hout : v.tree.mkdir p = v.tree := mkdir_of_exists h.isDir.exists
  simp only [Organiser.makeDirectory, Vars.formatDir, if_neg hf, ← hp, hout]
  by_cases hmem : f ∈ formats
  · -- it is there already
    have hdir : v.tree.node (f :: p) ≠ none := by
      rw [h.folders, if_pos hmem]
      exact nofun
    have hdesc : (v.tree.node (DESC_TXT :: f :: p)).isSome := by
      rw [h.files f hmem, if_pos rfl]
      rfl
    have hiff : ∀ g, g ∈ formats ++ [f] ↔ g ∈ formats := by
      intro g
      rw [List.mem_append, List.mem_singleton]
      refine ⟨fun hg => hg.elim id ?_, .inl⟩
      rintro rfl
      exact hmem
    rw [mkdir_of_exists hdir, touch, if_pos hdesc]
    refine ⟨h.isDir, ?_, ?_⟩
    · intro g
      rw [h.folders, if_congr (hiff g) rfl rfl]
    · intro g hg
      exact h.files g ((hiff g).mp hg)
  · have hnone : v.tree.node (f :: p) = none := by rw [h.folders, if_neg hmem]
    have hbelow : ∀ n, v.tree.node (n :: f :: p) = none := by
      intro n
      by_contra hex
      have hdir := v.tree.parent hex
      rw [hnone] at hdir
      cases hdir
    have hmk := mkdir_node h.isDir hnone
    have hlen : ∀ {n g : Word}, g :: p ≠ n :: f :: p :=
      fun heq => List.cons_ne_self _ _ (List.cons.inj heq).2.symm
    have hdir' : (v.tree.mkdir (f :: p)).IsDir (f :: p) := by rw [IsDir, hmk, Function.update_self]
    have hnone' : (v.tree.mkdir (f :: p)).node (DESC_TXT :: f :: p) = none := by
      rw [hmk, Function.update_of_ne hlen.symm, hbelow]
    have htouch : (touch (v.tree.mkdir (f :: p)) (DESC_TXT :: f :: p)).node =
        Function.update (Function.update v.tree.node (f :: p) (some .dir)) (DESC_TXT :: f :: p) (some (.file [])) := by
      have hfree : ¬ (v.tree.mkdir (f :: p)).IsDir (DESC_TXT :: f :: p) := by
        rw [IsDir, hnone']
        exact nofun
      rw [touch, if_neg (by rw [hnone']; exact nofun), write_node hdir' hfree, hmk]
    refine ⟨?_, ?_, ?_⟩
    · rw [IsDir, htouch, Function.update_of_ne, Function.update_of_ne]
      · exact h.isDir
      · exact (List.cons_ne_self _ _).symm
      · intro heq
        have hlen := congrArg List.length heq
        simp only [List.length_cons] at hlen
        omega
    · intro g
      rw [htouch, Function.update_of_ne hlen, Function.update_apply, h.folders]
      by_cases hg : g = f
      · simp [hg]
      · simp [hg]
    · intro g hg n
      have hup : n :: g :: p ≠ f :: p := fun heq => List.cons_ne_self _ _ (List.cons.inj heq).2
      rw [htouch, Function.update_apply, Function.update_of_ne hup]
      rcases List.mem_append.mp hg with hg | hg
      · have hgf : g ≠ f := fun heq => hmem (heq ▸ hg)
        rw [h.files g hg]
        simp [hgf]
      · rw [List.mem_singleton.mp hg, hbelow]
        simp

theorem foldl_makeDirectory (hp : p = OUTPUT_DIR :: v.output_dir_path) {l : List Word} (h : Fresh v.tree p formats)
    (hl : ∀ f ∈ l, f ≠ []) : Fresh (l.foldl Organiser.makeDirectory v).tree p (formats ++ l) := by
  induction l generalizing v formats with
  | nil => rwa [List.append_nil]
  | cons f l ih =>
    have hstep := h.makeDirectory hp (hl f List.mem_cons_self)
    have hrest := ih (v := Organiser.makeDirectory v f) hp hstep fun g hg => hl g (List.mem_cons_of_mem f hg)
    rwa [List.append_assoc] at hrest

/-- After `rm -r`, `mkdir -p` and `touch`. -/
theorem emptyOutput {s : Shell} (hcwd : s.tree.IsDir s.cwd) (hout : s.vars.output_dir_path = s.cwd) :
    Fresh (emptyOutput s) (OUTPUT_DIR :: s.cwd) [] := by
  have hne : OUTPUT_DIR :: s.cwd ≠ [] := nofun
  have habove : ¬ OUTPUT_DIR :: s.cwd <:+ s.cwd := by
    intro h
    have hlen := h.length_le
    simp only [List.length_cons] at hlen
    omega
  have hcwd' : (s.tree.remove (OUTPUT_DIR :: s.cwd)).IsDir s.cwd := (isDir_congr (remove_node_ne habove)).mpr hcwd
  have hmk := mkdir_node hcwd' (remove_self_node (t := s.tree) hne)
  -- `output.csv` is not in it
  have hcsv : ∀ r, OUTPUT_DIR :: s.cwd <:+ r → (Organiser.emptyOutput s).node r =
      ((s.tree.remove (OUTPUT_DIR :: s.cwd)).mkdir (OUTPUT_DIR :: s.cwd)).node r := by
    intro r hr
    have hr' : r ≠ OUTPUT_CSV :: s.cwd := by
      rintro rfl
      exact absurd (hr.eq_of_length rfl) (by simp)
    unfold Organiser.emptyOutput
    simp only [hout]
    rw [append, write_node_ne hr', touch]
    split
    · rfl
    · rw [write_node_ne hr']
  refine ⟨?_, ?_, ?_⟩
  · rw [IsDir, hcsv _ (List.suffix_refl _), hmk, Function.update_self]
  · intro f
    rw [hcsv _ (List.suffix_cons f _), hmk, Function.update_of_ne (List.cons_ne_self _ _),
      remove_node hne, if_pos (List.suffix_cons f _)]
    simp
  · intro f hf
    cases hf

end Fresh

/-! ### The last loop -/

/-- The folders of a listing, with their numbers. -/
def counted (t : Tree) (p : Path) (l : List Word) : List (Word × Int) :=
  (l.filter fun f => t.IsDir (f :: p)).map fun f => (f, formatCount t (f :: p))

/-- The lines for them. -/
def csvLines (counts : List (Word × Int)) : List Char := counts.flatMap fun c => csvLine c.1 c.2

/-- All that is written is the end of `output.csv` in directory `p`. -/
structure Appends (p : Path) (t t' : Tree) (text : List Char) : Prop where
  node : ∀ r, r ≠ OUTPUT_CSV :: p → t'.node r = t.node r
  isDir : ∀ r, t'.IsDir r ↔ t.IsDir r
  text : ∀ old, t.read (OUTPUT_CSV :: p) = some old → t'.read (OUTPUT_CSV :: p) = some (old ++ text)

theorem append_read {t : Tree} {p : Path} {n : Word} (hp : t.IsDir p) (hn : ¬ t.IsDir (n :: p)) (text : List Char) :
    (append t (n :: p) text).read (n :: p) = some ((t.read (n :: p)).getD [] ++ text) := by
  rw [read_eq_some, append_node hp hn, Function.update_self]

namespace Appends

variable {p : Path} {t t' t'' : Tree} {text text' : List Char}

theorem refl (p : Path) (t : Tree) : Appends p t t [] :=
  ⟨fun _ _ => rfl, fun _ => Iff.rfl, fun old hold => by rwa [List.append_nil]⟩

theorem append (p : Path) (t : Tree) (text : List Char) : Appends p t (append t (OUTPUT_CSV :: p) text) text := by
  refine ⟨fun r hr => write_node_ne hr, fun r => write_isDir, ?_⟩
  intro old hold
  have hfile : t.IsFile (OUTPUT_CSV :: p) := isFile_iff.mpr ⟨old, read_eq_some.mp hold⟩
  rw [append_read (t.parent hfile.exists) hfile.not_isDir, hold]
  rfl

theorem trans (h : Appends p t t' text) (h' : Appends p t' t'' text') : Appends p t t'' (text ++ text') := by
  refine ⟨fun r hr => (h'.node r hr).trans (h.node r hr), fun r => (h'.isDir r).trans (h.isDir r), ?_⟩
  intro old hold
  rw [h'.text _ (h.text old hold), List.append_assoc]

end Appends

section counting

variable {t t' : Tree} {p : Path} {v : Vars} {f : Word}

/-- The counts depend on what is in the folders only. -/
theorem counted_congr {l : List Word} (hdir : ∀ f, t'.node (f :: p) = t.node (f :: p))
    (hfile : ∀ f n, t'.node (n :: f :: p) = t.node (n :: f :: p)) : counted t' p l = counted t p l := by
  have hcount : ∀ f, formatCount t' (f :: p) = formatCount t (f :: p) := by
    intro f
    rw [formatCount, formatCount, glob_congr (hfile f)]
  unfold counted
  simp only [hcount, isDir_congr (hdir _)]

theorem counted_cons {l : List Word} : counted t p (f :: l) = counted t p [f] ++ counted t p l := by
  unfold counted
  by_cases hf : t.IsDir (f :: p)
  · simp [hf]
  · simp [hf]

theorem mem_counted {l : List Word} {c : Int} :
    (f, c) ∈ counted t p l ↔ (f ∈ l ∧ t.IsDir (f :: p)) ∧ c = formatCount t (f :: p) := by
  unfold counted
  simp only [List.mem_map, List.mem_filter, decide_eq_true_iff, Prod.mk.injEq]
  constructor
  · rintro ⟨g, hg, rfl, rfl⟩
    exact ⟨hg, rfl⟩
  · rintro ⟨hf, rfl⟩
    exact ⟨f, hf, rfl, rfl⟩

/-- One round: a line for a folder. -/
theorem countFormat_appends (p : Path) (v : Vars) (f : Word) :
    ∃ tree, countFormat p v f = { v with tree, counts := v.counts ++ counted v.tree p [f] } ∧
      Appends v.output_dir_path v.tree tree (csvLines (counted v.tree p [f])) := by
  unfold countFormat
  by_cases hf : v.tree.IsDir (f :: p)
  · have hone : counted v.tree p [f] = [(f, formatCount v.tree (f :: p))] := by simp [counted, hf]
    rw [if_pos hf, hone, csvLines, List.flatMap_singleton]
    exact ⟨_, rfl, .append _ _ _⟩
  · have hnone : counted v.tree p [f] = [] := by simp [counted, hf]
    rw [if_neg hf, hnone, List.append_nil]
    exact ⟨v.tree, rfl, .refl _ _⟩

/-- Nothing that is counted is in `output.csv`. -/
theorem Appends.counted {base : Path} {text : List Char} {l : List Word} (h : Appends base t t' text)
    (hp : p = OUTPUT_DIR :: base) : counted t' p l = counted t p l := by
  subst hp
  apply counted_congr
  · intro f
    apply h.node
    intro heq
    exact List.cons_ne_self _ _ (List.cons.inj heq).2
  · intro f n
    apply h.node
    intro heq
    have hlen := congrArg List.length heq
    simp only [List.length_cons] at hlen
    omega

/-- The loop. -/
theorem foldl_countFormat_appends (hp : p = OUTPUT_DIR :: v.output_dir_path) (l : List Word) :
    ∃ tree, l.foldl (countFormat p) v = { v with tree, counts := v.counts ++ counted v.tree p l } ∧
      Appends v.output_dir_path v.tree tree (csvLines (counted v.tree p l)) := by
  induction l generalizing v with
  | nil =>
    refine ⟨v.tree, ?_, .refl _ _⟩
    show v = { v with counts := v.counts ++ [] }
    rw [List.append_nil]
  | cons f l ih =>
    obtain ⟨t1, heq1, happ1⟩ := countFormat_appends p v f
    obtain ⟨t2, heq2, happ2⟩ := ih (v := countFormat p v f) (by rw [heq1]; exact hp)
    rw [heq1] at heq2 happ2
    simp only [happ1.counted hp] at heq2 happ2
    refine ⟨t2, ?_, ?_⟩
    · rw [List.foldl_cons, heq1, heq2, counted_cons (l := l), List.append_assoc]
    · rw [counted_cons (l := l), csvLines, List.flatMap_append]
      exact happ1.trans happ2

end counting

/-- What `populate_csv_file` counts and writes. -/
theorem populate_appends {s : Shell} (hout : s.vars.output_dir_path = s.cwd) {counts : List (Word × Int)}
    (hcounts : counts = counted s.tree (OUTPUT_DIR :: s.cwd) (glob s.tree (OUTPUT_DIR :: s.cwd))) :
    ∃ tree, (populate_csv_file s).vars = { s.vars with tree, counts := s.vars.counts ++ counts } ∧
      Appends s.cwd s.tree tree (csvLines counts ++ csvLine IGNORED s.vars.ignored_file_count) := by
  obtain ⟨tree, heq, happ⟩ := foldl_countFormat_appends (v := s.vars) (p := OUTPUT_DIR :: s.cwd) (by rw [hout])
    (glob s.tree (OUTPUT_DIR :: s.cwd))
  rw [hout] at happ
  refine ⟨append tree (OUTPUT_CSV :: s.cwd) (csvLine IGNORED s.vars.ignored_file_count), ?_, ?_⟩
  · rw [hcounts, populate_csv_file, heq]
    simp only [hout]
    rfl
  · rw [hcounts]
    exact happ.trans (.append _ _ _)

/-- `output.csv` after the first lines of `make_directories`. -/
theorem emptyOutput_csv {s : Shell} (hcwd : s.tree.IsDir s.cwd) (hout : s.vars.output_dir_path = s.cwd)
    (hcsv : ¬ s.tree.IsDir (OUTPUT_CSV :: s.cwd)) :
    (emptyOutput s).read (OUTPUT_CSV :: s.cwd) = some ((s.tree.read (OUTPUT_CSV :: s.cwd)).getD [] ++ CSV_HEADER) := by
  have hsame : ∀ r, ¬ OUTPUT_DIR :: s.cwd <:+ r →
      ((s.tree.remove (OUTPUT_DIR :: s.cwd)).mkdir (OUTPUT_DIR :: s.cwd)).node r = s.tree.node r := by
    intro r hr
    rw [mkdir_node_ne (ne_of_outside (List.suffix_refl _) hr), remove_node_ne hr]
  have hcsv' : ¬ OUTPUT_DIR :: s.cwd <:+ OUTPUT_CSV :: s.cwd := by
    intro h
    exact absurd (h.eq_of_length rfl) (by simp)
  have habove : ¬ OUTPUT_DIR :: s.cwd <:+ s.cwd := by
    intro h
    have hlen := h.length_le
    simp only [List.length_cons] at hlen
    omega
  unfold emptyOutput
  simp only [hout]
  generalize (s.tree.remove (OUTPUT_DIR :: s.cwd)).mkdir (OUTPUT_DIR :: s.cwd) = t at hsame ⊢
  have hdir : t.IsDir s.cwd := (isDir_congr (hsame _ habove)).mpr hcwd
  have hfree : ¬ t.IsDir (OUTPUT_CSV :: s.cwd) := fun h => hcsv ((isDir_congr (hsame _ hcsv')).mp h)
  rw [← read_congr (hsame _ hcsv')]
  unfold touch
  split
  · exact append_read hdir hfree _
  next hnone =>
    have hread : t.read (OUTPUT_CSV :: s.cwd) = none := by
      unfold FileTree.read
      rw [Option.not_isSome_iff_eq_none.mp hnone]
    rw [append_read (write_isDir.mpr hdir) (fun h => hfree (write_isDir.mp h)), hread]
    have hnew : (t.write (OUTPUT_CSV :: s.cwd) []).read (OUTPUT_CSV :: s.cwd) = some [] := by
      rw [read_eq_some, write_node hdir hfree, Function.update_self]
    rw [hnew]
    rfl

end Organiser
