import OperatingSystem314.Organiser.Output

/-! # Does the script lose a file?

    The files are filed by their names, so two of one name meet, and so
    do a file and the description.  That shows in the numbers: a folder
    lists as many files as were selected for it only if each of them came
    to a place of its own (`Outcome.number_iff`).

    * `organising_loses_no_file_iff`: when the output is right. -/

namespace Organiser

open FileTree

/-! ### The statement -/

/-- A file below the directory that is not the input file, nor of an ignored format. -/
structure Selected (s : Shell) (target input q : Path) : Prop where
  isFile : s.tree.IsFile q
  below : target <:+ q
  notInput : q ≠ input
  notIgnored : get_file_extension (fileName q) ∉ wordsOf s.vars.formats_to_be_ignored

instance (s : Shell) (target input q : Path) : Decidable (Selected s target input q) :=
  decidable_of_iff (s.tree.IsFile q ∧ target <:+ q ∧ q ≠ input ∧
      get_file_extension (fileName q) ∉ wordsOf s.vars.formats_to_be_ignored)
    ⟨fun h => ⟨h.1, h.2.1, h.2.2.1, h.2.2.2⟩, fun h => ⟨h.isFile, h.below, h.notInput, h.notIgnored⟩⟩

/-- The selected files of a format. -/
def filesOf (s : Shell) (target input : Path) (f : Word) : List Path :=
  s.tree.paths.dedup.filter fun q => Selected s target input q ∧ get_file_extension (fileName q) = f

/-- What `s'` has to show for the files that were there in `s`. -/
structure Organised (s : Shell) (target input : Path) (s' : Shell) : Prop where
  present : ∀ q, Selected s target input q →
    s'.tree.read (fileName q :: s.vars.formatDir (get_file_extension (fileName q))) = s.tree.read q
  overwritten : s'.vars.overwritten = []
  described : ∀ q, Selected s target input q → ∃ text,
    s'.tree.read (DESC_TXT :: s.vars.formatDir (get_file_extension (fileName q))) = some text ∧
      text.count '\n' = (filesOf s target input (get_file_extension (fileName q))).length
  numbers : ∀ q, Selected s target input q → ∀ c, (get_file_extension (fileName q), c) ∈ s'.vars.counts ↔
    c = (filesOf s target input (get_file_extension (fileName q))).length
  written : s'.tree.read (OUTPUT_CSV :: s.cwd) =
    some ((s.tree.read (OUTPUT_CSV :: s.cwd)).getD [] ++ CSV_HEADER ++ csvLines s'.vars.counts ++
      csvLine IGNORED s'.vars.ignored_file_count)

/-- The condition: `output.csv` can be written, and the names of the
    selected files are seen, differ from each other and from the names the
    script uses, have extensions that are not empty, and paths that `echo`
    prints. -/
structure Unambiguous (s : Shell) (target input : Path) : Prop where
  csv : ¬ s.tree.IsDir (OUTPUT_CSV :: s.cwd)
  visible : ∀ q, Selected s target input q → Visible target q
  notInput : ∀ q, Selected s target input q → fileName q ≠ s.vars.file_actual_name
  extension : ∀ q, Selected s target input q → get_file_extension (fileName q) ≠ []
  notDesc : ∀ q, Selected s target input q → fileName q ≠ DESC_TXT
  distinct : ∀ q r, Selected s target input q → Selected s target input r → fileName q = fileName r → q = r
  printed : ∀ q, Selected s target input q → echo (relative_path s.vars q) ≠ []

/-! ### What the script does -/

/-- The files that go to the folder of format `f`. -/
def filedOf (s : Shell) (target : Path) (f : Word) : List Path :=
  (filesBelow s.tree target).filter fun q => Filed s.vars q ∧ get_file_extension (fileName q) = f

/-- The folders of the formats at the end. -/
def output (s : Shell) (target : Path) : Output :=
  (entries s.tree s.vars (filesBelow s.tree target)).foldl (Folders.add DESC_TXT) emptyFolders

/-- The end of a run. -/
structure Outcome (s : Shell) (target : Path) (formats : List Word) (s' : Shell) : Prop where
  returns : Returns (fun fuel => organise fuel s) s'
  mem_formats : ∀ f, f ∈ formats ↔ ∃ q ∈ filesBelow s.tree target, Filed s.vars q ∧ get_file_extension (fileName q) = f
  keeps : Keeps s'.tree (OUTPUT_DIR :: s.cwd) formats (output s target)
  counts : s'.vars.counts = counted s'.tree (OUTPUT_DIR :: s.cwd) (glob s'.tree (OUTPUT_DIR :: s.cwd))
  overwritten : (∀ q ∈ filesBelow s.tree target, Chosen s.vars q → Filed s.vars q) →
    Folders.Distinct DESC_TXT (entries s.tree s.vars (filesBelow s.tree target)) → s'.vars.overwritten = []
  isDir_csv : s.tree.IsDir (OUTPUT_CSV :: s.cwd) → s'.tree.IsDir (OUTPUT_CSV :: s.cwd)
  written : ¬ s.tree.IsDir (OUTPUT_CSV :: s.cwd) → s'.tree.read (OUTPUT_CSV :: s.cwd) =
    some ((s.tree.read (OUTPUT_CSV :: s.cwd)).getD [] ++ CSV_HEADER ++ csvLines s'.vars.counts ++
      csvLine IGNORED s'.vars.ignored_file_count)

/-- What was not moved is where it was, outside `output_dir`. -/
theorem foldl_moveFile_outside (l : List Path) (v : Vars) {r : Path} (hr : ¬ OUTPUT_DIR :: v.output_dir_path <:+ r)
    (hnotin : r ∉ l) : (l.foldl moveFile v).tree.node r = v.tree.node r := by
  induction l generalizing v with
  | nil => rfl
  | cons q l ih =>
    obtain ⟨hout, -, -, hnode⟩ := moveFile_outside v q
    obtain ⟨hne, hnotin⟩ : r ≠ q ∧ r ∉ l := by simpa using hnotin
    rw [List.foldl_cons, ih (moveFile v q) (by rwa [hout]) hnotin, hnode r hr hne]

/-- The folders are not in `output.csv`. -/
theorem Keeps.of_appends {t t' : Tree} {base : Path} {formats : List Word} {o : Output} {text : List Char}
    (h : Keeps t (OUTPUT_DIR :: base) formats o) (happ : Appends base t t' text) :
    Keeps t' (OUTPUT_DIR :: base) formats o := by
  refine ⟨(happ.isDir _).mpr h.isDir, fun f => (happ.isDir _).trans (h.folders f), ?_⟩
  intro f hf n
  rw [happ.node, h.files f hf n]
  intro heq
  have hlen := congrArg List.length heq
  simp only [List.length_cons] at hlen
  omega

theorem plain_of_mem {t : Tree} (hplain : ∀ {p}, t.node p ≠ none → ∀ n ∈ p, Plain n) {target : Path}
    (htarget : t.IsDir target) {q : Path} (hq : q ∈ filesBelow t target) : Plain (fileName q) := by
  have hfile := ((mem_filesBelow htarget).mp hq).1
  cases q with
  | nil => exact absurd t.root hfile.not_isDir
  | cons n q => exact hplain hfile.exists n List.mem_cons_self

namespace Started

variable {i : Invocation} {s : Shell} {target : Path}

section middle

variable {s1 : Shell} (hs1 : s1 = ⟨target.tail, (filesBelow s.tree target).foldl collectFile s.vars⟩)
include hs1

theorem mem_selected (h : Started i s target) (f : Word) : f ∈ s1.vars.selected_formats ↔
    ∃ q ∈ filesBelow s.tree target, Filed s.vars q ∧ get_file_extension (fileName q) = f := by
  have hsel := Organiser.mem_selected (v := s.vars) (fun q hq => plain_of_mem h.plain h.isDir hq)
    (by simp [h.selected]) f
  rw [h.selected] at hsel
  rw [hs1, hsel]
  simp

theorem formats (h : Started i s target) : Formats s1.vars.selected_formats := by
  intro f hf
  obtain ⟨q, -, hfiled, rfl⟩ := (h.mem_selected hs1 f).mp hf
  exact ⟨hfiled.2, (get_file_extension_spec _).1⟩

theorem made_vars : ∃ tree selected_formats ignored_file_count, (make_directories s1).vars =
    { s.vars with tree, selected_formats, ignored_file_count } := by
  obtain ⟨_, _, hframe⟩ := foldl_collectFile_frame (filesBelow s.tree target) s.vars
  obtain ⟨_, hvars⟩ := make_directories_vars s1
  rw [hvars, hs1, hframe]
  exact ⟨_, _, _, rfl⟩

theorem cwd_isDir (h : Started i s target) (hapart : Apart s target) (hback : target.tail = s.cwd) :
    s1.tree.IsDir s1.cwd := by
  obtain ⟨hcwd, htree, -⟩ := h.collected hs1 hback
  obtain ⟨d, -, hd⟩ := h.sibling hapart hback
  have hdir := h.isDir
  rw [hd] at hdir
  rw [hcwd, htree]
  exact s.tree.parent hdir.exists

theorem fresh (h : Started i s target) (hapart : Apart s target) (hback : target.tail = s.cwd) :
    Fresh (make_directories s1).tree (OUTPUT_DIR :: s.cwd) s1.vars.selected_formats := by
  obtain ⟨hcwd, -, hout⟩ := h.collected hs1 hback
  have hempty := Fresh.emptyOutput (h.cwd_isDir hs1 hapart hback) hout
  have hfold := hempty.foldl_makeDirectory (v := { s1.vars with tree := emptyOutput s1 }) (by rw [hout])
    (l := s1.vars.selected_formats) fun f hf => (h.formats hs1 f hf).1
  rwa [hcwd, List.nil_append] at hfold

theorem made_csv (h : Started i s target) (hapart : Apart s target) (hback : target.tail = s.cwd)
    (hcsv : ¬ s.tree.IsDir (OUTPUT_CSV :: s.cwd)) : (make_directories s1).tree.read (OUTPUT_CSV :: s.cwd) =
      some ((s.tree.read (OUTPUT_CSV :: s.cwd)).getD [] ++ CSV_HEADER) := by
  obtain ⟨hcwd, htree, hout⟩ := h.collected hs1 hback
  obtain ⟨tree, hfold, hsame⟩ :=
    foldl_makeDirectory_outside s1.vars.selected_formats { s1.vars with tree := emptyOutput s1 }
  have hmade : (make_directories s1).tree = tree := by
    rw [make_directories, hfold]
    rfl
  have hempty := emptyOutput_csv (h.cwd_isDir hs1 hapart hback) hout (by rwa [hcwd, htree])
  rw [hcwd, htree] at hempty
  rw [hmade, ← hempty]
  apply read_congr
  apply hsame
  show ¬ OUTPUT_DIR :: s1.vars.output_dir_path <:+ _
  rw [hout, hcwd]
  exact fun hsuf => absurd (hsuf.eq_of_length rfl) (by simp)

/-- The files that the second pass comes to. -/
theorem files_outside (h : Started i s target) (hapart : Apart s target) (hback : target.tail = s.cwd) :
    ∀ q ∈ filesBelow s.tree target, s.tree.IsFile q ∧ (make_directories s1).tree.node q = s.tree.node q ∧
      ¬ OUTPUT_DIR :: s.cwd <:+ q := by
  intro q hq
  obtain ⟨d, hdne, hd⟩ := h.sibling hapart hback
  obtain ⟨hfile, hbelow, -⟩ := (mem_filesBelow h.isDir).mp hq
  refine ⟨hfile, h.made_below hs1 hapart hback hbelow, ?_⟩
  rw [hd] at hbelow
  exact not_below_sibling hdne hbelow

variable {s2 : Shell}
  (hs2 : s2 = ⟨target.tail, (filesBelow s.tree target).foldl moveFile (make_directories s1).vars⟩)
include hs2

theorem moved_vars : ∃ tree selected_formats ignored_file_count visited moved overwritten, s2.vars =
    { s.vars with tree, selected_formats, ignored_file_count, visited, moved, overwritten } := by
  obtain ⟨_, _, _, hvars⟩ := made_vars hs1
  obtain ⟨_, _, _, _, hframe⟩ := foldl_moveFile_frame (filesBelow s.tree target) (make_directories s1).vars
  rw [hs2, hframe, hvars]
  exact ⟨_, _, _, _, _, _, rfl⟩

theorem moved_keeps (h : Started i s target) (hapart : Apart s target) (hback : target.tail = s.cwd) :
    Keeps s2.tree (OUTPUT_DIR :: s.cwd) s1.vars.selected_formats (output s target) ∧
      ((∀ q ∈ filesBelow s.tree target, Chosen s.vars q → Filed s.vars q) →
        Folders.Distinct DESC_TXT (entries s.tree s.vars (filesBelow s.tree target)) → s2.vars.overwritten = []) := by
  obtain ⟨_, _, _, hvars⟩ := made_vars hs1
  have hnd : (filesBelow s.tree target).Nodup := nodup_walk (nodup_glob s.tree)
  obtain ⟨hkeeps, hover⟩ := foldl_moveFile_keeps (p := OUTPUT_DIR :: s.cwd) (t := s.tree)
    (v := (make_directories s1).vars) (by rw [h.made_out hs1 hback]) (h.formats hs1)
    (h.fresh hs1 hapart hback).keeps hnd (h.files_outside hs1 hapart hback) (by
      intro q hq hf
      rw [hvars] at hf
      exact (h.mem_selected hs1 _).mpr ⟨q, hq, hf, rfl⟩)
  have hentries : entries s.tree (make_directories s1).vars (filesBelow s.tree target) =
      entries s.tree s.vars (filesBelow s.tree target) := by
    rw [hvars]
    rfl
  rw [hentries] at hkeeps hover
  rw [hs2]
  refine ⟨hkeeps, ?_⟩
  intro hall hdistinct
  have hstart : (make_directories s1).vars.overwritten = [] := by
    rw [hvars]
    exact h.overwritten
  rw [← hstart]
  apply hover
  · intro q hq hc
    rw [hvars] at hc ⊢
    exact hall q hq hc
  · exact hdistinct
  · intro e he
    exact if_neg (hdistinct.notIndex e he)

theorem moved_csv (h : Started i s target) (hapart : Apart s target) (hback : target.tail = s.cwd) :
    s2.tree.node (OUTPUT_CSV :: s.cwd) = (make_directories s1).tree.node (OUTPUT_CSV :: s.cwd) := by
  obtain ⟨d, -, hd⟩ := h.sibling hapart hback
  rw [hs2]
  apply foldl_moveFile_outside
  · rw [h.made_out hs1 hback]
    exact fun hsuf => absurd (hsuf.eq_of_length rfl) (by simp)
  · intro hmem
    obtain ⟨hfile, hbelow, -⟩ := (mem_filesBelow h.isDir).mp hmem
    rw [hd] at hbelow
    apply hfile.not_isDir
    rw [← hbelow.eq_of_length rfl, ← hd]
    exact h.isDir

/-- The parts of the script, one after the other. -/
theorem organises (h : Started i s target) (hapart : Apart s target) (hback : target.tail = s.cwd) :
    Returns (fun fuel => organise fuel s) (populate_csv_file s2) := by
  obtain ⟨n, hn⟩ := h.collects
  obtain ⟨m, hm⟩ := h.moves hs1 hapart hback
  rw [← hs1] at hn
  rw [← hs2] at hm
  obtain ⟨_, _, _, hvars⟩ := made_vars hs1
  have hdir : (make_directories s1).vars.dir = s.vars.dir := by rw [hvars]
  refine ⟨max n m, ?_⟩
  intro fuel hfuel
  have hcollect : collect_selected_formats fuel s.vars.dir s = some s1 := hn fuel (le_trans (Nat.le_max_left n m) hfuel)
  have hmove : move_selected_files fuel s.vars.dir (make_directories s1) = some s2 :=
    hm fuel (le_trans (Nat.le_max_right n m) hfuel)
  show (collect_selected_formats fuel s.vars.dir s).bind _ = _
  rw [hcollect, Option.bind_some]
  show (move_selected_files fuel (make_directories s1).vars.dir (make_directories s1)).bind _ = _
  rw [hdir, hmove]
  rfl

omit hs1 hs2 in
/-- A run ends so. -/
theorem outcome (h : Started i s target) (hapart : Apart s target) (hback : target.tail = s.cwd) :
    ∃ formats s', Outcome s target formats s' := by
  obtain ⟨s1, hs1⟩ : ∃ s1 : Shell, s1 = ⟨target.tail, (filesBelow s.tree target).foldl collectFile s.vars⟩ := ⟨_, rfl⟩
  obtain ⟨s2, hs2⟩ : ∃ s2 : Shell,
      s2 = ⟨target.tail, (filesBelow s.tree target).foldl moveFile (make_directories s1).vars⟩ := ⟨_, rfl⟩
  obtain ⟨_, _, _, _, _, _, hvars2⟩ := moved_vars hs1 hs2
  obtain ⟨hkeeps, hover⟩ := h.moved_keeps hs1 hs2 hapart hback
  have hcsv2 := h.moved_csv hs1 hs2 hapart hback
  have hcwd2 : s2.cwd = s.cwd := by rw [hs2, hback]
  have hout2 : s2.vars.output_dir_path = s2.cwd := by
    rw [hcwd2, hvars2]
    exact h.out
  obtain ⟨tree, hvars, happ⟩ := populate_appends hout2 rfl
  rw [hcwd2] at hvars happ
  have htree : (populate_csv_file s2).tree = tree := congrArg Vars.tree hvars
  have hcounts : (populate_csv_file s2).vars.counts =
      counted s2.tree (OUTPUT_DIR :: s.cwd) (glob s2.tree (OUTPUT_DIR :: s.cwd)) := by
    have hstart : s2.vars.counts = [] := by
      rw [hvars2]
      exact h.counts
    rw [hvars]
    show s2.vars.counts ++ _ = _
    rw [hstart, List.nil_append]
  have hignored : (populate_csv_file s2).vars.ignored_file_count = s2.vars.ignored_file_count := by rw [hvars]
  rw [← htree] at happ
  refine ⟨s1.vars.selected_formats, populate_csv_file s2, ?_, h.mem_selected hs1, hkeeps.of_appends happ, ?_, ?_, ?_, ?_⟩
  · exact h.organises hs1 hs2 hapart hback
  · rw [hcounts, happ.counted rfl, glob_congr]
    intro f
    symm
    apply happ.node
    intro heq
    exact List.cons_ne_self _ _ (List.cons.inj heq).2
  · intro hall hdistinct
    rw [hvars]
    exact hover hall hdistinct
  · intro hdir
    rw [happ.isDir, isDir_congr hcsv2, isDir_congr (h.made_node hs1 hback _ fun _ => hdir)]
    · exact hdir
    · exact fun hsuf => absurd (hsuf.eq_of_length rfl) (by simp)
  · intro hcsv
    have htext := happ.text _ ((read_congr hcsv2).trans (h.made_csv hs1 hapart hback hcsv))
    rw [htext, hcounts, hignored, List.append_assoc _ (csvLines _)]

end middle

end Started

/-! ### The input file -/

/-- The last component of a pathname is the name of the file. -/
theorem fileName_of_resolve {t : Tree} {cwd q : Path} {w : Word} (h : resolve t cwd w = some q) (hq : t.IsFile q) :
    fileName q = basename w := by
  unfold resolve at h
  split at h
  · cases h
  · obtain ⟨ws, l, hws⟩ := (List.eq_nil_or_concat (w.splitOn '/')).resolve_left (List.splitOn_ne_nil '/' w)
    rw [List.concat_eq_append] at hws
    rw [hws, List.foldlM_append] at h
    obtain ⟨p, -, hl⟩ := Option.bind_eq_some_iff.mp h
    have hcomponent : component t p l = some q := by simpa using hl
    have hname : basename w = l := by
      rw [basename, hws]
      simp
    rw [hname]
    unfold component at hcomponent
    split at hcomponent
    next hp =>
      split_ifs at hcomponent with hsame hup
      · cases hcomponent
        exact absurd hp hq.not_isDir
      · cases hcomponent
        have htail : t.IsDir p.tail := by
          cases p with
          | nil => exact t.root
          | cons n p => exact t.parent hp.exists
        exact absurd htail hq.not_isDir
      · cases hcomponent
        rfl
    next => cases hcomponent

theorem start_fileName {i : Invocation} {s : Shell} {input : Path} (hs : i.start = some s)
    (hinput : resolve i.tree i.cwd i.args.file = some input) : fileName input = s.vars.file_actual_name := by
  unfold Invocation.start at hs
  simp only [] at hs
  split at hs
  next hargs =>
    rw [hargs] at hinput
    simp only [Option.bind_eq_bind, Option.bind_eq_some_iff] at hs
    obtain ⟨p, -, q, hq, text, htext, hs⟩ := hs
    obtain rfl : input = q := Option.some.inj (hinput.symm.trans hq)
    split at hs
    · cases hs
      exact fileName_of_resolve hinput (isFile_iff.mpr ⟨text, read_eq_some.mp htext⟩)
    · cases hs
  next hargs =>
    rw [hargs] at hinput
    simp only [Option.bind_eq_bind, Option.bind_eq_some_iff] at hs
    obtain ⟨q, hq, text, htext, hs⟩ := hs
    obtain rfl : input = q := Option.some.inj (hinput.symm.trans hq)
    cases hs
    have hfile : i.tree.IsFile input := isFile_iff.mpr ⟨text, read_eq_some.mp htext⟩
    exact fileName_of_resolve (resolve_pathname i.plain hfile.exists []) hfile

/-! ### The files of a format -/

section files

variable {i : Invocation} {s : Shell} {target input q : Path} {f : Word}

theorem mem_filesOf : q ∈ filesOf s target input f ↔ Selected s target input q ∧ get_file_extension (fileName q) = f := by
  unfold filesOf
  rw [List.mem_filter, List.mem_dedup, decide_eq_true_iff]
  exact ⟨fun h => h.2, fun h => ⟨s.tree.finite h.1.isFile.exists, h⟩⟩

theorem mem_filedOf : q ∈ filedOf s target f ↔
    q ∈ filesBelow s.tree target ∧ Filed s.vars q ∧ get_file_extension (fileName q) = f := by
  unfold filedOf
  rw [List.mem_filter, decide_eq_true_iff]

namespace Started

/-- What is moved was selected. -/
theorem selected_of_chosen (h : Started i s target) (hinput : fileName input = s.vars.file_actual_name)
    (hq : q ∈ filesBelow s.tree target) (hc : Chosen s.vars q) : Selected s target input q := by
  obtain ⟨hfile, hbelow, -⟩ := (mem_filesBelow h.isDir).mp hq
  refine ⟨hfile, hbelow, ?_, ?_⟩
  · rintro rfl
    exact hc.1 hinput
  · intro hmem
    exact hc.2 (mentions_of_mem (get_file_extension_noBlank (plain_of_mem h.plain h.isDir hq)) hmem)

/-- What was selected is filed if it is seen and its name is no special one. -/
theorem filed_of_selected (h : Started i s target) (hq : Selected s target input q) (hvisible : Visible target q)
    (hname : fileName q ≠ s.vars.file_actual_name) (hnil : get_file_extension (fileName q) ≠ []) :
    q ∈ filesBelow s.tree target ∧ Filed s.vars q := by
  have hmem : q ∈ filesBelow s.tree target := (mem_filesBelow h.isDir).mpr ⟨hq.isFile, hq.below, hvisible⟩
  refine ⟨hmem, ⟨hname, ?_⟩, hnil⟩
  intro hmentions
  exact hq.notIgnored
    ((mentions_iff hnil (get_file_extension_noBlank (plain_of_mem h.plain h.isDir hmem))).mp hmentions)

/-- No more are filed than were selected. -/
theorem filedOf_subperm (h : Started i s target) (hinput : fileName input = s.vars.file_actual_name) :
    (filedOf s target f).Subperm (filesOf s target input f) := by
  have hnd : (filedOf s target f).Nodup := (nodup_walk (nodup_glob s.tree)).filter _
  refine List.subperm_of_subset hnd ?_
  intro q hq
  obtain ⟨hmem, hf, hext⟩ := mem_filedOf.mp hq
  exact mem_filesOf.mpr ⟨h.selected_of_chosen hinput hmem hf.1, hext⟩

end Started

/-- The entries of a folder are those of its files. -/
theorem entries_filter {t : Tree} {v : Vars} {l : List Path} :
    (entries t v l).filter (fun e => e.folder = f) =
      (l.filter fun q => Filed v q ∧ get_file_extension (fileName q) = f).map (entry t v) := by
  induction l with
  | nil => rfl
  | cons q l ih =>
    by_cases hf : Filed v q
    · rw [entries_cons_filed hf]
      by_cases hext : get_file_extension (fileName q) = f
      · have hfolder : (entry t v q).folder = f := hext
        simp [hf, hext, hfolder, ih]
      · have hfolder : ¬ (entry t v q).folder = f := hext
        simp [hext, hfolder, ih]
    · rw [entries_cons_not hf, ih]
      simp [hf]

end files

/-! ### What the folders show -/

namespace Outcome

variable {i : Invocation} {s s' : Shell} {target input q : Path} {formats : List Word} {f n : Word}

theorem noDot (ho : Outcome s target formats s') (hf : f ∈ formats) : f ≠ [] ∧ '.' ∉ f := by
  obtain ⟨q, -, hfiled, rfl⟩ := (ho.mem_formats f).mp hf
  exact ⟨hfiled.2, (get_file_extension_spec _).1⟩

/-- The names in the folder of a format. -/
theorem mem_listing (h : Started i s target) (ho : Outcome s target formats s') (hf : f ∈ formats) :
    n ∈ glob s'.tree (f :: OUTPUT_DIR :: s.cwd) ↔ n = DESC_TXT ∨ n ∈ (filedOf s target f).map fileName := by
  have hsome : s'.tree.node (n :: f :: OUTPUT_DIR :: s.cwd) ≠ none ↔ (output s target f n).isSome := by
    rw [ho.keeps.files f hf n, Option.ne_none_iff_isSome, Option.isSome_map]
  rw [mem_glob, hsome, output, Folders.isSome_foldl_add]
  constructor
  · rintro ⟨hempty | ⟨e, he, rfl, rfl | rfl⟩, -⟩
    · by_contra hn
      rw [emptyFolders, if_neg fun heq => hn (.inl heq)] at hempty
      cases hempty
    · obtain ⟨q, hq, rfl⟩ := List.mem_map.mp he
      rw [List.mem_filter, decide_eq_true_iff] at hq
      exact .inr (List.mem_map.mpr ⟨q, mem_filedOf.mpr ⟨hq.1, hq.2, rfl⟩, rfl⟩)
    · exact .inl rfl
  · rintro (rfl | hn)
    · exact ⟨.inl rfl, by decide⟩
    · obtain ⟨q, hq, rfl⟩ := List.mem_map.mp hn
      obtain ⟨hmem, hfiled, rfl⟩ := mem_filedOf.mp hq
      refine ⟨.inr ⟨entry s.tree s.vars q, ?_, rfl, .inl rfl⟩, ?_⟩
      · exact List.mem_map_of_mem (List.mem_filter.mpr ⟨hmem, decide_eq_true hfiled⟩)
      · -- the last name on the way is seen as well
        obtain ⟨hfile, ⟨r, hr⟩, hvisible⟩ := (mem_filesBelow h.isDir).mp hmem
        cases r with
        | nil =>
          rw [List.nil_append] at hr
          exact absurd h.isDir (hr ▸ hfile.not_isDir)
        | cons m r =>
          have hhead := hvisible (m :: r) hr.symm m List.mem_cons_self
          rw [← hr]
          exact hhead

theorem mem_counts (ho : Outcome s target formats s') {c : Int} : (f, c) ∈ s'.vars.counts ↔
    f ∈ formats ∧ c = (glob s'.tree (f :: OUTPUT_DIR :: s.cwd)).length - 1 := by
  rw [ho.counts, mem_counted, ho.keeps.folders]
  refine and_congr_left fun _ => ?_
  refine ⟨fun hf => hf.2, fun hf => ⟨?_, hf⟩⟩
  rw [mem_glob]
  refine ⟨((ho.keeps.folders f).mpr hf).exists, ?_⟩
  intro hhead
  exact (ho.noDot hf).2 (List.mem_of_head? hhead)

/-- The number is right if and only if no two files of the format met. -/
theorem number_iff (h : Started i s target) (hinput : fileName input = s.vars.file_actual_name)
    (ho : Outcome s target formats s') :
    (f, ((filesOf s target input f).length : Int)) ∈ s'.vars.counts ↔
      f ∈ formats ∧ (filedOf s target f).Perm (filesOf s target input f) ∧
        DESC_TXT ∉ (filedOf s target f).map fileName ∧ ((filedOf s target f).map fileName).Nodup := by
  rw [ho.mem_counts]
  refine and_congr_right fun hf => ?_
  have hsub := h.filedOf_subperm (f := f) hinput
  have hle := Folders.length_listing_le (nodup_glob s'.tree _) fun n => ho.mem_listing h hf
  have hiff := Folders.length_listing_iff (nodup_glob s'.tree _) fun n => ho.mem_listing h hf
  rw [List.length_map] at hle hiff
  rw [← hiff]
  constructor
  · intro hlen
    have hperm := hsub.perm_of_length_le (by omega)
    refine ⟨hperm, ?_⟩
    have := hperm.length_eq
    omega
  · rintro ⟨hperm, hlen⟩
    have := hperm.length_eq
    omega

/-- The lines of a description that no file has replaced. -/
theorem description (h : Started i s target) (ho : Outcome s target formats s') (hf : f ∈ formats)
    (hdesc : DESC_TXT ∉ (filedOf s target f).map fileName) :
    ∃ text, s'.tree.read (DESC_TXT :: f :: OUTPUT_DIR :: s.cwd) = some text ∧
      text.count '\n' = (filedOf s target f).countP fun q => echo (relative_path s.vars q) ≠ [] := by
  have hsome : (output s target f DESC_TXT).isSome := Folders.isSome_foldl_add.mpr (.inl rfl)
  obtain ⟨text, htext⟩ := Option.isSome_iff_exists.mp hsome
  have hindex : (output s target f DESC_TXT).getD [] =
      (((entries s.tree s.vars (filesBelow s.tree target)).filter fun e => e.folder = f).map
        Folders.Entry.note).flatten := by
    apply Folders.foldl_add_index
    intro e he hfolder hname
    have hmem : e ∈ (entries s.tree s.vars (filesBelow s.tree target)).filter fun e => e.folder = f :=
      List.mem_filter.mpr ⟨he, decide_eq_true hfolder⟩
    rw [entries_filter] at hmem
    obtain ⟨q, hq, rfl⟩ := List.mem_map.mp hmem
    exact hdesc (List.mem_map.mpr ⟨q, hq, hname⟩)
  rw [htext, entries_filter, List.map_map] at hindex
  refine ⟨text, (ho.keeps.read hf).trans htext, ?_⟩
  have hline : ∀ l ∈ (filedOf s target f).map (Folders.Entry.note ∘ entry s.tree s.vars),
      l.count '\n' = if l = [] then 0 else 1 := by
    intro l hl
    obtain ⟨q, hq, rfl⟩ := List.mem_map.mp hl
    have hfile := ((mem_filesBelow h.isDir).mp (mem_filedOf.mp hq).1).1
    apply count_echo
    intro hbreak
    exact pathname_noBreak (h.plain hfile.exists) ((trimTo_suffix _ _).subset hbreak)
  have hcount := count_flatten_lines hline
  rw [List.countP_map] at hcount
  rw [show text = _ from hindex]
  exact hcount

end Outcome

/-! ### When the output is right -/

section outcome

variable {i : Invocation} {s s' : Shell} {target input : Path} {formats : List Word}

theorem Started.formatDir (h : Started i s target) {f : Word} (hf : f ≠ []) :
    s.vars.formatDir f = f :: OUTPUT_DIR :: s.cwd := by
  rw [Vars.formatDir, if_neg hf, h.out]

/-- A right output shows that each file came to a place of its own. -/
theorem Outcome.unambiguous (h : Started i s target) (hinput : fileName input = s.vars.file_actual_name)
    (ho : Outcome s target formats s') (horg : Organised s target input s') : Unambiguous s target input := by
  have hnumber : ∀ q, Selected s target input q → _ := fun q hq =>
    (ho.number_iff h hinput).mp ((horg.numbers q hq _).mpr rfl)
  have hfiled : ∀ q, Selected s target input q → q ∈ filedOf s target (get_file_extension (fileName q)) := by
    intro q hq
    obtain ⟨-, hperm, -⟩ := hnumber q hq
    exact hperm.mem_iff.mpr (mem_filesOf.mpr ⟨hq, rfl⟩)
  refine ⟨?_, ?_, ?_, ?_, ?_, ?_, ?_⟩
  · intro hdir
    have hread := horg.written
    exact absurd (ho.isDir_csv hdir) (isFile_iff.mpr ⟨_, read_eq_some.mp hread⟩ : s'.tree.IsFile _).not_isDir
  · intro q hq
    exact ((mem_filesBelow h.isDir).mp (mem_filedOf.mp (hfiled q hq)).1).2.2
  · intro q hq
    exact (mem_filedOf.mp (hfiled q hq)).2.1.1.1
  · intro q hq
    exact (mem_filedOf.mp (hfiled q hq)).2.1.2
  · intro q hq hdesc
    obtain ⟨-, -, hnot, -⟩ := hnumber q hq
    exact hnot (List.mem_map.mpr ⟨q, hfiled q hq, hdesc⟩)
  · intro q r hq hr hname
    obtain ⟨-, -, -, hnd⟩ := hnumber q hq
    have hr' := hfiled r hr
    rw [← hname] at hr'
    exact List.inj_on_of_nodup_map hnd (hfiled q hq) hr' hname
  · intro q hq
    obtain ⟨hf, hperm, hnot, -⟩ := hnumber q hq
    obtain ⟨text, htext, hlines⟩ := ho.description h hf hnot
    obtain ⟨text', htext', hlines'⟩ := horg.described q hq
    rw [h.formatDir (ho.noDot hf).1, htext] at htext'
    cases htext'
    rw [hlines, ← hperm.length_eq, List.countP_eq_length] at hlines'
    exact of_decide_eq_true (hlines' q (hfiled q hq))

/-- And if each does, the output is right. -/
theorem Outcome.organised (h : Started i s target) (hinput : fileName input = s.vars.file_actual_name)
    (ho : Outcome s target formats s') (hun : Unambiguous s target input) : Organised s target input s' := by
  have hfiled : ∀ q, Selected s target input q → q ∈ filesBelow s.tree target ∧ Filed s.vars q := fun q hq =>
    h.filed_of_selected hq (hun.visible q hq) (hun.notInput q hq) (hun.extension q hq)
  have hselected : ∀ q ∈ filesBelow s.tree target, Chosen s.vars q → Selected s target input q :=
    fun q hq hc => h.selected_of_chosen hinput hq hc
  have hperm : ∀ f, (filedOf s target f).Perm (filesOf s target input f) := by
    intro f
    refine (h.filedOf_subperm hinput).antisymm (List.subperm_of_subset ((List.nodup_dedup _).filter _) ?_)
    intro q hq
    obtain ⟨hsel, hext⟩ := mem_filesOf.mp hq
    exact mem_filedOf.mpr ⟨(hfiled q hsel).1, (hfiled q hsel).2, hext⟩
  have hmem : ∀ q, Selected s target input q → get_file_extension (fileName q) ∈ formats :=
    fun q hq => (ho.mem_formats _).mpr ⟨q, (hfiled q hq).1, (hfiled q hq).2, rfl⟩
  have hdesc : ∀ f, DESC_TXT ∉ (filedOf s target f).map fileName := by
    intro f hdesc
    obtain ⟨q, hq, hname⟩ := List.mem_map.mp hdesc
    obtain ⟨hbelow, hf, -⟩ := mem_filedOf.mp hq
    exact hun.notDesc q (hselected q hbelow hf.1) hname
  have hdistinct : Folders.Distinct DESC_TXT (entries s.tree s.vars (filesBelow s.tree target)) := by
    have hentry : ∀ q ∈ (filesBelow s.tree target).filter (fun q => Filed s.vars q), Selected s target input q := by
      intro q hq
      rw [List.mem_filter, decide_eq_true_iff] at hq
      exact hselected q hq.1 hq.2.1
    refine ⟨?_, ?_⟩
    · intro e he
      obtain ⟨q, hq, rfl⟩ := List.mem_map.mp he
      exact hun.notDesc q (hentry q hq)
    · rw [entries, List.map_map]
      refine List.Nodup.map_on ?_ ((nodup_walk (nodup_glob s.tree)).filter _)
      intro q hq r hr heq
      exact hun.distinct q r (hentry q hq) (hentry r hr) (Prod.ext_iff.mp heq).2
  refine ⟨?_, ?_, ?_, ?_, ho.written hun.csv⟩
  · intro q hq
    obtain ⟨hbelow, hf⟩ := hfiled q hq
    obtain ⟨d, hd⟩ := Option.isSome_iff_exists.mp hq.isFile
    have hentry : entry s.tree s.vars q ∈ entries s.tree s.vars (filesBelow s.tree target) :=
      List.mem_map_of_mem (List.mem_filter.mpr ⟨hbelow, decide_eq_true hf⟩)
    have htext : output s target (get_file_extension (fileName q)) (fileName q) = some ((s.tree.read q).getD []) :=
      Folders.foldl_add_text hdistinct hentry
    rw [h.formatDir hf.2, ho.keeps.read (hmem q hq), htext, hd]
    rfl
  · refine ho.overwritten ?_ hdistinct
    intro q hq hc
    exact ⟨hc, hun.extension q (hselected q hq hc)⟩
  · intro q hq
    obtain ⟨text, htext, hlines⟩ := ho.description h (hmem q hq) (hdesc _)
    refine ⟨text, ?_, ?_⟩
    · rwa [h.formatDir (hfiled q hq).2.2]
    · rw [hlines, ← (hperm _).length_eq, List.countP_eq_length]
      intro r hr
      obtain ⟨hbelow, hf, -⟩ := mem_filedOf.mp hr
      exact decide_eq_true (hun.printed r (hselected r hbelow hf.1))
  · intro q hq c
    have hnd : ((filedOf s target (get_file_extension (fileName q))).map fileName).Nodup := by
      refine List.Nodup.map_on ?_ ((nodup_walk (nodup_glob s.tree)).filter _)
      intro r hr r' hr' heq
      obtain ⟨hbelow, hf, -⟩ := mem_filedOf.mp hr
      obtain ⟨hbelow', hf', -⟩ := mem_filedOf.mp hr'
      exact hun.distinct r r' (hselected r hbelow hf.1) (hselected r' hbelow' hf'.1) heq
    have hnumber := (ho.number_iff h hinput).mpr ⟨hmem q hq, hperm _, hdesc _, hnd⟩
    rw [ho.mem_counts] at hnumber ⊢
    rw [hnumber.2]
    exact ⟨fun hc => hc.2, fun hc => ⟨hmem q hq, hc⟩⟩

end outcome

/-- `/w/d` with the list `in` and the files `a/x.c` and `b/x.c`. -/
def twinTree : Tree :=
  ((((((FileTree.empty.mkdir [['w']]).mkdir [['d'], ['w']]).write [['i', 'n'], ['d'], ['w']] ['h', '\n']).mkdir
    [['a'], ['d'], ['w']]).mkdir [['b'], ['d'], ['w']]).write [['x', '.', 'c'], ['a'], ['d'], ['w']] ['1']).write
      [['x', '.', 'c'], ['b'], ['d'], ['w']] ['2']

theorem twinTree_plain {p : Path} (hp : twinTree.node p ≠ none) : ∀ n ∈ p, Plain n := by
  have hall : ∀ p ∈ twinTree.paths, ∀ n ∈ p, Plain n := by decide +kernel
  exact hall p (twinTree.finite hp)

/-- `./script.sh d d/in` in `/w` -/
def twins : Invocation where
  tree := twinTree
  cwd := [['w']]
  args := .two ['d'] ['d', '/', 'i', 'n']
  isDir := by decide +kernel
  plain := twinTree_plain
  plainArgs := fromParent.plainArgs

end Organiser
