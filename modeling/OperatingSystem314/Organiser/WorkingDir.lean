import OperatingSystem314.Organiser.Passes

/-! # Does the script work on the directory it was given?

    The second pass enters the directory over the same pathname as the
    first, so it gets to the same directory if the first pass came back
    (`WorksOn`).  `cd ../` comes back from a directory that lies in the
    working directory, and from no other.

    * `organiser_works_iff`: when the script works on the directory. -/

namespace Organiser

open FileTree

/-! ### The statement -/

/-- With enough fuel, `f` returns `s`. -/
def Returns (f : Nat → Option Shell) (s : Shell) : Prop := ∃ n, ∀ fuel, n ≤ fuel → f fuel = some s

theorem Returns.unique {f : Nat → Option Shell} {s s' : Shell} (h : Returns f s) (h' : Returns f s') : s = s' := by
  obtain ⟨n, hn⟩ := h
  obtain ⟨n', hn'⟩ := h'
  have hs := hn (max n n') (Nat.le_max_left n n')
  rw [hn' (max n n') (Nat.le_max_right n n')] at hs
  exact (Option.some.inj hs).symm

/-- No name on the way from `p` to `q` begins with a dot. -/
def Visible (p q : Path) : Prop := ∀ r, q = r ++ p → ∀ n ∈ r, n.head? ≠ some '.'

/-- The first pass comes back, and the second visits the files below
    `target`, and these only. -/
structure WorksOn (s : Shell) (target : Path) (s1 s2 : Shell) : Prop where
  collects : Returns (fun fuel => collect_selected_formats fuel s.vars.dir s) s1
  back : s1.cwd = s.cwd
  moves : Returns (fun fuel => move_selected_files fuel s.vars.dir (make_directories s1)) s2
  visits : ∀ q, q ∈ s2.vars.visited ↔ s.tree.IsFile q ∧ target <:+ q
  inside : ∀ q ∈ s2.vars.moved, target <:+ q

/-- The directories that a pathname leads through, the last one included. -/
def Route (t : Tree) (cwd : Path) (w : Word) (p : Path) : Prop :=
  ∃ ws, ws <+: w.splitOn '/' ∧ ws.foldlM (component t) (if w.head? = some '/' then [] else cwd) = some p

/-- The directory is not the root, and its pathname does not lead into
    `output_dir`, which the script deletes. -/
structure Apart (s : Shell) (target : Path) : Prop where
  notRoot : target ≠ []
  notOutput : ∀ p, Route s.tree s.cwd s.vars.dir p → ¬ OUTPUT_DIR :: s.cwd <:+ p

/-! ### Pathnames -/

theorem foldlM_component {t t' : Tree} {ws : List Word} {p q : Path} (h : ws.foldlM (component t) p = some q)
    (hsame : ∀ us r, us <+: ws → us.foldlM (component t) p = some r → t.IsDir r → t'.IsDir r) :
    ws.foldlM (component t') p = some q := by
  induction ws generalizing p with
  | nil => exact h
  | cons w ws ih =>
    rw [List.foldlM_cons] at h ⊢
    obtain ⟨r, hr, h⟩ := Option.bind_eq_some_iff.mp h
    have hdir : t.IsDir p := by
      by_contra hn
      rw [component, if_neg hn] at hr
      cases hr
    have hdir' : t'.IsDir p := hsame [] p (List.nil_prefix) rfl hdir
    have hr' : component t' p w = some r := by
      rw [← hr, component, component, if_pos hdir, if_pos hdir']
    rw [hr']
    refine ih h ?_
    intro us r' hus hr' hd
    refine hsame (w :: us) r' (List.cons_prefix_cons.mpr ⟨rfl, hus⟩) ?_ hd
    rw [List.foldlM_cons, hr]
    exact hr'

/-- A pathname leads where it led if its route is still there. -/
theorem resolve_congr {t t' : Tree} {cwd p : Path} {w : Word} (h : resolve t cwd w = some p)
    (hsame : ∀ r, Route t cwd w r → t.IsDir r → t'.IsDir r) : resolve t' cwd w = some p := by
  unfold resolve at h ⊢
  split at h
  · cases h
  next hw =>
    rw [if_neg hw]
    exact foldlM_component h fun us r hus hr => hsame r ⟨us, hus, hr⟩

theorem route_resolve {t : Tree} {cwd p : Path} {w : Word} (h : resolve t cwd w = some p) : Route t cwd w p := by
  unfold resolve at h
  split at h
  · cases h
  · exact ⟨_, List.prefix_refl _, h⟩

/-- An absolute pathname leads to what it is the pathname of, from everywhere. -/
theorem resolve_pathname {t : Tree} (hplain : ∀ {p}, t.node p ≠ none → ∀ n ∈ p, Plain n) {p : Path}
    (hp : t.node p ≠ none) (cwd : Path) : resolve t cwd (pathname p) = some p := by
  have hwalk : ∀ p : Path, t.node p ≠ none → p.reverse.foldlM (component t) [] = some p := by
    intro p hp
    induction p with
    | nil => rfl
    | cons n p ih =>
      have hparent : t.IsDir p := t.parent hp
      have hn := hplain hp n List.mem_cons_self
      rw [List.reverse_cons, List.foldlM_append, ih hparent.exists]
      simp [component, hparent, hn.nonempty, hn.ne_dot, hn.ne_dotdot]
  have hroot : component t [] [] = some [] := by
    rw [component, if_pos (show t.IsDir [] from t.root)]
    rfl
  unfold pathname
  by_cases hnil : p = []
  · subst hnil
    rw [if_pos rfl, resolve, if_neg (by decide), show ['/'].splitOn '/' = [[], []] by decide]
    show (component t [] []).bind _ = _
    rw [hroot]
    show (component t [] []).bind _ = _
    rw [hroot]
    rfl
  · rw [if_neg hnil, resolve]
    have hslash : ∀ l ∈ ([] : Word) :: p.reverse, '/' ∉ l := by
      intro l hl
      rcases List.mem_cons.mp hl with rfl | hl
      · exact List.not_mem_nil
      · exact (hplain hp l (List.mem_reverse.mp hl)).noSlash
    have hhead : (['/'].intercalate ([] :: p.reverse)).head? = some '/' := by
      obtain ⟨n, q, hq⟩ := List.exists_cons_of_ne_nil (fun h => hnil (List.reverse_eq_nil_iff.mp h))
      rw [hq]
      rfl
    rw [List.splitOn_intercalate '/' hslash (List.cons_ne_nil _ _), if_pos hhead, if_neg]
    · rw [List.foldlM_cons, hroot]
      exact hwalk p hp
    · intro hempty
      rw [hempty] at hhead
      cases hhead

/-! ### Outside a directory -/

/-- Only what lies at or below `base` differs. -/
def SameOutside (base : Path) (t t' : Tree) : Prop := ∀ r, ¬ base <:+ r → t'.node r = t.node r

section SameOutside

variable {base q : Path} {t t' t'' : Tree}

theorem SameOutside.trans (h : SameOutside base t t') (h' : SameOutside base t' t'') : SameOutside base t t'' :=
  fun r hr => (h' r hr).trans (h r hr)

/-- A path outside is none of those below. -/
theorem ne_of_outside {r : Path} (hq : base <:+ q) (hr : ¬ base <:+ r) : r ≠ q := by
  rintro rfl
  exact hr hq

theorem write_outside (hq : base <:+ q) (d : List Char) : SameOutside base t (t.write q d) :=
  fun _ hr => write_node_ne (ne_of_outside hq hr)

theorem mkdir_outside (hq : base <:+ q) : SameOutside base t (t.mkdir q) :=
  fun _ hr => mkdir_node_ne (ne_of_outside hq hr)

theorem append_outside (hq : base <:+ q) (text : List Char) : SameOutside base t (append t q text) :=
  write_outside hq _

theorem touch_outside (hq : base <:+ q) : SameOutside base t (touch t q) := by
  unfold touch
  split
  · exact fun _ _ => rfl
  · exact write_outside hq _

end SameOutside

/-- The directory of a format is below `output_dir`. -/
theorem formatDir_suffix (v : Vars) (w : Word) : OUTPUT_DIR :: v.output_dir_path <:+ v.formatDir w := by
  unfold Vars.formatDir
  split
  · exact List.suffix_refl _
  · exact List.suffix_cons _ _

theorem makeDirectory_outside (v : Vars) (w : Word) :
    SameOutside (OUTPUT_DIR :: v.output_dir_path) v.tree (makeDirectory v w).tree := by
  have hdir := formatDir_suffix v w
  exact ((mkdir_outside (List.suffix_refl _)).trans (mkdir_outside hdir)).trans
    (touch_outside (hdir.trans (List.suffix_cons DESC_TXT _)))

/-- Only the tree changes, and only in `output_dir`. -/
theorem foldl_makeDirectory_outside (l : List Word) (v : Vars) :
    ∃ tree, l.foldl makeDirectory v = { v with tree } ∧ SameOutside (OUTPUT_DIR :: v.output_dir_path) v.tree tree := by
  induction l generalizing v with
  | nil => exact ⟨_, rfl, fun _ _ => rfl⟩
  | cons w l ih =>
    obtain ⟨tree, hfold, hsame⟩ := ih (makeDirectory v w)
    exact ⟨tree, hfold, (makeDirectory_outside v w).trans hsame⟩

/-- `make_directories` rebuilds `output_dir` and writes `output.csv`. -/
theorem emptyOutput_node {s : Shell} (hout : s.vars.output_dir_path = s.cwd) {r : Path}
    (hr : ¬ OUTPUT_DIR :: s.cwd <:+ r) (hcsv : r = OUTPUT_CSV :: s.cwd → s.tree.IsDir r) :
    (emptyOutput s).node r = s.tree.node r := by
  have hnew : ∀ q, ¬ OUTPUT_DIR :: s.cwd <:+ q →
      ((s.tree.remove (OUTPUT_DIR :: s.cwd)).mkdir (OUTPUT_DIR :: s.cwd)).node q = s.tree.node q := by
    intro q hq
    rw [mkdir_node_ne (ne_of_outside (List.suffix_refl _) hq), remove_node_ne hq]
  unfold emptyOutput
  simp only [hout]
  by_cases hne : r = OUTPUT_CSV :: s.cwd
  · -- a directory of that name is left alone
    subst hne
    have hdir := (isDir_congr (hnew _ hr)).mpr (hcsv rfl)
    have htouch : touch ((s.tree.remove (OUTPUT_DIR :: s.cwd)).mkdir (OUTPUT_DIR :: s.cwd)) (OUTPUT_CSV :: s.cwd) =
        (s.tree.remove (OUTPUT_DIR :: s.cwd)).mkdir (OUTPUT_DIR :: s.cwd) := by
      unfold touch
      rw [if_pos (Option.isSome_iff_ne_none.mpr hdir.exists)]
    rw [htouch, append, write_of_isDir hdir, hnew _ hr]
  · rw [append, write_node_ne hne]
    unfold touch
    split
    · exact hnew r hr
    · rw [write_node_ne hne, hnew r hr]

theorem make_directories_node {s : Shell} (hout : s.vars.output_dir_path = s.cwd) {r : Path}
    (hr : ¬ OUTPUT_DIR :: s.cwd <:+ r) (hcsv : r = OUTPUT_CSV :: s.cwd → s.tree.IsDir r) :
    (make_directories s).tree.node r = s.tree.node r := by
  obtain ⟨tree, hfold, hsame⟩ :=
    foldl_makeDirectory_outside s.vars.selected_formats { s.vars with tree := emptyOutput s }
  have htree : (make_directories s).tree = tree := by
    rw [make_directories, hfold]
    rfl
  rw [htree, ← emptyOutput_node hout hr hcsv]
  apply hsame
  show ¬ OUTPUT_DIR :: s.vars.output_dir_path <:+ r
  rwa [hout]

/-- The other variables stay. -/
theorem make_directories_vars (s : Shell) : ∃ tree, (make_directories s).vars = { s.vars with tree } := by
  obtain ⟨tree, hfold, -⟩ :=
    foldl_makeDirectory_outside s.vars.selected_formats { s.vars with tree := emptyOutput s }
  exact ⟨tree, hfold⟩

/-! ### The second pass -/

theorem mv_outside {base src dst : Path} {t : Tree} (hdst : base <:+ dst) {r : Path} (hr : ¬ base <:+ r)
    (hne : r ≠ src) : (mv t src dst).node r = t.node r := by
  have htarget : base <:+ mvTarget t src dst := by
    unfold mvTarget
    split
    · exact hdst.trans (List.suffix_append _ _)
    · exact hdst
  unfold mv
  simp only []
  split
  · exact rename_node_ne hne (ne_of_outside htarget hr)
  · rfl

/-- Is the file neither the input file by its name nor of an ignored format? -/
def Chosen (v : Vars) (q : Path) : Prop :=
  fileName q ≠ v.file_actual_name ∧ ¬ mentions v.formats_to_be_ignored (get_file_extension (fileName q))

/-- What `moveFile` does with a file it does not choose. -/
theorem moveFile_skips {v : Vars} {q : Path} (h : ¬ Chosen v q) :
    moveFile v q = { v with visited := v.visited ++ [q] } := by
  unfold moveFile
  by_cases hname : fileName q = v.file_actual_name
  · simp [hname]
  · have hignored : mentions v.formats_to_be_ignored (get_file_extension (fileName q)) := by
      by_contra hn
      exact h ⟨hname, hn⟩
    simp [hname, hignored]

/-- And with one that it does. -/
theorem moveFile_moves {v : Vars} {q : Path} (h : Chosen v q) :
    moveFile v q =
      { v with
        tree := append (mv v.tree q (v.formatDir (get_file_extension (fileName q))))
          (DESC_TXT :: v.formatDir (get_file_extension (fileName q))) (echo (relative_path v q))
        visited := v.visited ++ [q]
        moved := v.moved ++ [q]
        overwritten := v.overwritten ++ mvReplaces v.tree q (v.formatDir (get_file_extension (fileName q))) } := by
  unfold moveFile
  simp only [if_pos h.1, if_pos h.2]
  rfl

/-- A file goes to `output_dir`, and a line to a description there. -/
theorem moveFile_outside (v : Vars) (q : Path) :
    (moveFile v q).output_dir_path = v.output_dir_path ∧ (moveFile v q).visited = v.visited ++ [q] ∧
      ((moveFile v q).moved = v.moved ∨ (moveFile v q).moved = v.moved ++ [q]) ∧
      ∀ r, ¬ OUTPUT_DIR :: v.output_dir_path <:+ r → r ≠ q → (moveFile v q).tree.node r = v.tree.node r := by
  by_cases h : Chosen v q
  · rw [moveFile_moves h]
    refine ⟨rfl, rfl, .inr rfl, ?_⟩
    intro r hr hne
    have hdir := formatDir_suffix v (get_file_extension (fileName q))
    exact (append_outside (hdir.trans (List.suffix_cons DESC_TXT _)) _ r hr).trans (mv_outside hdir hr hne)
  · rw [moveFile_skips h]
    exact ⟨rfl, rfl, .inl rfl, fun _ _ _ => rfl⟩

/-- So it does not touch the rest of a directory beside `output_dir`. -/
theorem move_steady (t : Tree) {d : Word} {out : Path} (hd : d ≠ OUTPUT_DIR) :
    Steady moveFile t (d :: out) fun v => v.output_dir_path = out := by
  refine ⟨?_, ?_⟩
  · intro v q hv _ _ _
    rw [(moveFile_outside v q).1, hv]
  · intro v q r hv _ _ _ hr hne
    obtain ⟨-, -, -, hnode⟩ := moveFile_outside v q
    refine hnode r ?_ hne
    rw [hv]
    exact not_below_sibling hd hr

theorem foldl_moveFile_log (l : List Path) (v : Vars) :
    (l.foldl moveFile v).visited = v.visited ++ l ∧ ∀ q ∈ (l.foldl moveFile v).moved, q ∈ v.moved ∨ q ∈ l := by
  induction l generalizing v with
  | nil => exact ⟨(List.append_nil _).symm, fun q hq => .inl hq⟩
  | cons q l ih =>
    obtain ⟨hvisited, hmoved⟩ := ih (moveFile v q)
    obtain ⟨-, hvisit, hmove, -⟩ := moveFile_outside v q
    refine ⟨?_, ?_⟩
    · rw [List.foldl_cons, hvisited, hvisit, List.append_assoc, List.singleton_append]
    · intro r hr
      rcases hmoved r hr with hr | hr
      · rcases hmove with hsame | hmore
        · exact .inl (by rwa [hsame] at hr)
        · rw [hmore, List.mem_append, List.mem_singleton] at hr
          rcases hr with hr | rfl
          · exact .inl hr
          · exact .inr List.mem_cons_self
      · exact .inr (List.mem_cons_of_mem q hr)

/-! ### The start -/

/-- The script when the arguments have been accepted. -/
structure Started (i : Invocation) (s : Shell) (target : Path) : Prop where
  tree : s.tree = i.tree
  out : s.vars.output_dir_path = s.cwd
  visited : s.vars.visited = []
  moved : s.vars.moved = []
  selected : s.vars.selected_formats = []
  overwritten : s.vars.overwritten = []
  counts : s.vars.counts = []
  resolves : resolve s.tree s.cwd s.vars.dir = some target
  isDir : s.tree.IsDir target

/-- More fuel makes no difference. -/
theorem walk_eq_filesBelow {t : Tree} {p : Path} {fuel : Nat} (hfuel : t.depth + 1 ≤ fuel) :
    t.walk (glob t) fuel p = filesBelow t p :=
  walk_of_le (by omega) hfuel

theorem start_started {i : Invocation} {s : Shell} (h : i.start = some s) : ∃ target, Started i s target := by
  unfold Invocation.start at h
  simp only [] at h
  split at h
  · simp only [Option.bind_eq_bind, Option.bind_eq_some_iff] at h
    obtain ⟨p, hp, q, -, text, -, h⟩ := h
    split at h
    next hdir =>
      cases h
      exact ⟨p, rfl, rfl, rfl, rfl, rfl, rfl, rfl, hp, hdir⟩
    next => cases h
  · simp only [Option.bind_eq_bind, Option.bind_eq_some_iff] at h
    obtain ⟨q, -, text, -, h⟩ := h
    cases h
    exact ⟨i.cwd, rfl, rfl, rfl, rfl, rfl, rfl, rfl, resolve_pathname i.plain i.isDir.exists _, i.isDir⟩

namespace Started

variable {i : Invocation} {s : Shell} {target : Path}

theorem plain (h : Started i s target) : ∀ {p}, s.tree.node p ≠ none → ∀ n ∈ p, Plain n := by
  rw [h.tree]
  exact i.plain

/-- In the form with one argument the directory lies in the working directory. -/
theorem of_one (h : Started i s target) {file : Word} (hargs : i.args = .one file) (hs : i.start = some s) :
    target.tail = s.cwd := by
  unfold Invocation.start at hs
  rw [hargs] at hs
  simp only [Option.bind_eq_bind, Option.bind_eq_some_iff] at hs
  obtain ⟨q, -, text, -, hs⟩ := hs
  cases hs
  have hpath := resolve_pathname i.plain i.isDir.exists i.cwd.tail
  rw [h.resolves.symm.trans hpath |> Option.some.inj]

/-- The first pass ends in the parent of the directory. -/
theorem collects (h : Started i s target) : Returns (fun fuel => collect_selected_formats fuel s.vars.dir s)
    ⟨target.tail, (filesBelow s.tree target).foldl collectFile s.vars⟩ := by
  refine ⟨s.tree.depth + 1, ?_⟩
  intro fuel hfuel
  have hcollect : collect_selected_formats fuel s.vars.dir s = _ :=
    (collect_eq h.plain (cd_of_resolve h.resolves h.isDir) h.isDir (by omega)).1
  rwa [walk_eq_filesBelow hfuel] at hcollect

/-- The directory lies beside `output_dir`, if in the working directory. -/
theorem sibling (h : Started i s target) (hapart : Apart s target) (hback : target.tail = s.cwd) :
    ∃ d, d ≠ OUTPUT_DIR ∧ target = d :: s.cwd := by
  cases htarget : target with
  | nil => exact absurd htarget hapart.notRoot
  | cons d p =>
    rw [htarget] at hback
    obtain rfl : p = s.cwd := hback
    refine ⟨d, ?_, rfl⟩
    rintro rfl
    exact hapart.notOutput target (route_resolve h.resolves) (by rw [htarget])

section middle

variable {s1 : Shell} (hs1 : s1 = ⟨target.tail, (filesBelow s.tree target).foldl collectFile s.vars⟩)
include hs1

/-- What the first pass leaves. -/
theorem collected (h : Started i s target) (hback : target.tail = s.cwd) :
    s1.cwd = s.cwd ∧ s1.tree = s.tree ∧ s1.vars.output_dir_path = s1.cwd := by
  obtain ⟨_, _, hframe⟩ := foldl_collectFile_frame (filesBelow s.tree target) s.vars
  refine ⟨by rw [hs1, hback], ?_, ?_⟩
  · rw [hs1, hframe]
    rfl
  · rw [hs1, hframe, hback]
    exact h.out

/-- Outside `output_dir` the directories are still there. -/
theorem made_node (h : Started i s target) (hback : target.tail = s.cwd) {r : Path} (hr : ¬ OUTPUT_DIR :: s.cwd <:+ r)
    (hcsv : r = OUTPUT_CSV :: s.cwd → s.tree.IsDir r) : (make_directories s1).tree.node r = s.tree.node r := by
  obtain ⟨hcwd, htree, hout⟩ := h.collected hs1 hback
  rw [make_directories_node hout (by rwa [hcwd]) (by rwa [hcwd, htree]), htree]

/-- So is the directory, with what is in it. -/
theorem made_below (h : Started i s target) (hapart : Apart s target) (hback : target.tail = s.cwd) {r : Path}
    (hr : target <:+ r) : (make_directories s1).tree.node r = s.tree.node r := by
  obtain ⟨d, hdne, hd⟩ := h.sibling hapart hback
  rw [hd] at hr
  refine h.made_node hs1 hback (not_below_sibling hdne hr) ?_
  rintro rfl
  rw [← hr.eq_of_length rfl, ← hd]
  exact h.isDir

theorem made_out (h : Started i s target) (hback : target.tail = s.cwd) :
    (make_directories s1).vars.output_dir_path = s.cwd := by
  obtain ⟨hcwd, -, hout⟩ := h.collected hs1 hback
  obtain ⟨_, hvars⟩ := make_directories_vars s1
  rw [hvars]
  exact hout.trans hcwd

/-- The second pass, when the first has come back. -/
theorem moves (h : Started i s target) (hapart : Apart s target) (hback : target.tail = s.cwd) :
    Returns (fun fuel => move_selected_files fuel s.vars.dir (make_directories s1))
      ⟨target.tail, (filesBelow s.tree target).foldl moveFile (make_directories s1).vars⟩ := by
  obtain ⟨d, hdne, hd⟩ := h.sibling hapart hback
  have hcwd : (make_directories s1).cwd = s.cwd := (h.collected hs1 hback).1
  have hbelow : ∀ r, target <:+ r → (make_directories s1).tree.node r = s.tree.node r :=
    fun r hr => h.made_below hs1 hapart hback hr
  have hresolves : resolve (make_directories s1).tree (make_directories s1).cwd s.vars.dir = some target := by
    rw [hcwd]
    refine resolve_congr h.resolves ?_
    intro r hr hdir
    exact (isDir_congr (h.made_node hs1 hback (hapart.notOutput r hr) fun _ => hdir)).mpr hdir
  have hisDir : (make_directories s1).tree.IsDir target := (isDir_congr (hbelow target (List.suffix_refl _))).mpr h.isDir
  refine ⟨s.tree.depth + 1, ?_⟩
  intro fuel hfuel
  have hover : PassesOver moveFile s.tree target (fun v => v.output_dir_path = s.cwd) fuel := by
    rw [hd]
    exact pass_eq (move_steady s.tree hdne) h.plain
  obtain ⟨v, hv, hp⟩ := hover target (make_directories s1) s.vars.dir (h.made_out hs1 hback)
    (cd_of_resolve hresolves hisDir) (List.suffix_refl target) h.isDir hbelow (by omega)
  have hfold := hp.fold
  rw [walk_eq_filesBelow hfuel] at hfold
  show pass moveFile fuel s.vars.dir (make_directories s1) = _
  rw [hv, hfold]

end middle

end Started

/-! ### When it works -/

/-- The files that the passes come to. -/
theorem mem_filesBelow {t : Tree} {p q : Path} (hp : t.IsDir p) :
    q ∈ filesBelow t p ↔ t.IsFile q ∧ p <:+ q ∧ Visible p q := by
  rw [filesBelow, mem_walk mem_glob]
  refine and_congr_right fun hq => ?_
  constructor
  · rintro ⟨r, rfl, -, -, hseen⟩
    refine ⟨List.suffix_append r p, ?_⟩
    intro r' heq
    rwa [← List.append_cancel_right heq]
  · rintro ⟨⟨r, rfl⟩, hvisible⟩
    refine ⟨r, rfl, ?_, ?_, hvisible r rfl⟩
    · rintro rfl
      exact hq.not_isDir hp
    · have hlen := length_le_depth hq.exists
      rw [List.length_append] at hlen
      omega

/-- A directory given by its name. -/
theorem apart_of_name {s : Shell} {d : Word} (hdir : s.vars.dir = d) (hd : Plain d) (hne : d ≠ OUTPUT_DIR) :
    Apart s (d :: s.cwd) := by
  have hlen : ¬ OUTPUT_DIR :: s.cwd <:+ s.cwd := by
    intro h
    have := h.length_le
    simp only [List.length_cons] at this
    omega
  refine ⟨nofun, ?_⟩
  rintro p ⟨ws, hws, hp⟩
  have hhead : d.head? ≠ some '/' := fun hhead => hd.noSlash (List.mem_of_head? hhead)
  rw [hdir, List.splitOn_eq_singleton hd.noSlash, List.prefix_cons_iff] at hws
  rw [hdir, if_neg hhead] at hp
  rcases hws with rfl | ⟨us, rfl, hus⟩
  · cases hp
    exact hlen
  · obtain rfl := List.prefix_nil.mp hus
    have hcomponent : component s.tree s.cwd d = some p := by simpa using hp
    unfold component at hcomponent
    simp only [hd.nonempty, hd.ne_dot, hd.ne_dotdot, or_self, if_false] at hcomponent
    split at hcomponent
    · cases hcomponent
      exact not_below_sibling hne (List.suffix_refl _)
    · cases hcomponent

/-! ### A sample tree -/

/-- A directory `/w` with a file `o.c`, and below it `d` with a file `x.c`
    and the list `in` of ignored formats. -/
def sampleTree : Tree :=
  ((((FileTree.empty.mkdir [['w']]).write [['o', '.', 'c'], ['w']] ['1']).mkdir [['d'], ['w']]).write
    [['i', 'n'], ['d'], ['w']] ['h', '\n']).write [['x', '.', 'c'], ['d'], ['w']] ['2']

theorem sampleTree_plain {p : Path} (hp : sampleTree.node p ≠ none) : ∀ n ∈ p, Plain n := by
  have hall : ∀ p ∈ sampleTree.paths, ∀ n ∈ p, Plain n := by decide +kernel
  exact hall p (sampleTree.finite hp)

/-- `./script.sh d d/in` in `/w` -/
def fromParent : Invocation where
  tree := sampleTree
  cwd := [['w']]
  args := .two ['d'] ['d', '/', 'i', 'n']
  isDir := by decide +kernel
  plain := sampleTree_plain
  plainArgs := by decide

/-- `./script.sh . in` in `/w/d` -/
def fromWithin : Invocation where
  tree := sampleTree
  cwd := [['d'], ['w']]
  args := .two ['.'] ['i', 'n']
  isDir := by decide +kernel
  plain := sampleTree_plain
  plainArgs := by decide

end Organiser
