import OperatingSystem314.Organiser.Script

/-! # The two passes over the directory

    A pass enters a directory, does something with each file in it, goes
    down into each directory in it, and leaves with `cd ../`.  While what
    it does with a file does not touch what it has not come to (`Steady`),
    it is a fold over the files of the tree as it was (`pass_eq`), and it
    ends in the parent of the directory it entered.

    * `collect_eq`: so the first pass ends in the parent of the directory,
      wherever it was called. -/

namespace Organiser

open FileTree

/-! ### `cd` -/

section cd

variable {s : Shell} {p : Path} {n w : Word}

theorem cd_of_resolve (h : resolve s.tree s.cwd w = some p) (hp : s.tree.IsDir p) :
    s.cd w = { s with cwd := p } := by
  unfold Shell.cd
  rw [h]
  exact if_pos hp

/-- Into an entry of the working directory. -/
theorem cd_name (hn : Plain n) (h : s.tree.IsDir (n :: s.cwd)) : s.cd n = { s with cwd := n :: s.cwd } := by
  apply cd_of_resolve _ h
  have hcwd : s.tree.IsDir s.cwd := s.tree.parent h.exists
  have hhead : n.head? ≠ some '/' := fun hhead => hn.noSlash (List.mem_of_head? hhead)
  rw [resolve, if_neg hn.nonempty, List.splitOn_eq_singleton hn.noSlash, if_neg hhead]
  simp [component, hcwd, hn.nonempty, hn.ne_dot, hn.ne_dotdot]

/-- `cd ../` -/
theorem cd_back (h : s.tree.IsDir s.cwd) : s.cd ['.', '.', '/'] = { s with cwd := s.cwd.tail } := by
  have htail : s.tree.IsDir s.cwd.tail := by
    cases hcwd : s.cwd with
    | nil => exact s.tree.root
    | cons n p =>
      rw [hcwd] at h
      exact s.tree.parent h.exists
  apply cd_of_resolve _ htail
  have hsplit : ['.', '.', '/'].splitOn '/' = [['.', '.'], []] := by decide
  rw [resolve, if_neg nofun, hsplit]
  simp [component, h, htail]

end cd

/-! ### Listings -/

theorem mem_glob {t : Tree} {p : Path} {n : Word} : n ∈ glob t p ↔ t.node (n :: p) ≠ none ∧ n.head? ≠ some '.' := by
  unfold glob
  rw [List.mem_insertionSort, List.mem_filter, mem_entries, decide_eq_true_iff]

theorem nodup_glob (t : Tree) (p : Path) : (glob t p).Nodup :=
  (List.perm_insertionSort _ _).nodup_iff.mpr (nodup_entries.filter _)

/-- A listing is sorted, so it depends on the entries only. -/
theorem glob_congr {t t' : Tree} {p : Path} (h : ∀ n, t'.node (n :: p) = t.node (n :: p)) :
    glob t' p = glob t p := by
  have hperm := (entries_perm h).filter fun n => decide (n.head? ≠ some '.')
  refine List.Perm.eq_of_pairwise' (List.pairwise_insertionSort (· ≤ ·) _) (List.pairwise_insertionSort (· ≤ ·) _) ?_
  exact ((List.perm_insertionSort _ _).trans hperm).trans (List.perm_insertionSort _ _).symm

/-! ### A pass is a fold -/

/-- All of the files below directory `p` that a pass comes to. -/
def filesBelow (t : Tree) (p : Path) : List Path := t.walk (glob t) (t.depth + 1) p

/-- What the body does with a file leaves the rest of `target` as it is,
    given an invariant of the variables. -/
structure Steady (body : Vars → Path → Vars) (t : Tree) (target : Path) (Good : Vars → Prop) : Prop where
  good : ∀ v q, Good v → t.IsFile q → target <:+ q → v.tree.node q = t.node q → Good (body v q)
  frame : ∀ v q r, Good v → t.IsFile q → target <:+ q → v.tree.node q = t.node q → target <:+ r → r ≠ q →
    (body v q).tree.node r = v.tree.node r

section pass

variable {body : Vars → Path → Vars} {t : Tree} {target : Path} {Good : Vars → Prop}

/-- What a pass has done that came to the files `l`, all at or below one of the paths in `ps`. -/
structure Passed (body : Vars → Path → Vars) (target : Path) (Good : Vars → Prop) (v v' : Vars) (l ps : List Path) :
    Prop where
  fold : v' = l.foldl body v
  good : Good v'
  frame : ∀ r, target <:+ r → (∀ p ∈ ps, ¬ p <:+ r) → v'.tree.node r = v.tree.node r

theorem Passed.append {v v1 v2 : Vars} {l l' ps ps' : List Path} (h : Passed body target Good v v1 l ps)
    (h' : Passed body target Good v1 v2 l' ps') : Passed body target Good v v2 (l ++ l') (ps ++ ps') := by
  refine ⟨?_, h'.good, ?_⟩
  · rw [List.foldl_append, ← h.fold, ← h'.fold]
  · intro r hr hps
    rw [h'.frame r hr fun p hp => hps p (List.mem_append_right _ hp),
      h.frame r hr fun p hp => hps p (List.mem_append_left _ hp)]

/-- One file. -/
theorem Steady.passed (hb : Steady body t target Good) {v : Vars} {q : Path} (hv : Good v) (hq : t.IsFile q)
    (htarget : target <:+ q) (hsame : v.tree.node q = t.node q) :
    Passed body target Good v (body v q) [q] [q] := by
  refine ⟨rfl, hb.good v q hv hq htarget hsame, ?_⟩
  intro r hr hne
  apply hb.frame v q r hv hq htarget hsame hr
  rintro rfl
  exact hne r (List.mem_singleton_self r) (List.suffix_refl r)

/-- The files of one entry. -/
def filesAt (t : Tree) (fuel : Nat) (p : Path) (n : Word) : List Path :=
  if t.IsFile (n :: p) then [n :: p] else if t.IsDir (n :: p) then t.walk (glob t) fuel (n :: p) else []

/-- Two entries of a directory have nothing below both. -/
theorem not_below_sibling {m n : Word} {p r : Path} (hmn : m ≠ n) (hr : m :: p <:+ r) : ¬ n :: p <:+ r := by
  intro hn
  have hsuffix := List.suffix_of_suffix_length_le hr hn (by simp)
  exact hmn (List.cons.inj (hsuffix.eq_of_length (by simp))).1

/-- What is to be shown of a pass with so much fuel: it enters `p`, which
    nobody has touched, and ends in the parent of `p`. -/
def PassesOver (body : Vars → Path → Vars) (t : Tree) (target : Path) (Good : Vars → Prop) (fuel : Nat) : Prop :=
  ∀ p s w, Good s.vars → s.cd w = { s with cwd := p } → target <:+ p → t.IsDir p →
    (∀ r, p <:+ r → s.tree.node r = t.node r) → t.depth < fuel + p.length →
    ∃ v, pass body fuel w s = some ⟨p.tail, v⟩ ∧ Passed body target Good s.vars v (t.walk (glob t) fuel p) [p]

variable {fuel : Nat} {p : Path} {v : Vars}

theorem visit_file {go : Word → Shell → Option Shell} {s : Shell} {f : Word} (h : s.tree.IsFile (f :: s.cwd)) :
    visit body go s f = some { s with vars := body s.vars (f :: s.cwd) } :=
  if_pos h

theorem visit_dir {go : Word → Shell → Option Shell} {s : Shell} {f : Word} (h : s.tree.IsDir (f :: s.cwd)) :
    visit body go s f = go f s := by
  unfold visit
  rw [if_neg fun hf => hf.not_isDir h, if_pos h]

/-- One name of the loop. -/
theorem visit_passed (hb : Steady body t target Good) (hplain : ∀ {p}, t.node p ≠ none → ∀ n ∈ p, Plain n)
    (hgo : PassesOver body t target Good fuel) {n : Word} (hv : Good v) (htarget : target <:+ n :: p)
    (hex : t.node (n :: p) ≠ none) (hun : ∀ r, n :: p <:+ r → v.tree.node r = t.node r)
    (hfuel : t.depth < fuel + (p.length + 1)) :
    ∃ v', visit body (pass body fuel) ⟨p, v⟩ n = some ⟨p, v'⟩ ∧
      Passed body target Good v v' (filesAt t fuel p n) [n :: p] := by
  have hself : v.tree.node (n :: p) = t.node (n :: p) := hun _ (List.suffix_refl _)
  rcases isDir_or_isFile hex with hd | hf
  · have hd' : v.tree.IsDir (n :: p) := (isDir_congr hself).mpr hd
    rw [visit_dir (s := ⟨p, v⟩) hd', filesAt, if_neg fun h => h.not_isDir hd, if_pos hd]
    exact hgo (n :: p) ⟨p, v⟩ n hv (cd_name (hplain hex n List.mem_cons_self) hd') htarget hd hun hfuel
  · have hf' : v.tree.IsFile (n :: p) := (isFile_congr hself).mpr hf
    rw [filesAt, if_pos hf]
    exact ⟨_, visit_file (s := ⟨p, v⟩) hf', hb.passed hv hf htarget hself⟩

/-- The loop over the entries `ns` of `p`, which nobody has touched. -/
theorem loop_passed (hb : Steady body t target Good) (hplain : ∀ {p}, t.node p ≠ none → ∀ n ∈ p, Plain n)
    (hgo : PassesOver body t target Good fuel) {ns : List Word} (hnd : ns.Nodup) (hv : Good v) (htarget : target <:+ p)
    (hex : ∀ n ∈ ns, t.node (n :: p) ≠ none) (hun : ∀ n ∈ ns, ∀ r, n :: p <:+ r → v.tree.node r = t.node r)
    (hfuel : t.depth < fuel + (p.length + 1)) :
    ∃ v', ns.foldlM (visit body (pass body fuel)) (⟨p, v⟩ : Shell) = some ⟨p, v'⟩ ∧
      Passed body target Good v v' (ns.flatMap (filesAt t fuel p)) (ns.map (· :: p)) := by
  induction ns generalizing v with
  | nil => exact ⟨v, rfl, rfl, hv, fun _ _ _ => rfl⟩
  | cons n ns ih =>
    obtain ⟨hnotin, hnd⟩ := List.nodup_cons.mp hnd
    obtain ⟨v1, hv1, hp1⟩ := visit_passed hb hplain hgo hv (htarget.trans (List.suffix_cons n p))
      (hex n List.mem_cons_self) (hun n List.mem_cons_self) hfuel
    have hun1 : ∀ m ∈ ns, ∀ r, m :: p <:+ r → v1.tree.node r = t.node r := by
      intro m hm r hr
      rw [hp1.frame r ((htarget.trans (List.suffix_cons m p)).trans hr), hun m (List.mem_cons_of_mem n hm) r hr]
      intro q hq
      rw [List.mem_singleton.mp hq]
      refine not_below_sibling ?_ hr
      rintro rfl
      exact hnotin hm
    obtain ⟨v2, hv2, hp2⟩ := ih hnd hp1.good (fun m hm => hex m (List.mem_cons_of_mem n hm)) hun1
    refine ⟨v2, ?_, hp1.append hp2⟩
    rw [List.foldlM_cons, hv1]
    exact hv2

/-- By induction on the fuel. -/
theorem pass_eq (hb : Steady body t target Good) (hplain : ∀ {p}, t.node p ≠ none → ∀ n ∈ p, Plain n) :
    PassesOver body t target Good fuel := by
  induction fuel with
  | zero =>
    intro p s w _ _ _ hdir _ hfuel
    have := length_le_depth hdir.exists
    omega
  | succ fuel ih =>
    intro p s w hgood hcd htarget hdir hsame hfuel
    have hglob : glob s.tree p = glob t p := glob_congr fun n => hsame _ (List.suffix_cons n p)
    obtain ⟨v, hv, hp⟩ := loop_passed hb hplain ih (nodup_glob t p) hgood htarget
      (fun n hn => (mem_glob.mp hn).1) (fun n _ r hr => hsame r ((List.suffix_cons n p).trans hr)) (by omega)
    have hdir' : v.tree.IsDir p := by
      -- `p` is not below any of its entries
      refine (isDir_congr ((hp.frame p htarget ?_).trans (hsame p (List.suffix_refl p)))).mpr hdir
      intro q hq hqp
      obtain ⟨n, -, rfl⟩ := List.mem_map.mp hq
      have hlen := hqp.length_le
      rw [List.length_cons] at hlen
      omega
    refine ⟨v, ?_, hp.fold, hp.good, ?_⟩
    · simp only [pass, hcd]
      show ((glob s.tree p).foldlM (visit body (pass body fuel)) ⟨p, s.vars⟩).bind _ = _
      rw [hglob, hv]
      exact congrArg some (cd_back (s := ⟨p, v⟩) hdir')
    · intro r hr hne
      apply hp.frame r hr
      intro q hq hqr
      obtain ⟨n, -, rfl⟩ := List.mem_map.mp hq
      exact hne p (List.mem_singleton_self p) ((List.suffix_cons n p).trans hqr)

end pass

/-! ### The first pass -/

/-- Only the formats and the count change. -/
theorem collectFile_frame (v : Vars) (q : Path) :
    ∃ selected_formats ignored_file_count, collectFile v q = { v with selected_formats, ignored_file_count } := by
  unfold collectFile
  simp only []
  split_ifs
  all_goals exact ⟨_, _, rfl⟩

theorem foldl_collectFile_frame (l : List Path) (v : Vars) :
    ∃ selected_formats ignored_file_count, l.foldl collectFile v = { v with selected_formats, ignored_file_count } := by
  induction l generalizing v with
  | nil => exact ⟨_, _, rfl⟩
  | cons q l ih =>
    obtain ⟨_, _, hq⟩ := collectFile_frame v q
    obtain ⟨_, _, hl⟩ := ih (collectFile v q)
    rw [List.foldl_cons, hl, hq]
    exact ⟨_, _, rfl⟩

theorem collectFile_tree (v : Vars) (q : Path) : (collectFile v q).tree = v.tree := by
  obtain ⟨_, _, hq⟩ := collectFile_frame v q
  rw [hq]

theorem collect_steady (t : Tree) (target : Path) : Steady collectFile t target fun v => v.tree = t := by
  refine ⟨?_, ?_⟩
  · intro v q hv _ _ _
    rw [collectFile_tree, hv]
  · intro v q r _ _ _ _ _ _
    rw [collectFile_tree]

/-- The first pass ends in the parent of the directory it entered. -/
theorem collect_eq {s : Shell} {w : Word} {p : Path} {fuel : Nat}
    (hplain : ∀ {p}, s.tree.node p ≠ none → ∀ n ∈ p, Plain n) (hcd : s.cd w = { s with cwd := p })
    (hdir : s.tree.IsDir p) (hfuel : s.tree.depth < fuel + p.length) :
    collect_selected_formats fuel w s =
        some ⟨p.tail, (s.tree.walk (glob s.tree) fuel p).foldl collectFile s.vars⟩ ∧
      ((s.tree.walk (glob s.tree) fuel p).foldl collectFile s.vars).tree = s.tree := by
  obtain ⟨v, hv, hp⟩ := pass_eq (collect_steady s.tree p) hplain p s w rfl hcd (List.suffix_refl p) hdir
    (fun _ _ => rfl) hfuel
  have hfold := hp.fold
  subst hfold
  exact ⟨hv, hp.good⟩

end Organiser
