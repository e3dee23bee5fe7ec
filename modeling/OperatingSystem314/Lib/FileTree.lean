import Mathlib.Data.List.Dedup
import Mathlib.Data.List.Infix
import Mathlib.Data.List.Nodup
import Mathlib.Logic.Function.Basic

/-! # File trees

    A finite tree of directories and files.  A path is the list of the
    names on the way, the innermost first, so `n :: p` is the entry `n` of
    directory `p`, and `p <:+ q` says that `q` is `p` or lies below it.

    * `write`, `mkdir`, `remove`, `rename`: the operations, which do
      nothing where the system call fails.
    * `walk`: the files below a directory, depth first.
    * `mem_walk`: which files they are. -/

/-- What a path leads to. -/
inductive FileTree.Node (α : Type) where
  | dir
  | file (data : α)

structure FileTree (ν α : Type) where
  node : List ν → Option (FileTree.Node α)
  /-- among these are all the paths there are -/
  paths : List (List ν)
  root : node [] = some .dir
  parent : ∀ {n p}, node (n :: p) ≠ none → node p = some .dir
  finite : ∀ {p}, node p ≠ none → p ∈ paths

namespace FileTree

variable {ν α : Type} (t : FileTree ν α)

/-! ### Directories and files -/

def IsDir (p : List ν) : Prop := t.node p = some .dir

instance (p : List ν) : Decidable (t.IsDir p) :=
  match h : t.node p with
  | some .dir => isTrue h
  | some (.file _) => isFalse (by rw [IsDir, h]; exact nofun)
  | none => isFalse (by rw [IsDir, h]; exact nofun)

/-- The content of a file. -/
def read (p : List ν) : Option α :=
  match t.node p with
  | some (.file d) => some d
  | _ => none

def IsFile (p : List ν) : Prop := (t.read p).isSome

instance (p : List ν) : Decidable (t.IsFile p) := by
  unfold IsFile; infer_instance

variable {t} {p q : List ν} {n : ν} {d : α}

theorem read_eq_some : t.read p = some d ↔ t.node p = some (.file d) := by
  unfold read
  split <;> simp_all

theorem isFile_iff : t.IsFile p ↔ ∃ d, t.node p = some (.file d) := by
  unfold IsFile
  rw [Option.isSome_iff_exists]
  exact exists_congr fun d => read_eq_some

theorem IsFile.not_isDir (h : t.IsFile p) : ¬ t.IsDir p := by
  obtain ⟨d, hd⟩ := isFile_iff.mp h
  rw [IsDir, hd]
  exact nofun

theorem IsFile.exists (h : t.IsFile p) : t.node p ≠ none := by
  obtain ⟨d, hd⟩ := isFile_iff.mp h
  rw [hd]
  exact nofun

theorem IsDir.exists (h : t.IsDir p) : t.node p ≠ none := by
  rw [h]
  exact nofun

theorem isDir_or_isFile (h : t.node p ≠ none) : t.IsDir p ∨ t.IsFile p := by
  rw [isFile_iff, IsDir]
  cases hp : t.node p with
  | none => exact absurd hp h
  | some x =>
    cases x with
    | dir => exact .inl rfl
    | file d => exact .inr ⟨d, rfl⟩

/-- Two trees agree on a path. -/
theorem isDir_congr {t' : FileTree ν α} (h : t'.node p = t.node p) : t'.IsDir p ↔ t.IsDir p := by
  rw [IsDir, IsDir, h]

theorem read_congr {t' : FileTree ν α} (h : t'.node p = t.node p) : t'.read p = t.read p := by
  rw [read, read, h]

theorem isFile_congr {t' : FileTree ν α} (h : t'.node p = t.node p) : t'.IsFile p ↔ t.IsFile p := by
  rw [IsFile, IsFile, read_congr h]

/-- Whatever is above something is a directory. -/
theorem isDir_of_append {r : List ν} (hr : r ≠ []) (h : t.node (r ++ p) ≠ none) : t.IsDir p := by
  induction r with
  | nil => exact absurd rfl hr
  | cons n r ih =>
    have hparent : t.IsDir (r ++ p) := t.parent h
    by_cases hnil : r = []
    · rwa [hnil] at hparent
    · exact ih hnil hparent.exists

/-- The longest path there is. -/
def depth (t : FileTree ν α) : Nat := (t.paths.map List.length).foldr max 0

theorem length_le_depth (h : t.node p ≠ none) : p.length ≤ t.depth := by
  have hmax : ∀ l : List (List ν), p ∈ l → p.length ≤ (l.map List.length).foldr max 0 := by
    intro l hl
    induction l with
    | nil => cases hl
    | cons q l ih =>
      simp only [List.map_cons, List.foldr_cons]
      rcases List.mem_cons.mp hl with rfl | hl
      · exact Nat.le_max_left _ _
      · exact Nat.le_trans (ih hl) (Nat.le_max_right _ _)
  exact hmax t.paths (t.finite h)

section entries

variable [DecidableEq ν]

/-- The name of an entry of directory `p`. -/
def entryOf (p : List ν) : List ν → Option ν
  | [] => none
  | n :: q => if q = p then some n else none

/-- What a directory lists, in no particular order. -/
def entries (t : FileTree ν α) (p : List ν) : List ν :=
  (t.paths.filterMap (entryOf p)).dedup.filter fun n => (t.node (n :: p)).isSome

theorem mem_entries : n ∈ t.entries p ↔ t.node (n :: p) ≠ none := by
  unfold entries
  rw [List.mem_filter, List.mem_dedup, List.mem_filterMap, Option.isSome_iff_ne_none]
  refine ⟨fun h => h.2, fun h => ⟨⟨n :: p, t.finite h, ?_⟩, h⟩⟩
  exact if_pos rfl

theorem nodup_entries : (t.entries p).Nodup := (List.nodup_dedup _).filter _

theorem entries_perm {t' : FileTree ν α} (h : ∀ n, t'.node (n :: p) = t.node (n :: p)) :
    (t'.entries p).Perm (t.entries p) := by
  rw [List.perm_ext_iff_of_nodup nodup_entries nodup_entries]
  intro n
  rw [mem_entries, mem_entries, h]

end entries

/-! ### The operations -/

/-- Only the root. -/
def empty : FileTree ν α where
  node
    | [] => some .dir
    | _ :: _ => none
  paths := [[]]
  root := rfl
  parent := fun h => absurd rfl h
  finite := by
    intro p h
    cases p with
    | nil => exact List.mem_singleton_self _
    | cons n p => exact absurd rfl h

section operations

variable [DecidableEq ν]

/-- The entry `n` of directory `p` becomes `x`; no directory is replaced. -/
def put (t : FileTree ν α) (n : ν) (p : List ν) (x : Node α) (hp : t.IsDir p) (hn : ¬ t.IsDir (n :: p)) :
    FileTree ν α where
  node := Function.update t.node (n :: p) (some x)
  paths := (n :: p) :: t.paths
  root := by
    rw [Function.update_of_ne (List.cons_ne_nil n p).symm]
    exact t.root
  parent := by
    intro m r h
    by_cases hr : r = n :: p
    · -- there is nothing below a file
      have hm : m :: r ≠ n :: p := by
        rw [hr]
        intro heq
        exact absurd (congrArg List.length heq) (by simp)
      rw [Function.update_of_ne hm] at h
      rw [hr] at h
      exact absurd (t.parent h) hn
    · rw [Function.update_of_ne hr]
      by_cases hm : m :: r = n :: p
      · rw [(List.cons.inj hm).2]
        exact hp
      · rw [Function.update_of_ne hm] at h
        exact t.parent h
  finite := by
    intro r h
    by_cases hr : r = n :: p
    · rw [hr]
      exact List.mem_cons_self
    · rw [Function.update_of_ne hr] at h
      exact List.mem_cons_of_mem _ (t.finite h)

/-- The file at a path is `d` from now on. -/
def write (t : FileTree ν α) (q : List ν) (d : α) : FileTree ν α :=
  match q with
  | [] => t
  | n :: p => if h : t.IsDir p ∧ ¬ t.IsDir (n :: p) then t.put n p (.file d) h.1 h.2 else t

def mkdir (t : FileTree ν α) (q : List ν) : FileTree ν α :=
  match q with
  | [] => t
  | n :: p => if h : t.IsDir p ∧ t.node (n :: p) = none then
      t.put n p .dir h.1 (by rw [IsDir, h.2]; exact nofun) else t

/-- A path goes, with all that is below it. -/
def remove (t : FileTree ν α) (q : List ν) : FileTree ν α :=
  if hq : q = [] then t
  else
    { node := fun r => if q <:+ r then none else t.node r
      paths := t.paths
      root := by
        rw [if_neg (by rwa [List.suffix_nil])]
        exact t.root
      parent := by
        intro n p h
        by_cases hn : q <:+ n :: p
        · rw [if_pos hn] at h
          exact absurd rfl h
        · rw [if_neg hn] at h
          rw [if_neg fun hp => hn (hp.trans (List.suffix_cons n p))]
          exact t.parent h
      finite := by
        intro p h
        by_cases hp : q <:+ p
        · rw [if_pos hp] at h
          exact absurd rfl h
        · rw [if_neg hp] at h
          exact t.finite h }

/-- A file is moved to another path. -/
def rename (t : FileTree ν α) (src dst : List ν) : FileTree ν α :=
  match t.read src with
  | some d => (t.remove src).write dst d
  | none => t

theorem write_node (hp : t.IsDir p) (hn : ¬ t.IsDir (n :: p)) :
    (t.write (n :: p) d).node = Function.update t.node (n :: p) (some (.file d)) := by
  simp only [write, dif_pos (And.intro hp hn)]
  rfl

theorem write_node_ne (h : p ≠ q) : (t.write q d).node p = t.node p := by
  unfold write
  split
  · rfl
  · split
    · exact Function.update_of_ne h _ _
    · rfl

theorem write_isDir : (t.write q d).IsDir p ↔ t.IsDir p := by
  unfold write
  split
  · exact Iff.rfl
  next n r =>
    split
    next h =>
      by_cases hp : p = n :: r
      · rw [hp]
        refine iff_of_false ?_ h.2
        show Function.update t.node (n :: r) _ (n :: r) ≠ _
        rw [Function.update_self]
        exact nofun
      · exact isDir_congr (Function.update_of_ne hp _ _)
    · exact Iff.rfl

theorem write_of_isDir (h : t.IsDir q) : t.write q d = t := by
  unfold write
  split
  · rfl
  · rw [dif_neg fun hn => hn.2 h]

theorem mkdir_node (hp : t.IsDir p) (hn : t.node (n :: p) = none) :
    (t.mkdir (n :: p)).node = Function.update t.node (n :: p) (some .dir) := by
  simp only [mkdir, dif_pos (And.intro hp hn)]
  rfl

theorem mkdir_node_ne (h : p ≠ q) : (t.mkdir q).node p = t.node p := by
  unfold mkdir
  split
  · rfl
  · split
    · exact Function.update_of_ne h _ _
    · rfl

/-- What was there is not touched. -/
theorem mkdir_of_exists (h : t.node q ≠ none) : t.mkdir q = t := by
  unfold mkdir
  split
  · rfl
  · rw [dif_neg fun hn => h hn.2]

theorem remove_node (hq : q ≠ []) : (t.remove q).node p = if q <:+ p then none else t.node p := by
  unfold remove
  rw [dif_neg hq]

theorem remove_node_ne (h : ¬ q <:+ p) : (t.remove q).node p = t.node p := by
  unfold remove
  split
  · rfl
  · exact if_neg h

/-- Below a file there is nothing, so only the file goes. -/
theorem remove_file_node (h : t.IsFile q) (hne : p ≠ q) : (t.remove q).node p = t.node p := by
  by_cases hp : q <:+ p
  · obtain ⟨r, rfl⟩ := hp
    have hr : r ≠ [] := by
      rintro rfl
      exact hne rfl
    have hnone : t.node (r ++ q) = none := by
      by_contra hex
      exact h.not_isDir (isDir_of_append hr hex)
    rw [remove_node, if_pos (List.suffix_append r q), hnone]
    rintro rfl
    exact h.not_isDir t.root
  · exact remove_node_ne hp

theorem remove_self_node (hq : q ≠ []) : (t.remove q).node q = none := by
  rw [remove_node hq, if_pos (List.suffix_refl q)]

/-- A rename touches two paths. -/
theorem rename_node_ne {src dst : List ν} (hsrc : p ≠ src) (hdst : p ≠ dst) :
    (t.rename src dst).node p = t.node p := by
  unfold rename
  split
  next d hd =>
    rw [write_node_ne hdst]
    refine remove_file_node ?_ hsrc
    exact isFile_iff.mpr ⟨d, read_eq_some.mp hd⟩
  · rfl

end operations

/-! ### The walk -/

section walk

variable (t) (ls : List ν → List ν)

/-- The files below directory `p`, where `ls` is what is looked at in a
    directory. -/
def walk : Nat → List ν → List (List ν)
  | 0, _ => []
  | fuel + 1, p => (ls p).flatMap fun n =>
    if t.IsFile (n :: p) then [n :: p] else if t.IsDir (n :: p) then walk fuel (n :: p) else []

variable {t ls} {seen : ν → Prop} {fuel : Nat}

/-- Every file that can be reached over names that are seen. -/
theorem mem_walk (hls : ∀ {n p}, n ∈ ls p ↔ t.node (n :: p) ≠ none ∧ seen n) :
    q ∈ walk t ls fuel p ↔ t.IsFile q ∧ ∃ r, q = r ++ p ∧ r ≠ [] ∧ r.length ≤ fuel ∧ ∀ n ∈ r, seen n := by
  induction fuel generalizing p with
  | zero =>
    refine iff_of_false List.not_mem_nil ?_
    rintro ⟨-, r, -, hr, hlen, -⟩
    exact hr (List.eq_nil_of_length_eq_zero (Nat.le_zero.mp hlen))
  | succ fuel ih =>
    rw [walk, List.mem_flatMap]
    constructor
    · rintro ⟨n, hn, hq⟩
      obtain ⟨-, hseen⟩ := hls.mp hn
      split at hq
      next hfile =>
        rw [List.mem_singleton.mp hq]
        exact ⟨hfile, [n], rfl, nofun, by simp, by simpa using hseen⟩
      next =>
        split at hq
        · obtain ⟨hfile, r, rfl, -, hlen, hr⟩ := ih.mp hq
          refine ⟨hfile, r ++ [n], by simp, by simp, by simpa using hlen, ?_⟩
          intro m hm
          rcases List.mem_append.mp hm with hm | hm
          · exact hr m hm
          · rwa [List.mem_singleton.mp hm]
        · cases hq
    · rintro ⟨hfile, r, hq, hr, hlen, hseen⟩
      -- the first name after `p` is the last of `r`
      obtain ⟨r, n, rfl⟩ := (List.eq_nil_or_concat r).resolve_left hr
      rw [List.concat_eq_append] at hq hlen hseen
      rw [List.append_assoc, List.singleton_append] at hq
      have hn : seen n := hseen n (by simp)
      by_cases hnil : r = []
      · have hq' : q = n :: p := by rw [hq, hnil, List.nil_append]
        rw [hq'] at hfile ⊢
        refine ⟨n, hls.mpr ⟨hfile.exists, hn⟩, ?_⟩
        rw [if_pos hfile]
        exact List.mem_singleton_self _
      · have hdir : t.IsDir (n :: p) := by
          apply isDir_of_append hnil
          rw [← hq]
          exact hfile.exists
        refine ⟨n, hls.mpr ⟨hdir.exists, hn⟩, ?_⟩
        rw [if_neg fun h => h.not_isDir hdir, if_pos hdir, ih]
        refine ⟨hfile, r, hq, hnil, by simpa using hlen, ?_⟩
        intro m hm
        exact hseen m (List.mem_append_left _ hm)

/-- More fuel than the tree is deep makes no difference. -/
theorem walk_succ (hfuel : t.depth < fuel + p.length) : walk t ls (fuel + 1) p = walk t ls fuel p := by
  induction fuel generalizing p with
  | zero =>
    rw [walk, walk, List.flatMap_eq_nil_iff]
    intro n _
    have hnone : t.node (n :: p) = none := by
      by_contra hex
      have hlen := length_le_depth hex
      rw [List.length_cons] at hlen
      omega
    rw [if_neg fun h => h.exists hnone, if_neg fun h => h.exists hnone]
  | succ fuel ih =>
    rw [walk, walk]
    congr 1
    funext n
    rw [ih (by rw [List.length_cons]; omega)]

theorem walk_of_le {fuel' : Nat} (hfuel : t.depth < fuel + p.length) (hle : fuel ≤ fuel') :
    walk t ls fuel' p = walk t ls fuel p := by
  induction fuel', hle using Nat.le_induction with
  | base => rfl
  | succ fuel' hle ih => rw [walk_succ (by omega), ih]

/-- No file comes twice. -/
theorem nodup_walk (hls : ∀ p, (ls p).Nodup) : (walk t ls fuel p).Nodup := by
  induction fuel generalizing p with
  | zero => exact List.nodup_nil
  | succ fuel ih =>
    rw [walk, List.nodup_flatMap]
    have hsub : ∀ {fuel : Nat} {p q : List ν}, q ∈ walk t ls fuel p → p <:+ q := by
      intro fuel p q hq
      induction fuel generalizing p with
      | zero => cases hq
      | succ fuel ihf =>
        rw [walk, List.mem_flatMap] at hq
        obtain ⟨n, -, hq⟩ := hq
        split at hq
        · rw [List.mem_singleton.mp hq]
          exact List.suffix_cons n p
        · split at hq
          · exact (List.suffix_cons n p).trans (ihf hq)
          · cases hq
    refine ⟨?_, (hls p).imp ?_⟩
    · intro n _
      split
      · exact List.nodup_singleton _
      · split
        · exact ih
        · exact List.nodup_nil
    · -- two entries have no path below both
      intro m n hmn q hm hn
      have hbelow : ∀ {a : ν}, q ∈ (if t.IsFile (a :: p) then [a :: p] else
          if t.IsDir (a :: p) then walk t ls fuel (a :: p) else []) → a :: p <:+ q := by
        intro a ha
        split at ha
        · rw [List.mem_singleton.mp ha]
        · split at ha
          · exact hsub ha
          · cases ha
      have hsuffix := List.suffix_of_suffix_length_le (hbelow hm) (hbelow hn) (by simp)
      have heq := hsuffix.eq_of_length (by simp)
      exact hmn (List.cons.inj heq).1

end walk

end FileTree
