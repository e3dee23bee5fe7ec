import Mathlib.Data.Char
import Mathlib.Data.List.Lex
import Mathlib.Data.List.Sort
import OperatingSystem314.Lib.FileTree

/-! # The file organiser (offline_1/script.sh)

    The functions of the script, over the part of the shell they use: the
    working directory, the file system, and the variables.

    Where the script leaves a variable unquoted the shell would split it
    and expand patterns in it.  The model covers words for which it does
    neither, and which no command takes for an option (`Plain`,
    `Invocation`).  Listings are in the order of the C locale, and `echo`
    to the terminal is left out. -/

namespace Organiser

abbrev Word : Type := List Char

/-- The names on the way from the root, the innermost first. -/
abbrev Path : Type := List Word

abbrev Tree : Type := FileTree Word (List Char)

abbrev OUTPUT_DIR : Word := ['o', 'u', 't', 'p', 'u', 't', '_', 'd', 'i', 'r']
abbrev OUTPUT_CSV : Word := ['o', 'u', 't', 'p', 'u', 't', '.', 'c', 's', 'v']
abbrev DESC_TXT : Word := ['d', 'e', 's', 'c', '.', 't', 'x', 't']
abbrev OTHERS : Word := ['o', 't', 'h', 'e', 'r', 's']
abbrev IGNORED : Word := ['i', 'g', 'n', 'o', 'r', 'e', 'd']
abbrev CSV_HEADER : Word :=
  ['F', 'o', 'r', 'm', 'a', 't', ',', ' ', 'N', 'o', '_', 'o', 'f', '_', 'f', 'i', 'l', 'e', 's', '\n']

/-! ### Words -/

/-- The characters of patterns, of quoting and of the field separator. -/
def special : List Char := [' ', '\t', '\n', '*', '?', '[', '\'', '"', '\\']

/-- An argument that the shell and the commands take as it is. -/
structure PlainWord (w : Word) : Prop where
  ordinary : ∀ c ∈ w, c ∉ special
  noOption : w.head? ≠ some '-'

/-- A name of a file or a directory, of that kind. -/
structure Plain (n : Word) : Prop extends PlainWord n where
  nonempty : n ≠ []
  ne_dot : n ≠ ['.']
  ne_dotdot : n ≠ ['.', '.']
  noSlash : '/' ∉ n

instance (w : Word) : Decidable (PlainWord w) :=
  decidable_of_iff (w.all (fun c => !special.contains c) ∧ w.head? ≠ some '-')
    ⟨fun h => ⟨by simpa using h.1, h.2⟩, fun h => ⟨by simpa using h.ordinary, h.noOption⟩⟩

instance (n : Word) : Decidable (Plain n) :=
  decidable_of_iff (PlainWord n ∧ n ≠ [] ∧ n ≠ ['.'] ∧ n ≠ ['.', '.'] ∧ '/' ∉ n)
    ⟨fun h => ⟨h.1, h.2.1, h.2.2.1, h.2.2.2.1, h.2.2.2.2⟩,
      fun h => ⟨h.toPlainWord, h.nonempty, h.ne_dot, h.ne_dotdot, h.noSlash⟩⟩

/-- `" ${list[*]} " =~ " $w "`: the right side is quoted, so this looks for a substring. -/
def mentions (list : List Word) (w : Word) : Prop :=
  [' '] ++ w ++ [' '] <:+: [' '] ++ [' '].intercalate list ++ [' ']

instance (list : List Word) (w : Word) : Decidable (mentions list w) := by
  unfold mentions; infer_instance

/-- What follows the last occurrence of `pat`, if there is one. -/
def afterLast (pat : Word) : Word → Option Word
  | [] => if pat = [] then some [] else none
  | c :: w => (afterLast pat w).or (if pat <+: c :: w then some ((c :: w).drop pat.length) else none)

/-- `${w##*pat}`, for a `pat` without special characters. -/
def trimTo (pat w : Word) : Word := (afterLast pat w).getD w

/-- Does `echo` take its one argument for an option? -/
def isEchoOption (w : Word) : Bool := w.head? = some '-' && !w.tail.isEmpty && w.tail.all ['n', 'e', 'E'].contains

/-- What `echo w` prints. -/
def echo (w : Word) : Word :=
  if isEchoOption w then if 'n' ∈ w then [] else ['\n']
  else w ++ ['\n']

/-- A number as the shell prints it. -/
def decimal (i : Int) : Word := if i < 0 then '-' :: Nat.toDigits 10 i.natAbs else Nat.toDigits 10 i.natAbs

/-- The characters that `read` gets, with a mark on those that a backslash quotes. -/
def readChars : List Char → List (Char × Bool)
  | '\\' :: '\n' :: text => readChars text
  | '\\' :: c :: text => (c, true) :: readChars text
  | c :: text => (c, false) :: readChars text
  | [] => []

/-- `read` drops the blanks around a line, not the quoted ones. -/
def trimLine (line : List (Char × Bool)) : List (Char × Bool) :=
  let blank := fun c => c = (' ', false) ∨ c = ('\t', false)
  ((line.dropWhile blank).reverse.dropWhile blank).reverse

/-- `while read line`; a last line that does not end is not read. -/
def collect_ignored_formats (text : List Char) : List Word :=
  ((readChars text).splitOn ('\n', false)).dropLast.map fun line => (trimLine line).map Prod.fst

/-! ### Paths -/

/-- One component of a pathname, in directory `p`. -/
def component (t : Tree) (p : Path) (w : Word) : Option Path :=
  if t.IsDir p then
    some (if w = [] ∨ w = ['.'] then p else if w = ['.', '.'] then p.tail else w :: p)
  else none

/-- The path a pathname stands for; it need not exist. -/
def resolve (t : Tree) (cwd : Path) (w : Word) : Option Path :=
  if w = [] then none
  else (w.splitOn '/').foldlM (component t) (if w.head? = some '/' then [] else cwd)

/-- The absolute pathname, as `pwd` and `realpath` print it. -/
def pathname (p : Path) : Word := if p = [] then ['/'] else ['/'].intercalate ([] :: p.reverse)

def basename (w : Word) : Word := (w.splitOn '/').getLastD []

/-- `*` in directory `p`, or what `ls` lists there. -/
def glob (t : Tree) (p : Path) : List Word :=
  ((t.entries p).filter fun n => n.head? ≠ some '.').insertionSort (· ≤ ·)

/-! ### Commands on files -/

/-- `>> p` -/
def append (t : Tree) (p : Path) (text : List Char) : Tree := t.write p ((t.read p).getD [] ++ text)

def touch (t : Tree) (p : Path) : Tree := if (t.node p).isSome then t else t.write p []

/-- Where `mv` puts a file: into a directory, or under another name. -/
def mvTarget (t : Tree) (src dst : Path) : Path := if t.IsDir dst then src.take 1 ++ dst else dst

def mv (t : Tree) (src dst : Path) : Tree :=
  let dst := mvTarget t src dst
  if t.IsFile src ∧ dst ≠ src ∧ ¬ t.IsDir dst ∧ t.IsDir dst.tail then t.rename src dst else t

/-- The file that goes when another comes in its place. -/
def mvReplaces (t : Tree) (src dst : Path) : List Path :=
  let dst := mvTarget t src dst
  if t.IsFile src ∧ dst ≠ src ∧ t.IsFile dst then [dst] else []

/-! ### The state of the script -/

structure Vars where
  tree : Tree
  dir : Word
  file_actual_name : Word
  formats_to_be_ignored : List Word
  selected_formats : List Word
  ignored_file_count : Nat
  output_dir_path : Path
  /-- not in the script: the files that `move_selected_files` comes to -/
  visited : List Path
  /-- not in the script: the files it calls `mv` for -/
  moved : List Path
  /-- not in the script: the files that `mv` has replaced -/
  overwritten : List Path
  /-- not in the script: the numbers in the lines of `output.csv` -/
  counts : List (Word × Int)

structure Shell where
  cwd : Path
  vars : Vars

def Shell.tree (s : Shell) : Tree := s.vars.tree

/-- `cd`, which stays where it is when it fails. -/
def Shell.cd (s : Shell) (w : Word) : Shell :=
  match resolve s.tree s.cwd w with
  | some p => if s.tree.IsDir p then { s with cwd := p } else s
  | none => s

/-- `${output_dir_path}output_dir/$extension` -/
def Vars.formatDir (v : Vars) (extension : Word) : Path :=
  if extension = [] then OUTPUT_DIR :: v.output_dir_path else extension :: OUTPUT_DIR :: v.output_dir_path

/-! ### The functions of the script -/

def fileName (q : Path) : Word := q.headD []

/-- `filename` has no blanks to trim. -/
def get_file_extension (filename : Word) : Word :=
  let res := filename.filter (· = '.')
  if res.length = 0 then OTHERS
  else trimTo ['.'] filename

/-- What a pass does with the name `f`: `body` is for files, `go` for directories. -/
def visit (body : Vars → Path → Vars) (go : Word → Shell → Option Shell) (s : Shell) (f : Word) : Option Shell :=
  if s.tree.IsFile (f :: s.cwd) then some { s with vars := body s.vars (f :: s.cwd) }
  else if s.tree.IsDir (f :: s.cwd) then go f s
  else some s

/-- Both passes over the directory. -/
def pass (body : Vars → Path → Vars) : (fuel : Nat) → Word → Shell → Option Shell
  | 0, _, _ => none
  | fuel + 1, w, s => do
    let s := s.cd w
    let s ← (glob s.tree s.cwd).foldlM (visit body (pass body fuel)) s
    -- come back
    return s.cd ['.', '.', '/']

def collectFile (v : Vars) (q : Path) : Vars :=
  let f := fileName q
  let extension := get_file_extension f
  if f ≠ v.file_actual_name then
    if ¬ mentions v.formats_to_be_ignored extension then
      if ¬ mentions v.selected_formats extension then
        -- `+=($extension)` adds nothing when it is empty
        { v with selected_formats := v.selected_formats ++ if extension = [] then [] else [extension] }
      else v
    else { v with ignored_file_count := v.ignored_file_count + 1 }
  else v

def collect_selected_formats : (fuel : Nat) → Word → Shell → Option Shell := pass collectFile

/-- The line for `desc.txt`. -/
def relative_path (v : Vars) (q : Path) : Word := trimTo (trimTo ['.', '/'] v.dir) (pathname q)

/-- The test of the name is in the source twice. -/
def moveFile (v : Vars) (q : Path) : Vars :=
  let v := { v with visited := v.visited ++ [q] }
  let f := fileName q
  let extension := get_file_extension f
  if f ≠ v.file_actual_name then
    if ¬ mentions v.formats_to_be_ignored extension then
      let dst := v.formatDir extension
      { v with
        tree := append (mv v.tree q dst) (DESC_TXT :: dst) (echo (relative_path v q))
        moved := v.moved ++ [q]
        overwritten := v.overwritten ++ mvReplaces v.tree q dst }
    else v
  else v

def move_selected_files : (fuel : Nat) → Word → Shell → Option Shell := pass moveFile

/-- `mkdir -p` and `touch` for one format. -/
def makeDirectory (v : Vars) (format : Word) : Vars :=
  let tree := (v.tree.mkdir (OUTPUT_DIR :: v.output_dir_path)).mkdir (v.formatDir format)
  { v with tree := touch tree (DESC_TXT :: v.formatDir format) }

/-- `output_dir` and `output.csv` without formats.  `${output_dir}` is not
    set, so three of the paths are relative. -/
def emptyOutput (s : Shell) : Tree :=
  let tree := (s.tree.remove (OUTPUT_DIR :: s.cwd)).mkdir (OUTPUT_DIR :: s.cwd)
  let tree := touch tree (OUTPUT_CSV :: s.cwd)
  append tree (OUTPUT_CSV :: s.vars.output_dir_path) CSV_HEADER

def make_directories (s : Shell) : Shell :=
  { s with vars := s.vars.selected_formats.foldl makeDirectory { s.vars with tree := emptyOutput s } }

/-- `ls $f | wc -l`, less the description -/
def formatCount (t : Tree) (p : Path) : Int := (glob t p).length - 1

def csvLine (format_name : Word) (count : Int) : Word := format_name ++ [',', ' '] ++ decimal count ++ ['\n']

/-- One round of the loop of `populate_csv_file`, over the entries of directory `p`. -/
def countFormat (p : Path) (v : Vars) (format_name : Word) : Vars :=
  if v.tree.IsDir (format_name :: p) then
    let count := formatCount v.tree (format_name :: p)
    { v with
      tree := append v.tree (OUTPUT_CSV :: v.output_dir_path) (csvLine format_name count)
      counts := v.counts ++ [(format_name, count)] }
  else v

def populate_csv_file (s : Shell) : Shell :=
  let v := (glob s.tree (OUTPUT_DIR :: s.cwd)).foldl (countFormat (OUTPUT_DIR :: s.cwd)) s.vars
  { s with vars := { v with
    tree := append v.tree (OUTPUT_CSV :: v.output_dir_path) (csvLine IGNORED v.ignored_file_count) } }

/-- The part of the script that both forms share. -/
def organise (fuel : Nat) (s : Shell) : Option Shell := do
  let s ← collect_selected_formats fuel s.vars.dir s
  let s := make_directories s
  let s ← move_selected_files fuel s.vars.dir s
  return populate_csv_file s

/-! ### How the script is called -/

inductive Args where
  | two (dir file : Word)
  | one (file : Word)

namespace Args

def words : Args → List Word
  | two dir file => [dir, file]
  | one file => [file]

def file : Args → Word
  | two _ file => file
  | one file => file

end Args

structure Invocation where
  tree : Tree
  cwd : Path
  args : Args
  isDir : tree.IsDir cwd
  plain : ∀ {p}, tree.node p ≠ none → ∀ n ∈ p, Plain n
  plainArgs : ∀ w ∈ args.words, PlainWord w

/-- The script up to the first pass; `none` if it rejects its arguments. -/
def Invocation.start (i : Invocation) : Option Shell :=
  let shell (cwd : Path) (dir file_actual_name : Word) (text : List Char) : Shell :=
    { cwd
      vars :=
        { tree := i.tree, dir, file_actual_name, formats_to_be_ignored := collect_ignored_formats text
          selected_formats := [], ignored_file_count := 0, output_dir_path := cwd, visited := [], moved := []
          overwritten := [], counts := [] } }
  match i.args with
  | .two dir file => do
    let p ← resolve i.tree i.cwd dir
    let q ← resolve i.tree i.cwd file
    let text ← i.tree.read q
    if i.tree.IsDir p then some (shell i.cwd dir (basename file) text) else none
  | .one file => do
    let q ← resolve i.tree i.cwd file
    let text ← i.tree.read q
    -- `cd ..`
    some (shell i.cwd.tail (pathname i.cwd) (basename (pathname q)) text)

end Organiser
