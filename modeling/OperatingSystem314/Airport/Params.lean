import Mathlib.Algebra.Group.Int.Defs
import Mathlib.Algebra.Group.Nat.Defs
import Mathlib.Data.List.Nodup
import Mathlib.Logic.Function.Basic

/-! # Reading the parameters (`get_params` of `helper.h`)

    `get_params` reads words up to the end of the file, with a `%s` that has
    no bound into a buffer of 255 bytes, and puts the number of each into an
    array of seven, without a check of the index or of the `sscanf`.

    A byte of the file is a character.  Memory behind an array is taken to
    be there and to hold what is written to it.

    * `get_params_bounded_iff`: when it keeps to its arrays and fills them. -/

namespace Airport

/-! ### The library routines -/

/-- `isspace` of the C locale. -/
def isspace (x : Char) : Bool :=
  x = ' ' ∨ x = '\t' ∨ x = '\n' ∨ x = '\x0b' ∨ x = '\x0c' ∨ x = '\r'

/-- `fscanf(fin, "%s", ..)`: the word and what is left of the file; `none`
    is `EOF`. -/
def scanWord (fin : List Char) : Option (List Char × List Char) :=
  match fin.dropWhile isspace with
  | [] => none
  | x :: xs => some ((x :: xs).takeWhile fun x => !isspace x, (x :: xs).dropWhile fun x => !isspace x)

/-- The value of `strtol`, in a `long`. -/
def toLong (n : Int) : Int := max (-2 ^ 63) (min n (2 ^ 63 - 1))

/-- The digits that a string starts with, as a number. -/
def scanDigits (s : List Char) : Option Int :=
  let ds := s.takeWhile Char.isDigit
  if ds = [] then none else some (Nat.ofDigitChars 10 ds 0)

/-- `sscanf(buff, "%d", ..)` of a word; `none` where nothing is assigned.
    The string ends at a NUL. -/
def scanInt (buff : List Char) : Option Int :=
  let s := buff.takeWhile (· ≠ '\x00')
  let n := match s with
    | '-' :: s => (scanDigits s).map fun n => -n
    | '+' :: s => scanDigits s
    | s => scanDigits s
  n.map fun n => (toLong n).bmod (2 ^ 32)

theorem scanWord_length {fin word rest : List Char} (h : scanWord fin = some (word, rest)) :
    rest.length < fin.length := by
  unfold scanWord at h
  split at h
  next => cases h
  next x xs hskip =>
    have hx : isspace x = false := by
      have hhead := List.head?_dropWhile_not isspace fin
      simpa [hskip] using hhead
    have hle : (x :: xs).length ≤ fin.length := hskip ▸ (List.dropWhile_suffix isspace).length_le
    have hdrop : (x :: xs).dropWhile (fun x => !isspace x) = xs.dropWhile fun x => !isspace x :=
      List.dropWhile_cons_of_pos (by simpa using hx)
    have hrest := (List.dropWhile_suffix (fun x => !isspace x) (l := xs)).length_le
    rw [Option.some.injEq, Prod.mk.injEq, hdrop] at h
    rw [← h.2]
    exact Nat.lt_of_le_of_lt hrest hle

/-- The words that are read up to the end of the file. -/
def words (fin : List Char) : List (List Char) :=
  match _h : scanWord fin with
  | none => []
  | some (word, rest) => word :: words rest
termination_by fin.length
decreasing_by exact scanWord_length _h

/-! ### The routine -/

/-- A round of the loop: the word in `buff`, the index, the number that
    `sscanf` has found, and what is put into the array. -/
structure Round where
  buff : List Char
  idx : Nat
  scanned : Option Int
  stored : Int

/-- The loop, from the rest of the file on; `param` keeps its value where
    `sscanf` finds no number. -/
def readLoop (fin : List Char) (idx : Nat) (param : Int) (params : Nat → Int) : List Round × (Nat → Int) :=
  match h : scanWord fin with
  | none => ([], params)
  | some (buff, rest) =>
    let scanned := scanInt buff
    let stored := scanned.getD param
    let r := readLoop rest (idx + 1) stored (Function.update params idx stored)
    (⟨buff, idx, scanned, stored⟩ :: r.1, r.2)
termination_by fin.length
decreasing_by exact scanWord_length h

inductive Params where
  /-- `new int(-1)` -/
  | noFile
  | array (rounds : List Round) (params : Nat → Int)

/-- `get_params`; the file is `none` where it cannot be opened, `param₀` and
    `params₀` are what the variable and the array hold at the start. -/
def get_params (file : Option (List Char)) (param₀ : Int) (params₀ : Nat → Int) : Params :=
  match file with
  | none => .noFile
  | some fin =>
    let r := readLoop fin 0 param₀ params₀
    .array r.1 r.2

/-- Every round keeps to the seven entries and, with the NUL behind the
    word, to the 255 bytes; and every entry is a number of the file. -/
def Params.Bounded : Params → Prop
  | .noFile => True
  | .array rounds params =>
    (∀ r ∈ rounds, r.idx < 7 ∧ r.buff.length + 1 ≤ 255) ∧
      ∀ i < 7, ∃ r ∈ rounds, r.idx = i ∧ r.scanned = some (params i)

/-! ### The loop -/

theorem words_end {fin : List Char} (h : scanWord fin = none) : words fin = [] := by
  rw [words]
  split
  · rfl
  next heq =>
    rw [h] at heq
    cases heq

theorem words_word {fin word rest : List Char} (h : scanWord fin = some (word, rest)) :
    words fin = word :: words rest := by
  rw [words]
  split
  next heq =>
    rw [h] at heq
    cases heq
  next heq =>
    rw [h] at heq
    cases heq
    rfl

theorem readLoop_end {fin : List Char} (h : scanWord fin = none) (idx : Nat) (param : Int)
    (params : Nat → Int) : readLoop fin idx param params = ([], params) := by
  rw [readLoop]
  split
  · rfl
  next heq =>
    rw [h] at heq
    cases heq

theorem readLoop_word {fin word rest : List Char} (h : scanWord fin = some (word, rest)) (idx : Nat)
    (param : Int) (params : Nat → Int) :
    readLoop fin idx param params =
      (⟨word, idx, scanInt word, (scanInt word).getD param⟩ ::
          (readLoop rest (idx + 1) ((scanInt word).getD param)
            (Function.update params idx ((scanInt word).getD param))).1,
        (readLoop rest (idx + 1) ((scanInt word).getD param)
          (Function.update params idx ((scanInt word).getD param))).2) := by
  rw [readLoop]
  split
  next heq =>
    rw [h] at heq
    cases heq
  next heq =>
    rw [h] at heq
    cases heq
    rfl

/-- What holds of the rounds from an index on: one for each word, with
    growing indices, each with the number of its word if it has one, and the
    array holds at the end what each has put into it. -/
structure Rounds (ws : List (List Char)) (idx : Nat) (params : Nat → Int)
    (r : List Round × (Nat → Int)) : Prop where
  words : r.1.map Round.buff = ws
  indices : r.1.map Round.idx = List.range' idx ws.length
  scanned : ∀ x ∈ r.1, x.scanned = scanInt x.buff ∧ (∀ v ∈ x.scanned, x.stored = v)
  stored : ∀ x ∈ r.1, r.2 x.idx = x.stored
  before : ∀ k < idx, r.2 k = params k

theorem readLoop_rounds (fin : List Char) (idx : Nat) (param : Int) (params : Nat → Int) :
    Rounds (words fin) idx params (readLoop fin idx param params) := by
  induction fin, idx, param, params using readLoop.induct with
  | case1 fin idx param params hend =>
    rw [readLoop_end hend, words_end hend]
    exact ⟨rfl, rfl, by simp, by simp, fun k _ => rfl⟩
  | case2 fin idx param params word rest hword scanned stored ih =>
    rw [readLoop_word hword, words_word hword]
    have hfirst : (readLoop rest (idx + 1) stored (Function.update params idx stored)).2 idx = stored := by
      rw [ih.before idx (by omega), Function.update_self]
    constructor
    · rw [List.map_cons, ih.words]
    · rw [List.map_cons, ih.indices, List.length_cons, List.range'_succ]
    · intro x hx
      rcases List.mem_cons.mp hx with rfl | hx
      · refine ⟨rfl, ?_⟩
        intro v hv
        have hv : scanInt word = some v := hv
        simp [hv]
      · exact ih.scanned x hx
    · intro x hx
      rcases List.mem_cons.mp hx with rfl | hx
      · exact hfirst
      · exact ih.stored x hx
    · intro k hk
      show (readLoop rest (idx + 1) stored (Function.update params idx stored)).2 k = params k
      rw [ih.before k (by omega), Function.update_of_ne (by omega)]

section Rounds

variable {ws : List (List Char)} {params : Nat → Int} {r : List Round × (Nat → Int)}

theorem Rounds.exists_idx (h : Rounds ws 0 params r) {i : Nat} : (∃ x ∈ r.1, x.idx = i) ↔ i < ws.length := by
  rw [← List.mem_map, h.indices]
  simp

theorem Rounds.exists_word (h : Rounds ws 0 params r) {w : List Char} :
    (∃ x ∈ r.1, x.buff = w) ↔ w ∈ ws := by
  rw [← List.mem_map, h.words]

/-- No two rounds have one index. -/
theorem Rounds.idx_inj (h : Rounds ws 0 params r) {x y : Round} (hx : x ∈ r.1) (hy : y ∈ r.1)
    (hxy : x.idx = y.idx) : x = y := by
  have hnodup : (r.1.map Round.idx).Nodup := h.indices ▸ List.nodup_range'
  exact List.inj_on_of_nodup_map hnodup hx hy hxy

end Rounds

/-! ### The call -/

/-- `get_params` keeps to its arrays and fills them just when the file cannot
    be opened, or has seven words, each of at most 254 bytes and with a
    number at its start. -/
theorem get_params_bounded_iff (file : Option (List Char)) (param₀ : Int) (params₀ : Nat → Int) :
    (get_params file param₀ params₀).Bounded ↔
      ∀ fin ∈ file, (words fin).length = 7 ∧ ∀ w ∈ words fin, w.length ≤ 254 ∧ scanInt w ≠ none := by
  cases file with
  | none => simp [get_params, Params.Bounded]
  | some fin =>
    have hrounds := readLoop_rounds fin 0 param₀ params₀
    simp only [get_params, Params.Bounded, Option.mem_some_iff, forall_eq']
    constructor
    · intro h
      obtain ⟨hin, hfilled⟩ := h
      -- index seven is not used, index six is
      have hmost : ¬ 7 < (words fin).length := by
        intro hlt
        obtain ⟨x, hx, hidx⟩ := hrounds.exists_idx.mpr hlt
        have := (hin x hx).1
        omega
      have hleast : 6 < (words fin).length := by
        obtain ⟨x, hx, hidx, -⟩ := hfilled 6 (by decide)
        exact hrounds.exists_idx.mp ⟨x, hx, hidx⟩
      refine ⟨by omega, ?_⟩
      intro w hw
      obtain ⟨x, hx, rfl⟩ := hrounds.exists_word.mpr hw
      obtain ⟨hidx, hlen⟩ := hin x hx
      obtain ⟨y, hy, hsame, hscan⟩ := hfilled x.idx hidx
      have hxy : y = x := hrounds.idx_inj hy hx hsame
      subst hxy
      refine ⟨by omega, ?_⟩
      rw [← (hrounds.scanned y hy).1, hscan]
      simp
    · intro h
      obtain ⟨hseven, hwords⟩ := h
      constructor
      · intro x hx
        have hlt := hrounds.exists_idx.mp ⟨x, hx, rfl⟩
        have hlen := (hwords x.buff (hrounds.exists_word.mp ⟨x, hx, rfl⟩)).1
        omega
      · intro i hi
        obtain ⟨x, hx, hidx⟩ := hrounds.exists_idx.mpr (hseven ▸ hi)
        have hword := (hwords x.buff (hrounds.exists_word.mp ⟨x, hx, rfl⟩)).2
        obtain ⟨hscan, hstored⟩ := hrounds.scanned x hx
        obtain ⟨v, hv⟩ := Option.ne_none_iff_exists'.mp hword
        rw [hv] at hscan
        refine ⟨x, hx, hidx, ?_⟩
        rw [hscan, ← hidx, hrounds.stored x hx, hstored v hscan]

/-- A file of eight numbers, and one of a word: the eighth number goes behind
    the array, and the six entries behind the first are never set. -/
theorem get_params_not_bounded :
    ¬ (get_params (some "8 4 2 3 5 3 2 9".toList) 0 fun _ => 0).Bounded ∧
      ¬ (get_params (some "eight".toList) 0 fun _ => 0).Bounded := by
  have height : (words "8 4 2 3 5 3 2 9".toList).length = 8 := by decide +kernel
  have hone : (words "eight".toList).length = 1 := by decide +kernel
  constructor
  · intro h
    have hrounds := readLoop_rounds "8 4 2 3 5 3 2 9".toList 0 0 fun _ => 0
    obtain ⟨x, hx, hidx⟩ := hrounds.exists_idx.mpr (by omega : 7 < (words "8 4 2 3 5 3 2 9".toList).length)
    have hlt := (h.1 x hx).1
    omega
  · intro h
    have hrounds := readLoop_rounds "eight".toList 0 0 fun _ => 0
    obtain ⟨x, hx, hidx, -⟩ := h.2 6 (by decide)
    have hlt := hrounds.exists_idx.mp ⟨x, hx, hidx⟩
    omega

end Airport
