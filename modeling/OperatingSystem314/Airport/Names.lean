import Mathlib.Logic.Function.Basic

/-! # The names of the passengers (`int_to_char` and `get_passenger_name` of `helper.h`)

    `int_to_char` takes the digits of a number off from the right, into
    `arr1`, and copies them in reverse to `arr`.  Both arrays have as many
    bytes as there are digits, but the digits lie from index one on in `arr1`
    and the terminating NUL comes behind them in `arr`.

    An array is its cells and the indices that have been used; the bytes
    behind it are taken to be there and to hold what is written to them.

    * `int_to_char_overruns`: every call leaves both arrays.
    * `get_passenger_name_injective`: the names differ, if the bytes behind
      the arrays are not harmed. -/

namespace Airport

/-! ### The routines -/

/-- An array of characters. -/
structure Chars where
  size : Nat
  cell : Nat → Char
  /-- the indices read or written, the last one first -/
  touched : List Nat

namespace Chars

def write (a : Chars) (k : Nat) (x : Char) : Chars :=
  { a with cell := Function.update a.cell k x, touched := k :: a.touched }

def read (a : Chars) (k : Nat) : Chars := { a with touched := k :: a.touched }

def InBounds (a : Chars) : Prop := ∀ k ∈ a.touched, k < a.size

end Chars

/-- `x + '0'` -/
def asciiDigit (x : Nat) : Char := Char.ofNat (x + 48)

/-- The loop that counts the digits. -/
def countDigits (m digit : Nat) : Nat := if m = 0 then digit else countDigits (m / 10) (digit + 1)
termination_by m
decreasing_by omega

/-- The loop that takes the digits off. -/
def separate (N index : Nat) (arr1 : Chars) : Nat × Chars :=
  if N = 0 then (index, arr1)
  else separate (N / 10) (index + 1) (arr1.write (index + 1) (asciiDigit (N % 10)))
termination_by N
decreasing_by omega

/-- The loop that reverses them, with `left` rounds to go. -/
def reverse (index : Nat) : (left i : Nat) → (arr1 arr : Chars) → Chars × Chars
  | 0, _, arr1, arr => (arr1, arr)
  | left + 1, i, arr1, arr =>
    reverse index left (i + 1) (arr1.read (index - i)) (arr.write i (arr1.cell (index - i)))

/-- What a call leaves: the two arrays, and the index of the NUL. -/
structure Printed where
  index : Nat
  arr1 : Chars
  arr : Chars

/-- `int_to_char`; `stack` and `heap` are what the two arrays hold at the
    start. -/
def int_to_char (stack heap : Nat → Char) (N : Nat) : Printed :=
  let digit := countDigits N 0
  let r := separate N 0 ⟨digit, stack, []⟩
  let copied := reverse r.1 r.1 0 r.2 ⟨digit, heap, []⟩
  { index := r.1, arr1 := copied.1, arr := copied.2.write r.1 '\x00' }

/-- The array that is returned, up to the NUL and with it. -/
def Printed.content (r : Printed) : List Char := (List.range (r.index + 1)).map r.arr.cell

/-- The characters of a C string. -/
def cstring (l : List Char) : List Char := l.takeWhile (· ≠ '\x00')

def get_passenger_name (stack heap : Nat → Char) (id : Nat) (VIP : Bool) : List Char :=
  let pass_id := cstring (int_to_char stack heap id).content
  if VIP then pass_id ++ " (VIP)".toList else pass_id

/-! ### Decimal numerals -/

theorem asciiDigit_eq {x : Nat} (hx : x < 10) : asciiDigit x = x.digitChar := by
  decide +revert

/-- The last digit comes off the end, as in the loops. -/
theorem toDigits_snoc (N : Nat) :
    Nat.toDigits 10 N = (if N / 10 = 0 then [] else Nat.toDigits 10 (N / 10)) ++ [asciiDigit (N % 10)] := by
  rw [Nat.toDigits_eq_if (by decide), asciiDigit_eq (Nat.mod_lt N (by decide))]
  by_cases hN : N < 10
  · rw [if_pos hN, if_pos (Nat.div_eq_of_lt hN), Nat.mod_eq_of_lt hN]
    rfl
  · rw [if_neg hN, if_neg (by omega)]

/-- The number of digits. -/
def width (N : Nat) : Nat := if N = 0 then 0 else (Nat.toDigits 10 N).length

theorem width_zero : width 0 = 0 := rfl

theorem width_of_pos {N : Nat} (hN : N ≠ 0) : width N = width (N / 10) + 1 := by
  rw [width, if_neg hN, toDigits_snoc, List.length_append, width]
  split
  · rfl
  · rfl

theorem toDigits_width {N : Nat} (hN : N ≠ 0) : (Nat.toDigits 10 N).length = width N := by
  rw [width, if_neg hN]

/-! ### The loops -/

theorem countDigits_eq (m digit : Nat) : countDigits m digit = digit + width m := by
  induction m, digit using countDigits.induct with
  | case1 digit => rw [countDigits, if_pos rfl, width_zero, Nat.add_zero]
  | case2 m digit hm ih =>
    rw [countDigits, if_neg hm, ih, width_of_pos hm]
    omega

/-- The digits lie behind the index, the last one first; no other cell
    changes, and the array keeps its size. -/
theorem separate_spec (N index : Nat) (arr1 : Chars) :
    ∃ arr1', separate N index arr1 = (index + width N, arr1') ∧ arr1'.size = arr1.size ∧
      (∀ k, k ≤ index → arr1'.cell k = arr1.cell k) ∧
      (N ≠ 0 → (List.range (width N)).map (fun j => arr1'.cell (index + width N - j)) = Nat.toDigits 10 N) := by
  induction N, index, arr1 using separate.induct with
  | case1 index arr1 => exact ⟨arr1, by rw [separate, if_pos rfl, width_zero, Nat.add_zero], rfl,
     fun k _ => rfl, fun h => absurd rfl h⟩
  | case2 N index arr1 hN ih =>
    obtain ⟨arr1', hrun, hsize, hframe, hdigits⟩ := ih
    have hend : index + 1 + width (N / 10) = index + width N := by
      rw [width_of_pos hN]
      omega
    have hcell : arr1'.cell (index + 1) = asciiDigit (N % 10) := by
      rw [hframe (index + 1) (Nat.le_refl _)]
      exact Function.update_self _ _ _
    refine ⟨arr1', by rw [separate, if_neg hN, hrun, hend], hsize, ?_, ?_⟩
    · intro k hk
      rw [hframe k (by omega)]
      exact Function.update_of_ne (by omega) _ _
    · intro _
      -- the digits of `N / 10` come first, the one taken off last
      have hlast : index + width N - width (N / 10) = index + 1 := by
        rw [width_of_pos hN]
        omega
      have hrange : List.range (width N) = List.range (width (N / 10)) ++ [width (N / 10)] := by
        rw [width_of_pos hN, List.range_succ]
      rw [hrange, List.map_append, toDigits_snoc, List.map_singleton, hlast, hcell]
      congr 1
      by_cases hone : N / 10 = 0
      · rw [if_pos hone, hone, width_zero]
        rfl
      · rw [if_neg hone, ← hend]
        exact hdigits hone

/-- The rounds copy the cells from the index down, and use the cell of the
    index in the first round. -/
theorem reverse_spec (index left i : Nat) (arr1 arr : Chars) :
    (reverse index left i arr1 arr).1.size = arr1.size ∧
      (reverse index left i arr1 arr).2.size = arr.size ∧
      (∀ k ∈ arr1.touched, k ∈ (reverse index left i arr1 arr).1.touched) ∧
      (left ≠ 0 → index - i ∈ (reverse index left i arr1 arr).1.touched) ∧
      ∀ k, (reverse index left i arr1 arr).2.cell k =
        if i ≤ k ∧ k < i + left then arr1.cell (index - k) else arr.cell k := by
  induction left generalizing i arr1 arr with
  | zero => exact ⟨rfl, rfl, fun k hk => hk, fun h => absurd rfl h, fun k => (if_neg (by omega)).symm⟩
  | succ left ih =>
    obtain ⟨hsize1, hsize, hkept, -, hcell⟩ := ih (i + 1) (arr1.read (index - i)) (arr.write i (arr1.cell (index - i)))
    refine ⟨hsize1, hsize, ?_, ?_, ?_⟩
    · intro k hk
      exact hkept k (List.mem_cons_of_mem _ hk)
    · intro _
      exact hkept _ List.mem_cons_self
    · intro k
      rw [reverse, hcell k]
      by_cases hk : k = i
      · subst hk
        rw [if_neg (by omega), if_pos (by omega)]
        exact Function.update_self _ _ _
      · have hwrite : (arr.write i (arr1.cell (index - i))).cell k = arr.cell k := Function.update_of_ne hk _ _
        rw [hwrite]
        by_cases hin : i + 1 ≤ k ∧ k < i + 1 + left
        · rw [if_pos hin, if_pos (by omega)]
          rfl
        · rw [if_neg hin, if_neg (by omega)]

/-! ### The call -/

section Call

variable (stack heap : Nat → Char)

theorem int_to_char_spec {N : Nat} (hN : N ≠ 0) :
    (int_to_char stack heap N).arr1.size = width N ∧ (int_to_char stack heap N).arr.size = width N ∧
      width N ∈ (int_to_char stack heap N).arr1.touched ∧
      width N ∈ (int_to_char stack heap N).arr.touched ∧
      (int_to_char stack heap N).content = Nat.toDigits 10 N ++ ['\x00'] := by
  obtain ⟨arr1, hrun, hsize, -, hdigits⟩ := separate_spec N 0 ⟨countDigits N 0, stack, []⟩
  obtain ⟨hsize1, hsize2, -, hread, hcell⟩ := reverse_spec (width N) (width N) 0 arr1 ⟨countDigits N 0, heap, []⟩
  have hwidth : countDigits N 0 = width N := by rw [countDigits_eq, Nat.zero_add]
  have hpos : width N ≠ 0 := by
    rw [width_of_pos hN]
    omega
  unfold int_to_char
  simp only [hrun, Nat.zero_add]
  refine ⟨?_, ?_, hread hpos, List.mem_cons_self, ?_⟩
  · rw [hsize1, hsize, hwidth]
  · exact hsize2.trans hwidth
  · unfold Printed.content
    rw [List.range_succ, List.map_append, List.map_singleton, ← hdigits hN]
    congr 1
    · apply List.map_congr_left
      intro j hj
      have hlt : j < width N := List.mem_range.mp hj
      have hother : ∀ a : Chars, (a.write (width N) '\x00').cell j = a.cell j := fun a =>
        Function.update_of_ne (by omega) _ _
      rw [hother, hcell j, if_pos (by omega), Nat.zero_add]
    · have hnul : ∀ a : Chars, (a.write (width N) '\x00').cell (width N) = '\x00' := fun a =>
        Function.update_self _ _ _
      rw [hnul]

/-- What the routine is for: all indices are in bounds, and the string is
    the decimal numeral with a NUL behind it. -/
def PrintsDecimal (N : Nat) : Prop :=
  (int_to_char stack heap N).arr1.InBounds ∧ (int_to_char stack heap N).arr.InBounds ∧
    (int_to_char stack heap N).content = Nat.toDigits 10 N ++ ['\x00']

/-- The text is right for every number, but both arrays are left: the first
    digit is read from behind `arr1`, and the NUL is written behind `arr`. -/
theorem int_to_char_overruns {N : Nat} (hN : 1 ≤ N) :
    ¬ PrintsDecimal stack heap N ∧
      (∃ k ∈ (int_to_char stack heap N).arr1.touched, k = (int_to_char stack heap N).arr1.size) ∧
      (∃ k ∈ (int_to_char stack heap N).arr.touched, k = (int_to_char stack heap N).arr.size) ∧
      (int_to_char stack heap N).content = Nat.toDigits 10 N ++ ['\x00'] := by
  obtain ⟨hsize1, hsize, hread, hwrite, hcontent⟩ := int_to_char_spec stack heap (Nat.ne_zero_of_lt hN)
  refine ⟨?_, ⟨_, hread, hsize1.symm⟩, ⟨_, hwrite, hsize.symm⟩, hcontent⟩
  intro h
  have hlt := h.1 _ hread
  omega

/-- The first passenger. -/
theorem int_to_char_overruns_first :
    ¬ PrintsDecimal (fun _ => ' ') (fun _ => ' ') 1 ∧
      (∃ k ∈ (int_to_char (fun _ => ' ') (fun _ => ' ') 1).arr1.touched,
        k = (int_to_char (fun _ => ' ') (fun _ => ' ') 1).arr1.size) ∧
      (∃ k ∈ (int_to_char (fun _ => ' ') (fun _ => ' ') 1).arr.touched,
        k = (int_to_char (fun _ => ' ') (fun _ => ' ') 1).arr.size) ∧
      (int_to_char (fun _ => ' ') (fun _ => ' ') 1).content = Nat.toDigits 10 1 ++ ['\x00'] :=
  int_to_char_overruns (fun _ => ' ') (fun _ => ' ') (by decide)

/-- Passenger 12: both arrays have two bytes, and both are used at index two. -/
theorem int_to_char_not_in_bounds :
    (int_to_char (fun _ => ' ') (fun _ => ' ') 12).arr1.size = 2 ∧
      2 ∈ (int_to_char (fun _ => ' ') (fun _ => ' ') 12).arr1.touched ∧
      (int_to_char (fun _ => ' ') (fun _ => ' ') 12).arr.size = 2 ∧
      2 ∈ (int_to_char (fun _ => ' ') (fun _ => ' ') 12).arr.touched ∧
      ¬ PrintsDecimal (fun _ => ' ') (fun _ => ' ') 12 := by
  have hwidth : width 12 = 2 := by decide
  obtain ⟨hsize1, hsize, hread, hwrite, -⟩ := int_to_char_spec (fun _ => ' ') (fun _ => ' ') (N := 12) (by decide)
  rw [hwidth] at hsize1 hsize hread hwrite
  refine ⟨hsize1, hread, hsize, hwrite, ?_⟩
  intro h
  have hlt := h.1 _ hread
  omega

/-- The name is the numeral, with the mark of a VIP. -/
theorem get_passenger_name_eq {id : Nat} (hid : 1 ≤ id) (VIP : Bool) :
    get_passenger_name stack heap id VIP =
      Nat.toDigits 10 id ++ if VIP then " (VIP)".toList else [] := by
  obtain ⟨-, -, -, -, hcontent⟩ := int_to_char_spec stack heap (Nat.ne_zero_of_lt hid)
  have hname : cstring (int_to_char stack heap id).content = Nat.toDigits 10 id := by
    rw [hcontent, cstring, List.takeWhile_append_of_pos]
    · simp
    · intro c hc
      have hdigit := Nat.isDigit_of_mem_toDigits (by decide) (by decide) hc
      simp only [ne_eq, decide_not, Bool.not_eq_eq_eq_not, Bool.not_true, decide_eq_false_iff_not]
      rintro rfl
      exact absurd hdigit (by decide)
  unfold get_passenger_name
  simp only [hname]
  split
  · rfl
  · exact (List.append_nil _).symm

/-- Different ids get different names. -/
theorem get_passenger_name_injective (stack' heap' : Nat → Char) {id id' : Nat} (hid : 1 ≤ id)
    (hid' : 1 ≤ id') {VIP VIP' : Bool}
    (h : get_passenger_name stack heap id VIP = get_passenger_name stack' heap' id' VIP') : id = id' := by
  rw [get_passenger_name_eq stack heap hid, get_passenger_name_eq stack' heap' hid'] at h
  -- the digits are what comes before the first character that is none
  have hdigits : ∀ (n : Nat) (v : Bool),
      (Nat.toDigits 10 n ++ if v then " (VIP)".toList else []).takeWhile Char.isDigit =
        Nat.toDigits 10 n := by
    intro n v
    rw [List.takeWhile_append_of_pos fun c hc => Nat.isDigit_of_mem_toDigits (by decide) (by decide) hc]
    cases v with
    | false => exact List.append_nil _
    | true => exact List.append_nil _
  have hnum := congrArg (List.takeWhile Char.isDigit) h
  rw [hdigits, hdigits] at hnum
  have hval := congrArg (fun l => Nat.ofDigitChars 10 l 0) hnum
  simpa using hval

end Call

end Airport
