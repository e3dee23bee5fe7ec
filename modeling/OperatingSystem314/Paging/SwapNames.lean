import Mathlib.Data.List.GetD
import Mathlib.Logic.Function.Basic
import Mathlib.Tactic.IntervalCases
import OperatingSystem314.Paging.SwapCreate

/-! # The names of swap files

    `itoa` at the level of the bytes it writes, the path that
    `createSwapFile` and `removeSwapFile` build in `char path[DIGITS]`, and
    the comparison of directory entries.

    The buffer holds pids of up to seven digits: from `10000000` on the
    terminating NUL, and then digits too, are written behind it
    (`swap_names_ok_iff`).  The entries of the directory would tell pids
    of up to nine digits apart (`swapEntry_inj`). -/

namespace Paging

/-! ### `itoa` -/

abbrev NUL : Char := Char.ofNat 0

/-- `#define DIGITS 14` of `fs.c`: the size of the path buffer. -/
abbrev DIGITS : Nat := 14

/-- `digit[i % 10]` -/
def digit (i : Nat) : Char :=
  ['0', '1', '2', '3', '4', '5', '6', '7', '8', '9'].getD (i % 10) NUL

/-- `do { ++p; shifter = shifter/10; } while(shifter)`: where `p` ends. -/
def pastDigits (p shifter : Nat) : Nat :=
  if shifter / 10 = 0 then p + 1 else pastDigits (p + 1) (shifter / 10)

/-- `do { *--p = digit[i%10]; i = i/10; } while(i)` -/
def putDigits (b : Nat → Char) (p i : Nat) : Nat → Char :=
  let b := Function.update b (p - 1) (digit i)
  if i / 10 = 0 then b else putDigits b (p - 1) (i / 10)

/-- `itoa(i, b + off)`: the memory that `b` points into, afterwards. -/
def putItoa (b : Nat → Char) (off : Nat) (i : Int) : Nat → Char :=
  let (b, p, i) :=
    if i < 0 then (Function.update b off '-', off + 1, (-i).toNat) else (b, off, i.toNat)
  let e := pastDigits p i
  putDigits (Function.update b e NUL) e i

/-- `memmove(path,"/.swap", 6); itoa(p->pid, path+ 6);` -/
def putPath (path : Nat → Char) (pid : Int) : Nat → Char :=
  putItoa (fun j => if j < 6 then ['/', '.', 's', 'w', 'a', 'p'].getD j NUL else path j) 6 pid

theorem digit_eq (i : Nat) : digit i = Nat.digitChar (i % 10) := by
  have hlt : i % 10 < 10 := Nat.mod_lt _ (by decide)
  unfold digit
  interval_cases i % 10 <;> rfl

/-- The digits of `i`, from the last one on. -/
theorem itoa_eq (i : Nat) :
    itoa i = if i / 10 = 0 then [digit i] else itoa (i / 10) ++ [digit i] := by
  unfold itoa
  rw [Nat.toDigits_eq_if (by decide), digit_eq]
  by_cases hi : i < 10
  · rw [if_pos hi, if_pos (by omega), Nat.mod_eq_of_lt hi]
  · rw [if_neg hi, if_neg (by omega)]

theorem itoa_length_pos (i : Nat) : 0 < (itoa i).length := Nat.length_toDigits_pos

theorem pastDigits_eq (p i : Nat) : pastDigits p i = p + (itoa i).length := by
  induction p, i using pastDigits.induct with
  | case1 p i hi =>
    unfold pastDigits
    rw [itoa_eq, if_pos hi, if_pos hi]
    rfl
  | case2 p i hi ih =>
    unfold pastDigits
    rw [if_neg hi, ih, itoa_eq i, if_neg hi, List.length_append]
    simp only [List.length_singleton]
    omega

/-- The digits are written in front of the byte that `p` points to, and
    nothing else is. -/
theorem putDigits_eq (b : Nat → Char) (p i : Nat) :
    putDigits b (p + (itoa i).length) i = fun j =>
      if j < p then b j else (itoa i).getD (j - p) (b j) := by
  induction i using Nat.strongRecOn generalizing b with
  | ind i ih =>
    have hpos := itoa_length_pos i
    unfold putDigits
    by_cases hi : i / 10 = 0
    · have hone : itoa i = [digit i] := by rw [itoa_eq, if_pos hi]
      simp only [hone, List.length_singleton, Nat.add_sub_cancel, if_pos hi]
      funext j
      rcases Nat.lt_trichotomy j p with hj | rfl | hj
      · rw [if_pos hj, Function.update_of_ne (by omega)]
      · simp
      · rw [if_neg (by omega), Function.update_of_ne (by omega)]
        rw [List.getD_eq_default _ _ (by simp; omega)]
    · have hmore : itoa i = itoa (i / 10) ++ [digit i] := by rw [itoa_eq, if_neg hi]
      have hlen : p + (itoa i).length - 1 = p + (itoa (i / 10)).length := by
        rw [hmore]
        simp only [List.length_append, List.length_singleton]
        omega
      simp only [hlen, if_neg hi]
      rw [ih (i / 10) (by omega)]
      funext j
      by_cases hj : j < p
      · rw [if_pos hj, if_pos hj, Function.update_of_ne (by omega)]
      · rw [if_neg hj, if_neg hj, hmore]
        rcases Nat.lt_trichotomy j (p + (itoa (i / 10)).length) with hlt | rfl | hgt
        · have hlt' : j - p < (itoa (i / 10)).length := by omega
          rw [List.getD_append _ _ _ _ hlt', List.getD_eq_getElem _ _ hlt', List.getD_eq_getElem _ _ hlt']
        · simp
        · rw [List.getD_eq_default _ _ (by omega), Function.update_of_ne (by omega)]
          rw [List.getD_eq_default _ _ (by simp; omega)]

/-- `itoa` of a number that is not negative writes its digits and a NUL. -/
theorem putItoa_eq (b : Nat → Char) (off pid : Nat) :
    putItoa b off pid = fun j =>
      if j < off ∨ off + (itoa pid).length < j then b j else (itoa pid).getD (j - off) NUL := by
  unfold putItoa
  rw [if_neg (by omega)]
  simp only [Int.toNat_natCast]
  rw [pastDigits_eq, putDigits_eq]
  funext j
  by_cases hlt : j < off
  · simp only [hlt, true_or, if_true]
    rw [Function.update_of_ne (by omega)]
  rcases Nat.lt_trichotomy j (off + (itoa pid).length) with hj | rfl | hj
  · have hj' : j - off < (itoa pid).length := by omega
    simp only [hlt, false_or, if_false]
    rw [if_neg (by omega), List.getD_eq_getElem _ _ hj', List.getD_eq_getElem _ _ hj']
  · simp
  · simp only [hlt, false_or, if_false]
    rw [if_pos hj, List.getD_eq_default _ _ (by omega), Function.update_of_ne (by omega)]

/-! ### The buffer -/

/-- From `b` on there is the string `s`, up to its NUL. -/
structure IsString (b : Nat → Char) (s : List Char) : Prop where
  noNul : NUL ∉ s
  chars : ∀ j (hj : j < s.length), b j = s[j]
  nul : b s.length = NUL

/-- What the two loops of `itoa` are to do for a pid. -/
def ItoaOk (pid : Nat) : Prop :=
  ∀ b off, IsString (fun j => putItoa b off pid (off + j)) (Nat.toDigits 10 pid) ∧
    ∀ j, j < off ∨ off + (Nat.toDigits 10 pid).length < j → putItoa b off pid j = b j

/-- Nothing is written behind the buffer, whatever is there. -/
def PathFits (pid : Nat) : Prop := ∀ path j, DIGITS ≤ j → putPath path pid j = path j

theorem itoaOk (pid : Nat) : ItoaOk pid := by
  intro b off
  rw [putItoa_eq]
  refine ⟨⟨?_, fun j hj => ?_, ?_⟩, fun j hj => ?_⟩
  · intro hmem
    have hdigit := Nat.isDigit_of_mem_toDigits (by decide) (by decide) hmem
    exact absurd hdigit (by decide)
  · have hj' : j < (itoa pid).length := hj
    simp only []
    rw [if_neg (by omega), Nat.add_sub_cancel_left, List.getD_eq_getElem _ _ hj']
    rfl
  · show (if _ ∨ _ then _ else (itoa pid).getD _ _) = NUL
    rw [if_neg (by simp [itoa]), Nat.add_sub_cancel_left]
    exact List.getD_eq_default _ _ (Nat.le_refl _)
  · exact if_pos hj

theorem putPath_string (path : Nat → Char) (pid : Nat) : IsString (putPath path pid) (swapPath pid) := by
  obtain ⟨hs, hrest⟩ := itoaOk pid (fun j => if j < 6 then ['/', '.', 's', 'w', 'a', 'p'].getD j NUL else path j) 6
  have hlen : (swapPath pid).length = 6 + (Nat.toDigits 10 pid).length := by
    simp [swapPath, swapName, itoa]
    omega
  refine ⟨?_, fun j hj => ?_, ?_⟩
  · intro hmem
    have hpre : swapPath pid = ['/', '.', 's', 'w', 'a', 'p'] ++ Nat.toDigits 10 pid := rfl
    rw [hpre, List.mem_append] at hmem
    exact hmem.elim (by decide) hs.noNul
  · by_cases h6 : j < 6
    · show putItoa _ 6 pid j = _
      rw [hrest j (.inl h6), if_pos h6]
      interval_cases j <;> rfl
    · obtain ⟨i, rfl⟩ : ∃ i, j = 6 + i := ⟨j - 6, by omega⟩
      have hi := hs.chars i (by omega)
      refine hi.trans ?_
      have hpre : swapPath pid = ['/', '.', 's', 'w', 'a', 'p'] ++ Nat.toDigits 10 pid := rfl
      simp only [hpre]
      rw [List.getElem_append_right (by simp)]
      simp
  · rw [hlen]
    exact hs.nul

theorem itoa_length_le {pid n : Nat} (hn : 0 < n) : (itoa pid).length ≤ n ↔ pid < 10 ^ n := by
  unfold itoa
  rw [Nat.length_toDigits_le_iff (by decide) hn]

/-- Fourteen bytes are the prefix, seven digits and the NUL. -/
theorem pathFits_iff {pid : Nat} : PathFits pid ↔ pid < 10 ^ 7 := by
  rw [← itoa_length_le (by decide)]
  constructor
  · intro h
    by_contra hlong
    -- the byte behind the buffer is a digit or the NUL, whatever was there
    have hA := h (fun _ => 'A') DIGITS (Nat.le_refl _)
    have hB := h (fun _ => 'B') DIGITS (Nat.le_refl _)
    unfold putPath at hA hB
    rw [putItoa_eq] at hA hB
    simp only [DIGITS] at hA hB
    rw [if_neg (by omega)] at hA hB
    exact absurd (hA.symm.trans hB) (by decide)
  · intro h path j hj
    unfold putPath
    simp only [DIGITS] at hj
    rw [putItoa_eq]
    simp only []
    rw [if_pos (by omega), if_neg (by omega)]

/-! ### Directory entries -/

/-- `strncmp` of two strings, which end with a NUL each. -/
def strncmp : (n : Nat) → (p q : List Char) → Int
  | 0, _, _ => 0
  | _ + 1, [], [] => 0
  | _ + 1, [], b :: _ => 0 - b.toNat
  | _ + 1, a :: _, [] => a.toNat
  | n + 1, a :: p, b :: q => if a = b then strncmp n p q else a.toNat - b.toNat

def namecmp (s t : List Char) : Int := strncmp DIRSIZ s t

theorem toNat_ne_zero {c : Char} (h : c ≠ NUL) : c.toNat ≠ 0 := by
  intro h0
  apply h
  rw [← Char.ofNat_toNat c, h0]

theorem strncmp_eq_zero {n : Nat} {p q : List Char} (hp : NUL ∉ p) (hq : NUL ∉ q) :
    strncmp n p q = 0 ↔ p.take n = q.take n := by
  induction n, p, q using strncmp.induct with
  | case1 p q => simp [strncmp]
  | case2 n => simp [strncmp]
  | case3 n b q =>
    have hb := toNat_ne_zero (c := b) (by rintro rfl; simp at hq)
    simp only [strncmp, List.take_nil, List.take_succ_cons, reduceCtorEq, iff_false]
    omega
  | case4 n a p =>
    have ha := toNat_ne_zero (c := a) (by rintro rfl; simp at hp)
    simp only [strncmp, List.take_nil, List.take_succ_cons, reduceCtorEq, iff_false]
    omega
  | case5 n p b q ih =>
    have ih' := ih (fun h => hp (List.mem_cons_of_mem _ h)) fun h => hq (List.mem_cons_of_mem _ h)
    simpa [strncmp] using ih'
  | case6 n a p b q hab =>
    simp only [strncmp, List.take_succ_cons, List.cons.injEq, hab, false_and, iff_false]
    intro h
    apply hab
    rw [if_neg id] at h
    have hnat : a.toNat = b.toNat := by omega
    rw [← Char.ofNat_toNat a, hnat, Char.ofNat_toNat]

theorem IsString.unique {b : Nat → Char} {s t : List Char} (hs : IsString b s) (ht : IsString b t) :
    s = t := by
  -- the shorter one ends where the other one has no NUL
  have hlen : ∀ {s t : List Char}, IsString b s → IsString b t → ¬ s.length < t.length := by
    intro s t hs ht hlt
    have hnul := hs.nul
    rw [ht.chars _ hlt] at hnul
    exact ht.noNul (hnul ▸ List.getElem_mem hlt)
  have h1 := hlen hs ht
  have h2 := hlen ht hs
  refine List.ext_getElem (by omega) fun j hj hj' => ?_
  rw [← hs.chars j hj, ← ht.chars j hj']

/-- The name that `nameiparent` takes from the path built for a pid. -/
def LookedUp (pid : Nat) (name : List Char) : Prop :=
  ∃ path s rest, IsString (putPath path pid) s ∧ Fs.skipelem s = some (name, rest)

theorem lookedUp_iff {pid : Nat} {name : List Char} : LookedUp pid name ↔ name = swapEntry pid := by
  constructor
  · rintro ⟨path, s, rest, hs, helem⟩
    rw [hs.unique (putPath_string path pid), skipelem_swapPath] at helem
    cases helem
    rfl
  · rintro rfl
    exact ⟨fun _ => NUL, _, _, putPath_string _ pid, skipelem_swapPath pid⟩

theorem nul_not_mem_swapEntry (pid : Nat) : NUL ∉ swapEntry pid := by
  intro hmem
  have hname := List.mem_of_mem_take hmem
  unfold swapName itoa at hname
  rw [List.mem_append] at hname
  refine hname.elim (by decide) fun hdigit => ?_
  exact absurd (Nat.isDigit_of_mem_toDigits (by decide) (by decide) hdigit) (by decide)

theorem itoa_inj {p q : Nat} (h : itoa p = itoa q) : p = q := by
  have hval := congrArg (fun ds => Nat.ofDigitChars 10 ds 0) h
  simpa [itoa] using hval

/-- A name of fourteen bytes has room for nine digits. -/
theorem swapEntry_inj {p q : Nat} (hp : p < 10 ^ 9) (hq : q < 10 ^ 9) (h : swapEntry p = swapEntry q) :
    p = q := by
  have hwhole : ∀ {n : Nat}, n < 10 ^ 9 → swapEntry n = swapName n := by
    intro n hn
    rw [← itoa_length_le (by decide)] at hn
    apply List.take_of_length_le
    simp only [swapName, List.length_append, List.length_cons, List.length_nil, DIRSIZ]
    omega
  rw [hwhole hp, hwhole hq] at h
  exact itoa_inj (List.append_cancel_left h)

/-- The names of two pids are written as they should be, within their
    buffers, and lead to different entries. -/
def SwapNamesOk (p q : Nat) : Prop :=
  (ItoaOk p ∧ PathFits p) ∧ (ItoaOk q ∧ PathFits q) ∧
    (p ≠ q → ∀ s t, LookedUp p s → LookedUp q t → namecmp s t ≠ 0)

theorem swap_names_ok_iff (p q : Nat) : SwapNamesOk p q ↔ p < 10 ^ 7 ∧ q < 10 ^ 7 := by
  constructor
  · rintro ⟨⟨-, hp⟩, ⟨-, hq⟩, -⟩
    exact ⟨pathFits_iff.mp hp, pathFits_iff.mp hq⟩
  · rintro ⟨hp, hq⟩
    refine ⟨⟨itoaOk p, pathFits_iff.mpr hp⟩, ⟨itoaOk q, pathFits_iff.mpr hq⟩, ?_⟩
    intro hne s t hs ht hcmp
    rw [lookedUp_iff] at hs ht
    subst hs ht
    unfold namecmp at hcmp
    rw [strncmp_eq_zero (nul_not_mem_swapEntry p) (nul_not_mem_swapEntry q)] at hcmp
    unfold swapEntry at hcmp
    rw [List.take_take, List.take_take, Nat.min_self] at hcmp
    exact hne (swapEntry_inj (by omega) (by omega) hcmp)

/-- The NUL behind the eight digits of `10000000` does not fit, and two
    pids of ten digits share an entry. -/
theorem swap_names_fail : ¬ SwapNamesOk 10000000 10000001 ∧
    (¬ ∀ p q : Nat, 0 < p → 0 < q → p < 2 ^ 31 → q < 2 ^ 31 → SwapNamesOk p q) ∧
    ∃ s, LookedUp 1000000000 s ∧ LookedUp 1000000001 s := by
  have hfail : ¬ SwapNamesOk 10000000 10000001 := by
    rintro ⟨⟨-, hfits⟩, -⟩
    exact absurd (pathFits_iff.mp hfits) (by decide)
  refine ⟨hfail, fun hall => hfail (hall _ _ ?_ ?_ ?_ ?_), ?_⟩
  · decide
  · decide
  · decide
  · decide
  · refine ⟨swapEntry 1000000000, lookedUp_iff.mpr rfl, lookedUp_iff.mpr ?_⟩
    decide +kernel

end Paging
