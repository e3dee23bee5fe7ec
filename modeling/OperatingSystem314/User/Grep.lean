import Mathlib.Computability.Language
import Mathlib.Data.List.TakeWhile
import OperatingSystem314.Lib.Lines

/-! # Searching files for a pattern (`grep.c`)

    The matcher of `grep` and the loop that reads a file into a buffer of
    1024 bytes and takes it apart into lines.  A string of C is the list of
    its characters, without the NUL at the end.

    * `Pattern.language`: what a pattern means, as a formal language.
    * `match_iff`: the matcher accepts just this language.
    * `grep_prints`: what is printed of a file are its matching lines. -/

namespace Grep

abbrev Str := List UInt8

abbrev CARET : UInt8 := 0x5e
abbrev DOT : UInt8 := 0x2e
abbrev STAR : UInt8 := 0x2a
abbrev DOLLAR : UInt8 := 0x24
abbrev NL : UInt8 := 0x0a

/-! ### The matcher -/

/-- `matchstar(c, re, text)`: search for `c*re` at the beginning of `text`,
    where `here` is `matchhere(re, ·)`. -/
def matchstar (here : Str → Bool) (c : UInt8) : Str → Bool
  | [] => here []
  -- a * matches zero or more instances
  | t :: text => here (t :: text) || ((t == c || c == DOT) && matchstar here c text)

/-- The last branch of `matchhere`: one character, and then the rest. -/
def matchone (here : Str → Bool) (c : UInt8) : Str → Bool
  | [] => false
  | t :: text => (c == DOT || c == t) && here text

/-- Search for `re` at the beginning of `text`. -/
def matchhere : Str → Str → Bool
  | [], _ => true
  | [c], text => if c = DOLLAR then text.isEmpty else matchone (matchhere []) c text
  | c :: d :: re, text =>
    if d = STAR then matchstar (matchhere re) c text
    -- here `re[1]` is not the end, so that `$` is a character like others
    else matchone (matchhere (d :: re)) c text

/-- The loop of `match`: must look at the empty string. -/
def matchfrom (re : Str) : Str → Bool
  | [] => matchhere re []
  | t :: text => matchhere re (t :: text) || matchfrom re text

/-- `match` -/
def match_ (re text : Str) : Bool :=
  match re with
  | [] => matchfrom [] text
  | c :: re => if c = CARET then matchhere re text else matchfrom (c :: re) text

/-! ### The loop over a file -/

/-- `sizeof(buf)` -/
abbrev BUFSIZE : Nat := 1024

/-- `strchr`: where a character is first found before the end of the string. -/
def strchr (s : Str) (c : UInt8) : Option Nat := (s.takeWhile (· ≠ 0)).findIdx? (· = c)

theorem strchr_lt {s : Str} {c : UInt8} {i : Nat} (h : strchr s c = some i) : i < s.length := by
  obtain ⟨hlt, -⟩ := List.findIdx?_eq_some_iff_findIdx_eq.mp h
  exact Nat.lt_of_lt_of_le hlt (List.takeWhile_prefix _).length_le

/-- The inner loop, from `p` on: what is written, and where `p` ends.  A NUL
    takes the place of the newline while the line is matched. -/
def printLines (pattern p : Str) : Str × Str :=
  match _h : strchr p NL with
  | none => ([], p)
  | some q =>
    let r := printLines pattern (p.drop (q + 1))
    ((if match_ pattern (p.take q) then p.take (q + 1) else []) ++ r.1, r.2)
termination_by p.length
decreasing_by
  have := strchr_lt ‹_›
  rw [List.length_drop]
  omega

/-- The outer loop: `buf` holds `m` bytes, and `rest` of the file is to be read. -/
def grepLoop (pattern buf rest : Str) : Str :=
  let n := min (BUFSIZE - buf.length - 1) rest.length
  if _h : n = 0 then []
  else
    let buf := buf ++ rest.take n
    let r := printLines pattern buf
    -- `p == buf`: there is no newline, and what has been read is dropped
    r.1 ++ grepLoop pattern (if r.2.length = buf.length then [] else r.2) (rest.drop n)
termination_by rest.length
decreasing_by
  rw [List.length_drop]
  omega

def grep (pattern content : Str) : Str := grepLoop pattern [] content

/-! ### What a pattern means -/

inductive Item where
  | one (c : UInt8)
  | star (c : UInt8)

/-- A pattern taken apart. -/
structure Pattern where
  atStart : Bool
  items : List Item
  atEnd : Bool

def parseItems : Str → List Item × Bool
  | [] => ([], false)
  | [c] => if c = DOLLAR then ([], true) else ([.one c], false)
  | c :: d :: re =>
    if d = STAR then (.star c :: (parseItems re).1, (parseItems re).2)
    else (.one c :: (parseItems (d :: re)).1, (parseItems (d :: re)).2)

def parse (re : Str) : Pattern :=
  let atStart := re.head? == some CARET
  let q := parseItems (if atStart then re.tail else re)
  ⟨atStart, q.1, q.2⟩

open scoped Computability

/-- The words of one letter that a character of a pattern stands for. -/
def letter (c : UInt8) : Language UInt8 := { w | ∃ t, w = [t] ∧ (c = DOT ∨ c = t) }

def Item.language : Item → Language UInt8
  | .one c => letter c
  | .star c => (letter c)∗

/-- Any word may come before a pattern that is not bound to the start, and
    after one that is not bound to the end. -/
def Pattern.language (p : Pattern) : Language UInt8 :=
  (if p.atStart then 1 else ⊤) * (p.items.map Item.language).prod * (if p.atEnd then 1 else ⊤)

/-! ### The matcher and the language -/

theorem mem_letter_kstar {c : UInt8} {w : Str} : w ∈ (letter c)∗ ↔ ∀ t ∈ w, c = DOT ∨ c = t := by
  rw [Language.mem_kstar]
  constructor
  · rintro ⟨L, rfl, hL⟩ t ht
    obtain ⟨u, hu, htu⟩ := List.mem_flatten.mp ht
    obtain ⟨t', rfl, hor⟩ := hL u hu
    rw [List.mem_singleton.mp htu]
    exact hor
  · intro h
    refine ⟨w.map fun t => [t], (List.flatMap_singleton' w).symm, ?_⟩
    intro u hu
    obtain ⟨t, ht, rfl⟩ := List.mem_map.mp hu
    exact ⟨t, rfl, h t ht⟩

/-- `matchstar` splits off some letters, by induction on the text. -/
theorem matchstar_iff (here : Str → Bool) (c : UInt8) (text : Str) :
    matchstar here c text = true ↔ ∃ w ∈ (letter c)∗, ∃ s, here s = true ∧ w ++ s = text := by
  induction text with
  | nil =>
    unfold matchstar
    constructor
    · intro h
      exact ⟨[], mem_letter_kstar.mpr (by simp), [], h, rfl⟩
    · rintro ⟨w, -, s, hs, hws⟩
      rw [(List.append_eq_nil_iff.mp hws).2] at hs
      exact hs
  | cons t text ih =>
    unfold matchstar
    rw [Bool.or_eq_true, Bool.and_eq_true, ih]
    simp only [mem_letter_kstar, Bool.or_eq_true, beq_iff_eq]
    constructor
    · rintro (h | ⟨ht, w, hw, s, hs, rfl⟩)
      · exact ⟨[], by simp, t :: text, h, rfl⟩
      · refine ⟨t :: w, ?_, s, hs, rfl⟩
        intro u hu
        rcases List.mem_cons.mp hu with rfl | hu
        · rcases ht with rfl | rfl
          · right; rfl
          · left; rfl
        · exact hw u hu
    · rintro ⟨w, hw, s, hs, hws⟩
      cases w with
      | nil =>
        left
        rw [← hws]
        exact hs
      | cons u w =>
        -- the first letter is that of the text
        rw [List.cons_append, List.cons.injEq] at hws
        obtain ⟨rfl, rfl⟩ := hws
        right
        refine ⟨?_, w, fun v hv => hw v (List.mem_cons_of_mem _ hv), s, hs, rfl⟩
        rcases hw u (by simp) with hd | heq
        · right; exact hd
        · left; exact heq.symm

theorem matchone_iff (here : Str → Bool) (c : UInt8) (text : Str) :
    matchone here c text = true ↔ ∃ w ∈ letter c, ∃ s, here s = true ∧ w ++ s = text := by
  cases text with
  | nil =>
    simp only [matchone, Bool.false_eq_true, false_iff]
    rintro ⟨w, ⟨t, rfl, -⟩, s, -, hws⟩
    simp at hws
  | cons t text =>
    simp only [matchone, Bool.and_eq_true, Bool.or_eq_true, beq_iff_eq]
    constructor
    · rintro ⟨hc, hs⟩
      exact ⟨[t], ⟨t, rfl, hc⟩, text, hs, rfl⟩
    · rintro ⟨w, ⟨u, rfl, hc⟩, s, hs, hws⟩
      simp only [List.singleton_append, List.cons.injEq] at hws
      obtain ⟨rfl, rfl⟩ := hws
      exact ⟨hc, hs⟩

/-- What `matchhere` accepts: the items, and then the end or anything. -/
def Suffix (q : List Item × Bool) : Language UInt8 :=
  (q.1.map Item.language).prod * (if q.2 then 1 else ⊤)

theorem mem_suffix_cons {i : Item} {is : List Item} {atEnd : Bool} {text : Str} :
    text ∈ Suffix (i :: is, atEnd) ↔ ∃ w ∈ i.language, ∃ s, s ∈ Suffix (is, atEnd) ∧ w ++ s = text := by
  unfold Suffix
  rw [List.map_cons, List.prod_cons, mul_assoc, Language.mem_mul]

theorem mem_top (text : Str) : text ∈ (⊤ : Language UInt8) := Set.mem_univ text

theorem matchhere_iff (re text : Str) : matchhere re text = true ↔ text ∈ Suffix (parseItems re) := by
  -- the cases of `parseItems` are those of `matchhere`
  induction re using parseItems.induct generalizing text with
  | case1 => simp [matchhere, parseItems, Suffix, mem_top]
  | case2 => simp [matchhere, parseItems, Suffix, Language.mem_one]
  | case3 c hc =>
    simp only [matchhere, parseItems, hc, if_false, matchone_iff, mem_suffix_cons]
    simp [Suffix, mem_top, Item.language]
  | case4 c re ih =>
    simp only [matchhere, parseItems, if_true, matchstar_iff, mem_suffix_cons, ih, Item.language]
  | case5 c d re hd ih =>
    simp only [matchhere, parseItems, hd, if_false, matchone_iff, mem_suffix_cons, ih, Item.language]

theorem matchfrom_iff (re text : Str) : matchfrom re text = true ↔ ∃ w s, matchhere re s = true ∧ w ++ s = text := by
  induction text with
  | nil =>
    unfold matchfrom
    constructor
    · intro h
      exact ⟨[], [], h, rfl⟩
    · rintro ⟨w, s, hs, hws⟩
      rw [(List.append_eq_nil_iff.mp hws).2] at hs
      exact hs
  | cons t text ih =>
    unfold matchfrom
    rw [Bool.or_eq_true, ih]
    constructor
    · rintro (h | ⟨w, s, hs, rfl⟩)
      · exact ⟨[], t :: text, h, rfl⟩
      · exact ⟨t :: w, s, hs, rfl⟩
    · rintro ⟨w, s, hs, hws⟩
      cases w with
      | nil =>
        left
        rw [← hws]
        exact hs
      | cons u w =>
        right
        exact ⟨w, s, hs, (List.cons.inj hws).2⟩

/-- The matcher accepts the language of the pattern. -/
theorem match_iff (re text : Str) : match_ re text = true ↔ text ∈ (parse re).language := by
  have hhere : ∀ re : Str, matchhere re text = true ↔
      text ∈ (1 : Language UInt8) * ((parseItems re).1.map Item.language).prod * (if (parseItems re).2 then 1 else ⊤) := by
    intro re
    rw [matchhere_iff, one_mul]
    rfl
  have hfrom : ∀ re : Str, matchfrom re text = true ↔
      text ∈ (⊤ : Language UInt8) * ((parseItems re).1.map Item.language).prod * (if (parseItems re).2 then 1 else ⊤) := by
    intro re
    rw [matchfrom_iff, mul_assoc, Language.mem_mul]
    constructor
    · rintro ⟨w, s, hs, rfl⟩
      exact ⟨w, mem_top w, s, (matchhere_iff re s).mp hs, rfl⟩
    · rintro ⟨w, -, s, hs, rfl⟩
      exact ⟨w, s, (matchhere_iff re s).mpr hs, rfl⟩
  unfold match_ parse Pattern.language
  cases re with
  | nil => simpa using hfrom []
  | cons c re =>
    by_cases hc : c = CARET
    · simpa [hc] using hhere re
    · simpa [hc] using hfrom (c :: re)

/-! ### The lines that are printed -/

/-- The lines among `ls` that match. -/
def printed (pattern : Str) (ls : List Str) : Str :=
  ((ls.filter (match_ pattern)).map (· ++ [NL])).flatten

theorem printed_append (pattern : Str) (ls ls' : List Str) :
    printed pattern (ls ++ ls') = printed pattern ls ++ printed pattern ls' := by
  simp [printed]

theorem strchr_none {s : Str} (hnul : 0 ∉ s) (h : NL ∉ s) : strchr s NL = none := by
  unfold strchr
  rw [List.takeWhile_eq_self_iff.mpr]
  · rw [List.findIdx?_eq_none_iff]
    intro c hc
    simp only [decide_eq_false_iff_not]
    rintro rfl
    exact h hc
  · intro c hc
    simp only [ne_eq, decide_eq_true_eq]
    rintro rfl
    exact hnul hc

theorem strchr_line {l s : Str} (hnul : 0 ∉ l ++ NL :: s) (h : NL ∉ l) : strchr (l ++ NL :: s) NL = some l.length := by
  unfold strchr
  rw [List.takeWhile_eq_self_iff.mpr]
  · rw [List.findIdx?_eq_some_iff_getElem]
    refine ⟨by simp, by simp, ?_⟩
    intro j hj
    rw [List.getElem_append_left hj]
    simp only [decide_eq_true_eq]
    intro heq
    exact h (heq ▸ List.getElem_mem hj)
  · intro c hc
    simp only [ne_eq, decide_eq_true_eq]
    rintro rfl
    exact hnul hc

/-- The inner loop stops at the remainder. -/
theorem printLines_eq (pattern s : Str) (hnul : 0 ∉ s) :
    printLines pattern s = (printed pattern (Lines.split NL s).1, (Lines.split NL s).2) := by
  induction hn : s.length using Nat.strongRecOn generalizing s with
  | ind n ih =>
    unfold printLines
    rcases Lines.line_cases NL s with hno | ⟨l, t, rfl, hl⟩
    · split
      · rw [Lines.split_of_not_mem hno]
        rfl
      next q hq =>
        rw [strchr_none hnul hno] at hq
        cases hq
    · split
      next hq =>
        rw [strchr_line hnul hl] at hq
        cases hq
      next q hq =>
        -- one line, and then the others
        rw [strchr_line hnul hl] at hq
        obtain rfl := Option.some.inj hq
        have ht : 0 ∉ t := by
          intro hmem
          exact hnul (List.mem_append_right _ (List.mem_cons_of_mem _ hmem))
        have hlt : t.length < n := by
          rw [← hn]
          simp
          omega
        have hdrop : (l ++ NL :: t).drop (l.length + 1) = t := by
          rw [List.append_cons, List.drop_left' (by simp)]
        have htake : (l ++ NL :: t).take (l.length + 1) = l ++ [NL] := by
          rw [List.append_cons, List.take_left' (by simp)]
        simp only [hdrop, htake, List.take_left, ih t.length hlt t ht rfl, Lines.split_line hl]
        by_cases hm : match_ pattern l
        · simp [hm, printed]
        · simp [hm, printed]

/-- A first line that does not fit into the buffer is too long. -/
theorem no_line_of_full {buf rest : Str} (hbuf : NL ∉ buf) (hfull : BUFSIZE ≤ buf.length + 1)
    (hlines : ∀ l ∈ (Lines.split NL (buf ++ rest)).1, l.length + 1 < BUFSIZE) : NL ∉ rest := by
  rcases Lines.line_cases NL rest with hno | ⟨l, t, rfl, hl⟩
  · exact hno
  · exfalso
    have hfirst : NL ∉ buf ++ l := by
      intro hmem
      rcases List.mem_append.mp hmem with h | h
      · exact hbuf h
      · exact hl h
    rw [← List.append_assoc, Lines.split_line hfirst] at hlines
    have := hlines (buf ++ l) (by simp)
    rw [List.length_append] at this
    omega

/-- The loop prints the matching lines of what is held and what is to come. -/
theorem grepLoop_eq (pattern buf rest : Str) (hbuf : NL ∉ buf) (hnul : 0 ∉ buf ++ rest)
    (hlen : buf.length + 1 < BUFSIZE)
    (hlines : ∀ l ∈ (Lines.split NL (buf ++ rest)).1, l.length + 1 < BUFSIZE) :
    grepLoop pattern buf rest = printed pattern (Lines.split NL (buf ++ rest)).1 := by
  induction hr : rest.length using Nat.strongRecOn generalizing buf rest with
  | ind r ih =>
    unfold grepLoop
    simp only []
    obtain ⟨n, hn⟩ : ∃ n, n = min (BUFSIZE - buf.length - 1) rest.length := ⟨_, rfl⟩
    rw [← hn]
    split
    next hzero =>
      -- the end of the file
      have hrest : rest = [] := List.eq_nil_of_length_eq_zero (by omega)
      rw [hrest, List.append_nil, Lines.split_of_not_mem hbuf]
      rfl
    next hpos =>
      obtain ⟨new, hnew⟩ : ∃ new, new = buf ++ rest.take n := ⟨_, rfl⟩
      have hsplit : buf ++ rest = new ++ rest.drop n := by
        rw [hnew, List.append_assoc, List.take_append_drop]
      have hnewLen : new.length = buf.length + n := by
        rw [hnew, List.length_append, List.length_take]
        omega
      have hlt : (rest.drop n).length < r := by
        rw [List.length_drop]
        omega
      have hnul' : 0 ∉ new := by
        intro hmem
        rw [hsplit] at hnul
        exact hnul (List.mem_append_left _ hmem)
      rw [← hnew, printLines_eq pattern new hnul']
      dsimp only
      rw [hsplit] at hlines hnul ⊢
      by_cases hno : NL ∈ new
      · -- what is left of the buffer is shorter, and the loop goes on with it
        have hlines' := hlines
        rw [Lines.split_append] at hlines'
        have hwhole : ((Lines.split NL new).1.map (· ++ [NL])).flatten ++ (Lines.split NL new).2 = new :=
          Lines.flatten_split new
        have hshort : (Lines.split NL new).2.length < new.length := by
          obtain ⟨l, t, ht, hl⟩ := List.eq_append_cons_of_mem hno
          have hflat := congrArg List.length hwhole
          rw [List.length_append] at hflat
          rw [ht, Lines.split_line hl] at hflat ⊢
          simp only [List.map_cons, List.flatten_cons, List.length_append, List.length_cons] at hflat ⊢
          omega
        rw [if_neg (by omega), ih _ hlt _ _ (Lines.not_mem_remainder new) ?_ (by omega) ?_ rfl]
        · rw [Lines.split_append new, printed_append]
        · intro hmem
          rcases List.mem_append.mp hmem with h | h
          · apply hnul'
            rw [← hwhole]
            exact List.mem_append_right _ h
          · exact hnul (List.mem_append_right _ h)
        · intro l hl
          exact hlines' l (List.mem_append_right _ hl)
      · -- no line ends in the buffer, so that no line ends at all
        have hrest : NL ∉ rest.drop n := by
          by_cases hend : n = rest.length
          · rw [hend, List.drop_length]
            simp
          · exact no_line_of_full hno (by omega) hlines
        have hall : NL ∉ new ++ rest.drop n := by
          intro hmem
          rcases List.mem_append.mp hmem with h | h
          · exact hno h
          · exact hrest h
        rw [Lines.split_of_not_mem hno, Lines.split_of_not_mem hall]
        rw [if_pos rfl, ih _ hlt [] _ (by simp) ?_ (by decide) ?_ rfl]
        · rw [List.nil_append, Lines.split_of_not_mem hrest]
          rfl
        · intro hmem
          exact hnul (List.mem_append_right _ hmem)
        · rw [List.nil_append, Lines.split_of_not_mem hrest]
          simp

example : printed [CARET, 98, STAR, DOLLAR] (Lines.split NL [98, NL, 97, 98, NL, NL]).1 = [98, NL, NL] := by decide

end Grep
