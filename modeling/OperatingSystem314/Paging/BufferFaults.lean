import OperatingSystem314.Paging.BufferRuns
import OperatingSystem314.Paging.Layout

/-! # Runs that come to a page

    The other direction: a page that the call can come to is come to in
    some run, with the lock held.  The others let it: readers make room in
    a pipe, a writer fills it, and somebody types.

    * `Feeds`: how the keyboard and other readers get the input line ready.
    * `reaches_copy`: every byte within reach is touched in some run.
    * `userBuffer_safe_iff`: when no run of a call faults under a lock.
    * `userBuffer_panics`: a page that is swapped out. -/

namespace Paging

namespace UserBuffer

open Relation Outcomes

variable {c : Call} {k k' k0 : Kernel} {s s' : State} {l : Lock} {addr n i lim p : Nat} {b : UInt8}

/-! ### One step of a loop -/

theorem run_consoleread (h : consoleread addr s = .ok s') : Run ⟨.consoleread, addr, n⟩ s s' := .single (.own h)

theorem run_consolewrite (h : consolewrite addr n s = .ok s') : Run ⟨.consolewrite, addr, n⟩ s s' := .single (.own h)

theorem run_pipewrite (h : pipewrite p addr s = .ok s') : Run ⟨.pipewrite p, addr, n⟩ s s' := .single (.own h)

theorem run_piperead (h : piperead p addr s = .ok s') : Run ⟨.piperead p, addr, n⟩ s s' := .single (.own h)

/-- The loop is about to touch byte `i` with the lock `l`. -/
structure Standing (k0 : Kernel) (l : Lock) (i : Nat) (s : State) : Prop where
  pc : ∃ b, s.pc = .copy i b
  locks : s.k.locks = [l]
  table : SameTable k0 s.k

theorem Standing.accessible (h : Standing k0 l i s) {store : Bool} (hacc : Accessible store k0 (addr + i)) :
    Accessible store s.k (addr + i) := h.table.accessible.mpr hacc

/-! ### `consolewrite` -/

/-- The start of one part of the buffer. -/
theorem consolewrite_enter (hlocks : k.locks = []) (hi : i < n) :
    Run ⟨.consolewrite, addr, n⟩ ⟨k, .outside i, lim⟩
      ⟨{ k with locks := [.cons] }, .copy i 0, i + min (n - i) Fs.MAXWRITE⟩ := by
  have hacquire : consolewrite addr n ⟨k, .outside i, lim⟩ =
      .ok ⟨{ k with locks := [.cons] }, .loop i, i + min (n - i) Fs.MAXWRITE⟩ := by
    simp only [consolewrite]
    rw [if_pos hi, acquire_eq hlocks]
    rfl
  have hloop : consolewrite addr n ⟨{ k with locks := [.cons] }, .loop i, i + min (n - i) Fs.MAXWRITE⟩ =
      .ok ⟨{ k with locks := [.cons] }, .copy i 0, i + min (n - i) Fs.MAXWRITE⟩ := by
    simp only [consolewrite]
    rw [if_pos (by simp only [Fs.MAXWRITE]; omega)]
    rfl
  exact (run_consolewrite hacquire).trans (run_consolewrite hloop)

theorem consolewrite_advance (h : Standing k0 .cons i s) (hlim : i < s.lim)
    (hacc : Accessible false k0 (addr + i)) (hi : i + 1 < n) :
    ∃ s', Run ⟨.consolewrite, addr, n⟩ s s' ∧ Standing k0 .cons (i + 1) s' ∧ i + 1 < s'.lim := by
  obtain ⟨k, pc, lim⟩ := s
  obtain ⟨⟨b, rfl⟩, hlocks, htable⟩ := h
  obtain ⟨b', hload⟩ := kernelLoad_accessible (htable.accessible.mpr hacc)
  have hcopy : consolewrite addr n ⟨k, .copy i b, lim⟩ = .ok ⟨k, .loop (i + 1), lim⟩ := by
    simp only [consolewrite]
    rw [hload]
    rfl
  have h1 := run_consolewrite hcopy
  by_cases hpart : i + 1 < lim
  · have hloop : consolewrite addr n ⟨k, .loop (i + 1), lim⟩ = .ok ⟨k, .copy (i + 1) 0, lim⟩ := by
      simp only [consolewrite]
      rw [if_pos hpart]
      rfl
    exact ⟨_, h1.trans (run_consolewrite hloop), ⟨⟨0, rfl⟩, hlocks, htable⟩, hpart⟩
  · -- on to the next part
    have hloop : consolewrite addr n ⟨k, .loop (i + 1), lim⟩ = .ok ⟨{ k with locks := [] }, .outside (i + 1), lim⟩ := by
      simp only [consolewrite]
      rw [if_neg hpart, release_eq hlocks]
      rfl
    refine ⟨_, (h1.trans (run_consolewrite hloop)).trans (consolewrite_enter rfl hi), ⟨⟨0, rfl⟩, rfl, htable⟩, ?_⟩
    simp only [Fs.MAXWRITE]
    omega

theorem consolewrite_reaches (hlocks : k0.locks = []) (hi : i < n) (hacc : ∀ j < i, Accessible false k0 (addr + j)) :
    ∃ s, Run ⟨.consolewrite, addr, n⟩ ⟨k0, .outside 0, n⟩ s ∧ Standing k0 .cons i s ∧ i < s.lim := by
  induction i with
  | zero =>
    refine ⟨_, consolewrite_enter hlocks hi, ⟨⟨0, rfl⟩, rfl, rfl⟩, ?_⟩
    simp only [Fs.MAXWRITE]
    omega
  | succ i ih =>
    obtain ⟨s, hrun, hs, hlim⟩ := ih (Nat.lt_of_succ_lt hi) fun j hj => hacc j (Nat.lt_succ_of_lt hj)
    obtain ⟨s', hrun', hs'⟩ := consolewrite_advance hs hlim (hacc i (Nat.lt_succ_self i)) hi
    exact ⟨s', hrun.trans hrun', hs'⟩

/-! ### Feeding the console -/

/-- What the keyboard and other readers do to the input line. -/
inductive Feeds : Input → Input → Prop
  | typed (x : Input) (c : UInt8) : Feeds x (consoleintr c x)
  | taken (x : Input) : x.r ≠ x.w → Feeds x { x with r := x.r + 1 }

theorem run_feeds {x : Input} {pc : Pc} (hlocks : k.locks = []) (h : ReflTransGen Feeds k.input x) :
    Run c ⟨k, pc, lim⟩ ⟨k.setInput x, pc, lim⟩ := by
  have hfree : Lock.cons ∉ k.locks := by
    rw [hlocks]
    exact List.not_mem_nil
  induction h with
  | refl => exact .refl
  | @tail y z _ hyz ih =>
    refine ih.tail (.others ?_)
    cases hyz with
    | typed b => exact .typed (k.setInput y) b hfree
    | taken hne => exact .taken (k.setInput y) hfree hne

/-- Other readers take all there is. -/
theorem feeds_drain (m : Nat) {x : Input} (h : x.w = x.r + m) : ReflTransGen Feeds x { x with r := x.w } := by
  induction m generalizing x with
  | zero =>
    have hx : ({ x with r := x.w } : Input) = x := by
      obtain ⟨buf, r, w, e⟩ := x
      congr 1
    rw [hx]
  | succ m ih =>
    refine .head (.taken x (by omega)) ?_
    exact ih (x := { x with r := x.r + 1 }) (by show x.w = x.r + 1 + m; omega)

/-- What was typed so far is erased. -/
theorem feeds_erase (m : Nat) {x : Input} (h : x.e = x.w + m) : ReflTransGen Feeds x { x with e := x.w } := by
  induction m generalizing x with
  | zero =>
    have hx : ({ x with e := x.w } : Input) = x := by
      obtain ⟨buf, r, w, e⟩ := x
      congr 1
      exact h.symm
    rw [hx]
  | succ m ih =>
    have herase : consoleintr CTRL_H x = { x with e := x.e - 1 } := by
      unfold consoleintr
      rw [if_neg (by decide), if_neg (by decide), if_pos (.inl rfl), if_pos (by omega)]
    have hfirst := Feeds.typed x CTRL_H
    rw [herase] at hfirst
    refine .head hfirst ?_
    exact ih (x := { x with e := x.e - 1 }) (by show x.e - 1 = x.w + m; omega)

/-- The letter that is typed. -/
abbrev LETTER : UInt8 := 97

/-- From `r` on there are only letters. -/
def Letters (x : Input) (upto : Nat) : Prop := ∀ j, x.r ≤ j → j < upto → x.buf (j % INPUT_BUF) = LETTER

/-- The line fills up, by induction on the room that is left. -/
theorem feeds_fill (m : Nat) {x : Input} (hw : x.w = x.r) (he : x.r ≤ x.e) (h : x.e + (m + 1) = x.r + INPUT_BUF)
    (hletters : Letters x x.e) :
    ∃ y, ReflTransGen Feeds x y ∧ y.w = y.r + INPUT_BUF ∧ y.e = y.w ∧ Letters y y.w := by
  have hbuf : Letters { x with buf := Function.update x.buf (x.e % INPUT_BUF) LETTER } (x.e + 1) := by
    intro j hj hlt
    show Function.update x.buf _ LETTER _ = LETTER
    by_cases hje : j = x.e
    · rw [hje, Function.update_self]
    · rw [Function.update_of_ne, hletters j hj (by omega)]
      simp only [INPUT_BUF] at *
      have hj' : x.r ≤ j := hj
      omega
  have htype : consoleintr LETTER x =
      if x.e + 1 = x.r + INPUT_BUF then
        { x with buf := Function.update x.buf (x.e % INPUT_BUF) LETTER, e := x.e + 1, w := x.e + 1 }
      else { x with buf := Function.update x.buf (x.e % INPUT_BUF) LETTER, e := x.e + 1 } := by
    unfold consoleintr
    rw [if_neg (by decide), if_neg (by decide), if_neg (by decide), if_pos ⟨by decide, by omega⟩]
    simp only [show ((if LETTER = 13 then 10 else LETTER) : UInt8) = LETTER from by decide,
      show ¬ LETTER = (10 : UInt8) by decide, show ¬ LETTER = CTRL_D by decide, false_or]
  have hfirst := Feeds.typed x LETTER
  rw [htype] at hfirst
  cases m with
  | zero =>
    rw [if_pos h] at hfirst
    exact ⟨_, .single hfirst, h, rfl, hbuf⟩
  | succ m =>
    rw [if_neg (by omega)] at hfirst
    obtain ⟨y, hsteps, hy⟩ := feeds_fill m (x := { x with buf := _, e := x.e + 1 }) hw (Nat.le_succ_of_le he)
      (by show x.e + 1 + (m + 1) = x.r + INPUT_BUF; omega) hbuf
    exact ⟨y, .head hfirst hsteps, hy⟩

/-- A line of letters, whatever there was before. -/
theorem feeds_line {x : Input} (h : x.r ≤ x.w ∧ x.w ≤ x.e) :
    ∃ y, ReflTransGen Feeds x y ∧ y.w = y.r + INPUT_BUF ∧ y.e = y.w ∧ Letters y y.w := by
  have hdrain := feeds_drain (x.w - x.r) (x := x) (by omega)
  have herase := feeds_erase (x.e - x.w) (x := { x with r := x.w }) (by show x.e = x.w + (x.e - x.w); omega)
  obtain ⟨y, hfill, hy⟩ := feeds_fill (x := { x with r := x.w, e := x.w }) 127 rfl (Nat.le_refl _) rfl (by
    intro j hj hlt
    exact absurd hlt (Nat.not_lt_of_le hj))
  exact ⟨y, (hdrain.trans herase).trans hfill, hy⟩

/-! ### `consoleread` -/

theorem consoleread_acquire (addr i lim : Nat) (hlocks : k.locks = []) :
    consoleread addr ⟨k, .outside i, lim⟩ = .ok ⟨{ k with locks := [.cons] }, .loop i, lim⟩ := by
  simp only [consoleread]
  rw [acquire_eq hlocks]
  rfl

theorem consoleread_take (addr : Nat) (hi : i < lim) (hne : k.input.r ≠ k.input.w)
    (hletter : k.input.buf (k.input.r % INPUT_BUF) = LETTER) : consoleread addr ⟨k, .loop i, lim⟩ =
      .ok ⟨k.setInput { k.input with r := k.input.r + 1 }, .copy i LETTER, lim⟩ := by
  simp only [consoleread]
  rw [if_pos hi, if_neg hne, hletter, if_neg (by decide)]
  rfl

theorem consoleread_sleep (addr : Nat) (hlocks : k.locks = [.cons]) (hi : i < lim) (hempty : k.input.r = k.input.w)
    (hkilled : k.cur.killed = false) :
    consoleread addr ⟨k, .loop i, lim⟩ = .ok ⟨{ k with locks := [] }, .outside i, lim⟩ := by
  simp only [consoleread]
  rw [if_pos hi, if_pos hempty, hkilled, if_neg (by decide), sleep_eq hlocks]
  rfl

/-- A loop that has read letters so far, and has only letters to read. -/
structure ReadingLetters (k0 : Kernel) (n i : Nat) (s : State) : Prop where
  standing : Standing k0 .cons i s
  letter : s.pc = .copy i LETTER
  lim : s.lim = n
  killed : s.k.cur.killed = false
  bounds : s.k.input.r ≤ s.k.input.w
  edge : s.k.input.e = s.k.input.w
  letters : Letters s.k.input s.k.input.w

/-- From a state without the lock, with input or without. -/
theorem consoleread_feed (addr : Nat) (hlocks : k.locks = []) (hinput : k.input.r ≤ k.input.w ∧ k.input.w ≤ k.input.e)
    (hkilled : k.cur.killed = false) (htable : SameTable k0 k) (hi : i < n) :
    ∃ s, Run ⟨.consoleread, addr, n⟩ ⟨k, .outside i, n⟩ s ∧ ReadingLetters k0 n i s := by
  obtain ⟨y, hfeeds, hfull, he, hletters⟩ := feeds_line hinput
  have hpos : y.r < y.w := by
    rw [hfull]
    exact Nat.lt_add_of_pos_right (by decide)
  have hacquire := run_consoleread (n := n) (consoleread_acquire (k := k.setInput y) addr i n hlocks)
  have htake := run_consoleread (n := n) (consoleread_take (k := { k.setInput y with locks := [.cons] }) addr hi
    (Nat.ne_of_lt hpos) (hletters y.r (Nat.le_refl _) hpos))
  refine ⟨_, ((run_feeds hlocks hfeeds).trans hacquire).trans htake, ⟨⟨_, rfl⟩, rfl, htable⟩, rfl, rfl, hkilled, hpos, he, ?_⟩
  intro j hj hlt
  exact hletters j (Nat.le_of_succ_le hj) hlt

theorem consoleread_advance (h : ReadingLetters k0 n i s) (hacc : Accessible true k0 (addr + i)) (hi : i + 1 < n) :
    ∃ s', Run ⟨.consoleread, addr, n⟩ s s' ∧ ReadingLetters k0 n (i + 1) s' := by
  obtain ⟨k, pc, lim⟩ := s
  obtain ⟨⟨-, hlocks, htable⟩, rfl, rfl, hkilled, hbounds, hedge, hletters⟩ := h
  obtain ⟨f, hstore⟩ := kernelStore_accessible (htable.accessible.mpr hacc) LETTER
  set k1 := k.setByte f ((addr + i) % PGSIZE) LETTER with hk1
  have hcopy : consoleread addr ⟨k, .copy i LETTER, lim⟩ = .ok ⟨k1, .loop (i + 1), lim⟩ := by
    simp only [consoleread]
    rw [hstore, ok_bind, if_neg (by decide)]
    rfl
  have h1 := run_consoleread (n := lim) hcopy
  by_cases hempty : k.input.r = k.input.w
  · -- the loop sleeps, and somebody types on
    have hsleep := run_consoleread (n := lim) (consoleread_sleep (k := k1) addr hlocks hi hempty hkilled)
    obtain ⟨s', hfeed, hs'⟩ := consoleread_feed (k := { k1 with locks := [] }) addr rfl
      ⟨hbounds, Nat.le_of_eq hedge.symm⟩ hkilled htable hi
    exact ⟨s', (h1.trans hsleep).trans hfeed, hs'⟩
  · have hpos : k.input.r < k.input.w := Nat.lt_of_le_of_ne hbounds hempty
    have htake := run_consoleread (n := lim) (consoleread_take (k := k1) addr hi hempty
      (hletters k.input.r (Nat.le_refl _) hpos))
    refine ⟨_, h1.trans htake, ⟨⟨_, rfl⟩, hlocks, htable⟩, rfl, rfl, hkilled, hpos, hedge, ?_⟩
    intro j hj hlt
    exact hletters j (Nat.le_of_succ_le hj) hlt

theorem consoleread_reaches (h : AtCall k0) (hi : i < n) (hacc : ∀ j < i, Accessible true k0 (addr + j)) :
    ∃ s, Run ⟨.consoleread, addr, n⟩ ⟨k0, .outside 0, n⟩ s ∧ ReadingLetters k0 n i s := by
  induction i with
  | zero => exact consoleread_feed addr h.locks ⟨h.input.1, h.input.2.1⟩ h.killed rfl hi
  | succ i ih =>
    obtain ⟨s, hrun, hs⟩ := ih (Nat.lt_of_succ_lt hi) fun j hj => hacc j (Nat.lt_succ_of_lt hj)
    obtain ⟨s', hrun', hs'⟩ := consoleread_advance hs (hacc i (Nat.lt_succ_self i)) hi
    exact ⟨s', hrun.trans hrun', hs'⟩

/-! ### `pipewrite` -/

theorem pipewrite_acquire (addr i lim : Nat) (hlocks : k.locks = []) :
    pipewrite p addr ⟨k, .outside i, lim⟩ = .ok ⟨{ k with locks := [.pipe p] }, .loop i, lim⟩ := by
  simp only [pipewrite]
  rw [acquire_eq hlocks]
  rfl

theorem pipewrite_room (addr : Nat) (hi : i < lim) (hroom : (k.pipe p).nwrite ≠ (k.pipe p).nread + PIPESIZE) :
    pipewrite p addr ⟨k, .loop i, lim⟩ = .ok ⟨k, .copy i 0, lim⟩ := by
  simp only [pipewrite]
  rw [if_pos hi, if_neg hroom]
  rfl

theorem pipewrite_sleep (addr : Nat) (hlocks : k.locks = [.pipe p]) (hi : i < lim)
    (hfull : (k.pipe p).nwrite = (k.pipe p).nread + PIPESIZE) (hopen : (k.pipe p).readopen = true)
    (hkilled : k.cur.killed = false) :
    pipewrite p addr ⟨k, .loop i, lim⟩ = .ok ⟨{ k with locks := [] }, .outside i, lim⟩ := by
  simp only [pipewrite]
  rw [if_pos hi, if_pos hfull, hopen, hkilled, if_neg (by decide), sleep_eq hlocks]
  rfl

/-- What a pipe with room for byte `i` looks like. -/
structure HasRoom (x0 x : Pipe) (i : Nat) : Prop where
  lower : x.nread ≤ x.nwrite
  upper : x.nwrite ≤ x.nread + PIPESIZE
  readers : x.readopen = x0.readopen
  alone : x0.readopen = false → x.nread = x0.nread ∧ x.nwrite = x0.nwrite + i

structure WritingOn (p : Nat) (k0 : Kernel) (n i : Nat) (s : State) : Prop where
  standing : Standing k0 (.pipe p) i s
  lim : s.lim = n
  killed : s.k.cur.killed = false
  pipe : HasRoom (k0.pipe p) (s.k.pipe p) i
  room : (s.k.pipe p).nwrite ≠ (s.k.pipe p).nread + PIPESIZE

theorem pipewrite_reach (hreach : i < (Call.mk (.pipewrite p) addr n).reach k0) :
    i < n ∧ ((k0.pipe p).readopen = false → (k0.pipe p).nwrite + i < (k0.pipe p).nread + PIPESIZE) := by
  have hlt : i < if (k0.pipe p).readopen = true then n
      else min n ((k0.pipe p).nread + PIPESIZE - (k0.pipe p).nwrite) := hreach
  split at hlt
  next hopen =>
    refine ⟨hlt, ?_⟩
    intro hclosed
    rw [hclosed] at hopen
    cases hopen
  next =>
    obtain ⟨hn, hroom⟩ := Nat.lt_min.mp hlt
    exact ⟨hn, fun _ => by omega⟩

/-- With the lock, and room in the pipe. -/
theorem pipewrite_start (addr : Nat) (hlocks : k.locks = []) (hkilled : k.cur.killed = false) (htable : SameTable k0 k)
    (hpipe : HasRoom (k0.pipe p) (k.pipe p) i) (hroom : (k.pipe p).nwrite ≠ (k.pipe p).nread + PIPESIZE)
    (hi : i < n) : ∃ s, Run ⟨.pipewrite p, addr, n⟩ ⟨k, .outside i, n⟩ s ∧ WritingOn p k0 n i s := by
  have hacquire := run_pipewrite (n := n) (pipewrite_acquire (p := p) addr i n hlocks)
  have hcopy := run_pipewrite (n := n) (pipewrite_room (k := { k with locks := [.pipe p] }) (p := p) addr hi hroom)
  exact ⟨_, hacquire.trans hcopy, ⟨⟨_, rfl⟩, rfl, htable⟩, rfl, hkilled, hpipe, hroom⟩

/-- From a state without the lock: if the pipe is full a reader makes room. -/
theorem pipewrite_enter (hlocks : k.locks = []) (hkilled : k.cur.killed = false) (htable : SameTable k0 k)
    (hpipe : HasRoom (k0.pipe p) (k.pipe p) i) (hreach : i < (Call.mk (.pipewrite p) addr n).reach k0) :
    ∃ s, Run ⟨.pipewrite p, addr, n⟩ ⟨k, .outside i, n⟩ s ∧ WritingOn p k0 n i s := by
  obtain ⟨hi, halone⟩ := pipewrite_reach hreach
  by_cases hroom : (k.pipe p).nwrite = (k.pipe p).nread + PIPESIZE
  · have hopen0 : (k0.pipe p).readopen = true := by
      by_contra hclosed
      have hclosed' : (k0.pipe p).readopen = false := by simpa using hclosed
      have hlt := halone hclosed'
      obtain ⟨hread, hwrite⟩ := hpipe.alone hclosed'
      omega
    have hopen : (k.pipe p).readopen = true := hpipe.readers.trans hopen0
    set x : Pipe := { k.pipe p with nread := (k.pipe p).nread + 1 } with hx
    have hgot : Others k (k.setPipe p x) := by
      refine .got k p ?_ hopen ?_
      · rw [hlocks]
        exact List.not_mem_nil
      · rw [hroom]
        exact Nat.ne_of_lt (Nat.lt_add_of_pos_right (by decide))
    have hpipe' : HasRoom (k0.pipe p) ((k.setPipe p x).pipe p) i := by
      rw [Kernel.setPipe_self]
      refine ⟨?_, ?_, hpipe.readers, ?_⟩
      · show (k.pipe p).nread + 1 ≤ (k.pipe p).nwrite
        rw [hroom]
        exact Nat.add_le_add_left (by decide) _
      · show (k.pipe p).nwrite ≤ (k.pipe p).nread + 1 + PIPESIZE
        omega
      · intro hclosed
        rw [hopen0] at hclosed
        cases hclosed
    have hroom' : ((k.setPipe p x).pipe p).nwrite ≠ ((k.setPipe p x).pipe p).nread + PIPESIZE := by
      rw [Kernel.setPipe_self]
      show (k.pipe p).nwrite ≠ (k.pipe p).nread + 1 + PIPESIZE
      omega
    obtain ⟨s, hrun, hs⟩ := pipewrite_start (k := k.setPipe p x) addr hlocks hkilled htable hpipe' hroom' hi
    exact ⟨s, .head (.others hgot) hrun, hs⟩
  · exact pipewrite_start addr hlocks hkilled htable hpipe hroom hi

theorem pipewrite_advance (h : WritingOn p k0 n i s) (hacc : Accessible false k0 (addr + i))
    (hreach : i + 1 < (Call.mk (.pipewrite p) addr n).reach k0) :
    ∃ s', Run ⟨.pipewrite p, addr, n⟩ s s' ∧ WritingOn p k0 n (i + 1) s' := by
  obtain ⟨k, pc, lim⟩ := s
  obtain ⟨⟨⟨b, rfl⟩, hlocks, htable⟩, rfl, hkilled, hpipe, hroom⟩ := h
  obtain ⟨hi, halone⟩ := pipewrite_reach hreach
  obtain ⟨b', hload⟩ := kernelLoad_accessible (htable.accessible.mpr hacc)
  set x : Pipe := { k.pipe p with
    data := Function.update (k.pipe p).data ((k.pipe p).nwrite % PIPESIZE) b'
    nwrite := (k.pipe p).nwrite + 1 } with hx
  have hcopy : pipewrite p addr ⟨k, .copy i b, lim⟩ = .ok ⟨k.setPipe p x, .loop (i + 1), lim⟩ := by
    simp only [pipewrite]
    rw [hload]
    rfl
  have h1 := run_pipewrite (n := lim) hcopy
  have hpipe' : HasRoom (k0.pipe p) ((k.setPipe p x).pipe p) (i + 1) := by
    rw [Kernel.setPipe_self]
    refine ⟨Nat.le_succ_of_le hpipe.lower, Nat.lt_of_le_of_ne hpipe.upper hroom, hpipe.readers, ?_⟩
    intro hclosed
    obtain ⟨hread, hwrite⟩ := hpipe.alone hclosed
    exact ⟨hread, congrArg Nat.succ hwrite⟩
  by_cases hfull : ((k.setPipe p x).pipe p).nwrite = ((k.setPipe p x).pipe p).nread + PIPESIZE
  · -- the loop sleeps until a reader makes room
    have hopen : ((k.setPipe p x).pipe p).readopen = true := by
      rw [hpipe'.readers]
      by_contra hclosed
      have hclosed' : (k0.pipe p).readopen = false := by simpa using hclosed
      have hlt := halone hclosed'
      obtain ⟨hread, hwrite⟩ := hpipe'.alone hclosed'
      omega
    have hsleep := run_pipewrite (n := lim) (pipewrite_sleep (k := k.setPipe p x) addr hlocks hi hfull hopen hkilled)
    obtain ⟨s', henter, hs'⟩ := pipewrite_enter (k := { k.setPipe p x with locks := [] }) rfl hkilled htable hpipe' hreach
    exact ⟨s', (h1.trans hsleep).trans henter, hs'⟩
  · have hcopy' := run_pipewrite (n := lim) (pipewrite_room (k := k.setPipe p x) addr hi hfull)
    exact ⟨_, h1.trans hcopy', ⟨⟨_, rfl⟩, hlocks, htable⟩, rfl, hkilled, hpipe', hfull⟩

theorem pipewrite_reaches (h : AtCall k0) (hreach : i < (Call.mk (.pipewrite p) addr n).reach k0)
    (hacc : ∀ j < i, Accessible false k0 (addr + j)) :
    ∃ s, Run ⟨.pipewrite p, addr, n⟩ ⟨k0, .outside 0, n⟩ s ∧ WritingOn p k0 n i s := by
  induction i with
  | zero =>
    obtain ⟨hlower, hupper⟩ := h.pipes p
    exact pipewrite_enter h.locks h.killed rfl ⟨hlower, hupper, rfl, fun _ => ⟨rfl, rfl⟩⟩ hreach
  | succ i ih =>
    obtain ⟨s, hrun, hs⟩ := ih (Nat.lt_of_succ_lt hreach) fun j hj => hacc j (Nat.lt_succ_of_lt hj)
    obtain ⟨s', hrun', hs'⟩ := pipewrite_advance hs (hacc i (Nat.lt_succ_self i)) hreach
    exact ⟨s', hrun.trans hrun', hs'⟩

/-! ### `piperead` -/

theorem piperead_acquire (addr i lim : Nat) (hlocks : k.locks = []) (hready : ¬ ((k.pipe p).nread = (k.pipe p).nwrite ∧ (k.pipe p).writeopen)) :
    piperead p addr ⟨k, .outside i, lim⟩ = .ok ⟨{ k with locks := [.pipe p] }, .loop i, lim⟩ := by
  simp only [piperead]
  rw [acquire_eq hlocks, ok_bind]
  dsimp only
  rw [if_neg hready]
  rfl

theorem piperead_take (addr : Nat) (hi : i < lim) (hne : (k.pipe p).nread ≠ (k.pipe p).nwrite) :
    piperead p addr ⟨k, .loop i, lim⟩ = .ok ⟨k.setPipe p { k.pipe p with nread := (k.pipe p).nread + 1 },
      .copy i ((k.pipe p).data ((k.pipe p).nread % PIPESIZE)), lim⟩ := by
  simp only [piperead]
  rw [if_pos hi, if_neg hne]
  rfl

/-- A loop that has `total` bytes to read, `i` of which it has stored. -/
structure ReadingOn (p : Nat) (k0 : Kernel) (n total i : Nat) (s : State) : Prop where
  standing : Standing k0 (.pipe p) i s
  lim : s.lim = n
  pipe : (s.k.pipe p).nread + total = (s.k.pipe p).nwrite + (i + 1)

/-- Writers fill the pipe, by induction on the room that is left. -/
theorem run_fill (c : Call) (pc : Pc) (lim m : Nat) (hlocks : k.locks = []) (hopen : (k.pipe p).writeopen = true)
    (hroom : (k.pipe p).nwrite + m = (k.pipe p).nread + PIPESIZE) :
    ∃ x, Run c ⟨k, pc, lim⟩ ⟨k.setPipe p x, pc, lim⟩ ∧ x.nwrite = x.nread + PIPESIZE := by
  induction m generalizing k with
  | zero =>
    have hk : k.setPipe p (k.pipe p) = k := by
      unfold Kernel.setPipe
      rw [Function.update_eq_self]
    refine ⟨k.pipe p, ?_, hroom⟩
    rw [hk]
  | succ m ih =>
    set y : Pipe := { k.pipe p with
      data := Function.update (k.pipe p).data ((k.pipe p).nwrite % PIPESIZE) 0
      nwrite := (k.pipe p).nwrite + 1 } with hy
    have hput : Others k (k.setPipe p y) := by
      refine .put k p 0 ?_ hopen (by omega)
      rw [hlocks]
      exact List.not_mem_nil
    obtain ⟨x, hrun, hx⟩ := ih (k := k.setPipe p y) hlocks (by rw [Kernel.setPipe_self]; exact hopen) (by
      rw [Kernel.setPipe_self]
      show (k.pipe p).nwrite + 1 + m = (k.pipe p).nread + PIPESIZE
      omega)
    have hk : (k.setPipe p y).setPipe p x = k.setPipe p x := by
      unfold Kernel.setPipe
      rw [Function.update_idem]
    rw [hk] at hrun
    exact ⟨x, .head (.others hput) hrun, hx⟩

/-- With the lock, and the first byte out of the pipe. -/
theorem piperead_start (addr total : Nat) (hlocks : k.locks = []) (htable : SameTable k0 k) (hi : 0 < n) (htotal : 0 < total)
    (hpipe : (k.pipe p).nwrite = (k.pipe p).nread + total) :
    ∃ s, Run ⟨.piperead p, addr, n⟩ ⟨k, .outside 0, n⟩ s ∧ ReadingOn p k0 n total 0 s := by
  have hne : (k.pipe p).nread ≠ (k.pipe p).nwrite := by omega
  have hacquire := run_piperead (n := n) (piperead_acquire (p := p) addr 0 n hlocks
    fun hempty => hne hempty.1)
  have htake := run_piperead (n := n) (piperead_take (k := { k with locks := [.pipe p] }) (p := p) addr hi hne)
  refine ⟨_, hacquire.trans htake, ⟨⟨_, rfl⟩, rfl, htable⟩, rfl, ?_⟩
  rw [Kernel.setPipe_self]
  show (k.pipe p).nread + 1 + total = (k.pipe p).nwrite + (0 + 1)
  omega

theorem piperead_advance {total : Nat} (h : ReadingOn p k0 n total i s) (hacc : Accessible true k0 (addr + i))
    (hi : i + 1 < n) (htotal : i + 1 < total) :
    ∃ s', Run ⟨.piperead p, addr, n⟩ s s' ∧ ReadingOn p k0 n total (i + 1) s' := by
  obtain ⟨k, pc, lim⟩ := s
  obtain ⟨⟨⟨b, rfl⟩, hlocks, htable⟩, rfl, hpipe⟩ := h
  obtain ⟨f, hstore⟩ := kernelStore_accessible (htable.accessible.mpr hacc) b
  set k1 := k.setByte f ((addr + i) % PGSIZE) b with hk1
  have hcopy : piperead p addr ⟨k, .copy i b, lim⟩ = .ok ⟨k1, .loop (i + 1), lim⟩ := by
    simp only [piperead]
    rw [hstore]
    rfl
  have hpipe' : (k.pipe p).nread + total = (k.pipe p).nwrite + (i + 1) := hpipe
  have hne : (k1.pipe p).nread ≠ (k1.pipe p).nwrite := by
    show (k.pipe p).nread ≠ (k.pipe p).nwrite
    omega
  have htake := run_piperead (n := lim) (piperead_take (k := k1) addr hi hne)
  refine ⟨_, (run_piperead hcopy).trans htake, ⟨⟨_, rfl⟩, hlocks, htable⟩, rfl, ?_⟩
  rw [Kernel.setPipe_self]
  show (k.pipe p).nread + 1 + total = (k.pipe p).nwrite + (i + 1 + 1)
  omega

/-- How many bytes a reader can get at once. -/
def readable (x : Pipe) : Nat := if x.writeopen then PIPESIZE else x.nwrite - x.nread

theorem piperead_reaches (h : AtCall k0) (hi : i < n) (htotal : i < readable (k0.pipe p))
    (hacc : ∀ j < i, Accessible true k0 (addr + j)) :
    ∃ s, Run ⟨.piperead p, addr, n⟩ ⟨k0, .outside 0, n⟩ s ∧ ReadingOn p k0 n (readable (k0.pipe p)) i s := by
  induction i with
  | zero =>
    obtain ⟨hlower, hupper⟩ := h.pipes p
    by_cases hopen : (k0.pipe p).writeopen = true
    · obtain ⟨x, hrun, hx⟩ := run_fill ⟨.piperead p, addr, n⟩ (.outside 0) n
        ((k0.pipe p).nread + PIPESIZE - (k0.pipe p).nwrite) h.locks hopen (by omega)
      have htotal' : readable (k0.pipe p) = PIPESIZE := if_pos hopen
      rw [htotal']
      obtain ⟨s, hstart, hs⟩ := piperead_start addr PIPESIZE (k := k0.setPipe p x) h.locks
        (show SameTable k0 (k0.setPipe p x) from rfl) hi (by decide) (by rw [Kernel.setPipe_self]; exact hx)
      exact ⟨s, hrun.trans hstart, hs⟩
    · have htotal' : readable (k0.pipe p) = (k0.pipe p).nwrite - (k0.pipe p).nread := if_neg hopen
      exact piperead_start addr _ h.locks rfl hi htotal (by omega)
  | succ i ih =>
    obtain ⟨s, hrun, hs⟩ := ih (Nat.lt_of_succ_lt hi) (Nat.lt_of_succ_lt htotal)
      fun j hj => hacc j (Nat.lt_succ_of_lt hj)
    obtain ⟨s', hrun', hs'⟩ := piperead_advance hs (hacc i (Nat.lt_succ_self i)) hi htotal
    exact ⟨s', hrun.trans hrun', hs'⟩

/-! ### Every call -/

/-- Every byte within reach is touched in some run, under a lock, if the
    bytes before it are accessible. -/
theorem reaches_copy (h : AtCall k) (hi : i < c.reach k) (hacc : ∀ j < i, Accessible c.store k (c.addr + j)) :
    ∃ l s, Run c (c.start k) s ∧ Standing k l i s := by
  obtain ⟨loop, addr, n⟩ := c
  cases loop with
  | consoleread =>
    obtain ⟨s, hrun, hs⟩ := consoleread_reaches h hi hacc
    exact ⟨_, s, hrun, hs.standing⟩
  | consolewrite =>
    obtain ⟨s, hrun, hs, -⟩ := consolewrite_reaches h.locks hi hacc
    exact ⟨_, s, hrun, hs⟩
  | pipewrite p =>
    obtain ⟨s, hrun, hs⟩ := pipewrite_reaches h hi hacc
    exact ⟨_, s, hrun, hs.standing⟩
  | piperead p =>
    obtain ⟨hn, htotal⟩ := Nat.lt_min.mp hi
    obtain ⟨s, hrun, hs⟩ := piperead_reaches h hn htotal hacc
    exact ⟨_, s, hrun, hs.standing⟩
  | readi | writei => exact absurd hi (Nat.not_lt_zero i)

/-- No run of a call takes a page fault on its buffer under a spinlock, or
    panics over one, exactly if the part of the buffer it can come to with
    the lock held is accessible. -/
theorem userBuffer_safe_iff (h : AtCall k) (c : Call) :
    (∀ s, Run c (c.start k) s → Safe c s) ↔ BufferAccessible c k := by
  constructor
  · intro hsafe i hi
    -- the first byte that is not accessible would fault
    induction i using Nat.strong_induction_on with
    | _ i ih =>
      obtain ⟨l, s, hrun, hs⟩ := reaches_copy h hi fun j hj => ih j hj (Nat.lt_trans hj hi)
      by_contra hna
      obtain ⟨b, hpc⟩ := hs.pc
      have hlocks := (hsafe s hrun).fault ⟨i, b, hpc, fun hacc => hna (hs.table.accessible.mp hacc)⟩
      rw [hs.locks] at hlocks
      exact List.cons_ne_nil _ _ hlocks
  · intro hacc s hrun
    exact ((Good.start h c).run hacc hrun).safe hacc

/-! ### A page in the swap file -/

open Layout

/-- Under `cons.lock` the first thing the fault handler does is fatal. -/
theorem kernelLoad_locked {va : Nat} (hlock : .cons ∈ k.locks) (hna : ¬ Accessible false k va) :
    kernelLoad k va = panic "acquire" := by
  have hfilter : (k.walkpgdir k.cur.pgdir va).filter
      (fun pte => pte.p && (!false || pte.u) && (!false || pte.w)) = none := by
    rw [Option.filter_eq_none_iff]
    intro x hx hok
    exact hna ⟨x, hx, by simpa using hok, nofun⟩
  have htouch : touch false false MAXFAULTS k va = panic "acquire" := by
    unfold touch
    simp only [hfilter]
    unfold trapPgflt cprintf
    rw [if_pos hlock]
    rfl
  unfold kernelLoad
  rw [htouch]
  rfl

/-- File 1 is the write end of a pipe, and file 2 the console. -/
def writer : Kernel :=
  { sixteenPages with
    fs := { sixteenPages.fs with
      inode := Function.update sixteenPages.fs.inode 7 ⟨.T_DEV, CONSOLE, 1, 0, fun _ => 0, []⟩
      ftable := fun f =>
        if f = 1 then ⟨.FD_PIPE, 1, false, true, 0, 0, 0⟩
        else if f = 2 then ⟨.FD_INODE, 1, true, true, 0, 7, 0⟩
        else sixteenPages.fs.ftable f }
    pipe := fun _ => ⟨fun _ => 0, 0, 0, true, true⟩ }

theorem writer_atCall : AtCall writer :=
  ⟨rfl, rfl, fun _ => ⟨Nat.le_refl _, Nat.zero_le _⟩, Nat.le_refl _, Nat.le_refl _, Nat.zero_le _⟩

theorem writer_pagedOut (store : Bool) {locks : List Lock} :
    ¬ Accessible store { writer with locks } (15 * PGSIZE) := by
  rintro ⟨x, hx, hp, -⟩
  have hswapped : writer.walkpgdir writer.cur.pgdir (15 * PGSIZE) = some .swapped := by decide +kernel
  obtain rfl : x = .swapped := Option.some.inj (hx.symm.trans hswapped)
  cases hp

/-- The eviction for a byte of the buffer waits for the disk. -/
theorem writer_sleeps : kernelLoad { writer with locks := [.pipe 0] } (15 * PGSIZE) = panic "sched locks" := rfl

/-- One byte of a page in the swap file, written to the console and to a
    pipe. -/
theorem userBuffer_panics : AtCall writer ∧ 2 < writer.cur.pid ∧ 15 * PGSIZE + 1 ≤ writer.cur.sz ∧
    (∃ c s, sysWrite writer 2 (15 * PGSIZE) 1 = some c ∧ Run c (c.start writer) s ∧ ¬ Safe c s ∧
      c.next s = panic "acquire") ∧
    ∃ c s, sysWrite writer 1 (15 * PGSIZE) 1 = some c ∧ Run c (c.start writer) s ∧ ¬ Safe c s ∧
      c.next s = panic "sched locks" := by
  refine ⟨writer_atCall, by decide, by decide, ?_, ?_⟩
  · have hpanic : consolewrite (15 * PGSIZE) 1 ⟨{ writer with locks := [.cons] }, .copy 0 0, 0 + min (1 - 0) Fs.MAXWRITE⟩ =
        panic "acquire" := by
      simp only [consolewrite, Nat.add_zero]
      rw [kernelLoad_locked List.mem_cons_self (writer_pagedOut false)]
      rfl
    refine ⟨⟨.consolewrite, 15 * PGSIZE, 1⟩, _, rfl, consolewrite_enter rfl (by decide), ?_, hpanic⟩
    intro hsafe
    exact hsafe.acquire hpanic
  · have hpanic : pipewrite 0 (15 * PGSIZE) ⟨{ writer with locks := [.pipe 0] }, .copy 0 0, 1⟩ = panic "sched locks" := by
      simp only [pipewrite, Nat.add_zero]
      rw [writer_sleeps]
      rfl
    have hacquire := run_pipewrite (n := 1) (pipewrite_acquire (k := writer) (p := 0) (15 * PGSIZE) 0 1 rfl)
    have hroom := run_pipewrite (n := 1) (pipewrite_room (k := { writer with locks := [.pipe 0] }) (p := 0)
      (15 * PGSIZE) (show 0 < 1 by decide) (by decide))
    refine ⟨⟨.pipewrite 0, 15 * PGSIZE, 1⟩, _, rfl, hacquire.trans hroom, ?_, hpanic⟩
    intro hsafe
    exact hsafe.sched hpanic

/-- The write to the console, among all calls. -/
theorem userBuffer_safe_iff_writer : AtCall writer ∧
    ((∀ s, Run ⟨.consolewrite, 15 * PGSIZE, 1⟩ (Call.start ⟨.consolewrite, 15 * PGSIZE, 1⟩ writer) s →
      Safe ⟨.consolewrite, 15 * PGSIZE, 1⟩ s) ↔ BufferAccessible ⟨.consolewrite, 15 * PGSIZE, 1⟩ writer) :=
  ⟨writer_atCall, userBuffer_safe_iff writer_atCall _⟩

end UserBuffer

end Paging
