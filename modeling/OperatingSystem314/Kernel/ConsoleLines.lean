import OperatingSystem314.Kernel.Console

/-! # The console edits and hands out lines

    * `Holds`: a circular buffer holds a line and the text before it.
    * `console_refines`: the console answers as it is meant to.
    * `reads_lines`: an answer is at most one line, and nobody sleeps while
      there is something to read. -/

namespace Console

open Function (update update_self update_of_ne)
open CircularQueue (place used contents)

/-! ### The buffer -/

structure Holds (x : Input) (t : Line) : Prop where
  ready : contents x.buf INPUT_BUF x.r x.w = t.ready
  edit : contents x.buf INPUT_BUF x.w x.e = t.edit
  size : t.ready.length + t.edit.length ≤ INPUT_BUF
  /-- The line that is edited is one line. -/
  line : LF ∉ t.edit

theorem input_buf_dvd : INPUT_BUF ∣ 2 ^ 32 := ⟨2 ^ 25, by decide⟩

variable {x y : Input} {t : Line} {c : UInt8} {killed : Bool} {target n : Nat} {got : List UInt8}

namespace Holds

theorem length_ready (h : Holds x t) : used x.r x.w = t.ready.length := by
  rw [← h.ready, CircularQueue.length_contents]

theorem length_edit (h : Holds x t) : used x.w x.e = t.edit.length := by
  rw [← h.edit, CircularQueue.length_contents]

/-- The two parts together. -/
theorem whole (h : Holds x t) : used x.r x.e = t.ready.length + t.edit.length ∧
    contents x.buf INPUT_BUF x.r x.e = t.ready ++ t.edit := by
  have hsize := h.size
  rw [← h.length_ready, ← h.length_edit] at hsize ⊢
  rw [← h.ready, ← h.edit]
  refine CircularQueue.contents_append (Nat.lt_of_le_of_lt hsize ?_)
  decide

theorem ready_eq_nil (h : Holds x t) : x.r = x.w ↔ t.ready = [] := by
  rw [← CircularQueue.used_eq_zero, h.length_ready, List.length_eq_zero_iff]

theorem edit_eq_nil (h : Holds x t) : x.w = x.e ↔ t.edit = [] := by
  rw [← CircularQueue.used_eq_zero, h.length_edit, List.length_eq_zero_iff]

/-- The last character is taken back. -/
theorem back (h : Holds x t) (hne : x.e ≠ x.w) : Holds { x with e := x.e - 1 } { t with edit := t.edit.dropLast } ∧
    x.buf (place INPUT_BUF (x.e - 1)) ∈ t.edit := by
  have hlast : contents x.buf INPUT_BUF x.w x.e =
      contents x.buf INPUT_BUF x.w (x.e - 1) ++ [x.buf (place INPUT_BUF (x.e - 1))] :=
    CircularQueue.contents_unpush (Ne.symm hne)
  rw [h.edit] at hlast
  have hdrop : t.edit.dropLast = contents x.buf INPUT_BUF x.w (x.e - 1) := by
    rw [hlast, List.dropLast_concat]
  refine ⟨⟨h.ready, hdrop.symm, ?_, ?_⟩, ?_⟩
  · have hsize := h.size
    have hlen : t.edit.dropLast.length = t.edit.length - 1 := List.length_dropLast
    show t.ready.length + t.edit.dropLast.length ≤ INPUT_BUF
    omega
  · intro hmem
    exact h.line (List.dropLast_subset _ hmem)
  · rw [hlast]
    simp

/-- The line is killed as a whole, as there is no newline in it. -/
theorem killLine (h : Holds x t) {fuel : Nat} (hfuel : t.edit.length ≤ fuel) :
    Holds (x.killLine fuel) { t with edit := [] } := by
  induction fuel generalizing x t with
  | zero =>
    have hnil : t.edit = [] := List.length_eq_zero_iff.mp (Nat.le_zero.mp hfuel)
    rw [← hnil]
    exact h
  | succ fuel ih =>
    unfold Input.killLine
    by_cases hne : x.e = x.w
    · rw [if_neg (by simp [hne])]
      rw [← h.edit_eq_nil.mp hne.symm]
      exact h
    · obtain ⟨hback, hmem⟩ := h.back hne
      have hline : x.buf (place INPUT_BUF (x.e - 1)) ≠ LF := by
        intro heq
        rw [heq] at hmem
        exact h.line hmem
      rw [if_pos ⟨hne, hline⟩]
      refine ih (t := { t with edit := t.edit.dropLast }) hback ?_
      have hlen : t.edit.dropLast.length = t.edit.length - 1 := List.length_dropLast
      show t.edit.dropLast.length ≤ fuel
      omega

/-- A character is put behind the line. -/
theorem pushed (h : Holds x t) (hroom : t.ready.length + t.edit.length < INPUT_BUF) :
    used x.r (x.e + 1) = t.ready.length + t.edit.length + 1 ∧
      contents (update x.buf (place INPUT_BUF x.e) c) INPUT_BUF x.r (x.e + 1) = t.ready ++ (t.edit ++ [c]) := by
  obtain ⟨hused, hwhole⟩ := h.whole
  have hlt : used x.r x.e < INPUT_BUF := by omega
  have hone : used x.r x.e + 1 < 2 ^ 32 := by
    simp only [INPUT_BUF] at hlt
    omega
  constructor
  · rw [CircularQueue.used_push hone, hused]
  · rw [CircularQueue.contents_push input_buf_dvd hlt hone, hwhole, List.append_assoc]

/-- What the two parts are then. -/
theorem push (h : Holds x t) (hroom : t.ready.length + t.edit.length < INPUT_BUF) :
    contents (update x.buf (place INPUT_BUF x.e) c) INPUT_BUF x.r x.w = t.ready ∧
      contents (update x.buf (place INPUT_BUF x.e) c) INPUT_BUF x.w (x.e + 1) = t.edit ++ [c] := by
  have hsmall : t.ready.length + t.edit.length < 128 := hroom
  have hw : used x.w x.e + 1 < 2 ^ 32 := by
    rw [h.length_edit]
    omega
  have hsum : used x.r x.w + used x.w (x.e + 1) < 2 ^ 32 := by
    rw [CircularQueue.used_push hw, h.length_ready, h.length_edit]
    omega
  have hsplit : contents (update x.buf (place INPUT_BUF x.e) c) INPUT_BUF x.r (x.e + 1) =
      contents (update x.buf (place INPUT_BUF x.e) c) INPUT_BUF x.r x.w ++
        contents (update x.buf (place INPUT_BUF x.e) c) INPUT_BUF x.w (x.e + 1) :=
    (CircularQueue.contents_append hsum).2
  rw [(h.pushed hroom).2] at hsplit
  refine List.append_inj hsplit.symm ?_
  rw [CircularQueue.length_contents, h.length_ready]

theorem type (h : Holds x t) (c : UInt8) :
    (x.consoleintr c).2 = (t.type c).2 ∧ Holds (x.consoleintr c).1 (t.type c).1 := by
  unfold Input.consoleintr Line.type
  split
  next => exact ⟨rfl, h⟩
  split
  next => exact ⟨rfl, h.killLine (Nat.le_trans (Nat.le_add_left _ _) h.size)⟩
  split
  next =>
    refine ⟨rfl, ?_⟩
    by_cases hne : x.e = x.w
    · have hnil := h.edit_eq_nil.mp hne.symm
      have hsame : { t with edit := t.edit.dropLast } = t := by
        rw [hnil, List.dropLast_nil, ← hnil]
      simp only [hne, ne_eq, not_true_eq_false, if_false]
      rw [hsame]
      exact h
    · simp only [ne_eq, hne, not_false_eq_true, if_true]
      exact (h.back hne).1
  rw [h.whole.1]
  split
  next hroom =>
    generalize (if c = CR then LF else c) = c'
    obtain ⟨hready, hedit⟩ := h.push (c := c') hroom.2
    obtain ⟨hused, hwhole⟩ := h.pushed hroom.2 (c := c')
    have hfull : x.e + 1 = x.r + BitVec.ofNat 32 INPUT_BUF ↔ t.ready.length + (t.edit ++ [c']).length = INPUT_BUF := by
      rw [CircularQueue.eq_add_iff (by decide), hused, List.length_append, List.length_singleton]
      omega
    simp only [hfull]
    split
    next =>
      refine ⟨rfl, hwhole, CircularQueue.contents_self, ?_, by simp⟩
      have hroom := hroom.2
      simp only [List.length_append, List.length_singleton, List.length_nil]
      omega
    next hmore =>
      refine ⟨rfl, hready, hedit, ?_, ?_⟩
      · have hroom := hroom.2
        simp only [List.length_append, List.length_singleton]
        omega
      · intro hmem
        rcases List.mem_append.mp hmem with hold | hnew
        · exact h.line hold
        · exact hmore (Or.inl (List.mem_singleton.mp hnew).symm)
  next => exact ⟨rfl, h⟩

/-- The first character is taken. -/
theorem pop {rest : List UInt8} (h : Holds x t) (hready : t.ready = c :: rest) :
    x.buf (place INPUT_BUF x.r) = c ∧ Holds { x with r := x.r + 1 } { t with ready := rest } := by
  have hne : x.r ≠ x.w := by
    intro heq
    rw [h.ready_eq_nil.mp heq] at hready
    cases hready
  have hpop : contents x.buf INPUT_BUF x.r x.w =
      x.buf (place INPUT_BUF x.r) :: contents x.buf INPUT_BUF (x.r + 1) x.w := CircularQueue.contents_pop hne
  rw [h.ready, hready] at hpop
  obtain ⟨hc, hrest⟩ := List.cons.inj hpop
  refine ⟨hc.symm, hrest.symm, h.edit, ?_, h.line⟩
  have hsize := h.size
  rw [hready, List.length_cons] at hsize
  show rest.length + t.edit.length ≤ INPUT_BUF
  omega

theorem read (h : Holds x t) (killed : Bool) (target n : Nat) (got : List UInt8) :
    (x.consoleread killed target n got).2 = (t.read killed target n got).2 ∧
      Holds (x.consoleread killed target n got).1 (t.read killed target n got).1 := by
  induction n generalizing x t got with
  | zero => exact ⟨rfl, h⟩
  | succ n ih =>
    unfold Input.consoleread Line.read
    cases hready : t.ready with
    | nil =>
      rw [if_pos (h.ready_eq_nil.mpr hready)]
      exact ⟨rfl, h⟩
    | cons c rest =>
      have hne : x.r ≠ x.w := by
        intro heq
        rw [h.ready_eq_nil.mp heq] at hready
        cases hready
      obtain ⟨hc, hpop⟩ := h.pop hready
      rw [if_neg hne]
      simp only [hc]
      split
      next =>
        refine ⟨rfl, ?_⟩
        split
        next =>
          -- the index goes back to where it was
          rw [BitVec.add_sub_cancel]
          exact h
        next => exact hpop
      next =>
        split
        next => exact ⟨rfl, hpop⟩
        next => exact ih hpop (got ++ [c])

end Holds

/-! ### The console and what it is meant to be -/

variable {H : Type}

structure Shows (s : State H Input) (t : State H Line) : Prop where
  text : Holds s.text t.text
  readers : s.readers = t.readers
  killed : s.killed = t.killed

variable {s : State H Input} {t : State H Line}

theorem Shows.typeAll (h : Shows s t) (cs : List UInt8) :
    Shows (typeAll Input.consoleintr cs s) (typeAll Line.type cs t) := by
  induction cs generalizing s t with
  | nil => exact h
  | cons c cs ih =>
    obtain ⟨hwakes, htext⟩ := h.text.type c
    unfold Console.typeAll
    refine ih ⟨htext, ?_, h.killed⟩
    simp only [hwakes, h.readers]

variable [DecidableEq H]

theorem Shows.session (h : Shows s t) (i : H) (target n : Nat) (got : List UInt8) :
    (session Input.consoleread s i target n got).1 = (session Line.read t i target n got).1 ∧
      Shows (session Input.consoleread s i target n got).2 (session Line.read t i target n got).2 := by
  obtain ⟨hout, htext⟩ := h.text.read (s.killed i) target n got
  rw [h.killed] at hout htext
  unfold Console.session
  simp only [h.killed]
  refine ⟨congrArg Outcome.answer hout, htext, ?_, rfl⟩
  simp only [hout, h.readers]

theorem Shows.step (h : Shows s t) (ev : Event H) :
    (step Input.consoleintr Input.consoleread s ev).1 = (step Line.type Line.read t ev).1 ∧
      Shows (step Input.consoleintr Input.consoleread s ev).2 (step Line.type Line.read t ev).2 := by
  cases ev with
  | keys cs => exact ⟨rfl, h.typeAll cs⟩
  | read i n =>
    simp only [Console.step, h.readers]
    cases t.readers i with
    | idle => exact h.session i _ _ _
    | _ => exact ⟨rfl, h⟩
  | resume i =>
    simp only [Console.step, h.readers]
    cases t.readers i with
    | awake target n got => exact h.session i _ _ _
    | _ => exact ⟨rfl, h⟩
  | kill i =>
    refine ⟨rfl, h.text, ?_, ?_⟩
    · simp only [Console.step, h.readers]
    · simp only [Console.step, h.killed]

theorem Shows.play (h : Shows s t) (evs : List (Event H)) :
    (play Input.consoleintr Input.consoleread evs s).1 = (play Line.type Line.read evs t).1 ∧
      Shows (play Input.consoleintr Input.consoleread evs s).2 (play Line.type Line.read evs t).2 := by
  induction evs generalizing s t with
  | nil => exact ⟨rfl, h⟩
  | cons ev evs ih =>
    obtain ⟨hanswer, hnext⟩ := h.step ev
    obtain ⟨hrest, hlast⟩ := ih hnext
    unfold Console.play
    exact ⟨congrArg₂ List.cons hanswer hrest, hlast⟩

/-- However keys and readers follow each other, the circular buffer and its
    three counters answer as an edited line and the text before it do. -/
theorem console_refines (evs : List (Event H)) :
    (console evs).1 = (terminal evs).1 ∧ Shows (console evs).2 (terminal evs).2 := by
  refine Shows.play ⟨⟨?_, ?_, Nat.zero_le _, by simp [start]⟩, rfl, rfl⟩ evs
  · exact CircularQueue.contents_self
  · exact CircularQueue.contents_self

/-! ### Lines -/

/-- A part of a line, without its end. -/
def Inside (l : List UInt8) : Prop := LF ∉ l ∧ C_D ∉ l

/-- At most one line. -/
def OneLine (got : List UInt8) : Prop := ∃ l, Inside l ∧ (got = l ∨ got = l ++ [LF])

theorem Inside.snoc {l : List UInt8} (h : Inside l) (hd : c ≠ C_D) (hlf : c ≠ LF) : Inside (l ++ [c]) := by
  unfold Inside
  simp only [List.mem_append, List.mem_singleton, not_or]
  exact ⟨⟨h.1, Ne.symm hlf⟩, ⟨h.2, Ne.symm hd⟩⟩

/-- What comes of a session. -/
structure Outcome.Ok (o : Outcome) (ready : List UInt8) : Prop where
  returned : ∀ got, o = .returned (some got) → OneLine got
  asleep : ∀ n got, o = .asleep n got → Inside got ∧ ready = []

theorem Line.read_ok (t : Line) (killed : Bool) (target n : Nat) (h : Inside got) :
    (t.read killed target n got).2.Ok (t.read killed target n got).1.ready ∧
      (t.ready = [] → (t.read killed target n got).1.ready = []) := by
  have hreturned : ∀ {g : List UInt8} {ready : List UInt8}, OneLine g → (Outcome.returned (some g)).Ok ready := by
    intro g ready hline
    refine ⟨?_, by simp⟩
    intro g' heq
    simp only [Outcome.returned.injEq, Option.some.injEq] at heq
    rw [← heq]
    exact hline
  induction n generalizing t got with
  | zero => exact ⟨hreturned ⟨got, h, Or.inl rfl⟩, id⟩
  | succ n ih =>
    unfold Line.read
    cases hready : t.ready with
    | nil =>
      refine ⟨⟨?_, ?_⟩, fun _ => hready⟩
      · intro g heq
        cases killed with
        | true => simp at heq
        | false => simp at heq
      · intro n' g heq
        cases killed with
        | true => simp at heq
        | false =>
          simp only [Bool.false_eq_true, if_false, Outcome.asleep.injEq] at heq
          rw [← heq.2]
          exact ⟨h, hready⟩
    | cons c rest =>
      simp only []
      refine ⟨?_, by simp⟩
      split
      next => exact hreturned ⟨got, h, Or.inl rfl⟩
      next hd =>
        split
        next hlf => exact hreturned ⟨got, h, Or.inr (by rw [hlf])⟩
        next hlf => exact (ih _ (h.snoc hd hlf)).1

/-- Text is entered only with a `wakeup`. -/
theorem Line.type_ready {t : Line} (h : (t.type c).2 = false) : (t.type c).1.ready = t.ready := by
  unfold Line.type at h ⊢
  split
  next => rfl
  next h1 =>
    rw [if_neg h1] at h
    split
    next => rfl
    next h2 =>
      rw [if_neg h2] at h
      split
      next => rfl
      next h3 =>
        rw [if_neg h3] at h
        split
        next h4 =>
          rw [if_pos h4] at h
          simp only [] at h ⊢
          generalize (if c = CR then LF else c) = c' at h ⊢
          split
          next h5 =>
            rw [if_pos h5] at h
            cases h
          next => rfl
        next => rfl

/-- Of the readers in a call. -/
structure Waiting (t : State H Line) : Prop where
  asleep : ∀ h target n got, t.readers h = .asleep target n got → Inside got ∧ t.text.ready = []
  awake : ∀ h target n got, t.readers h = .awake target n got → Inside got

namespace Waiting

omit [DecidableEq H] in
theorem typeAll (hw : Waiting t) (cs : List UInt8) : Waiting (typeAll Line.type cs t) := by
  induction cs generalizing t with
  | nil => exact hw
  | cons c cs ih =>
    unfold Console.typeAll
    apply ih
    cases hwakes : (t.text.type c).2 with
    | false =>
      refine ⟨?_, hw.awake⟩
      intro h target n got hp
      rw [Line.type_ready hwakes]
      exact hw.asleep h target n got hp
    | true =>
      simp only [if_true]
      constructor
      · intro h target n got hp
        cases hr : t.readers h with
        | _ => simp [hr, Reader.wake] at hp
      · intro h target n got hp
        cases hr : t.readers h with
        | idle => simp [hr, Reader.wake] at hp
        | asleep target' n' got' =>
          simp only [hr, Reader.wake, Reader.awake.injEq] at hp
          rw [← hp.2.2]
          exact (hw.asleep h _ _ _ hr).1
        | awake target' n' got' =>
          simp only [hr, Reader.wake, Reader.awake.injEq] at hp
          rw [← hp.2.2]
          exact hw.awake h _ _ _ hr

theorem session (hw : Waiting t) (i : H) (target n : Nat) (hgot : Inside got) :
    Waiting (session Line.read t i target n got).2 ∧
      ∀ g, (session Line.read t i target n got).1 = .returned (some g) → OneLine g := by
  obtain ⟨hok, hkeep⟩ := t.text.read_ok (t.killed i) target n hgot
  unfold Console.session
  refine ⟨⟨?_, ?_⟩, ?_⟩
  · intro h target' n' got' hp
    by_cases hh : h = i
    · subst hh
      simp only [update_self] at hp
      cases ho : (t.text.read (t.killed h) target n got).2 with
      | returned g => simp [ho, Reader.after] at hp
      | asleep m g =>
        simp only [ho, Reader.after, Reader.asleep.injEq] at hp
        rw [← hp.2.2]
        exact hok.asleep m g ho
    · simp only [update_of_ne hh] at hp
      obtain ⟨hin, hnil⟩ := hw.asleep h _ _ _ hp
      exact ⟨hin, hkeep hnil⟩
  · intro h target' n' got' hp
    by_cases hh : h = i
    · subst hh
      simp only [update_self] at hp
      cases ho : (t.text.read (t.killed h) target n got).2 with
      | _ => simp [ho, Reader.after] at hp
    · simp only [update_of_ne hh] at hp
      exact hw.awake h _ _ _ hp
  · intro g heq
    cases ho : (t.text.read (t.killed i) target n got).2 with
    | returned g' =>
      simp only [ho, Outcome.answer, Answer.returned.injEq] at heq
      exact hok.returned g (by rw [ho, heq])
    | asleep m g' => simp [ho, Outcome.answer] at heq

theorem step (hw : Waiting t) (ev : Event H) : Waiting (step Line.type Line.read t ev).2 ∧
    ∀ g, (step Line.type Line.read t ev).1 = .returned (some g) → OneLine g := by
  cases ev with
  | keys cs =>
    refine ⟨hw.typeAll cs, ?_⟩
    intro g heq
    cases heq
  | read i n =>
    simp only [Console.step]
    cases t.readers i with
    | idle => exact hw.session i _ _ ⟨by simp, by simp⟩
    | _ => exact ⟨hw, by simp⟩
  | resume i =>
    simp only [Console.step]
    cases hr : t.readers i with
    | awake target n got => exact hw.session i _ _ (hw.awake i _ _ _ hr)
    | _ => exact ⟨hw, by simp⟩
  | kill i =>
    refine ⟨⟨?_, ?_⟩, by simp [Console.step]⟩
    · intro h target n got hp
      by_cases hh : h = i
      · subst hh
        cases hr : t.readers h with
        | _ => simp [Console.step, hr, Reader.wake] at hp
      · simp only [Console.step, update_of_ne hh] at hp
        exact hw.asleep h _ _ _ hp
    · intro h target n got hp
      by_cases hh : h = i
      · subst hh
        cases hr : t.readers h with
        | idle => simp [Console.step, hr, Reader.wake] at hp
        | asleep target' n' got' =>
          simp only [Console.step, update_self, hr, Reader.wake, Reader.awake.injEq] at hp
          rw [← hp.2.2]
          exact (hw.asleep h _ _ _ hr).1
        | awake target' n' got' =>
          simp only [Console.step, update_self, hr, Reader.wake, Reader.awake.injEq] at hp
          rw [← hp.2.2]
          exact hw.awake h _ _ _ hr
      · simp only [Console.step, update_of_ne hh] at hp
        exact hw.awake h _ _ _ hp

theorem play (hw : Waiting t) (evs : List (Event H)) : Waiting (play Line.type Line.read evs t).2 ∧
    ∀ g, .returned (some g) ∈ (play Line.type Line.read evs t).1 → OneLine g := by
  induction evs generalizing t with
  | nil => exact ⟨hw, by simp [Console.play]⟩
  | cons ev evs ih =>
    obtain ⟨hnext, hfirst⟩ := hw.step ev
    obtain ⟨hlast, hrest⟩ := ih hnext
    unfold Console.play
    refine ⟨hlast, ?_⟩
    intro g hmem
    rcases List.mem_cons.mp hmem with heq | hmem
    · exact hfirst g heq.symm
    · exact hrest g hmem

end Waiting

/-- What a `read` of the console returns is at most one line, and no process
    sleeps in one while there is something to read. -/
theorem reads_lines (evs : List (Event H)) :
    (∀ got, .returned (some got) ∈ (console evs).1 → OneLine got) ∧
      ∀ h target n got, (console evs).2.readers h = .asleep target n got →
        (console evs).2.text.r = (console evs).2.text.w := by
  obtain ⟨hanswers, hshows⟩ := console_refines evs
  have hstart : Waiting (start ⟨[], []⟩ : State H Line) := by
    constructor
    · intro h target n got hp
      cases hp
    · intro h target n got hp
      cases hp
  obtain ⟨hw, hlines⟩ := hstart.play evs
  constructor
  · intro got hmem
    rw [hanswers] at hmem
    exact hlines got hmem
  · intro h target n got hp
    rw [hshows.readers] at hp
    exact hshows.text.ready_eq_nil.mpr (hw.asleep h target n got hp).2

end Console
