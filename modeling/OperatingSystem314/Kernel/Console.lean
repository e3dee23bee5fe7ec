import OperatingSystem314.Lib.CircularQueue

/-! # Typing and reading lines (`consoleintr` and `consoleread` of `console.c`)

    The keyboard interrupt edits the last line in a circular buffer, and
    processes read what has been entered.  Both hold `cons.lock` from the
    first look at the buffer to the last, or until they sleep, so what is
    done with the lock is one step here.

    `Line` is what this is for: a line that is edited, and text that has
    been entered. -/

namespace Console

open Function (update)
open CircularQueue (place used)

abbrev INPUT_BUF : Nat := 128

/-- `C('D')`, `C('H')`, `C('P')` and `C('U')` -/
abbrev C_D : UInt8 := 4
abbrev C_H : UInt8 := 8
abbrev C_P : UInt8 := 16
abbrev C_U : UInt8 := 21
abbrev DEL : UInt8 := 127
abbrev CR : UInt8 := 13
abbrev LF : UInt8 := 10

structure Input where
  buf : Nat → UInt8
  /-- Read index -/
  r : BitVec 32
  /-- Write index -/
  w : BitVec 32
  /-- Edit index -/
  e : BitVec 32

namespace Input

/-- Kill line. -/
def killLine : Nat → Input → Input
  | 0, x => x
  | fuel + 1, x =>
    if x.e ≠ x.w ∧ x.buf (place INPUT_BUF (x.e - 1)) ≠ LF then killLine fuel { x with e := x.e - 1 } else x

/-- One character in the loop of `consoleintr`, and whether it wakes the readers. -/
def consoleintr (x : Input) (c : UInt8) : Input × Bool :=
  if c = C_P then (x, false)
  else if c = C_U then (x.killLine INPUT_BUF, false)
  else if c = C_H ∨ c = DEL then (if x.e ≠ x.w then { x with e := x.e - 1 } else x, false)
  else if c ≠ 0 ∧ used x.r x.e < INPUT_BUF then
    let c := if c = CR then LF else c
    let x := { x with buf := update x.buf (place INPUT_BUF x.e) c, e := x.e + 1 }
    if c = LF ∨ c = C_D ∨ x.e = x.r + BitVec.ofNat 32 INPUT_BUF then ({ x with w := x.e }, true) else (x, false)
  else (x, false)

end Input

/-- How a session of `consoleread` with the lock ends: with what it returns,
    where -1 is `none`, or asleep with `n` bytes still wanted. -/
inductive Outcome where
  | returned (got : Option (List UInt8))
  | asleep (n : Nat) (got : List UInt8)

/-- The loop of `consoleread`. -/
def Input.consoleread (killed : Bool) (target : Nat) : Nat → List UInt8 → Input → Input × Outcome
  | 0, got, x => (x, .returned (some got))
  | n + 1, got, x =>
    if x.r = x.w then (x, if killed then .returned none else .asleep (n + 1) got)
    else
      let c := x.buf (place INPUT_BUF x.r)
      let y := { x with r := x.r + 1 }
      if c = C_D then
        -- Save ^D for next time, to make sure caller gets a 0-byte result.
        (if n + 1 < target then { y with r := y.r - 1 } else y, .returned (some got))
      else if c = LF then (y, .returned (some (got ++ [c])))
      else consoleread killed target n (got ++ [c]) y

/-! ### What it is for -/

structure Line where
  /-- entered, and not yet read -/
  ready : List UInt8
  /-- typed since -/
  edit : List UInt8

namespace Line

def type (t : Line) (c : UInt8) : Line × Bool :=
  if c = C_P then (t, false)
  else if c = C_U then ({ t with edit := [] }, false)
  else if c = C_H ∨ c = DEL then ({ t with edit := t.edit.dropLast }, false)
  else if c ≠ 0 ∧ t.ready.length + t.edit.length < INPUT_BUF then
    let c := if c = CR then LF else c
    let edit := t.edit ++ [c]
    if c = LF ∨ c = C_D ∨ t.ready.length + edit.length = INPUT_BUF then (⟨t.ready ++ edit, []⟩, true)
    else ({ t with edit }, false)
  else (t, false)

def read (killed : Bool) (target : Nat) : Nat → List UInt8 → Line → Line × Outcome
  | 0, got, t => (t, .returned (some got))
  | n + 1, got, t =>
    match t.ready with
    | [] => (t, if killed then .returned none else .asleep (n + 1) got)
    | c :: rest =>
      if c = C_D then (if n + 1 < target then t else { t with ready := rest }, .returned (some got))
      else if c = LF then ({ t with ready := rest }, .returned (some (got ++ [c])))
      else read killed target n (got ++ [c]) { t with ready := rest }

end Line

/-! ### The processes that read -/

inductive Reader where
  | idle
  | asleep (target n : Nat) (got : List UInt8)
  | awake (target n : Nat) (got : List UInt8)

namespace Reader

def wake : Reader → Reader
  | .asleep target n got => .awake target n got
  | p => p

def after (target : Nat) : Outcome → Reader
  | .returned _ => .idle
  | .asleep n got => .asleep target n got

end Reader

/-- The console, whose text is kept in a `τ`, and its readers. -/
structure State (H τ : Type) where
  text : τ
  readers : H → Reader
  killed : H → Bool

inductive Event (H : Type) where
  /-- An interrupt: what `getc` returns until it returns -1. -/
  | keys (cs : List UInt8)
  | read (h : H) (n : Int)
  /-- A process that has been woken has the lock again. -/
  | resume (h : H)
  | kill (h : H)

/-- What a step of a reader returns, if it returns. -/
inductive Answer where
  | nothing
  | returned (got : Option (List UInt8))
  deriving DecidableEq

def Outcome.answer : Outcome → Answer
  | .returned got => .returned got
  | .asleep _ _ => .nothing

section step

variable {H τ : Type} [DecidableEq H]

/-- A session with the lock, of process `h`. -/
def session (read : Bool → Nat → Nat → List UInt8 → τ → τ × Outcome) (s : State H τ) (h : H) (target n : Nat)
    (got : List UInt8) : Answer × State H τ :=
  let q := read (s.killed h) target n got s.text
  (q.2.answer, { s with text := q.1, readers := update s.readers h (.after target q.2) })

/-- The whole loop of `consoleintr`; the `wakeup` is for all readers. -/
def typeAll (type : τ → UInt8 → τ × Bool) : List UInt8 → State H τ → State H τ
  | [], s => s
  | c :: cs, s =>
    let q := type s.text c
    typeAll type cs { s with text := q.1, readers := if q.2 then fun h => (s.readers h).wake else s.readers }

/-- An event; a process is in one call at a time. -/
def step (type : τ → UInt8 → τ × Bool) (read : Bool → Nat → Nat → List UInt8 → τ → τ × Outcome)
    (s : State H τ) : Event H → Answer × State H τ
  | .keys cs => (.nothing, typeAll type cs s)
  | .read h n =>
    match s.readers h with
    | .idle => session read s h n.toNat n.toNat []
    | _ => (.nothing, s)
  | .resume h =>
    match s.readers h with
    | .awake target n got => session read s h target n got
    | _ => (.nothing, s)
  | .kill h =>
    -- Wake process from sleep if necessary.
    (.nothing, { s with killed := update s.killed h true, readers := update s.readers h (s.readers h).wake })

/-- The answers to a list of events, and the state after them. -/
def play (type : τ → UInt8 → τ × Bool) (read : Bool → Nat → Nat → List UInt8 → τ → τ × Outcome) :
    List (Event H) → State H τ → List Answer × State H τ
  | [], s => ([], s)
  | ev :: evs, s =>
    let q := step type read s ev
    let rest := play type read evs q.2
    (q.1 :: rest.1, rest.2)

end step

/-- Before anything is typed. -/
def start {H τ : Type} (text : τ) : State H τ := ⟨text, fun _ => .idle, fun _ => false⟩

def noInput : Input := ⟨fun _ => 0, 0, 0, 0⟩

variable {H : Type} [DecidableEq H]

/-- The console as it is. -/
def console (evs : List (Event H)) : List Answer × State H Input :=
  play Input.consoleintr Input.consoleread evs (start noInput)

/-- The console as it is meant to be. -/
def terminal (evs : List (Event H)) : List Answer × State H Line := play Line.type Line.read evs (start ⟨[], []⟩)

end Console
