import OperatingSystem314.Lib.Ring
import OperatingSystem314.Lib.Threads
import OperatingSystem314.Storage.Log

/-! # The buffer cache (`bio.c`)

    The table of buffers with its list in the order of use, and any number
    of callers that read, change, write and release blocks.  Each step is a
    critical section of `bcache.lock`, or what a caller does to a buffer
    whose sleep lock it holds.

    A caller here is one use of one buffer; a process that holds two buffers
    is two of them. -/

namespace Bcache

open Storage (Block)

abbrev NBUF : Nat := Paging.MAXOPBLOCKS * 3

structure Addr where
  dev : Nat
  blockno : Nat
  deriving DecidableEq

/-- `struct buf`, without its links. -/
structure Buffer where
  addr : Addr
  valid : Bool
  dirty : Bool
  refcnt : Nat
  /-- the sleep lock -/
  locked : Bool
  data : Block

abbrev Slot := Fin NBUF

/-- A buffer on the list, or `&bcache.head`. -/
abbrev Node := Option Slot

structure Cache where
  buf : Slot → Buffer
  links : Ring.Links Node

namespace Cache

variable (c : Cache)

def modify (b : Slot) (f : Buffer → Buffer) : Cache := { c with buf := Function.update c.buf b (f (c.buf b)) }

/-- The loops of `bget`. -/
def find (step : Node → Node) (p : Buffer → Bool) : Option Slot :=
  (Ring.find step none (fun n => n.any fun b => p (c.buf b)) (NBUF + 1) (step none)).join

/-- `bget` up to `acquiresleep`; `none` is its panic. -/
def bget (a : Addr) : Option (Slot × Cache) :=
  -- Is the block already cached?
  match c.find c.links.next fun x => x.addr = a with
  | some b => some (b, c.modify b fun x => { x with refcnt := x.refcnt + 1 })
  | none =>
    -- Not cached; recycle an unused buffer.
    match c.find c.links.prev fun x => x.refcnt = 0 ∧ x.dirty = false with
    | some b => some (b, c.modify b fun x => { x with addr := a, valid := false, dirty := false, refcnt := 1 })
    | none => none

/-- `brelse` after `releasesleep`. -/
def unref (b : Slot) : Cache :=
  let c := c.modify b fun x => { x with refcnt := x.refcnt - 1 }
  if (c.buf b).refcnt = 0 then
    -- no one is waiting for it.
    { c with links := (c.links.remove (some b)).insert none (some b) }
  else c

end Cache

/-- Create linked list of buffers. -/
def binit : Cache where
  buf := fun _ => ⟨⟨0, 0⟩, false, false, 0, false, fun _ => 0⟩
  links := (List.finRange NBUF).foldl (fun k b => k.insert none (some b)) ⟨fun _ => none, fun _ => none⟩

structure Shared where
  cache : Cache
  disk : Addr → Block

namespace Shared

variable (s : Shared) (b : Slot)

def modify (f : Buffer → Buffer) : Shared := { s with cache := s.cache.modify b f }

/-- `iderw`, when the disk is done. -/
def iderw : Shared :=
  let x := s.cache.buf b
  if x.dirty then
    { s with disk := Function.update s.disk x.addr x.data }.modify b fun x => { x with valid := true, dirty := false }
  else s.modify b fun x => { x with valid := true, data := s.disk x.addr }

end Shared

/-! ### The callers -/

inductive Pc where
  | idle
  /-- in `acquiresleep` -/
  | waiting (a : Addr) (b : Slot)
  /-- in `bread`, with the lock -/
  | locked (a : Addr) (b : Slot)
  /-- `bread` has returned; `changed` until `log_write` or `bwrite` -/
  | holding (a : Addr) (b : Slot) (changed : Bool)
  /-- in `brelse`, without the lock -/
  | releasing (a : Addr) (b : Slot)
  deriving DecidableEq

inductive Choice where
  | bread (a : Addr)
  | go
  | store (x : Block)
  | log_write
  | bwrite
  | brelse

/-- No device has the number 0, which unused buffers have. -/
def step (s : Shared) : Pc → Choice → Option (Shared × Pc)
  | .idle, .bread a =>
    if a.dev = 0 then none else (s.cache.bget a).map fun q => ({ s with cache := q.2 }, .waiting a q.1)
  | .waiting a b, .go =>
    if (s.cache.buf b).locked then none
    else some (s.modify b fun x => { x with locked := true }, .locked a b)
  | .locked a b, .go =>
    some (if (s.cache.buf b).valid then s else s.iderw b, .holding a b false)
  | .holding a b _, .store x => some (s.modify b fun y => { y with data := x }, .holding a b true)
  | .holding a b _, .log_write => some (s.modify b fun x => { x with dirty := true }, .holding a b false)
  | .holding a b _, .bwrite =>
    some ((s.modify b fun x => { x with dirty := true }).iderw b, .holding a b false)
  -- a caller that has changed a block writes it before it releases the buffer
  | .holding a b false, .brelse => some (s.modify b fun x => { x with locked := false }, .releasing a b)
  | .releasing _ b, .go => some ({ s with cache := s.cache.unref b }, .idle)
  | _, _ => none

/-! ### What is kept of a run -/

/-- What was stored last in each block, and when each buffer was last
    released by all its callers. -/
structure History where
  contents : Addr → Block
  now : Nat
  last : Slot → Nat

namespace History

variable (g : History)

def after (s : Shared) : Pc → Choice → History
  | .holding a _ _, .store x => { g with contents := Function.update g.contents a x }
  | .releasing _ b, .go =>
    if (s.cache.buf b).refcnt = 1 then { g with now := g.now + 1, last := Function.update g.last b (g.now + 1) }
    else g
  | _, _ => g

end History

abbrev System (H : Type) := Threads.State H Shared Pc

variable {H : Type} [DecidableEq H]

/-- Some caller takes a step. -/
inductive Step : System H × History → System H × History → Prop where
  | mk {s s' : System H} (g : History) {h : H} {c : Choice} (hs : Threads.next step s h c = some s') :
      Step (s, g) (s', g.after s.shared (s.pc h) c)

abbrev Run : System H × History → System H × History → Prop := Relation.ReflTransGen Step

/-- After `binit`, with these contents on the disk. -/
def boot (disk : Addr → Block) : System H × History :=
  (⟨⟨binit, disk⟩, fun _ => .idle⟩, ⟨disk, 0, fun _ => 0⟩)

end Bcache
