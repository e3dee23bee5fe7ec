import OperatingSystem314.Paging.ShortQueue
import OperatingSystem314.Paging.Stack

/-! # Safe evictions

    `trap` evicts twice for a page fault, and `allocuvm` once for each page
    that it maps while fifteen are counted.  An eviction is safe if
    `dequeueFIFO` finds a list to print before and after it takes the oldest
    page off, and that page is present.

    * `Safe`: the evictions of one call are safe.
    * `Roomy`: what a call needs to find in the list.
    * `evictions_safe`: in runs of such calls every eviction is safe.
    * `evictions_unsafe`: page faults run the list down until one is not. -/

namespace Paging

open Relation (ReflTransGen)

/-! ### The evictions of a call -/

/-- There is a head before `dequeueFIFO` takes the oldest page off, and
    there is one afterwards. -/
def QueueSafe (k : Kernel) : Prop := k.cur.head ≠ none ∧ k.unlinked.cur.head ≠ none

/-- `moveToSwapFile` is called on a page that is present. -/
def EvictSafe (k : Kernel) : Prop := QueueSafe k ∧ Present k (oldest k)

/-- The kernel in which the loop of `allocuvm` starts a round. -/
inductive AtRound (d : Nat) : List Nat → Kernel → Kernel → Prop
  | first {a : Nat} {rest : List Nat} {k : Kernel} : AtRound d (a :: rest) k k
  | later {a : Nat} {rest : List Nat} {k k1 k2 : Kernel} (hround : AllocRound d a k k1) (h : AtRound d rest k1 k2) :
      AtRound d (a :: rest) k k2

/-- What can lead to an eviction. -/
inductive EvictingCall where
  | fault (user : Bool) (va : Nat)
  | sbrk (n : Int)
  | exec (path : Nat) (argv : List Nat)

/-- The pages that a growth by `n` allocates. -/
def grownPages (k : Kernel) (n : Int) : List Nat := pageRange (PGROUNDUP k.cur.sz) (newSize k n)

namespace EvictingCall

/-- The call returns, and `exec` with success. -/
def Returns (k k' : Kernel) : EvictingCall → Prop
  | .fault user va => ∃ e, trapPgflt user k va = .ok (e, k')
  | .sbrk n => ∃ r, sys_sbrk k n = .ok (r, k')
  | .exec path argv => Paging.exec k path argv = .ok (0, k')

/-- The calls of `swapPageOut` and of `swapPageIn` are safe.  A call of
    `swapPageOut` is counted by `nPagesInSwapFile`, and `exec` makes none
    after it has reset that. -/
def Safe (k : Kernel) : EvictingCall → Prop
  | .fault _ va => PagedOut k va →
      EvictSafe k ∧ ∀ k1, swapPageOut k = .ok k1 → slotOf k1.cur (PTE_ADDR va) ≠ none → QueueSafe k1
  | .sbrk n => 0 < n → newSize k n < KERNBASE → ∀ k1, AtRound k.cur.pgdir (grownPages k n) k k1 →
      (MAX_PSYC_PAGES : Int) ≤ k1.cur.nPagesInPhyMemory → EvictSafe k1
  | .exec path argv => ∀ k1, Paging.exec k path argv = .ok (0, k1) → k1.cur.nPagesInSwapFile = 0

end EvictingCall

/-! ### A program that fits -/

/-- The new program and its stack fit into fifteen pages, and its path and
    arguments are in memory. -/
structure ExecFits (k : Kernel) (path : Nat) (argv : List Nat) : Prop where
  free : FreeList k
  dir : k.cur.pgdir ∉ k.freelist
  /-- no page of the process lies in a free frame -/
  taken : ∀ va x, k.walkpgdir k.cur.pgdir va = some x → x.p = true → x.ppn ∉ k.freelist
  name : ∃ bs, StringAt k path bs
  args : ∃ strs, List.Forall₂ (StringAt k) argv strs
  fits : ∀ ip k1, execInode k path = .ok (some ip, k1) →
    let elf := elfhdr (k1.fs.bytes ip 0)
    PGROUNDUP (segmentsEnd k1.fs ip elf.phnum elf.phoff 0) + 2 * PGSIZE ≤ MAX_PSYC_PAGES * PGSIZE

/-- The path is read without a fault. -/
theorem execInode_resident {k k' : Kernel} {path : Nat} {bs : List UInt8} {r : Option Nat} (hpath : StringAt k path bs)
    (h : execInode k path = .ok (r, k')) : k' = { k with fs := k'.fs } := by
  unfold execInode at h
  rw [hpath.kernelString_eq hpath.short, ok_bind, bind_eq_ok] at h
  obtain ⟨⟨q, fs⟩, -, h⟩ := h
  cases q with
  | none =>
    cases h
    rfl
  | some ip =>
    simp only [bind_eq_ok] at h
    obtain ⟨fs', -, h⟩ := h
    cases h
    rfl

/-- What `exec` starts to load into. -/
theorem ExecFits.ready {k k1 k2 : Kernel} {path d : Nat} {argv : List Nat} (h : ExecFits k path argv)
    (h1 : k1 = { k with fs := k1.fs }) (hsetup : setupkvm k1 = .ok (some d, k2)) :
    Ready (k2.modCur Proc.resetPaging) d ∧ (∀ va, (k2.modCur Proc.resetPaging).userByte k.cur.pgdir va =
      k.userByte k.cur.pgdir va) ∧ d ∈ k.freelist := by
  obtain ⟨rest, hfree, rfl⟩ := setupkvm_some hsetup
  have hfree' : k.freelist = d :: rest := by
    rw [h1] at hfree
    exact hfree
  have hdrop : ∀ f ∈ rest.drop NKERNTABLES, f ∈ k.freelist := by
    intro f hf
    rw [hfree']
    exact List.mem_cons_of_mem _ (List.mem_of_mem_drop hf)
  have hd : d ∈ k.freelist := by
    rw [hfree']
    exact List.mem_cons_self
  have hne : k.cur.pgdir ≠ d := by
    rintro rfl
    exact h.dir hd
  set k2 : Kernel := { k1 with
    freelist := rest.drop NKERNTABLES
    pgdir := Function.update k1.pgdir d { kern := rest.take NKERNTABLES, pde := fun _ => none } } with hk2
  have hcur : (k2.modCur Proc.resetPaging).cur = k.cur.resetPaging := by
    rw [Kernel.modCur_cur, show k2.cur = k1.cur from rfl, h1]
    rfl
  have hwalk : ∀ va, (k2.modCur Proc.resetPaging).walkpgdir k.cur.pgdir va = k.walkpgdir k.cur.pgdir va := by
    intro va
    have hdir : k2.pgdir k.cur.pgdir = k1.pgdir k.cur.pgdir := Function.update_of_ne hne _ _
    rw [Kernel.walkpgdir, show (k2.modCur Proc.resetPaging).pgdir = k2.pgdir from rfl, hdir, h1]
    rfl
  refine ⟨⟨⟨?_, ?_, ?_⟩, ?_, ?_, ?_, ?_⟩, ?_, hd⟩
  · show 0 < k1.kend
    rw [h1]
    exact h.free.pos
  · intro f hf
    have hok := h.free.frames f (hdrop f hf)
    unfold Kernel.FrameOk at hok ⊢
    rw [show (k2.modCur Proc.resetPaging).kend = k.kend from by rw [show k.kend = k1.kend by rw [h1]]; rfl]
    exact hok
  · have hnodup := h.free.nodup
    rw [hfree', List.nodup_cons] at hnodup
    exact hnodup.2.sublist (List.drop_sublist _ _)
  · rw [hcur]
    exact hne
  · intro i
    show (Function.update k1.pgdir d _ d).pde i = none
    rw [Function.update_self]
  · rw [hcur]
    rfl
  · intro va x hx hp hmem
    rw [hcur] at hx
    rw [show k.cur.resetPaging.pgdir = k.cur.pgdir from rfl, hwalk] at hx
    exact h.taken va x hx hp (hdrop _ hmem)
  · intro va
    unfold Kernel.userByte
    rw [hwalk]
    have hframe : (k2.modCur Proc.resetPaging).frame = k.frame := by
      show k1.frame = k.frame
      rw [h1]
    rw [hframe]

/-- The file system makes no difference to what is built. -/
theorem Building.setFs {k0 k : Kernel} {g d n : Nat} {m : Nat → UInt8} (h : Building k0 g d n m k) (fs : Fs) :
    Building { k0 with fs } g d n m { k with fs } := by
  refine ⟨⟨?_, h.beside.procs, h.beside.pgdirs⟩, h.fifo, h.counted, h.suffix, h.frames, h.own, h.mem⟩
  rw [h.beside.rest]

theorem Ready.setFs {k0 : Kernel} {d : Nat} (h : Ready k0 d) (fs : Fs) : Ready { k0 with fs } d :=
  ⟨⟨h.free.pos, h.free.frames, h.free.nodup⟩, h.ne, h.empty, h.reset, h.taken⟩

/-- The page numbers of the first pages are the first ones. -/
theorem pagesBelow_distinct (n : Nat) : ((pagesBelow n).map (· / PGSIZE)).Nodup := by
  unfold pagesBelow pagesFrom
  rw [List.map_map]
  have hnumber : (fun n => n / PGSIZE) ∘ (fun i => i * PGSIZE) = id := by
    funext i
    exact Nat.mul_div_cancel i (by decide)
  rw [hnumber, List.map_id]
  exact List.nodup_range'

namespace ExecFits

variable {k k' : Kernel} {path : Nat} {argv : List Nat}

/-- What `exec` has built when it commits, from the kernel `k0` in which the
    metadata are reset. -/
theorem building {k3 : Kernel} {img : Image} (h : ExecFits k path argv)
    (himage : execImage k path argv = .ok (some img, k3)) : ∃ k0 g n m, Ready k0 img.pgdir ∧
      Building k0 g img.pgdir (n + 2) m k3 ∧ (∀ va, k0.userByte k0.cur.pgdir va = k.userByte k.cur.pgdir va) ∧
      k0.curproc = k.curproc ∧ k0.cur = k.cur.resetPaging ∧ img.pgdir ∈ k.freelist := by
  rcases execImage_ok himage with ⟨-, -, -, -, -, hnone, -⟩ | ⟨ip, k1, d, k2, hinode, -, hsetup, hload⟩
  · cases hnone
  obtain ⟨bs, hpath⟩ := h.name
  obtain ⟨strs, hargs⟩ := h.args
  have h1 := execInode_resident hpath hinode
  obtain ⟨hready, hbytes, hd⟩ := h.ready h1 hsetup
  have hfits := h.fits ip k1 hinode
  obtain ⟨rfl, -, sz, k5, fs, hsegs, -, hstack⟩ := execLoad_some hload
  obtain ⟨rest, -, hk2⟩ := setupkvm_some hsetup
  set k0 := k2.modCur Proc.resetPaging with hk0
  have hfs : k0.fs = k1.fs := by
    show k2.fs = k1.fs
    rw [hk2]
  have hcurproc : k0.curproc = k.curproc := by
    show k2.curproc = k.curproc
    rw [hk2]
    show k1.curproc = k.curproc
    rw [h1]
  have hcur : k0.cur = k.cur.resetPaging := by
    rw [hk0, Kernel.modCur_cur, hk2]
    show k1.cur.resetPaging = k.cur.resetPaging
    rw [h1]
    rfl
  have hbytes0 : ∀ va, k0.userByte k0.cur.pgdir va = k.userByte k.cur.pgdir va := by
    intro va
    rw [hcur]
    exact hbytes va
  -- the segments, and then the stack
  rw [show k2.fs = k1.fs from hfs] at hsegs
  set elf := elfhdr (k1.fs.bytes ip 0) with helf
  set size := segmentsEnd k0.fs ip elf.phnum elf.phoff 0 with hsize
  have hstackFits : PGROUNDUP size + 2 * PGSIZE ≤ MAX_PSYC_PAGES * PGSIZE := by
    rw [hsize, hfs]
    exact hfits
  have hend : size ≤ MAX_PSYC_PAGES * PGSIZE :=
    Nat.le_trans (Nat.le_trans (le_PGROUNDUP _) (Nat.le_add_right _ (2 * PGSIZE))) hstackFits
  have hstart : Building k0 (PGROUNDUP size) img.pgdir (npages 0) (fun _ => 0) k0 := hready.building _
  rcases hstart.loadSegments hready hend hsegs with ⟨hnone, -⟩ | ⟨hsz, hbuilt⟩
  · cases hnone
  cases hsz
  have hargs0 : List.Forall₂ (StringAt { k0 with fs }) argv strs := by
    refine hargs.imp fun a s hstr => ?_
    exact hstr.congr hbytes0
  rcases (hbuilt.setFs fs).execStack (hready.setFs fs) hstackFits hargs0 hstack with
    ⟨hnone, -⟩ | ⟨sp, args, m', -, hdone, -⟩
  · cases hnone
  · exact ⟨_, _, _, _, hready.setFs fs, hdone, hbytes0, hcurproc, hcur, hd⟩

/-- A program that fits is loaded without an eviction, and the list holds
    its pages. -/
theorem listed (h : ExecFits k path argv) (hexec : exec k path argv = .ok (0, k')) :
    k'.curproc = k.curproc ∧ k'.cur.nPagesInSwapFile = 0 ∧ ∃ q, q ≠ [] ∧ Listed k'.curproc k' q := by
  unfold exec at hexec
  rw [bind_eq_ok] at hexec
  obtain ⟨⟨img, k3⟩, himage, hexec⟩ := hexec
  cases img with
  | none => cases hexec
  | some img =>
  simp only [bind_eq_ok] at hexec
  obtain ⟨k4, hcommit, hexec⟩ := hexec
  cases hexec
  obtain ⟨bs, hpath⟩ := h.name
  obtain ⟨k0, g, n, m, hready, hdone, hbytes, hcurproc, hcur0, hd⟩ := h.building himage
  -- the name of the program is read without a fault as well
  have hpath3 : StringAt k3 path bs := by
    refine hpath.congr fun a => ?_
    rw [hdone.userByte hready, hbytes]
  unfold execCommit at hcommit
  rw [hpath3.kernelString_eq hpath3.short, ok_bind] at hcommit
  have hmem := freevm_mem hcommit
  have hbeside := freevm_beside hcommit
  have hcur : k'.cur = { k3.cur with
      pgdir := img.pgdir, sz := img.sz, tf := { k3.cur.tf with eip := img.entry, esp := img.sp } } := by
    rw [hmem.cur, Kernel.modCur_cur]
  have hcurproc' : k'.curproc = k3.curproc := hmem.curproc
  have hne : img.pgdir ≠ k3.cur.pgdir := by
    rw [hdone.beside.cur.pgdir, hcur0]
    intro heq
    rw [heq] at hd
    exact h.dir hd
  refine ⟨hcurproc'.trans (hdone.beside.curproc.trans hcurproc), ?_, pagesBelow (n + 2), ?_, ?_,
    pagesBelow_distinct _, ?_⟩
  · obtain ⟨_, _, _, hlist⟩ := hdone.beside.cur
    rw [hcur, hlist, hcur0]
    rfl
  · intro hnil
    have hlen := length_pagesBelow (n + 2)
    rw [hnil] at hlen
    cases hlen
  · show Fifo k'.curproc k'.cur _
    rw [hcurproc', hcur]
    exact hdone.fifo.congr rfl rfl
  · intro a ha
    have haligned := (mem_pagesBelow.mp ha).1
    rw [← PTE_ADDR_of_aligned haligned] at ha
    obtain ⟨x, hx, -, hres⟩ := hdone.resident ha
    refine ⟨x, ?_, hres.p, hres.pg⟩
    show k'.walkpgdir k'.cur.pgdir a = some x
    rw [hcur, Kernel.walkpgdir, hbeside.pgdirs _ hne]
    exact hx

end ExecFits

/-! ### What a call needs to find -/

/-- None of the addresses lies in a page of the list. -/
def Unlisted (x : Proc) (addrs : List Nat) : Prop :=
  ∀ a ∈ addrs, ∀ i, (x.pagesInPhyMem i).in_use = true → (x.pagesInPhyMem i).address / PGSIZE ≠ a / PGSIZE

/-- A fault needs three pages, or two if no slot has its address.  A growth
    that evicts at once needs two; once it has mapped a page, memory has to
    last.  What is undone or given up must not be in the list. -/
def EvictingCall.Roomy (k : Kernel) : EvictingCall → Prop
  | .fault _ va => PagedOut k va → 3 ≤ queued k.cur ∨
      (2 ≤ queued k.cur ∧ slotOf (k.cur.recorded (oldest k)) (PTE_ADDR va) = none)
  | .sbrk n =>
      (0 < n → newSize k n < KERNBASE →
        (grownPages k n ≠ [] → (MAX_PSYC_PAGES : Int) ≤ k.cur.nPagesInPhyMemory → 2 ≤ queued k.cur) ∧
        (∀ a rest k1, grownPages k n = a :: rest → AllocRound k.cur.pgdir a k k1 → ¬ RunsOut k.cur.pgdir rest k1) ∧
        (RunsOut k.cur.pgdir (grownPages k n) k → Unlisted k.cur (grownPages k n))) ∧
      (n < 0 → Unlisted k.cur (pageRange (PGROUNDUP (newSize k n)) k.cur.sz))
  | .exec path argv => ExecFits k path argv

/-- What the runs of process `p` are made of. -/
inductive ListStep (p : ProcId) : Kernel → Kernel → Prop
  | call {k k' : Kernel} {c : EvictingCall} (hcur : k.curproc = p) (hroomy : c.Roomy k) (h : c.Returns k k') :
      ListStep p k k'
  /-- whatever else happens leaves the list and the page table alone -/
  | other {k k' : Kernel} (hcells : (k'.proc p).pagesInPhyMem = (k.proc p).pagesInPhyMem)
      (hhead : (k'.proc p).head = (k.proc p).head) (hdir : (k'.proc p).pgdir = (k.proc p).pgdir)
      (htable : k'.pgdir (k.proc p).pgdir = k.pgdir (k.proc p).pgdir) : ListStep p k k'

/-! ### Runs -/

/-- `printQueue` follows no null head. -/
theorem printQueue_ne {k : Kernel} (h : k.cur.head ≠ none) : printQueue k ≠ .error .nullDeref := by
  obtain ⟨c, hc⟩ := Option.ne_none_iff_exists'.mp h
  unfold printQueue
  split
  · simp only [hc, deref_some, ok_bind]
    unfold tailCell
    split
    · simp only [ok_bind]
      unfold cprintf
      split
      · nofun
      · nofun
    · nofun
  · nofun

theorem QueueSafe.dequeueFIFO_ne {k : Kernel} (h : QueueSafe k) : dequeueFIFO k ≠ .error .nullDeref := by
  obtain ⟨c, hc⟩ := Option.ne_none_iff_exists'.mp h.1
  have hafter := h.2
  unfold Kernel.unlinked at hafter
  rw [hc] at hafter
  have hlog : ∀ {k1 : Kernel} {α : Type} {f : Unit → Result α}, f () ≠ .error .nullDeref →
      (cprintf k1 >>= f) ≠ .error .nullDeref := by
    intro k1 α f hf
    unfold cprintf
    split
    · nofun
    · exact hf
  have hprint : ∀ {k1 : Kernel} {α : Type} {f : Unit → Result α}, k1.cur.head ≠ none → f () ≠ .error .nullDeref →
      (printQueue k1 >>= f) ≠ .error .nullDeref := by
    intro k1 α f hhead hf herr
    have hne := printQueue_ne hhead
    cases hp : printQueue k1 with
    | error e =>
      rw [hp] at herr hne
      injection herr with heq
      rw [heq] at hne
      exact hne rfl
    | ok u =>
      rw [hp] at herr
      exact hf herr
  unfold dequeueFIFO
  refine hlog (hprint h.1 ?_)
  rw [hc]
  refine hlog (hprint hafter nofun)

namespace Listed

variable {k k' : Kernel} {q : List Nat} {p : ProcId} {c : EvictingCall}

theorem queued_eq (h : Listed k.curproc k q) : queued k.cur = q.length := h.fifo.queued_eq

theorem unlisted {addrs : List Nat} (h : Listed k.curproc k q) (hnot : Unlisted k.cur addrs) :
    ∀ a ∈ addrs, ¬ pages q (a / PGSIZE) := by
  intro a ha hmem
  obtain ⟨b, hb, hpage⟩ := List.mem_map.mp hmem
  obtain ⟨cells, hq, rfl⟩ := h.fifo
  obtain ⟨e, he, rfl⟩ := List.mem_map.mp hb
  exact hnot a ha e.slot (hq.used e he) hpage

/-- Two pages are enough for an eviction. -/
theorem queueSafe (h : Listed k.curproc k q) (hlen : 2 ≤ q.length) : QueueSafe k := by
  obtain ⟨a, b, q, rfl⟩ : ∃ a b q', q = a :: b :: q' := by
    match q, hlen with
    | a :: b :: q', _ => exact ⟨a, b, q', rfl⟩
  obtain ⟨-, -, hfifo⟩ := h.fifo.unlinked
  constructor
  · intro hnone
    have := h.fifo.head_eq_none.mp hnone
    cases this
  · intro hnone
    have := hfifo.head_eq_none.mp hnone
    cases this

theorem evictSafe (h : Listed k.curproc k q) (hlen : 2 ≤ q.length) : EvictSafe k := by
  refine ⟨h.queueSafe hlen, ?_⟩
  obtain ⟨a, q, rfl⟩ := List.exists_cons_of_length_pos (by omega : 0 < q.length)
  exact h.present

/-- Before each round of the loop there are two pages, by induction on the rounds. -/
theorem atRound {k1 : Kernel} {addrs : List Nat} (h : Listed k.curproc k q) (hlen : 2 ≤ q.length)
    (hround : AtRound k.cur.pgdir addrs k k1) : ∃ q', Listed k1.curproc k1 q' ∧ 2 ≤ q'.length := by
  generalize hd : k.cur.pgdir = d at hround
  induction hround generalizing q with
  | first => exact ⟨q, h, hlen⟩
  | later hround _ ih =>
    rw [← hd] at hround
    obtain ⟨q1, h1, hlen1⟩ := h.allocRound (List.ne_nil_of_length_pos (by omega)) (fun _ => hlen) hround
    have hkeeps : Keeps (fun _ => False) _ _ := .allocRound hround fun _ => id
    exact ih h1 hlen1 (hkeeps.pgdir.trans hd)

/-- The evictions of a call that finds what it needs. -/
theorem safe (h : Listed k.curproc k q) (hne : q ≠ []) (hroomy : c.Roomy k) : c.Safe k := by
  cases c with
  | fault user va =>
    intro hout
    have hroom := hroomy hout
    rw [h.queued_eq] at hroom
    have hlen : 2 ≤ q.length := by
      rcases hroom with hlen | hlen
      · omega
      · exact hlen.1
    refine ⟨h.evictSafe hlen, fun k1 hswap hslot => ?_⟩
    obtain ⟨a, q, rfl⟩ := List.exists_cons_of_length_pos (by omega : 0 < q.length)
    apply (h.evict hswap).queueSafe
    rcases hroom with hlen3 | ⟨-, hnone⟩
    · exact Nat.le_of_succ_le_succ hlen3
    · rw [swapPageOut_slots hswap] at hslot
      exact absurd hnone hslot
  | sbrk n =>
    intro hn hsize k1 hround hfull
    obtain ⟨hlong, -⟩ := hroomy.1 hn hsize
    generalize grownPages k n = addrs at hlong hround
    rw [h.queued_eq] at hlong
    cases hround with
    | first => exact h.evictSafe (hlong (List.cons_ne_nil _ _) hfull)
    | later hround hrest =>
      obtain ⟨q1, h1, hlen1⟩ := h.allocRound hne (hlong (List.cons_ne_nil _ _)) hround
      have hkeeps : Keeps (fun _ => False) _ _ := .allocRound hround fun _ => id
      rw [← hkeeps.pgdir] at hrest
      obtain ⟨q2, h2, hlen2⟩ := h1.atRound hlen1 hrest
      exact h2.evictSafe hlen2
  | exec path argv =>
    intro k1 hexec
    exact (ExecFits.listed hroomy hexec).2.1

/-- Such a call leaves a list of that kind, which is not empty. -/
theorem returns (h : Listed k.curproc k q) (hne : q ≠ []) (hroomy : c.Roomy k) (hret : c.Returns k k') :
    k'.curproc = k.curproc ∧ ∃ q', q' ≠ [] ∧ Listed k'.curproc k' q' := by
  cases c with
  | fault user va =>
    obtain ⟨e, htrap⟩ := hret
    have hcur : k'.curproc = k.curproc := by
      obtain ⟨-, ⟨-, -, k1, hout, hin⟩ | ⟨-, -, -, rfl⟩⟩ := trapPgflt_ok htrap
      · rw [(swapPageIn_swaps hin).curproc, (swapPageOut_swaps hout).curproc]
      · rfl
    have hroom : PagedOut k va → 3 ≤ q.length ∨
        (2 ≤ q.length ∧ slotOf (k.cur.recorded (oldest k)) (PTE_ADDR va) = none) := by
      rw [← h.queued_eq]
      exact hroomy
    obtain ⟨q', h', hsame, hshort⟩ := h.fault hroom htrap
    refine ⟨hcur, q', List.ne_nil_of_length_pos ?_, h'⟩
    by_cases hout : PagedOut k va
    · have := hshort hout
      have := hroom hout
      omega
    · rw [hsame hout]
      exact List.length_pos_iff.mpr hne
  | sbrk n =>
    obtain ⟨r, hsbrk⟩ := hret
    refine ⟨(sys_sbrk_dirs hsbrk).1, ?_⟩
    obtain ⟨k1, hend, hcase⟩ := sys_sbrk_cases hsbrk
    have h1 : ∃ q', q' ≠ [] ∧ Listed k1.curproc k1 q' := by
      rcases hcase with ⟨hn, m, halloc⟩ | ⟨hn, m, hdealloc, -⟩ | rfl
      · unfold allocuvm at halloc
        split at halloc
        · obtain ⟨-, rfl⟩ := Prod.mk.inj (Except.ok.inj halloc)
          exact ⟨q, hne, h⟩
        next hsize =>
        split at halloc
        · obtain ⟨-, rfl⟩ := Prod.mk.inj (Except.ok.inj halloc)
          exact ⟨q, hne, h⟩
        · obtain ⟨hlong, hlasts, hundone⟩ := hroomy.1 hn (Nat.lt_of_not_le hsize)
          rw [h.queued_eq] at hlong
          exact h.grow hne hlong hlasts (fun hout => h.unlisted (hundone hout)) halloc
      · exact ⟨q, hne, h.deallocuvm hdealloc (h.unlisted (hroomy.2 hn))⟩
      · exact ⟨q, hne, h⟩
    obtain ⟨q', hne', h1⟩ := h1
    rcases hend with rfl | ⟨sz, rfl⟩
    · exact ⟨q', hne', h1⟩
    · exact ⟨q', hne', h1.setSz sz⟩
  | exec path argv =>
    obtain ⟨hcur, -, hlisted⟩ := ExecFits.listed hroomy hret
    exact ⟨hcur, hlisted⟩

theorem listStep (h : Listed p k q) (hne : q ≠ []) (hstep : ListStep p k k') : ∃ q', q' ≠ [] ∧ Listed p k' q' := by
  cases hstep with
  | call hcur hroomy hret =>
    subst hcur
    obtain ⟨hcur', q', hne', h'⟩ := h.returns hne hroomy hret
    rw [hcur'] at h'
    exact ⟨q', hne', h'⟩
  | other hcells hhead hdir htable =>
    refine ⟨q, hne, h.fifo.congr hcells hhead, h.distinct, ?_⟩
    intro a ha
    obtain ⟨x, hx, hflags⟩ := h.resident a ha
    refine ⟨x, ?_, hflags⟩
    rw [hdir, Kernel.walkpgdir, htable]
    exact hx

theorem listRun (h : Listed p k q) (hne : q ≠ []) (hrun : ReflTransGen (ListStep p) k k') :
    ∃ q', q' ≠ [] ∧ Listed p k' q' := by
  induction hrun with
  | refl => exact ⟨q, hne, h⟩
  | tail _ hstep ih =>
    obtain ⟨q1, hne1, h1⟩ := ih
    exact h1.listStep hne1 hstep

end Listed

/-- Along every run of calls that find what they need, every eviction of the
    next such call is safe. -/
theorem evictions_safe {p : ProcId} {k k' : Kernel} {q : List Nat} {c : EvictingCall} (h : Listed p k q)
    (hne : q ≠ []) (hrun : ReflTransGen (ListStep p) k k') (hcur : k'.curproc = p) (hroomy : c.Roomy k') :
    c.Safe k' := by
  obtain ⟨q', hne', h'⟩ := h.listRun hne hrun
  subst hcur
  exact h'.safe hne' hroomy

open Layout

theorem Paged.listed {g lim : Nat} {k : Kernel} {q s : List Nat} {m : Nat → UInt8} (h : Paged g k lim q s m) :
    Listed k.curproc k q := by
  refine ⟨h.fifo, ?_, ?_⟩
  · have hnodup := (List.nodup_append.mp h.mem.nodup).1
    refine hnodup.map_on fun a ha b hb hpage => ?_
    by_contra hne
    exact page_ne (h.mem.aligned (List.mem_append_left s ha)) (h.mem.aligned (List.mem_append_left s hb)) hne hpage
  · intro a ha
    obtain ⟨x, hx, hres⟩ := h.walk_resident ha
    exact ⟨x, hx, hres.p, hres.pg⟩

/-- The process has read the page in the swap file, in exchange for page
    `1`; page `0` was evicted before. -/
def sixteenRead : Kernel := (reached (trapPgflt true sixteenPages (15 * PGSIZE))).get (by decide +kernel)

theorem sixteenRead_returns : (EvictingCall.fault true (15 * PGSIZE)).Returns sixteenPages sixteenRead :=
  of_reached (Option.some_get _).symm

/-- Reading page `0` again finds fourteen pages. -/
theorem evictions_safe_sixteen : PagedOut sixteenRead 0 ∧ (EvictingCall.fault true 0).Safe sixteenRead := by
  have hroomy : (EvictingCall.fault true (15 * PGSIZE)).Roomy sixteenPages := fun _ => .inl (by decide +kernel)
  have hout : PagedOut sixteenRead 0 := ⟨.swapped, by decide +kernel, rfl⟩
  refine ⟨hout, ?_⟩
  exact evictions_safe sixteenPages_paged.listed (List.cons_ne_nil _ _) (.single (.call rfl hroomy sixteenRead_returns))
    (by decide +kernel) fun _ => .inl (by decide +kernel)

/-! ### A list that runs short -/

/-- Page faults, one after the other. -/
def Faulting (k k' : Kernel) : Prop := ∃ va, (EvictingCall.fault true va).Returns k k'

namespace Paged

variable {g lim : Nat} {k : Kernel} {q s : List Nat} {m : Nat → UInt8}

/-- Each fault leaves one page less in the list, by induction on the pages
    that are left. -/
theorem runs_down {n : Nat} (h : Paged g k lim q s m) (hq : q.length = n + 2) (hs : s ≠ [])
    (hsum : q.length + s.length ≤ MAX_PSYC_PAGES + 1) :
    ∃ k' q' s', ReflTransGen Faulting k k' ∧ Paged g k' lim q' s' m ∧ q'.length = 2 ∧ s' ≠ [] ∧
      s'.length < MAX_PSYC_PAGES := by
  induction n generalizing k q s with
  | zero => exact ⟨k, q, s, .refl, h, hq, hs, by omega⟩
  | succ n ih =>
    obtain ⟨c, hc⟩ := List.exists_mem_of_ne_nil s hs
    have haligned := h.mem.aligned (List.mem_append_right _ hc)
    obtain ⟨k1, q1, s1, htrap, h1, -, -, hq1, hs1, -⟩ := h.fault
      (show PTE_ADDR c ∈ s by rwa [PTE_ADDR_of_aligned haligned]) (by omega) (by omega) true
    obtain ⟨k', q', s', hrun, h'⟩ := ih h1 (by omega) (List.ne_nil_of_length_pos (by omega)) (by omega)
    exact ⟨k', q', s', .head ⟨c, _, htrap⟩ hrun, h'⟩

/-- With two pages in the list a fault is not safe: the second eviction
    empties the list. -/
theorem unsafe_fault (h : Paged g k lim q s m) (hq : q.length = 2) (hs : s ≠ []) (hlt : s.length < MAX_PSYC_PAGES) :
    ∃ va, ¬ (EvictingCall.fault true va).Safe k ∧ trapPgflt true k va = .error .nullDeref := by
  obtain ⟨a, b, rfl⟩ := List.length_eq_two.mp hq
  obtain ⟨c, hc⟩ := List.exists_mem_of_ne_nil s hs
  have haligned := h.mem.aligned (List.mem_append_right _ hc)
  have hin : PTE_ADDR c ∈ s := by rwa [PTE_ADDR_of_aligned haligned]
  refine ⟨c, fun hsafe => ?_, h.fault_short hin hlt true⟩
  obtain ⟨k1, hout, h1, -⟩ := h.evict (List.cons_ne_nil b []) hlt
  obtain ⟨i, hi⟩ := List.getElem?_of_mem hin
  have hlti := (List.getElem?_eq_some_iff.mp hi).1
  have hslot : slotOf k1.cur (PTE_ADDR c) = some ⟨i, Nat.lt_trans hlti hlt⟩ := by
    refine h1.slots.slotOf_eq (List.nodup_append.mp h1.mem.nodup).2.1 ?_
    rw [List.getElem?_append_left hlti]
    exact hi
  have hqueue := ((hsafe ((h.walk_pg c).mpr hin)).2 k1 hout (by simp [hslot])).2
  obtain ⟨-, -, hfifo⟩ := h1.fifo.unlinked
  exact hqueue (hfifo.head_eq_none.mpr rfl)

end Paged

/-- Sixteen pages, one of them in the swap file: after thirteen faults the
    list holds two pages, and the next fault follows a null head. -/
theorem evictions_unsafe : Listed sixteenPages.curproc sixteenPages fifteen ∧ 2 < sixteenPages.cur.pid ∧
    ∃ k va, ReflTransGen Faulting sixteenPages k ∧ ¬ (EvictingCall.fault true va).Safe k ∧
      trapPgflt true k va = .error .nullDeref := by
  obtain ⟨k, q, s, hrun, h, hq, hs, hlt⟩ := sixteenPages_paged.runs_down (n := 13) rfl (List.cons_ne_nil _ _)
    (by decide)
  obtain ⟨va, hunsafe, hnull⟩ := h.unsafe_fault hq hs hlt
  exact ⟨sixteenPages_paged.listed, sixteenPages_paged.pid, k, va, hrun, hunsafe, hnull⟩

end Paging
