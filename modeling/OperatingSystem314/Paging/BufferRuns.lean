import OperatingSystem314.Paging.Unlocked
import OperatingSystem314.Paging.UserBuffer

/-! # Page faults under a spinlock

    A loop of the console or of a pipe touches a byte of the buffer only
    while it holds its lock.  Nothing pages the rest of the buffer out in
    the meantime, so it faults exactly if a page it can come to is out.

    * `Inv`: where the lock is held, and how far the loop can be.
    * `userBuffer_safe_iff`: when no run of a call faults under a lock.
    * `consolewrite_panics`, `pipewrite_panics`: a page that is swapped out. -/

namespace Paging

namespace Kernel

variable (k : Kernel) {p q : Nat} (x : Pipe)

@[simp] theorem setPipe_self : (k.setPipe p x).pipe p = x := Function.update_self _ _ _

@[simp] theorem setPipe_ne (h : q ≠ p) : (k.setPipe p x).pipe q = k.pipe q := Function.update_of_ne h _ _

end Kernel

namespace UserBuffer

open Relation Outcomes

variable {c : Call} {k k' k0 : Kernel} {s s' : State} {l : Lock} {store : Bool} {va i : Nat} {b : UInt8}

/-! ### The page table of the process -/

/-- The process has the same page table. -/
def SameTable (k k' : Kernel) : Prop := k'.walkpgdir k'.cur.pgdir = k.walkpgdir k.cur.pgdir

theorem SameTable.accessible (h : SameTable k k') : Accessible store k' va ↔ Accessible store k va := by
  unfold Accessible
  rw [h]

theorem Others.sameTable (h : Others k k') : SameTable k k' := by
  cases h with
  | kill =>
    unfold SameTable
    rw [Kernel.modCur_cur]
    rfl
  | elsewhere _ _ hcur htable =>
    funext va
    rw [hcur, Kernel.walkpgdir, htable, Kernel.walkpgdir]
  | typed | taken | put | got | readclose | writeclose => rfl

theorem Others.locks (h : Others k k') : k'.locks = k.locks := by
  cases h with
  | elsewhere _ _ _ _ hlocks => exact hlocks
  | typed | taken | put | got | readclose | writeclose | kill => rfl

theorem touch_accessible (h : Accessible store k va) (fuel : Nat) :
    ∃ f, touch false store (fuel + 1) k va = .ok (some f, k) := by
  obtain ⟨x, hx, hp, hw⟩ := h
  have hok : (x.p && (!false || x.u) && (!store || x.w)) = true := by
    cases store with
    | false => simp [hp]
    | true => simp [hp, hw rfl]
  refine ⟨x.ppn, ?_⟩
  unfold touch
  simp only [hx, Option.filter_some, hok, if_true]

theorem kernelLoad_accessible (h : Accessible false k va) : ∃ b, kernelLoad k va = .ok (b, k) := by
  obtain ⟨f, hf⟩ := touch_accessible h (NCELLS + 1)
  refine ⟨k.frame f (va % PGSIZE), ?_⟩
  unfold kernelLoad
  rw [hf]
  rfl

theorem kernelStore_accessible (h : Accessible true k va) (b : UInt8) :
    ∃ f, kernelStore k va b = .ok (k.setByte f (va % PGSIZE) b) := by
  obtain ⟨f, hf⟩ := touch_accessible h (NCELLS + 1)
  refine ⟨f, ?_⟩
  unfold kernelStore
  rw [hf]
  rfl

/-! ### Locks -/

theorem acquire_eq (h : k.locks = []) (l : Lock) : acquire k l = .ok { k with locks := [l] } := by
  unfold acquire
  rw [h, if_neg List.not_mem_nil]

theorem release_eq (h : k.locks = [l]) : release k l = .ok { k with locks := [] } := by
  unfold release
  rw [h, if_pos List.mem_cons_self, List.erase_cons_head]

theorem sleep_eq (h : k.locks = [l]) : sleep k l = .ok { k with locks := [] } := by
  unfold sleep
  rw [release_eq h]
  rfl

theorem leave_eq (h : s.k.locks = [l]) (r : Int) :
    leave s l r = .ok { s with k := { s.k with locks := [] }, pc := .ret r } := by
  unfold leave
  rw [release_eq h]
  rfl

/-! ### Where the lock is held -/

/-- The locks a loop with the lock `l` holds. -/
def Pc.held (l : Lock) : Pc → List Lock
  | .outside _ | .ret _ => []
  | .loop _ | .copy _ _ => [l]

structure Inv (c : Call) (l : Lock) (k0 : Kernel) (s : State) : Prop where
  table : SameTable k0 s.k
  locks : s.k.locks = s.pc.held l
  lim : s.lim ≤ c.n
  copy : ∀ i b, s.pc = .copy i b → i < c.n

namespace Inv

theorem others (h : Inv c l k0 s) (hk : Others s.k k) : Inv c l k0 { s with k } := by
  refine ⟨hk.sameTable.trans h.table, hk.locks.trans h.locks, h.lim, h.copy⟩

/-- A step that leaves the page table alone. -/
theorem step (h : Inv c l k0 s) {pc : Pc} {lim : Nat} (htable : SameTable s.k k) (hlocks : k.locks = pc.held l)
    (hlim : lim ≤ c.n) (hcopy : ∀ i b, pc = .copy i b → i < c.n) : Inv c l k0 ⟨k, pc, lim⟩ :=
  ⟨htable.trans h.table, hlocks, hlim, hcopy⟩

theorem leave (h : Inv c l k0 s) (htable : SameTable s.k s'.k) (hlocks : s'.k.locks = [l]) (hlim : s'.lim ≤ c.n)
    (r : Int) : ∃ s1, leave s' l r = .ok s1 ∧ Inv c l k0 s1 :=
  ⟨_, leave_eq hlocks r, h.step htable rfl hlim nofun⟩

end Inv

/-! ### The console -/

/-- While the buffer is accessible, the loop goes on. -/
theorem consoleread_next (h : Inv c .cons k0 s)
    (hacc : ∀ i b, s.pc = .copy i b → Accessible true s.k (c.addr + i)) :
    ∃ s', consoleread c.addr s = .ok s' ∧ Inv c .cons k0 s' := by
  obtain ⟨k, pc, lim⟩ := s
  have hlim : lim ≤ c.n := h.lim
  cases pc with
  | outside i =>
    have hlocks : k.locks = [] := h.locks
    refine ⟨⟨{ k with locks := [.cons] }, .loop i, lim⟩, ?_, h.step rfl rfl hlim nofun⟩
    simp only [consoleread]
    rw [acquire_eq hlocks]
    rfl
  | loop i =>
    have hlocks : k.locks = [.cons] := h.locks
    simp only [consoleread]
    split
    next hi =>
      split
      · split
        · exact h.leave rfl hlocks hlim _
        · refine ⟨⟨{ k with locks := [] }, .outside i, lim⟩, ?_, h.step rfl rfl hlim nofun⟩
          rw [sleep_eq hlocks]
          rfl
      · split
        · split
          · exact h.leave rfl hlocks hlim _
          · apply h.leave
            · rfl
            · exact hlocks
            · exact hlim
        · refine ⟨_, rfl, h.step rfl hlocks hlim ?_⟩
          intro j b hj
          cases hj
          omega
    · exact h.leave rfl hlocks hlim _
  | copy i b =>
    have hlocks : k.locks = [.cons] := h.locks
    obtain ⟨f, hstore⟩ := kernelStore_accessible (hacc i b rfl) b
    simp only [consoleread]
    rw [hstore, ok_bind]
    split
    · apply h.leave
      · rfl
      · exact hlocks
      · exact hlim
    · exact ⟨_, rfl, h.step rfl hlocks hlim nofun⟩
  | ret r => exact ⟨_, rfl, h⟩

theorem consolewrite_next (h : Inv c .cons k0 s)
    (hacc : ∀ i b, s.pc = .copy i b → Accessible false s.k (c.addr + i)) :
    ∃ s', consolewrite c.addr c.n s = .ok s' ∧ Inv c .cons k0 s' := by
  obtain ⟨k, pc, lim⟩ := s
  have hlim : lim ≤ c.n := h.lim
  cases pc with
  | outside i =>
    have hlocks : k.locks = [] := h.locks
    simp only [consolewrite]
    split
    next hi =>
      refine ⟨⟨{ k with locks := [.cons] }, .loop i, i + min (c.n - i) Fs.MAXWRITE⟩, ?_, h.step rfl rfl ?_ nofun⟩
      · rw [acquire_eq hlocks]
        rfl
      · omega
    · exact ⟨_, rfl, h.step rfl hlocks hlim nofun⟩
  | loop i =>
    have hlocks : k.locks = [.cons] := h.locks
    simp only [consolewrite]
    split
    next hi =>
      refine ⟨_, rfl, h.step rfl hlocks hlim ?_⟩
      intro j b hj
      cases hj
      omega
    · refine ⟨⟨{ k with locks := [] }, .outside i, lim⟩, ?_, h.step rfl rfl hlim nofun⟩
      rw [release_eq hlocks]
      rfl
  | copy i b =>
    have hlocks : k.locks = [.cons] := h.locks
    obtain ⟨b', hload⟩ := kernelLoad_accessible (hacc i b rfl)
    simp only [consolewrite]
    rw [hload]
    exact ⟨_, rfl, h.step rfl hlocks hlim nofun⟩
  | ret r => exact ⟨_, rfl, h⟩

/-! ### Pipes -/

/-- How far a writer with `i` bytes can be.  Without readers there is only
    the room of the beginning. -/
structure WriteProgress (x0 x : Pipe) (i : Nat) : Prop where
  lower : x.nread ≤ x.nwrite
  upper : x.nwrite ≤ x.nread + PIPESIZE
  alone : x0.readopen = false → x.readopen = false ∧ x.nread = x0.nread ∧ x0.nwrite + i ≤ x.nwrite

/-- A reader with `i` bytes stops when the pipe is empty. -/
structure ReadProgress (x0 x : Pipe) (i : Nat) : Prop where
  lower : x.nread ≤ x.nwrite
  upper : x.nwrite + i ≤ x.nread + PIPESIZE
  alone : x0.writeopen = false → x.writeopen = false ∧ x.nwrite = x0.nwrite ∧ x0.nread + i ≤ x.nread

/-- What others do to a pipe. -/
structure PipeMoves (x y : Pipe) : Prop where
  lower : y.nread ≤ y.nwrite
  upper : y.nwrite ≤ y.nread + PIPESIZE
  nread : x.nread ≤ y.nread
  nwrite : x.nwrite ≤ y.nwrite
  readers : x.readopen = false → y.readopen = false ∧ y.nread = x.nread
  writers : x.writeopen = false → y.writeopen = false ∧ y.nwrite = x.nwrite

theorem Others.pipe_moves (hk : Others k k') {p : Nat} (hlower : (k.pipe p).nread ≤ (k.pipe p).nwrite)
    (hupper : (k.pipe p).nwrite ≤ (k.pipe p).nread + PIPESIZE) : PipeMoves (k.pipe p) (k'.pipe p) := by
  have hsame : PipeMoves (k.pipe p) (k.pipe p) :=
    ⟨hlower, hupper, Nat.le_refl _, Nat.le_refl _, fun h => ⟨h, rfl⟩, fun h => ⟨h, rfl⟩⟩
  -- a step at another pipe
  have hset : ∀ {q x}, (p = q → PipeMoves (k.pipe p) x) → PipeMoves (k.pipe p) ((k.setPipe q x).pipe p) := by
    intro q x hx
    by_cases hp : p = q
    · rw [hp, Kernel.setPipe_self, ← hp]
      exact hx hp
    · rw [Kernel.setPipe_ne _ _ hp]
      exact hsame
  cases hk with
  | elsewhere _ _ _ _ _ hpipe =>
    rw [hpipe]
    exact hsame
  | typed | taken | kill => exact hsame
  | put q b _ hopen hroom =>
    apply hset
    rintro rfl
    have hlt := Nat.lt_of_le_of_ne hupper hroom
    refine ⟨Nat.le_succ_of_le hlower, hlt, Nat.le_refl _, Nat.le_succ _, fun h => ⟨h, rfl⟩, ?_⟩
    intro h
    rw [h] at hopen
    cases hopen
  | got q _ hopen hne =>
    apply hset
    rintro rfl
    have hlt := Nat.lt_of_le_of_ne hlower hne
    refine ⟨hlt, ?_, Nat.le_succ _, Nat.le_refl _, ?_, fun h => ⟨h, rfl⟩⟩
    · exact hupper.trans (Nat.add_le_add_right (Nat.le_succ _) _)
    · intro h
      rw [h] at hopen
      cases hopen
  | readclose q =>
    apply hset
    rintro rfl
    exact ⟨hlower, hupper, Nat.le_refl _, Nat.le_refl _, fun _ => ⟨rfl, rfl⟩, fun h => ⟨h, rfl⟩⟩
  | writeclose q =>
    apply hset
    rintro rfl
    exact ⟨hlower, hupper, Nat.le_refl _, Nat.le_refl _, fun h => ⟨h, rfl⟩, fun _ => ⟨rfl, rfl⟩⟩

/-- Under its lock a pipe stays as it is. -/
theorem Others.pipe_held (hk : Others k k') {p : Nat} (hlock : .pipe p ∈ k.locks) : k'.pipe p = k.pipe p := by
  have hne : ∀ {q}, .pipe q ∉ k.locks → p ≠ q := by
    rintro q hq rfl
    exact hq hlock
  cases hk with
  | elsewhere _ _ _ _ _ hpipe => rw [hpipe]
  | typed | taken | kill => rfl
  | put q b hq | got q hq | readclose q hq | writeclose q hq => rw [Kernel.setPipe_ne _ _ (hne hq)]

theorem WriteProgress.others {p : Nat} {x0 : Pipe} (h : WriteProgress x0 (k.pipe p) i) (hk : Others k k') :
    WriteProgress x0 (k'.pipe p) i := by
  have hmoves := hk.pipe_moves h.lower h.upper
  refine ⟨hmoves.lower, hmoves.upper, ?_⟩
  intro hx0
  obtain ⟨hclosed, hread, hle⟩ := h.alone hx0
  obtain ⟨hclosed', hread'⟩ := hmoves.readers hclosed
  exact ⟨hclosed', hread'.trans hread, hle.trans hmoves.nwrite⟩

theorem ReadProgress.others {p : Nat} {x0 : Pipe} (h : ReadProgress x0 (k.pipe p) 0) (hk : Others k k') :
    ReadProgress x0 (k'.pipe p) 0 := by
  have hmoves := hk.pipe_moves h.lower h.upper
  refine ⟨hmoves.lower, hmoves.upper, ?_⟩
  intro hx0
  obtain ⟨hclosed, hwrite, hle⟩ := h.alone hx0
  obtain ⟨hclosed', hwrite'⟩ := hmoves.writers hclosed
  exact ⟨hclosed', hwrite'.trans hwrite, hle.trans hmoves.nread⟩

/-- The progress of `pipewrite`, at each point. -/
def Writing (p : Nat) (k0 : Kernel) (s : State) : Prop :=
  match s.pc with
  | .outside i | .loop i => WriteProgress (k0.pipe p) (s.k.pipe p) i
  | .copy i _ => WriteProgress (k0.pipe p) (s.k.pipe p) i ∧ (s.k.pipe p).nwrite ≠ (s.k.pipe p).nread + PIPESIZE
  | .ret _ => True

/-- The progress of `piperead`: it takes a byte out of the pipe before it
    stores it, and it waits only before the first. -/
def Reading (p : Nat) (k0 : Kernel) (s : State) : Prop :=
  match s.pc with
  | .outside i => i = 0 ∧ ReadProgress (k0.pipe p) (s.k.pipe p) 0
  | .loop i => ReadProgress (k0.pipe p) (s.k.pipe p) i
  | .copy i _ => ReadProgress (k0.pipe p) (s.k.pipe p) (i + 1)
  | .ret _ => True

theorem pipewrite_next {p : Nat} (h : Inv c (.pipe p) k0 s) (hw : Writing p k0 s)
    (hacc : ∀ i b, s.pc = .copy i b → Accessible false s.k (c.addr + i)) :
    ∃ s', pipewrite p c.addr s = .ok s' ∧ Inv c (.pipe p) k0 s' ∧ Writing p k0 s' := by
  obtain ⟨k, pc, lim⟩ := s
  have hlim : lim ≤ c.n := h.lim
  have hleave : k.locks = [.pipe p] → ∀ r, ∃ s', leave ⟨k, pc, lim⟩ (.pipe p) r = .ok s' ∧
      Inv c (.pipe p) k0 s' ∧ Writing p k0 s' := by
    intro hlocks r
    exact ⟨_, leave_eq hlocks r, h.step rfl rfl hlim nofun, trivial⟩
  cases pc with
  | outside i =>
    have hlocks : k.locks = [] := h.locks
    refine ⟨⟨{ k with locks := [.pipe p] }, .loop i, lim⟩, ?_, h.step rfl rfl hlim nofun, hw⟩
    simp only [pipewrite]
    rw [acquire_eq hlocks]
    rfl
  | loop i =>
    have hlocks : k.locks = [.pipe p] := h.locks
    simp only [pipewrite]
    split
    next hi =>
      split
      · split
        · exact hleave hlocks _
        · refine ⟨⟨{ k with locks := [] }, .outside i, lim⟩, ?_, h.step rfl rfl hlim nofun, hw⟩
          rw [sleep_eq hlocks]
          rfl
      next hroom =>
        refine ⟨_, rfl, h.step rfl hlocks hlim ?_, hw, hroom⟩
        intro j b hj
        cases hj
        omega
    · exact hleave hlocks _
  | copy i b =>
    have hlocks : k.locks = [.pipe p] := h.locks
    obtain ⟨b', hload⟩ := kernelLoad_accessible (hacc i b rfl)
    obtain ⟨⟨hlower, hupper, halone⟩, hroom⟩ := hw
    simp only [pipewrite]
    rw [hload]
    refine ⟨_, rfl, h.step rfl hlocks hlim nofun, ?_⟩
    show WriteProgress _ ((k.setPipe p _).pipe p) (i + 1)
    rw [Kernel.setPipe_self]
    refine ⟨Nat.le_succ_of_le hlower, Nat.lt_of_le_of_ne hupper hroom, ?_⟩
    intro hx0
    obtain ⟨hclosed, hread, hle⟩ := halone hx0
    exact ⟨hclosed, hread, Nat.succ_le_succ hle⟩
  | ret r => exact ⟨_, rfl, h, trivial⟩

theorem piperead_next {p : Nat} (h : Inv c (.pipe p) k0 s) (hr : Reading p k0 s)
    (hacc : ∀ i b, s.pc = .copy i b → Accessible true s.k (c.addr + i)) :
    ∃ s', piperead p c.addr s = .ok s' ∧ Inv c (.pipe p) k0 s' ∧ Reading p k0 s' := by
  obtain ⟨k, pc, lim⟩ := s
  have hlim : lim ≤ c.n := h.lim
  cases pc with
  | outside i =>
    have hlocks : k.locks = [] := h.locks
    obtain ⟨rfl, hprogress⟩ := hr
    simp only [piperead]
    rw [acquire_eq hlocks, ok_bind]
    split
    · split
      · exact ⟨_, leave_eq (l := .pipe p) rfl _, h.step rfl rfl hlim nofun, trivial⟩
      · refine ⟨⟨{ k with locks := [] }, .outside 0, lim⟩, ?_, h.step rfl rfl hlim nofun, rfl, hprogress⟩
        rw [sleep_eq rfl]
        rfl
    · exact ⟨_, rfl, h.step rfl rfl hlim nofun, hprogress⟩
  | loop i =>
    have hlocks : k.locks = [.pipe p] := h.locks
    have hleave : ∀ r, ∃ s', leave ⟨k, .loop i, lim⟩ (.pipe p) r = .ok s' ∧
        Inv c (.pipe p) k0 s' ∧ Reading p k0 s' := by
      intro r
      exact ⟨_, leave_eq hlocks r, h.step rfl rfl hlim nofun, trivial⟩
    simp only [piperead]
    split
    next hi =>
      split
      · exact hleave _
      next hne =>
        obtain ⟨hlower, hupper, halone⟩ := hr
        refine ⟨_, rfl, h.step rfl hlocks hlim ?_, ?_⟩
        · intro j b hj
          cases hj
          omega
        · show ReadProgress _ ((k.setPipe p _).pipe p) (i + 1)
          rw [Kernel.setPipe_self]
          refine ⟨Nat.lt_of_le_of_ne hlower hne, ?_, ?_⟩
          · have hup : (k.pipe p).nwrite + i ≤ (k.pipe p).nread + PIPESIZE := hupper
            show (k.pipe p).nwrite + (i + 1) ≤ (k.pipe p).nread + 1 + PIPESIZE
            omega
          · intro hx0
            obtain ⟨hclosed, hwrite, hle⟩ := halone hx0
            exact ⟨hclosed, hwrite, Nat.succ_le_succ hle⟩
    · exact hleave _
  | copy i b =>
    have hlocks : k.locks = [.pipe p] := h.locks
    obtain ⟨f, hstore⟩ := kernelStore_accessible (hacc i b rfl) b
    simp only [piperead]
    rw [hstore]
    exact ⟨_, rfl, h.step rfl hlocks hlim nofun, hr⟩
  | ret r => exact ⟨_, rfl, h, trivial⟩

/-! ### The block layer -/

theorem blocks_next (h : s.k.locks = []) (store : Bool) (addr : Nat) :
    Ends NotLocks (fun s' => s'.k.locks = []) (blocks store addr s) := by
  unfold blocks
  split
  · exact h
  · exact h
  next i b _ =>
    cases store with
    | true => exact (kernelStore_unlocked h _ b).bind fun _ h1 => h1
    | false =>
      have hload : Ends NotLocks (fun k : Kernel => k.locks = []) (Prod.snd <$> kernelLoad s.k (addr + i)) := by
        have hends := kernelLoad_unlocked h (addr + i)
        cases hk : kernelLoad s.k (addr + i) with
        | ok r =>
          rw [hk] at hends
          exact hends
        | error e =>
          rw [hk] at hends
          exact hends
      exact hload.bind fun _ h1 => h1
  · exact h

/-! ### Accessible buffers -/

/-- What holds at every point of a run on an accessible buffer. -/
def Good (c : Call) (k0 : Kernel) (s : State) : Prop :=
  match c.loop with
  | .consoleread | .consolewrite => Inv c .cons k0 s
  | .pipewrite p => Inv c (.pipe p) k0 s ∧ Writing p k0 s
  | .piperead p => Inv c (.pipe p) k0 s ∧ Reading p k0 s
  | .readi | .writei => s.k.locks = []

/-- The part of the buffer that is touched under a lock is accessible. -/
def BufferAccessible (c : Call) (k : Kernel) : Prop := ∀ i < c.reach k, Accessible c.store k (c.addr + i)

namespace Good

theorem start (h : AtCall k) (c : Call) : Good c k (c.start k) := by
  have hinv : ∀ l, Inv c l k (c.start k) := fun l => ⟨rfl, h.locks, Nat.le_refl _, nofun⟩
  obtain ⟨loop, addr, n⟩ := c
  cases loop with
  | consoleread | consolewrite => exact hinv .cons
  | pipewrite p =>
    obtain ⟨hlower, hupper⟩ := h.pipes p
    exact ⟨hinv _, hlower, hupper, fun hx => ⟨hx, rfl, Nat.le_refl _⟩⟩
  | piperead p =>
    obtain ⟨hlower, hupper⟩ := h.pipes p
    exact ⟨hinv _, rfl, hlower, hupper, fun hx => ⟨hx, rfl, Nat.le_refl _⟩⟩
  | readi | writei => exact h.locks

/-- A byte that is about to be touched under a lock is within reach. -/
theorem accessible (h : Good c k0 s) (hacc : BufferAccessible c k0) (hpc : s.pc = .copy i b) :
    Accessible c.store s.k (c.addr + i) ∨ s.k.locks = [] := by
  have hof : ∀ {l}, Inv c l k0 s → i < c.reach k0 → Accessible c.store s.k (c.addr + i) := by
    intro l hinv hlt
    exact hinv.table.accessible.mpr (hacc i hlt)
  obtain ⟨loop, addr, n⟩ := c
  cases loop with
  | consoleread | consolewrite => exact .inl (hof h (h.copy i b hpc))
  | pipewrite p =>
    obtain ⟨hinv, hw⟩ := h
    refine .inl (hof hinv ?_)
    have hn := hinv.copy i b hpc
    unfold Writing at hw
    rw [hpc] at hw
    obtain ⟨⟨-, hupper, halone⟩, hroom⟩ := hw
    show i < if (k0.pipe p).readopen = true then n else min n ((k0.pipe p).nread + PIPESIZE - (k0.pipe p).nwrite)
    split
    · exact hn
    next hclosed =>
      obtain ⟨-, hread, hle⟩ := halone (by simpa using hclosed)
      have hlt := Nat.lt_of_le_of_ne hupper hroom
      rw [hread] at hlt
      exact Nat.lt_min.mpr ⟨hn, by omega⟩
  | piperead p =>
    obtain ⟨hinv, hr⟩ := h
    refine .inl (hof hinv ?_)
    have hn := hinv.copy i b hpc
    unfold Reading at hr
    rw [hpc] at hr
    obtain ⟨hlower, hupper, halone⟩ := hr
    show i < min n (if (k0.pipe p).writeopen = true then PIPESIZE else (k0.pipe p).nwrite - (k0.pipe p).nread)
    refine Nat.lt_min.mpr ⟨hn, ?_⟩
    split
    · omega
    next hclosed =>
      obtain ⟨-, hwrite, hle⟩ := halone (by simpa using hclosed)
      omega
  | readi | writei => exact .inr h

/-- The loop goes on, and a fault is taken without a lock only. -/
theorem next (h : Good c k0 s) (hacc : BufferAccessible c k0) : Ends NotLocks (Good c k0) (c.next s) := by
  have hbuf : ∀ {l}, Inv c l k0 s → ∀ i b, s.pc = .copy i b → Accessible c.store s.k (c.addr + i) := by
    intro l hinv i b hpc
    refine (h.accessible hacc hpc).resolve_right ?_
    rw [hinv.locks, hpc]
    exact List.cons_ne_nil _ _
  obtain ⟨loop, addr, n⟩ := c
  cases loop with
  | consoleread =>
    obtain ⟨s', hs', h'⟩ := consoleread_next h (hbuf h)
    exact .of_ok hs' h'
  | consolewrite =>
    obtain ⟨s', hs', h'⟩ := consolewrite_next h (hbuf h)
    exact .of_ok hs' h'
  | pipewrite p =>
    obtain ⟨s', hs', h'⟩ := pipewrite_next h.1 h.2 (hbuf h.1)
    exact .of_ok hs' h'
  | piperead p =>
    obtain ⟨s', hs', h'⟩ := piperead_next h.1 h.2 (hbuf h.1)
    exact .of_ok hs' h'
  | readi => exact blocks_next h true addr
  | writei => exact blocks_next h false addr

theorem safe (h : Good c k0 s) (hacc : BufferAccessible c k0) : Safe c s := by
  refine ⟨?_, ?_, ?_⟩
  · rintro ⟨i, b, hpc, hfault⟩
    exact (h.accessible hacc hpc).resolve_left hfault
  · exact (h.next hacc).ne_error fun hlocks => hlocks.1 rfl
  · exact (h.next hacc).ne_error fun hlocks => hlocks.2 rfl

theorem others (h : Good c k0 s) (hk : Others s.k k) : Good c k0 { s with k } := by
  obtain ⟨loop, addr, n⟩ := c
  cases loop with
  | consoleread | consolewrite => exact Inv.others h hk
  | pipewrite p =>
    obtain ⟨hinv, hw⟩ := h
    refine ⟨hinv.others hk, ?_⟩
    obtain ⟨k1, pc, lim⟩ := s
    cases pc with
    | outside i | loop i => exact WriteProgress.others hw hk
    | copy i b =>
      have hheld : k.pipe p = k1.pipe p := hk.pipe_held (by
        show _ ∈ k1.locks
        rw [show k1.locks = [.pipe p] from hinv.locks]
        exact List.mem_cons_self)
      show WriteProgress _ (k.pipe p) i ∧ (k.pipe p).nwrite ≠ (k.pipe p).nread + PIPESIZE
      rw [hheld]
      exact hw
    | ret r => exact trivial
  | piperead p =>
    obtain ⟨hinv, hr⟩ := h
    refine ⟨hinv.others hk, ?_⟩
    obtain ⟨k1, pc, lim⟩ := s
    have hheld : k1.locks = [.pipe p] → k.pipe p = k1.pipe p := by
      intro hlocks
      apply hk.pipe_held
      show _ ∈ k1.locks
      rw [hlocks]
      exact List.mem_cons_self
    cases pc with
    | outside i => exact ⟨hr.1, ReadProgress.others hr.2 hk⟩
    | loop i =>
      show ReadProgress _ (k.pipe p) i
      rw [hheld hinv.locks]
      exact hr
    | copy i b =>
      show ReadProgress _ (k.pipe p) (i + 1)
      rw [hheld hinv.locks]
      exact hr
    | ret r => exact trivial
  | readi | writei => exact hk.locks.trans h

/-- One step of a run. -/
theorem step (h : Good c k0 s) (hacc : BufferAccessible c k0) (hstep : Step c s s') : Good c k0 s' := by
  cases hstep with
  | own hnext => exact (h.next hacc).of_eq_ok hnext
  | block b hloop =>
    obtain ⟨loop, addr, n⟩ := c
    rcases hloop with rfl | rfl
    · exact h
    · exact h
  | others hk => exact h.others hk

theorem run (h : Good c k0 s) (hacc : BufferAccessible c k0) (hrun : Run c s s') : Good c k0 s' := by
  induction hrun with
  | refl => exact h
  | tail _ hstep ih => exact ih.step hacc hstep

end Good

end UserBuffer

end Paging
