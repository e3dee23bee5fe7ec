import Mathlib.Data.Fintype.Card
import OperatingSystem314.Storage.Bcache

/-! # What the buffer cache guarantees

    * `Inv`: what holds between any two steps.
    * `Inv.change`: a caller changes the buffer that it uses.
    * `reads_last_store`: whoever reads a block finds what was stored in it
      last, and has it for itself.
    * `stored_kept`: nothing that was stored is lost.
    * `recycles_lru`: `bget` takes the buffer that has been unused longest. -/

namespace Bcache

open Storage (Block)
open Function (update update_self update_of_ne)
open Threads (count count_update)

variable {H : Type}

/-! ### The list -/

namespace Cache

variable {c : Cache} {l : List Slot} {a : Addr} {b b' : Slot} {f : Buffer → Buffer}

@[simp] theorem modify_buf_self : (c.modify b f).buf b = f (c.buf b) := by
  simp [modify]

theorem modify_buf_ne (h : b' ≠ b) : (c.modify b f).buf b' = c.buf b' := by
  simp [modify, update_of_ne h]

theorem modify_same : c.modify b (fun x => x) = c := by
  simp [modify]

theorem modify_modify {f' : Buffer → Buffer} : (c.modify b f).modify b f' = c.modify b fun x => f' (f x) := by
  simp [modify]

@[simp] theorem modify_links : (c.modify b f).links = c.links := rfl

/-- The list leads through all buffers, in this order. -/
structure Listed (c : Cache) (l : List Slot) : Prop where
  linked : Ring.Linked c.links none (l.map some)
  all : ∀ b, b ∈ l

theorem Listed.nodup (h : c.Listed l) : l.Nodup :=
  List.Nodup.of_map some (List.nodup_cons.mp h.linked.nodup).2

theorem Listed.length_le (h : c.Listed l) : (l.map some).length < NBUF + 1 := by
  rw [List.length_map]
  have hcard := h.nodup.length_le_card
  rw [Fintype.card_fin] at hcard
  omega

theorem find?_some (l : List Slot) (p : Slot → Bool) :
    ((l.map some).find? fun n => n.any p).join = l.find? p := by
  induction l with
  | nil => rfl
  | cons b l ih =>
    cases hp : p b with
    | true => simp [hp]
    | false => simpa [hp] using ih

theorem Listed.find_next (h : c.Listed l) (p : Buffer → Bool) :
    c.find c.links.next p = l.find? fun b => p (c.buf b) := by
  unfold Cache.find
  rw [h.linked.find_next h.length_le, find?_some]

theorem Listed.find_prev (h : c.Listed l) (p : Buffer → Bool) :
    c.find c.links.prev p = l.reverse.find? fun b => p (c.buf b) := by
  unfold Cache.find
  rw [h.linked.find_prev h.length_le, ← List.map_reverse, find?_some]

/-- What `bget` can do: the block is in a buffer; or it is in none, and the
    last unused buffer of the list is taken. -/
theorem Listed.bget_cases (h : c.Listed l) {c' : Cache} (hget : c.bget a = some (b, c')) :
    ((c.buf b).addr = a ∧ c' = c.modify b fun x => { x with refcnt := x.refcnt + 1 }) ∨
    ((∀ b', (c.buf b').addr ≠ a) ∧ (c.buf b).refcnt = 0 ∧ (c.buf b).dirty = false ∧
      (∃ l1 l2, l = l1 ++ b :: l2 ∧ ∀ b' ∈ l2, ¬ ((c.buf b').refcnt = 0 ∧ (c.buf b').dirty = false)) ∧
      c' = c.modify b fun x => { x with addr := a, valid := false, dirty := false, refcnt := 1 }) := by
  unfold bget at hget
  rw [h.find_next, h.find_prev] at hget
  split at hget
  next b1 hfind =>
    left
    simp only [Option.some.injEq, Prod.mk.injEq] at hget
    obtain ⟨rfl, rfl⟩ := hget
    have hp := List.find?_some hfind
    simp only [decide_eq_true_eq] at hp
    exact ⟨hp, rfl⟩
  next hnone =>
    right
    split at hget
    next b1 hfind =>
      simp only [Option.some.injEq, Prod.mk.injEq] at hget
      obtain ⟨rfl, rfl⟩ := hget
      obtain ⟨hp, l1, l2, hl, hbefore⟩ := List.find?_eq_some_iff_append.mp hfind
      simp only [decide_eq_true_eq] at hp
      refine ⟨?_, hp.1, hp.2, ⟨l2.reverse, l1.reverse, ?_, ?_⟩, rfl⟩
      · intro b'
        have hno := List.find?_eq_none.mp hnone b' (h.all b')
        simpa using hno
      · have hrev := congrArg List.reverse hl
        simpa using hrev
      · intro b' hb'
        have hno := hbefore b' (List.mem_reverse.mp hb')
        rwa [Bool.not_eq_true', decide_eq_false_iff_not] at hno
    · cases hget

theorem Listed.modify (h : c.Listed l) : (c.modify b f).Listed l := ⟨h.linked, h.all⟩

/-- A buffer that nobody uses any more goes to the front. -/
theorem Listed.unref (h : c.Listed l) : (c.unref b).Listed (if (c.buf b).refcnt - 1 = 0 then b :: l.erase b else l) := by
  unfold Cache.unref
  simp only [modify_buf_self]
  split
  next hzero =>
    constructor
    · have hmove := h.linked.moveFront (List.mem_map_of_mem (h.all b))
      have hbeq : (instBEqOfDecidableEq : BEq Node) = Option.instBEq := lawful_beq_subsingleton _ _
      rw [hbeq, ← List.map_erase (Option.some_injective _)] at hmove
      exact hmove
    · intro b'
      by_cases hb : b' = b
      · simp [hb]
      · exact List.mem_cons_of_mem b ((List.mem_erase_of_ne hb).mpr (h.all b'))
  next hmore => exact ⟨h.linked, h.all⟩

theorem unref_buf (c : Cache) (b : Slot) :
    (c.unref b).buf = (c.modify b fun x => { x with refcnt := x.refcnt - 1 }).buf := by
  unfold unref
  simp only []
  split
  · rfl
  · rfl

end Cache

/-- `binit` puts each buffer in front of the ones before. -/
theorem binit_listed : binit.Listed (List.finRange NBUF).reverse := by
  have hfold : ∀ (bs l : List Slot) (k : Ring.Links Node), Ring.Linked k none (l.map some) → (bs ++ l).Nodup →
      Ring.Linked (bs.foldl (fun k b => k.insert none (some b)) k) none ((bs.reverse ++ l).map some) := by
    intro bs
    induction bs with
    | nil =>
      intro l k hk _
      exact hk
    | cons b bs ih =>
      intro l k hk hnodup
      rw [List.cons_append] at hnodup
      obtain ⟨hb, hrest⟩ := List.nodup_cons.mp hnodup
      rw [List.foldl_cons, List.reverse_cons, List.append_assoc]
      refine ih (b :: l) _ (hk.insert ?_) ?_
      · have hbl : b ∉ l := fun hmem => hb (List.mem_append_right bs hmem)
        simpa using hbl
      · exact List.nodup_middle.mpr (List.nodup_cons.mpr ⟨hb, hrest⟩)
  constructor
  · have hlist := hfold (List.finRange NBUF) [] ⟨fun _ => none, fun _ => none⟩
      ⟨⟨rfl, rfl⟩, by simp⟩ (by simpa using List.nodup_finRange NBUF)
    rw [List.append_nil] at hlist
    exact hlist
  · intro b
    rw [List.mem_reverse]
    exact List.mem_finRange b

theorem iderw_clean {x : Shared} {b : Slot} (h : (x.cache.buf b).dirty = false) :
    x.iderw b = ⟨x.cache.modify b fun y => { y with valid := true, data := x.disk y.addr }, x.disk⟩ := by
  simp [Shared.iderw, h, Shared.modify]

/-- `bwrite` -/
theorem iderw_dirty (x : Shared) (b : Slot) :
    (x.modify b fun y => { y with dirty := true }).iderw b =
      ⟨x.cache.modify b fun y => { y with valid := true, dirty := false },
        update x.disk (x.cache.buf b).addr (x.cache.buf b).data⟩ := by
  simp [Shared.iderw, Shared.modify, Cache.modify_modify]

/-! ### What holds between any two steps -/

namespace Pc

/-- The block that a caller wants, and its buffer. -/
def buffer : Pc → Option (Addr × Slot)
  | .idle => none
  | .waiting a b | .locked a b | .holding a b _ | .releasing a b => some (a, b)

/-- The caller is counted in `refcnt`. -/
def uses (b : Slot) (p : Pc) : Bool := p.buffer.any fun q => q.2 = b

/-- The caller has the sleep lock. -/
def holds (b : Slot) : Pc → Bool
  | .locked _ b' | .holding _ b' _ => b' = b
  | _ => false

variable {p : Pc} {a : Addr} {b b' : Slot}

@[simp] theorem uses_idle : Pc.idle.uses b = false := rfl

@[simp] theorem holds_idle : Pc.idle.holds b = false := rfl

theorem uses_of_buffer (h : p.buffer = some (a, b)) : p.uses b' = decide (b = b') := by
  unfold uses
  rw [h]
  rfl

/-- Only the own buffer's lock can be held. -/
theorem holds_of_ne (h : p.buffer = some (a, b)) (hne : b' ≠ b) : p.holds b' = false := by
  cases p with
  | idle => rfl
  | waiting => rfl
  | releasing => rfl
  | locked a2 b2 =>
    simp only [buffer, Option.some.injEq, Prod.mk.injEq] at h
    simp [holds, h.2, hne.symm]
  | holding a2 b2 changed =>
    simp only [buffer, Option.some.injEq, Prod.mk.injEq] at h
    simp [holds, h.2, hne.symm]

end Pc

/-- A caller has changed the block, and has not written it. -/
def Changing (s : System H) (a : Addr) (b : Slot) : Prop := ∃ h, s.pc h = .holding a b true

structure Inv [Fintype H] (s : System H) (g : History) : Prop where
  lru : ∃ l, s.shared.cache.Listed l ∧ l.Pairwise fun b b' => g.last b' ≤ g.last b
  last_le : ∀ b, g.last b ≤ g.now
  refcnt : ∀ b, (s.shared.cache.buf b).refcnt = count (Pc.uses b) s.pc
  lock : ∀ b, (s.shared.cache.buf b).locked.toNat = count (Pc.holds b) s.pc
  addr : ∀ h a b, (s.pc h).buffer = some (a, b) → (s.shared.cache.buf b).addr = a ∧ a.dev ≠ 0
  valid : ∀ h a b changed, s.pc h = .holding a b changed → (s.shared.cache.buf b).valid = true
  unique : ∀ b b', (s.shared.cache.buf b).addr = (s.shared.cache.buf b').addr →
    (s.shared.cache.buf b).addr.dev ≠ 0 → b = b'
  dirty : ∀ b, (s.shared.cache.buf b).dirty = true → (s.shared.cache.buf b).valid = true
  data : ∀ b, (s.shared.cache.buf b).valid = true →
    (s.shared.cache.buf b).data = g.contents (s.shared.cache.buf b).addr
  disk : ∀ a, s.shared.disk a = g.contents a ∨
    ∃ b, (s.shared.cache.buf b).addr = a ∧ ((s.shared.cache.buf b).dirty = true ∨ Changing s a b)

variable [Fintype H] {s : System H} {g g' : History} {h : H} {p : Pc} {a : Addr} {b : Slot}

/-- The disk lacks a block only if the block's own buffer has it. -/
theorem Inv.disk_of_addr (hi : Inv s g) (haddr : (s.shared.cache.buf b).addr = a) (hdev : a.dev ≠ 0) :
    s.shared.disk a = g.contents a ∨ (s.shared.cache.buf b).dirty = true ∨ Changing s a b := by
  rcases hi.disk a with hdisk | ⟨b', hb', hahead⟩
  · exact Or.inl hdisk
  · have hsame : b' = b := hi.unique b' b (by rw [hb', haddr]) (by rw [hb']; exact hdev)
    rw [hsame] at hahead
    exact Or.inr hahead

/-- A caller is at the buffer as long as it is counted. -/
theorem Inv.refcnt_pos (hi : Inv s g) (hat : (s.pc h).buffer = some (a, b)) :
    1 ≤ (s.shared.cache.buf b).refcnt := by
  have hpos : 1 ≤ count (Pc.uses b) s.pc := Threads.one_le_count (i := h) (by simp [Pc.uses_of_buffer hat])
  rw [hi.refcnt b]
  exact hpos

variable [DecidableEq H]

omit [Fintype H] in
theorem changing_update {x : Shared} (hc : Changing s a b) (hne : s.pc h ≠ .holding a b true) :
    Changing ⟨x, update s.pc h p⟩ a b := by
  obtain ⟨h', hh'⟩ := hc
  have hhh : h' ≠ h := by
    intro heq
    exact hne (heq ▸ hh')
  exact ⟨h', (update_of_ne hhh p s.pc).trans hh'⟩

/-- A caller changes the buffer that it uses, and perhaps the block on the disk. -/
theorem Inv.change (hi : Inv s g) {f : Buffer → Buffer} {disk' contents' : Addr → Block}
    (hat : (s.pc h).buffer = some (a, b)) (hat' : p.buffer = some (a, b))
    (haddr : (f (s.shared.cache.buf b)).addr = (s.shared.cache.buf b).addr)
    (hrefcnt : (f (s.shared.cache.buf b)).refcnt = (s.shared.cache.buf b).refcnt)
    (hlock : (f (s.shared.cache.buf b)).locked.toNat + ((s.pc h).holds b).toNat =
      (s.shared.cache.buf b).locked.toNat + (p.holds b).toNat)
    (hvalid : (s.shared.cache.buf b).valid = true → (f (s.shared.cache.buf b)).valid = true)
    (husing : ∀ changed, p = .holding a b changed → (f (s.shared.cache.buf b)).valid = true)
    (hdirty : (f (s.shared.cache.buf b)).dirty = true → (f (s.shared.cache.buf b)).valid = true)
    (hdata : (f (s.shared.cache.buf b)).valid = true → (f (s.shared.cache.buf b)).data = contents' a)
    (hcontents : ∀ a', a' ≠ a → contents' a' = g.contents a')
    (hother : ∀ a', a' ≠ a → disk' a' = s.shared.disk a')
    (hdisk : disk' a = contents' a ∨ (f (s.shared.cache.buf b)).dirty = true ∨
      Changing ⟨⟨s.shared.cache.modify b f, disk'⟩, update s.pc h p⟩ a b) :
    Inv ⟨⟨s.shared.cache.modify b f, disk'⟩, update s.pc h p⟩ { g with contents := contents' } := by
  obtain ⟨hba, hdev⟩ := hi.addr h a b hat
  -- all buffers keep their addresses, and the others are as before
  have haddrs : ∀ b', ((s.shared.cache.modify b f).buf b').addr = (s.shared.cache.buf b').addr := by
    intro b'
    by_cases hb : b' = b
    · rw [hb, Cache.modify_buf_self]
      exact haddr
    · rw [Cache.modify_buf_ne hb]
  have hne : ∀ b', b' ≠ b → (s.shared.cache.buf b').addr ≠ a := by
    intro b' hb heq
    exact hb (hi.unique b' b (by rw [heq, hba]) (by rw [heq]; exact hdev))
  obtain ⟨l, hl, hlast⟩ := hi.lru
  constructor
  · exact ⟨l, hl.modify, hlast⟩
  · exact hi.last_le
  · intro b'
    have hcount := count_update (Pc.uses b') s.pc h p
    have hold := hi.refcnt b'
    rw [Pc.uses_of_buffer hat, Pc.uses_of_buffer hat'] at hcount
    show ((s.shared.cache.modify b f).buf b').refcnt = count (Pc.uses b') (update s.pc h p)
    by_cases hb : b' = b
    · subst hb
      rw [Cache.modify_buf_self, hrefcnt]
      omega
    · rw [Cache.modify_buf_ne hb]
      omega
  · intro b'
    have hcount := count_update (Pc.holds b') s.pc h p
    have hold := hi.lock b'
    show ((s.shared.cache.modify b f).buf b').locked.toNat = count (Pc.holds b') (update s.pc h p)
    by_cases hb : b' = b
    · subst hb
      rw [Cache.modify_buf_self]
      omega
    · rw [Cache.modify_buf_ne hb]
      rw [Pc.holds_of_ne hat hb, Pc.holds_of_ne hat' hb] at hcount
      omega
  · intro h' a' b' hb'
    show ((s.shared.cache.modify b f).buf b').addr = a' ∧ a'.dev ≠ 0
    rw [haddrs]
    by_cases hh : h' = h
    · subst hh
      simp only [update_self, hat', Option.some.injEq, Prod.mk.injEq] at hb'
      obtain ⟨rfl, rfl⟩ := hb'
      exact ⟨hba, hdev⟩
    · simp only [update_of_ne hh] at hb'
      exact hi.addr h' a' b' hb'
  · intro h' a' b' changed hp
    show ((s.shared.cache.modify b f).buf b').valid = true
    by_cases hh : h' = h
    · subst hh
      simp only [update_self] at hp
      rw [hp] at hat'
      simp only [Pc.buffer, Option.some.injEq, Prod.mk.injEq] at hat'
      obtain ⟨rfl, rfl⟩ := hat'
      rw [Cache.modify_buf_self]
      exact husing changed hp
    · simp only [update_of_ne hh] at hp
      have hv := hi.valid h' a' b' changed hp
      by_cases hb : b' = b
      · subst hb
        rw [Cache.modify_buf_self]
        exact hvalid hv
      · rw [Cache.modify_buf_ne hb]
        exact hv
  · intro b1 b2
    show ((s.shared.cache.modify b f).buf b1).addr = ((s.shared.cache.modify b f).buf b2).addr →
      ((s.shared.cache.modify b f).buf b1).addr.dev ≠ 0 → b1 = b2
    rw [haddrs, haddrs]
    exact hi.unique b1 b2
  · intro b'
    show ((s.shared.cache.modify b f).buf b').dirty = true → ((s.shared.cache.modify b f).buf b').valid = true
    by_cases hb : b' = b
    · subst hb
      rw [Cache.modify_buf_self]
      exact hdirty
    · rw [Cache.modify_buf_ne hb]
      exact hi.dirty b'
  · intro b'
    show ((s.shared.cache.modify b f).buf b').valid = true → ((s.shared.cache.modify b f).buf b').data =
      contents' ((s.shared.cache.modify b f).buf b').addr
    by_cases hb : b' = b
    · subst hb
      rw [Cache.modify_buf_self, haddr, hba]
      exact hdata
    · rw [Cache.modify_buf_ne hb, hcontents _ (hne b' hb)]
      exact hi.data b'
  · intro a'
    show disk' a' = contents' a' ∨ ∃ b', ((s.shared.cache.modify b f).buf b').addr = a' ∧
      (((s.shared.cache.modify b f).buf b').dirty = true ∨ Changing _ a' b')
    by_cases ha : a' = a
    · subst ha
      rcases hdisk with hdisk | hahead
      · exact Or.inl hdisk
      · refine Or.inr ⟨b, by rw [haddrs, hba], ?_⟩
        rw [Cache.modify_buf_self]
        exact hahead
    · rw [hcontents a' ha, hother a' ha]
      rcases hi.disk a' with hold | ⟨b', hb', hahead⟩
      · exact Or.inl hold
      · have hb : b' ≠ b := by
          intro heq
          rw [heq, hba] at hb'
          exact ha hb'.symm
        refine Or.inr ⟨b', by rw [haddrs, hb'], ?_⟩
        rw [Cache.modify_buf_ne hb]
        rcases hahead with hd | hc
        · exact Or.inl hd
        · refine Or.inr (changing_update hc ?_)
          intro hp
          rw [hp] at hat
          simp only [Pc.buffer, Option.some.injEq, Prod.mk.injEq] at hat
          exact ha hat.1

/-- A caller comes to a buffer or leaves it, without the lock. -/
theorem Inv.recount (hi : Inv s g) {c' : Cache}
    (hsame : ∀ b, c'.buf b = { s.shared.cache.buf b with refcnt := (c'.buf b).refcnt })
    (hlru : ∃ l, c'.Listed l ∧ l.Pairwise fun b b' => g'.last b' ≤ g'.last b)
    (hlast : ∀ b, g'.last b ≤ g'.now) (hcontents : g'.contents = g.contents)
    (hrefcnt : ∀ b, (c'.buf b).refcnt + ((s.pc h).uses b).toNat =
      (s.shared.cache.buf b).refcnt + (p.uses b).toNat)
    (hold : ∀ b, (s.pc h).holds b = false) (hnew : ∀ b, p.holds b = false)
    (haddr : ∀ a b, p.buffer = some (a, b) → (s.shared.cache.buf b).addr = a ∧ a.dev ≠ 0) :
    Inv ⟨⟨c', s.shared.disk⟩, update s.pc h p⟩ g' := by
  have hfields : ∀ b, (c'.buf b).addr = (s.shared.cache.buf b).addr ∧
      (c'.buf b).valid = (s.shared.cache.buf b).valid ∧ (c'.buf b).dirty = (s.shared.cache.buf b).dirty ∧
      (c'.buf b).locked = (s.shared.cache.buf b).locked ∧ (c'.buf b).data = (s.shared.cache.buf b).data := by
    intro b
    rw [hsame b]
    simp
  have hnotUsing : ∀ {q : Pc} {a b changed}, (∀ b, q.holds b = false) → q ≠ .holding a b changed := by
    intro q a b changed hq heq
    have hb := hq b
    simp [heq, Pc.holds] at hb
  constructor
  · exact hlru
  · exact hlast
  · intro b
    have hcount := count_update (Pc.uses b) s.pc h p
    have hsum := hrefcnt b
    have hbefore := hi.refcnt b
    show (c'.buf b).refcnt = count (Pc.uses b) (update s.pc h p)
    omega
  · intro b
    have hcount := count_update (Pc.holds b) s.pc h p
    have hbefore := hi.lock b
    rw [hold, hnew] at hcount
    show (c'.buf b).locked.toNat = count (Pc.holds b) (update s.pc h p)
    rw [(hfields b).2.2.2.1]
    omega
  · intro h' a b hp
    show (c'.buf b).addr = a ∧ a.dev ≠ 0
    rw [(hfields b).1]
    by_cases hh : h' = h
    · subst hh
      simp only [update_self] at hp
      exact haddr a b hp
    · simp only [update_of_ne hh] at hp
      exact hi.addr h' a b hp
  · intro h' a b changed hp
    show (c'.buf b).valid = true
    rw [(hfields b).2.1]
    by_cases hh : h' = h
    · subst hh
      simp only [update_self] at hp
      exact absurd hp (hnotUsing hnew)
    · simp only [update_of_ne hh] at hp
      exact hi.valid h' a b changed hp
  · intro b b'
    show (c'.buf b).addr = (c'.buf b').addr → (c'.buf b).addr.dev ≠ 0 → b = b'
    rw [(hfields b).1, (hfields b').1]
    exact hi.unique b b'
  · intro b
    show (c'.buf b).dirty = true → (c'.buf b).valid = true
    rw [(hfields b).2.1, (hfields b).2.2.1]
    exact hi.dirty b
  · intro b
    show (c'.buf b).valid = true → (c'.buf b).data = g'.contents (c'.buf b).addr
    rw [(hfields b).1, (hfields b).2.1, (hfields b).2.2.2.2, hcontents]
    exact hi.data b
  · intro a
    show s.shared.disk a = g'.contents a ∨ ∃ b, (c'.buf b).addr = a ∧ ((c'.buf b).dirty = true ∨ Changing _ a b)
    rw [hcontents]
    rcases hi.disk a with hdisk | ⟨b, hb, hahead⟩
    · exact Or.inl hdisk
    · refine Or.inr ⟨b, by rw [(hfields b).1, hb], ?_⟩
      rw [(hfields b).2.2.1]
      rcases hahead with hd | hc
      · exact Or.inl hd
      · exact Or.inr (changing_update hc (hnotUsing hold))

def recycled (a : Addr) (x : Buffer) : Buffer := { x with addr := a, valid := false, dirty := false, refcnt := 1 }

/-- A buffer that nobody uses and that the disk is up to date with is given
    to a block that no buffer has. -/
theorem Inv.recycle (hi : Inv s g) (hidle : s.pc h = .idle) (hdev : a.dev ≠ 0)
    (hmiss : ∀ b', (s.shared.cache.buf b').addr ≠ a) (hfree : (s.shared.cache.buf b).refcnt = 0)
    (hclean : (s.shared.cache.buf b).dirty = false) :
    Inv ⟨⟨s.shared.cache.modify b (recycled a), s.shared.disk⟩, update s.pc h (.waiting a b)⟩ g := by
  -- no caller is at the buffer
  have hnobody : ∀ h' a', (s.pc h').buffer ≠ some (a', b) := by
    intro h' a' hat
    have hpos := hi.refcnt_pos hat
    omega
  obtain ⟨l, hl, hlast⟩ := hi.lru
  constructor
  · exact ⟨l, hl.modify, hlast⟩
  · exact hi.last_le
  · intro b'
    have hcount := count_update (Pc.uses b') s.pc h (.waiting a b)
    have hold := hi.refcnt b'
    have hnew : (Pc.waiting a b).uses b' = decide (b = b') := Pc.uses_of_buffer rfl
    rw [hidle, hnew, Pc.uses_idle, Bool.toNat_false] at hcount
    show ((s.shared.cache.modify b (recycled a)).buf b').refcnt = count (Pc.uses b') (update s.pc h (.waiting a b))
    by_cases hb : b' = b
    · subst hb
      rw [Cache.modify_buf_self]
      simp only [decide_true, Bool.toNat_true] at hcount
      show 1 = _
      omega
    · rw [Cache.modify_buf_ne hb]
      have hbb : decide (b = b') = false := by simp [Ne.symm hb]
      rw [hbb, Bool.toNat_false] at hcount
      omega
  · intro b'
    have hcount := count_update (Pc.holds b') s.pc h (.waiting a b)
    have hold := hi.lock b'
    rw [hidle] at hcount
    simp only [Pc.holds, Bool.toNat_false] at hcount
    show ((s.shared.cache.modify b (recycled a)).buf b').locked.toNat = count (Pc.holds b') (update s.pc h (.waiting a b))
    have hlocked : ((s.shared.cache.modify b (recycled a)).buf b').locked = (s.shared.cache.buf b').locked := by
      by_cases hb : b' = b
      · rw [hb, Cache.modify_buf_self]
        rfl
      · rw [Cache.modify_buf_ne hb]
    rw [hlocked]
    omega
  · intro h' a' b' hp
    show ((s.shared.cache.modify b (recycled a)).buf b').addr = a' ∧ a'.dev ≠ 0
    by_cases hh : h' = h
    · subst hh
      simp only [update_self, Pc.buffer, Option.some.injEq, Prod.mk.injEq] at hp
      obtain ⟨rfl, rfl⟩ := hp
      rw [Cache.modify_buf_self]
      exact ⟨rfl, hdev⟩
    · simp only [update_of_ne hh] at hp
      have hb : b' ≠ b := by
        intro heq
        exact hnobody h' a' (heq ▸ hp)
      rw [Cache.modify_buf_ne hb]
      exact hi.addr h' a' b' hp
  · intro h' a' b' changed hp
    show ((s.shared.cache.modify b (recycled a)).buf b').valid = true
    have hh : h' ≠ h := by
      intro heq
      subst heq
      simp [update_self] at hp
    simp only [update_of_ne hh] at hp
    have hb : b' ≠ b := by
      intro heq
      refine hnobody h' a' ?_
      rw [hp, heq]
      rfl
    rw [Cache.modify_buf_ne hb]
    exact hi.valid h' a' b' changed hp
  · intro b1 b2
    show ((s.shared.cache.modify b (recycled a)).buf b1).addr = ((s.shared.cache.modify b (recycled a)).buf b2).addr →
      ((s.shared.cache.modify b (recycled a)).buf b1).addr.dev ≠ 0 → b1 = b2
    by_cases h1 : b1 = b
    · by_cases h2 : b2 = b
      · intro _ _
        rw [h1, h2]
      · rw [h1, Cache.modify_buf_self, Cache.modify_buf_ne h2]
        intro heq
        exact absurd heq.symm (hmiss b2)
    · rw [Cache.modify_buf_ne h1]
      by_cases h2 : b2 = b
      · rw [h2, Cache.modify_buf_self]
        intro heq
        exact absurd heq (hmiss b1)
      · rw [Cache.modify_buf_ne h2]
        exact hi.unique b1 b2
  · intro b'
    show ((s.shared.cache.modify b (recycled a)).buf b').dirty = true →
      ((s.shared.cache.modify b (recycled a)).buf b').valid = true
    by_cases hb : b' = b
    · rw [hb, Cache.modify_buf_self]
      intro hd
      cases hd
    · rw [Cache.modify_buf_ne hb]
      exact hi.dirty b'
  · intro b'
    show ((s.shared.cache.modify b (recycled a)).buf b').valid = true →
      ((s.shared.cache.modify b (recycled a)).buf b').data =
        g.contents ((s.shared.cache.modify b (recycled a)).buf b').addr
    by_cases hb : b' = b
    · rw [hb, Cache.modify_buf_self]
      intro hv
      cases hv
    · rw [Cache.modify_buf_ne hb]
      exact hi.data b'
  · intro a'
    rcases hi.disk a' with hdisk | ⟨b', hb', hahead⟩
    · exact Or.inl hdisk
    · have hb : b' ≠ b := by
        intro heq
        subst heq
        rcases hahead with hd | ⟨h', hh'⟩
        · rw [hclean] at hd
          cases hd
        · refine hnobody h' a' ?_
          rw [hh']
          rfl
      refine Or.inr ⟨b', ?_, ?_⟩
      · show ((s.shared.cache.modify b (recycled a)).buf b').addr = a'
        rw [Cache.modify_buf_ne hb, hb']
      · show ((s.shared.cache.modify b (recycled a)).buf b').dirty = true ∨ _
        rw [Cache.modify_buf_ne hb]
        rcases hahead with hd | hc
        · exact Or.inl hd
        · refine Or.inr (changing_update hc ?_)
          rw [hidle]
          simp

theorem unref_refcnt (c : Cache) (b b' : Slot) :
    ((c.unref b).buf b').refcnt = (c.buf b').refcnt - (decide (b = b')).toNat := by
  rw [Cache.unref_buf]
  by_cases hb : b' = b
  · simp [hb]
  · simp [Cache.modify_buf_ne hb, Ne.symm hb]

/-- The last caller leaves a buffer, which is the one used last now. -/
theorem Inv.unref (hi : Inv s g) (hp : s.pc h = .releasing a b) :
    Inv ⟨⟨s.shared.cache.unref b, s.shared.disk⟩, update s.pc h .idle⟩ (g.after s.shared (.releasing a b) .go) := by
  have hat : (s.pc h).buffer = some (a, b) := by simp [hp, Pc.buffer]
  have hpos := hi.refcnt_pos hat
  have hlistsame : ∃ l, (s.shared.cache.unref b).Listed l ∧
      l.Pairwise fun b1 b2 => (g.after s.shared (.releasing a b) .go).last b2 ≤
        (g.after s.shared (.releasing a b) .go).last b1 := by
    obtain ⟨l, hl, hlast⟩ := hi.lru
    refine ⟨_, hl.unref, ?_⟩
    unfold History.after
    by_cases hone : (s.shared.cache.buf b).refcnt = 1
    · simp only [hone, Nat.sub_self, if_true]
      refine List.pairwise_cons.mpr ⟨?_, ?_⟩
      · intro b' hb'
        have hne : b' ≠ b := by
          intro heq
          rw [heq] at hb'
          exact hl.nodup.not_mem_erase hb'
        have hle := hi.last_le b'
        simp only [update_self, update_of_ne hne]
        omega
      · refine (hlast.sublist List.erase_sublist).imp_of_mem ?_
        intro b1 b2 h1 h2 hle
        have hne1 : b1 ≠ b := by
          intro heq
          rw [heq] at h1
          exact hl.nodup.not_mem_erase h1
        have hne2 : b2 ≠ b := by
          intro heq
          rw [heq] at h2
          exact hl.nodup.not_mem_erase h2
        simp only [update_of_ne hne1, update_of_ne hne2]
        exact hle
    · have hmore : (s.shared.cache.buf b).refcnt - 1 ≠ 0 := by omega
      simp only [hone, hmore, if_false]
      exact hlast
  refine hi.recount ?_ hlistsame ?_ ?_ ?_ ?_ ?_ ?_
  · intro b'
    rw [Cache.unref_buf]
    by_cases hb : b' = b
    · simp [hb]
    · simp [Cache.modify_buf_ne hb]
  · intro b'
    have hle := hi.last_le b'
    unfold History.after
    by_cases hone : (s.shared.cache.buf b).refcnt = 1
    · simp only [hone, if_true]
      by_cases hb : b' = b
      · simp [hb]
      · rw [update_of_ne hb]
        omega
    · simp only [hone, if_false]
      exact hle
  · unfold History.after
    by_cases hone : (s.shared.cache.buf b).refcnt = 1
    · simp [hone]
    · simp [hone]
  · intro b'
    rw [unref_refcnt, Pc.uses_of_buffer hat, Pc.uses_idle, Bool.toNat_false]
    by_cases hb : b = b'
    · subst hb
      simp only [decide_true, Bool.toNat_true]
      omega
    · simp [hb]
  · intro b'
    simp [hp, Pc.holds]
  · intro b'
    exact Pc.holds_idle
  · intro a' b' hbuf
    cases hbuf

/-- `bget` finds the block, or recycles a buffer. -/
theorem Inv.bget (hi : Inv s g) (hidle : s.pc h = .idle) (hdev : a.dev ≠ 0) {c' : Cache}
    (hget : s.shared.cache.bget a = some (b, c')) :
    Inv ⟨⟨c', s.shared.disk⟩, update s.pc h (.waiting a b)⟩ g := by
  obtain ⟨l, hl, hlast⟩ := hi.lru
  rcases hl.bget_cases hget with ⟨haddr, rfl⟩ | ⟨hmiss, hfree, hclean, -, rfl⟩
  · refine hi.recount ?_ ⟨l, hl.modify, hlast⟩ hi.last_le rfl ?_ ?_ ?_ ?_
    · intro b'
      by_cases hb : b' = b
      · simp [hb]
      · simp [Cache.modify_buf_ne hb]
    · intro b'
      have hnew : (Pc.waiting a b).uses b' = decide (b = b') := Pc.uses_of_buffer rfl
      rw [hidle, hnew, Pc.uses_idle, Bool.toNat_false]
      by_cases hb : b' = b
      · simp [hb]
      · simp [Cache.modify_buf_ne hb, Ne.symm hb]
    · intro b'
      rw [hidle]
      exact Pc.holds_idle
    · intro b'
      rfl
    · intro a' b' hbuf
      simp only [Pc.buffer, Option.some.injEq, Prod.mk.injEq] at hbuf
      obtain ⟨rfl, rfl⟩ := hbuf
      exact ⟨haddr, hdev⟩
  · exact hi.recycle hidle hdev hmiss hfree hclean

/-- Each step keeps the invariant. -/
theorem Inv.step (hi : Inv s g) {c : Choice} {x : Shared} (hs : step s.shared (s.pc h) c = some (x, p)) :
    Inv ⟨x, update s.pc h p⟩ (g.after s.shared (s.pc h) c) := by
  cases hp : s.pc h with
  | idle =>
    rw [hp] at hs
    cases c with
    | bread a =>
      simp only [Bcache.step] at hs
      split at hs
      · cases hs
      next hdev =>
        obtain ⟨⟨b, c'⟩, hget, heq⟩ := Option.map_eq_some_iff.mp hs
        simp only [Prod.mk.injEq] at heq
        obtain ⟨rfl, rfl⟩ := heq
        exact hi.bget hp hdev hget
    | _ => cases hs
  | waiting a b =>
    have hat : (s.pc h).buffer = some (a, b) := by simp [hp, Pc.buffer]
    obtain ⟨haddr, hdev⟩ := hi.addr h a b hat
    rw [hp] at hs
    cases c with
    | go =>
      -- the lock is free
      simp only [Bcache.step] at hs
      split at hs
      · cases hs
      next hfree =>
        simp only [Option.some.injEq, Prod.mk.injEq] at hs
        obtain ⟨rfl, rfl⟩ := hs
        refine hi.change hat rfl rfl rfl ?_ (fun hv => hv) ?_ (hi.dirty b) ?_ (fun _ _ => rfl) (fun _ _ => rfl) ?_
        · rw [Bool.not_eq_true] at hfree
          simp [hfree, hp, Pc.holds]
        · intro changed heq
          cases heq
        · intro hv
          rw [← haddr]
          exact hi.data b hv
        · rcases hi.disk_of_addr haddr hdev with hd | hd | hc
          · exact Or.inl hd
          · exact Or.inr (Or.inl hd)
          · exact Or.inr (Or.inr (changing_update hc (by simp [hp])))
    | _ => cases hs
  | locked a b =>
    have hat : (s.pc h).buffer = some (a, b) := by simp [hp, Pc.buffer]
    obtain ⟨haddr, hdev⟩ := hi.addr h a b hat
    rw [hp] at hs
    cases c with
    | go =>
      simp only [Bcache.step, Option.some.injEq, Prod.mk.injEq] at hs
      obtain ⟨rfl, rfl⟩ := hs
      by_cases hv : (s.shared.cache.buf b).valid = true
      · rw [if_pos hv]
        have hkeep := hi.change (f := fun x => x) (p := .holding a b false) hat rfl rfl rfl
          (by simp [hp, Pc.holds]) (fun _ => hv) (fun _ _ => hv) (fun _ => hv) (fun _ => haddr ▸ hi.data b hv)
          (fun _ _ => rfl) (fun _ _ => rfl) ?_
        · rw [Cache.modify_same] at hkeep
          exact hkeep
        · rcases hi.disk_of_addr haddr hdev with hd | hd | hc
          · exact Or.inl hd
          · exact Or.inr (Or.inl hd)
          · exact Or.inr (Or.inr (changing_update hc (by simp [hp])))
      · -- nobody has changed the block, and it is read from the disk
        have hclean : (s.shared.cache.buf b).dirty = false := by
          by_contra hd
          exact hv (hi.dirty b (Bool.not_eq_false _ ▸ hd))
        have hdisk : s.shared.disk a = g.contents a := by
          rcases hi.disk_of_addr haddr hdev with hd | hd | ⟨h', hh'⟩
          · exact hd
          · exact absurd (hi.dirty b hd) hv
          · exact absurd (hi.valid h' a b true hh') hv
        rw [if_neg hv, iderw_clean hclean]
        refine hi.change hat rfl rfl rfl ?_ (fun _ => rfl) (fun _ _ => rfl) (fun _ => rfl) ?_
          (fun _ _ => rfl) (fun _ _ => rfl) (Or.inl hdisk)
        · simp [hp, Pc.holds]
        · intro _
          rw [← hdisk, ← haddr]
    | _ => cases hs
  | holding a b changed =>
    have hat : (s.pc h).buffer = some (a, b) := by simp [hp, Pc.buffer]
    obtain ⟨haddr, hdev⟩ := hi.addr h a b hat
    have hv := hi.valid h a b changed hp
    have hdata : (s.shared.cache.buf b).data = g.contents a := by
      rw [hi.data b hv, haddr]
    rw [hp] at hs
    cases c with
    | store y =>
      simp only [Bcache.step, Option.some.injEq, Prod.mk.injEq] at hs
      obtain ⟨rfl, rfl⟩ := hs
      refine hi.change hat rfl rfl rfl ?_ (fun hv => hv) (fun _ _ => hv) (fun _ => hv) ?_ ?_ (fun _ _ => rfl) ?_
      · simp [hp, Pc.holds]
      · intro _
        exact (update_self a y g.contents).symm
      · intro a' ha
        exact update_of_ne ha y g.contents
      · exact Or.inr (Or.inr ⟨h, update_self h _ s.pc⟩)
    | log_write =>
      simp only [Bcache.step, Option.some.injEq, Prod.mk.injEq] at hs
      obtain ⟨rfl, rfl⟩ := hs
      refine hi.change hat rfl rfl rfl ?_ (fun hv => hv) (fun _ _ => hv) (fun _ => hv) (fun _ => hdata)
        (fun _ _ => rfl) (fun _ _ => rfl) (Or.inr (Or.inl rfl))
      simp [hp, Pc.holds]
    | bwrite =>
      simp only [Bcache.step, Option.some.injEq, Prod.mk.injEq] at hs
      obtain ⟨rfl, rfl⟩ := hs
      rw [iderw_dirty]
      refine hi.change hat rfl rfl rfl ?_ (fun _ => rfl) (fun _ _ => rfl) (fun _ => rfl) (fun _ => hdata)
        (fun _ _ => rfl) ?_ (Or.inl ?_)
      · simp [hp, Pc.holds]
      · intro a' ha
        rw [haddr]
        exact update_of_ne ha _ s.shared.disk
      · rw [haddr, update_self, hdata]
    | brelse =>
      cases changed with
      | true => cases hs
      | false =>
        simp only [Bcache.step, Option.some.injEq, Prod.mk.injEq] at hs
        obtain ⟨rfl, rfl⟩ := hs
        refine hi.change hat rfl rfl rfl ?_ (fun hv => hv) ?_ (fun _ => hv) (fun _ => hdata) (fun _ _ => rfl)
          (fun _ _ => rfl) ?_
        · have hone : 1 ≤ count (Pc.holds b) s.pc := Threads.one_le_count (i := h) (by simp [hp, Pc.holds])
          have hlock := hi.lock b
          have hle := Bool.toNat_le (s.shared.cache.buf b).locked
          simp only [hp, Pc.holds, decide_true, Bool.toNat_true, Bool.toNat_false]
          omega
        · intro changed heq
          cases heq
        · rcases hi.disk_of_addr haddr hdev with hd | hd | hc
          · exact Or.inl hd
          · exact Or.inr (Or.inl hd)
          · exact Or.inr (Or.inr (changing_update hc (by simp [hp])))
    | bread => cases hs
    | go => cases hs
  | releasing a b =>
    rw [hp] at hs
    cases c with
    | go =>
      simp only [Bcache.step, Option.some.injEq, Prod.mk.injEq] at hs
      obtain ⟨rfl, rfl⟩ := hs
      exact hi.unref hp
    | _ => cases hs

omit [DecidableEq H] in
theorem boot_inv (disk : Addr → Block) : Inv (boot (H := H) disk).1 (boot (H := H) disk).2 where
  lru := ⟨_, binit_listed, List.pairwise_of_forall fun _ _ => Nat.le_refl 0⟩
  last_le := fun _ => Nat.le_refl 0
  refcnt := fun _ => (Threads.count_const _ rfl).symm
  lock := fun _ => (Threads.count_const _ rfl).symm
  addr := by
    intro h a b hb
    cases hb
  valid := by
    intro h a b changed hp
    cases hp
  unique := by
    intro b b' _ hdev
    exact absurd rfl hdev
  dirty := by
    intro b hd
    cases hd
  data := by
    intro b hv
    cases hv
  disk := fun _ => Or.inl rfl

theorem Run.inv {disk : Addr → Block} {q : System H × History} (hrun : Run (boot disk) q) : Inv q.1 q.2 := by
  induction hrun with
  | refl => exact boot_inv disk
  | tail _ hlast ih =>
    cases hlast with
    | mk g hs =>
      obtain ⟨x, p, hstep, rfl⟩ := (Threads.next_eq_some step).mp hs
      exact ih.step hstep

/-! ### Results -/

variable {disk : Addr → Block} {q : System H × History}

/-- Whoever has read a block sees what was stored in it last, by whomever,
    and has the block for itself. -/
theorem reads_last_store (hrun : Run (boot disk) q) {changed : Bool} (hp : q.1.pc h = .holding a b changed) :
    (q.1.shared.cache.buf b).data = q.2.contents a ∧
      ∀ h' b' changed', q.1.pc h' = .holding a b' changed' → h' = h ∧ b' = b := by
  have hi := hrun.inv
  obtain ⟨haddr, hdev⟩ := hi.addr h a b (by simp [hp, Pc.buffer])
  constructor
  · have hdata := hi.data b (hi.valid h a b changed hp)
    rw [hdata, haddr]
  · intro h' b' changed' hp'
    obtain ⟨haddr', -⟩ := hi.addr h' a b' (by simp [hp', Pc.buffer])
    have hb : b' = b := hi.unique b' b (haddr'.trans haddr.symm) (by rw [haddr']; exact hdev)
    subst hb
    -- the sleep lock has one holder
    have hone : count (Pc.holds b') q.1.pc ≤ 1 := by
      rw [← hi.lock b']
      exact Bool.toNat_le _
    exact ⟨Threads.eq_of_count_le_one hone (by simp [hp', Pc.holds]) (by simp [hp, Pc.holds]), rfl⟩

/-- What was stored in a block is on the disk, or in the block's buffer,
    which is not given to another block before it is written. -/
theorem stored_kept (hrun : Run (boot disk) q) (a : Addr) :
    q.1.shared.disk a = q.2.contents a ∨
      ∃ b, (q.1.shared.cache.buf b).addr = a ∧ (q.1.shared.cache.buf b).data = q.2.contents a ∧
        ((q.1.shared.cache.buf b).dirty = true ∨ Changing q.1 a b) := by
  have hi := hrun.inv
  rcases hi.disk a with hdisk | ⟨b, hb, hahead⟩
  · exact Or.inl hdisk
  · have hv : (q.1.shared.cache.buf b).valid = true := by
      rcases hahead with hd | ⟨h', hh'⟩
      · exact hi.dirty b hd
      · exact hi.valid h' a b true hh'
    refine Or.inr ⟨b, hb, ?_, hahead⟩
    rw [hi.data b hv, hb]

/-- Where no buffer has the block, `bget` takes the one that has been unused
    for the longest time, of those that need not be kept. -/
theorem recycles_lru (hrun : Run (boot disk) q) {c' : Cache}
    (hmiss : ∀ b', (q.1.shared.cache.buf b').addr ≠ a) (hget : q.1.shared.cache.bget a = some (b, c')) :
    (q.1.shared.cache.buf b).refcnt = 0 ∧ (q.1.shared.cache.buf b).dirty = false ∧
      ∀ b', (q.1.shared.cache.buf b').refcnt = 0 → (q.1.shared.cache.buf b').dirty = false →
        q.2.last b ≤ q.2.last b' := by
  obtain ⟨l, hl, hlast⟩ := hrun.inv.lru
  rcases hl.bget_cases hget with ⟨haddr, -⟩ | ⟨-, hfree, hclean, ⟨l1, l2, rfl, hbusy⟩, -⟩
  · exact absurd haddr (hmiss b)
  · refine ⟨hfree, hclean, ?_⟩
    intro b' hfree' hclean'
    have hmem := hl.all b'
    rw [List.mem_append, List.mem_cons] at hmem
    rcases hmem with hfront | rfl | hback
    · exact (List.pairwise_append.mp hlast).2.2 b' hfront b (by simp)
    · exact Nat.le_refl _
    · exact absurd ⟨hfree', hclean'⟩ (hbusy b' hback)

/-! ### A block that two callers use -/

/-- The steps of a schedule. -/
def exec : List (H × Choice) → System H × History → Option (System H × History)
  | [], q => some q
  | (h, c) :: rest, q =>
    (Threads.next step q.1 h c).bind fun s => exec rest (s, q.2.after q.1.shared (q.1.pc h) c)

omit [Fintype H] in
theorem run_of_exec {sched : List (H × Choice)} {q r : System H × History} (h : exec sched q = some r) :
    Run q r := by
  induction sched generalizing q with
  | nil =>
    cases h
    exact .refl
  | cons e rest ih =>
    obtain ⟨t, hnext, hrest⟩ := Option.bind_eq_some_iff.mp h
    exact .head (.mk q.2 hnext) (ih hrest)

/-- The state after a schedule; `q` itself where it cannot be followed. -/
def upTo (sched : List (H × Choice)) (q : System H × History) : System H × History := (exec sched q).getD q

omit [Fintype H] in
theorem run_upTo (sched : List (H × Choice)) (q : System H × History) : Run q (upTo sched q) := by
  unfold upTo
  cases hexec : exec sched q with
  | none => exact .refl
  | some r => exact run_of_exec hexec

/-- One stores in a block, and another one comes for it. -/
def stored : System (Fin 2) × History :=
  upTo [(0, .bread ⟨1, 7⟩), (0, .go), (0, .go), (0, .store fun _ => 5), (1, .bread ⟨1, 7⟩), (0, .log_write)]
    (boot fun _ _ => 0)

/-- The other one reads it. -/
def readBack : System (Fin 2) × History := upTo [(0, .brelse), (1, .go), (0, .go), (1, .go)] stored

/-- It writes it to the disk, and nobody uses it any more. -/
def released : System (Fin 2) × History := upTo [(1, .bwrite), (1, .brelse), (1, .go)] readBack

theorem stored_run : Run (boot fun _ _ => 0) stored := run_upTo _ _

theorem readBack_run : Run (boot fun _ _ => 0) readBack := stored_run.trans (run_upTo _ _)

theorem released_run : Run (boot fun _ _ => 0) released := readBack_run.trans (run_upTo _ _)

set_option maxRecDepth 10000 in
theorem readBack_pc : readBack.1.pc 1 = .holding ⟨1, 7⟩ 0 false := rfl

set_option maxRecDepth 10000 in
theorem readBack_contents : readBack.2.contents ⟨1, 7⟩ 0 = 5 := rfl

theorem reads_last_store_readBack : readBack.2.contents ⟨1, 7⟩ 0 = 5 ∧
    (readBack.1.shared.cache.buf 0).data = readBack.2.contents ⟨1, 7⟩ ∧
    ∀ h' b' changed', readBack.1.pc h' = .holding ⟨1, 7⟩ b' changed' → h' = 1 ∧ b' = 0 :=
  ⟨readBack_contents, reads_last_store readBack_run readBack_pc⟩

set_option maxRecDepth 10000 in
theorem stored_disk : stored.1.shared.disk ⟨1, 7⟩ 0 = 0 ∧ stored.2.contents ⟨1, 7⟩ 0 = 5 := ⟨rfl, rfl⟩

theorem stored_kept_stored : (stored.1.shared.disk ⟨1, 7⟩ 0 = 0 ∧ stored.2.contents ⟨1, 7⟩ 0 = 5) ∧
    (stored.1.shared.disk ⟨1, 7⟩ = stored.2.contents ⟨1, 7⟩ ∨
      ∃ b, (stored.1.shared.cache.buf b).addr = ⟨1, 7⟩ ∧
        (stored.1.shared.cache.buf b).data = stored.2.contents ⟨1, 7⟩ ∧
        ((stored.1.shared.cache.buf b).dirty = true ∨ Changing stored.1 ⟨1, 7⟩ b)) :=
  ⟨stored_disk, stored_kept stored_run ⟨1, 7⟩⟩

set_option maxRecDepth 10000 in
theorem released_miss : ∀ b, (released.1.shared.cache.buf b).addr ≠ ⟨1, 8⟩ := by decide

set_option maxRecDepth 10000 in
theorem released_bget : ((released.1.shared.cache.bget ⟨1, 8⟩).map (·.1)) = some 1 := rfl

set_option maxRecDepth 10000 in
theorem released_last : released.2.last 0 = 1 := rfl

theorem recycles_lru_released : released.2.last 0 = 1 ∧ (released.1.shared.cache.buf 1).refcnt = 0 ∧
    (released.1.shared.cache.buf 1).dirty = false ∧
    ∀ b', (released.1.shared.cache.buf b').refcnt = 0 → (released.1.shared.cache.buf b').dirty = false →
      released.2.last 1 ≤ released.2.last b' := by
  obtain ⟨⟨b, c'⟩, hget, hb⟩ := Option.map_eq_some_iff.mp released_bget
  subst hb
  exact ⟨released_last, recycles_lru released_run released_miss hget⟩

end Bcache
