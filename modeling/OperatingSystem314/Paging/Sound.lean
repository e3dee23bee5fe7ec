import Mathlib.Data.List.Dedup
import OperatingSystem314.Paging.Disk

/-! # What each routine passes to the log

    `Sound`: the blocks of an inode are blocks of the disk, and none is
    missing below its size (a file is written at its end at the latest).
    From a sound state no read allocates, and everything that is freed has
    its bit in the one block of the free map.

    * `Logs S n s t`: what has been logged between `s` and `t`, apart from
      the blocks `S`, are at most `n` blocks.
    * For each routine a bound for what it logs, whether it returns or
      panics, and that the state is sound when it returns. -/

namespace Paging

open Effects (Prog Graded Bounded)

/-! ### Sound states -/

namespace DiskInode

/-- Block `bn` of the file is there. -/
inductive Mapped (x : DiskInode) (bn : Nat) : Prop where
  | direct (h : bn < NDIRECT) (hne : x.addrs ⟨bn, Nat.lt_succ_of_lt h⟩ ≠ 0)
  | indirect (hle : NDIRECT ≤ bn) (h : bn - NDIRECT < NINDIRECT) (hind : x.addrs (Fin.last NDIRECT) ≠ 0)
      (hne : x.a ⟨bn - NDIRECT, h⟩ ≠ 0)

/-- Its blocks are on the disk. -/
structure Ranged (sb : Superblock) (x : DiskInode) : Prop where
  addrs : ∀ n, x.addrs n < sb.size
  words : ∀ n, x.a n < sb.size

structure Sound (sb : Superblock) (x : DiskInode) : Prop extends x.Ranged sb where
  holes : ∀ bn, bn * BSIZE < x.size → x.Mapped bn

theorem Ranged.setAddr {sb : Superblock} {x : DiskInode} (h : x.Ranged sb) {n : Fin (NDIRECT + 1)} {addr : Nat} (haddr : addr < sb.size) :
    (x.setAddr n addr).Ranged sb := by
  refine ⟨fun m => ?_, h.words⟩
  by_cases hm : m = n
  · simpa [DiskInode.setAddr, hm] using haddr
  · simpa [DiskInode.setAddr, hm] using h.addrs m

theorem Ranged.setWord {sb : Superblock} {x : DiskInode} (h : x.Ranged sb) {n : Fin NINDIRECT} {addr : Nat} (haddr : addr < sb.size) :
    (x.setWord n addr).Ranged sb := by
  refine ⟨h.addrs, fun m => ?_⟩
  by_cases hm : m = n
  · simpa [DiskInode.setWord, hm] using haddr
  · simpa [DiskInode.setWord, hm] using h.words m

theorem Mapped.congr {x y : DiskInode} {bn : Nat} (h : x.Mapped bn) (haddrs : y.addrs = x.addrs) (ha : y.a = x.a) :
    y.Mapped bn := by
  cases h with
  | direct hlt hne => exact .direct hlt (haddrs ▸ hne)
  | indirect hle hlt hind hne => exact .indirect hle hlt (haddrs ▸ hind) (ha ▸ hne)

/-- Neither the blocks nor the size differ. -/
theorem Sound.congr {sb : Superblock} {x y : DiskInode} (h : x.Sound sb) (haddrs : y.addrs = x.addrs) (ha : y.a = x.a)
    (hsize : y.size = x.size) : y.Sound sb :=
  ⟨⟨haddrs ▸ h.addrs, ha ▸ h.words⟩, fun bn hbn => (h.holes bn (hsize ▸ hbn)).congr haddrs ha⟩

/-- The indirect block, if there is one. -/
def ind (x : DiskInode) : List Nat :=
  if x.addrs (Fin.last NDIRECT) = 0 then [] else [x.addrs (Fin.last NDIRECT)]

end DiskInode

namespace Disk

structure Sound (sb : Superblock) (s : Disk) : Prop where
  inode : ∀ n, (s.inode n).Sound sb
  /-- the boot block -/
  boot : s.bitmap 0 = true

/-- Sound, except that blocks of `ip` may be missing. -/
structure SoundBut (sb : Superblock) (ip : Nat) (s : Disk) : Prop where
  others : ∀ n, n ≠ ip → (s.inode n).Sound sb
  ranged : (s.inode ip).Ranged sb
  boot : s.bitmap 0 = true

variable {sb : Superblock} {s t : Disk} {ip : Nat}

theorem Sound.but (h : Sound sb s) (ip : Nat) : SoundBut sb ip s :=
  ⟨fun n _ => h.inode n, (h.inode ip).toRanged, h.boot⟩

theorem Sound.congr (h : Sound sb s) (hinode : t.inode = s.inode) (hboot : t.bitmap 0 = s.bitmap 0) : Sound sb t :=
  ⟨fun n => hinode ▸ h.inode n, hboot.trans h.boot⟩

theorem SoundBut.congr (h : SoundBut sb ip s) (hinode : t.inode = s.inode) (hboot : t.bitmap 0 = s.bitmap 0) :
    SoundBut sb ip t :=
  ⟨fun n hn => hinode ▸ h.others n hn, hinode ▸ h.ranged, hboot.trans h.boot⟩

@[simp] theorem modInode_self (s : Disk) (n : Nat) (f : DiskInode → DiskInode) :
    (s.modInode n f).inode n = f (s.inode n) := by
  simp [modInode, setInode]

theorem modInode_ne (s : Disk) {n m : Nat} (f : DiskInode → DiskInode) (h : m ≠ n) :
    (s.modInode n f).inode m = s.inode m := by
  simp [modInode, setInode, h]

theorem SoundBut.modInode {f : DiskInode → DiskInode} (h : SoundBut sb ip s)
    (hf : (f (s.inode ip)).Ranged sb) : SoundBut sb ip (s.modInode ip f) := by
  refine ⟨fun n hn => ?_, ?_, h.boot⟩
  · rw [modInode_ne s f hn]
    exact h.others n hn
  · rw [modInode_self]
    exact hf

/-- When the blocks of `ip` are there after all. -/
theorem SoundBut.sound (h : SoundBut sb ip s)
    (hholes : ∀ bn, bn * BSIZE < (s.inode ip).size → (s.inode ip).Mapped bn) : Sound sb s := by
  refine ⟨fun n => ?_, h.boot⟩
  by_cases hn : n = ip
  · rw [hn]
    exact ⟨h.ranged, hholes⟩
  · exact h.others n hn

theorem Sound.modInode {f : DiskInode → DiskInode} (h : Sound sb s) (hf : (f (s.inode ip)).Sound sb) :
    Sound sb (s.modInode ip f) := by
  refine ((h.but ip).modInode hf.toRanged).sound ?_
  rw [modInode_self]
  exact hf.holes

/-! ### What is logged -/

/-- `T` has, apart from `old` and `S`, at most `n` blocks. -/
def Adds (S : List Nat) (n : Nat) (old T : List Nat) : Prop :=
  ∃ l : List Nat, l.length ≤ n ∧ ∀ b ∈ T, b ∈ old ∨ b ∈ S ∨ b ∈ l

namespace Adds

variable {S S' old mid T : List Nat} {n m : Nat}

theorem of_subset (h : ∀ b ∈ T, b ∈ old ∨ b ∈ S) : Adds S n old T :=
  ⟨[], Nat.zero_le n, fun b hb => (h b hb).imp_right .inl⟩

theorem mono (h : Adds S n old T) (hn : n ≤ m) (hS : S ⊆ S') : Adds S' m old T := by
  obtain ⟨l, hl, hT⟩ := h
  exact ⟨l, hl.trans hn, fun b hb => (hT b hb).imp_right (.imp_left (@hS b))⟩

theorem trans (h : Adds S n old mid) (h' : Adds S m mid T) : Adds S (n + m) old T := by
  obtain ⟨l, hl, hmid⟩ := h
  obtain ⟨l', hl', hT⟩ := h'
  refine ⟨l ++ l', by rw [List.length_append]; omega, ?_⟩
  intro b hb
  rcases hT b hb with hb | hb | hb
  · rcases hmid b hb with hb | hb | hb
    · exact .inl hb
    · exact .inr (.inl hb)
    · exact .inr (.inr (List.mem_append_left l' hb))
  · exact .inr (.inl hb)
  · exact .inr (.inr (List.mem_append_right l hb))

/-- A block more, instead of being one of `S`. -/
theorem count {c : Nat} (h : Adds (c :: S) n old T) : Adds S (n + 1) old T := by
  obtain ⟨l, hl, hT⟩ := h
  refine ⟨c :: l, Nat.succ_le_succ hl, ?_⟩
  intro b hb
  rcases hT b hb with hb | hb | hb
  · exact .inl hb
  · rcases List.mem_cons.mp hb with rfl | hb
    · exact .inr (.inr List.mem_cons_self)
    · exact .inr (.inl hb)
  · exact .inr (.inr (List.mem_cons_of_mem c hb))

end Adds

/-- What the transactions have logged between `s` and `t`. -/
structure Logs (S : List Nat) (n : Nat) (s t : Disk) : Prop where
  txn : Adds S n s.txn t.txn
  done : ∀ T ∈ t.done, T ∈ s.done ∨ Adds S n s.txn T

namespace Logs

variable {S S' : List Nat} {n m : Nat} {u : Disk}

theorem of_txn (hdone : t.done = s.done) (htxn : Adds S n s.txn t.txn) : Logs S n s t := by
  refine ⟨htxn, ?_⟩
  rw [hdone]
  exact fun _ hT => .inl hT

/-- Nothing has been logged. -/
theorem same (hdone : t.done = s.done) (htxn : t.txn = s.txn) : Logs S n s t := by
  apply of_txn hdone
  rw [htxn]
  exact .of_subset fun _ hb => .inl hb

theorem mono (h : Logs S n s t) (hn : n ≤ m) (hS : S ⊆ S') : Logs S' m s t :=
  ⟨h.txn.mono hn hS, fun T hT => (h.done T hT).imp_right fun hadd => hadd.mono hn hS⟩

theorem trans (h : Logs S n s t) (h' : Logs S m t u) : Logs S (n + m) s u := by
  refine ⟨h.txn.trans h'.txn, ?_⟩
  intro T hT
  rcases h'.done T hT with hold | hadd
  · exact (h.done T hold).imp_right fun hadd => hadd.mono (Nat.le_add_right n m) (List.Subset.refl S)
  · exact .inr (h.txn.trans hadd)

theorem graded (S : List Nat) : Graded (Logs S) where
  refl := fun _ => same rfl rfl
  trans := trans
  mono := fun hn h => h.mono hn (List.Subset.refl S)

theorem count {b : Nat} (h : Logs (b :: S) n s t) : Logs S (n + 1) s t :=
  ⟨h.txn.count, fun T hT => (h.done T hT).imp_right Adds.count⟩

end Logs

section

variable {S : List Nat} {n : Nat} {α : Type} {op : Op α} {Q : α → Disk → Prop}

/-- One of the blocks of `S` is counted instead. -/
theorem count {b : Nat} (h : Bounded (Logs (b :: S)) n op s Q) : Bounded (Logs S) (n + 1) op s Q :=
  h.mono (fun _ => Logs.count) fun _ _ hQ => hQ

theorem log_write_closed {b : Nat} (h : s.outstanding < 1) :
    log_write b s = (.error (.panic "log_write outside of trans"), s) := by
  unfold log_write
  rw [Effects.state_bind, if_pos h, Effects.fail_eval]

theorem log_write_open {b : Nat} (h : ¬ s.outstanding < 1) : log_write b s = (.ok (), s.logged b) := by
  unfold log_write
  rw [Effects.state_bind, if_neg h, Effects.modify_eval]

theorem log_write_spec {b : Nat} (hb : b ∈ S) :
    Bounded (Logs S) 0 (log_write b) s fun _ t => t = s.logged b := by
  apply Bounded.state
  split
  · exact .fail (Logs.graded S)
  · refine .modify (Logs.of_txn rfl ?_) rfl
    apply Adds.of_subset
    intro c hc
    rcases List.mem_cons.mp hc with rfl | hc
    · exact .inr hb
    · exact .inl hc

theorem iupdate_spec (hb : sb.IBLOCK ip ∈ S) (hs : Sound sb s) :
    Bounded (Logs S) 0 (iupdate sb ip) s fun _ t => Sound sb t := by
  apply (log_write_spec hb).mono fun _ h => h
  rintro _ _ rfl
  exact hs.congr rfl rfl

/-! ### The free map -/

theorem setBit_boot (s : Disk) {b : Nat} (v : Bool) (hne : b ≠ 0) : (s.setBit b v).bitmap 0 = s.bitmap 0 := by
  simp [setBit, hne.symm]

theorem bblock_eq (hsize : sb.size ≤ FSSIZE) {b : Nat} (hb : b < sb.size) : sb.BBLOCK b = sb.bmapstart := by
  have hlt : b < BPB := by
    have hle : FSSIZE ≤ BPB := by decide
    omega
  rw [Superblock.BBLOCK, Nat.div_eq_of_lt hlt, Nat.zero_add]

/-- `balloc` logs its block, or has logged nothing when it panics. -/
theorem balloc_cases (hsize : sb.size ≤ FSSIZE) (hbm : sb.bmapstart ∈ S) (hboot : s.bitmap 0 = true) :
    (∃ e t, balloc sb s = (.error e, t) ∧ t.inode = s.inode ∧ Logs S 0 s t) ∨
      ∃ b t, balloc sb s = (.ok b, t) ∧ b ≠ 0 ∧ b < sb.size ∧ t.inode = s.inode ∧ t.bitmap 0 = true ∧
        Logs (b :: S) 0 s t := by
  unfold balloc
  rw [Effects.state_bind]
  cases hfind : (List.range sb.size).find? fun b => s.bitmap b = false with
  | none => exact .inl ⟨_, s, rfl, rfl, .same rfl rfl⟩
  | some b =>
    have hfree : s.bitmap b = false := by simpa using List.find?_some hfind
    have hb : b < sb.size := List.mem_range.mp (List.mem_of_find?_eq_some hfind)
    have hne : b ≠ 0 := by
      rintro rfl
      rw [hboot] at hfree
      cases hfree
    dsimp only
    rw [Effects.modify_bind]
    by_cases hop : s.outstanding < 1
    · refine .inl ⟨_, s.setBit b true, Effects.bind_error (log_write_closed hop), rfl, .same rfl rfl⟩
    · have hmap : log_write (sb.BBLOCK b) (s.setBit b true) = (.ok (), (s.setBit b true).logged (sb.BBLOCK b)) :=
        log_write_open hop
      have hzero : bzero b ((s.setBit b true).logged (sb.BBLOCK b)) = (.ok (), _) := log_write_open hop
      refine .inr ⟨b, ((s.setBit b true).logged (sb.BBLOCK b)).logged b, ?_, hne, hb, rfl, ?_, .of_txn rfl ?_⟩
      · exact (Effects.bind_ok hmap).trans (Effects.bind_ok hzero)
      · exact (s.setBit_boot true hne).trans hboot
      · apply Adds.of_subset
        intro c hc
        rw [bblock_eq hsize hb] at hc
        rcases List.mem_cons.mp hc with rfl | hc
        · exact .inr List.mem_cons_self
        · rcases List.mem_cons.mp hc with rfl | hc
          · exact .inr (List.mem_cons_of_mem b hbm)
          · exact .inl hc

theorem bfree_spec (hsize : sb.size ≤ FSSIZE) (hbm : sb.bmapstart ∈ S) {b : Nat} (hb : b < sb.size) (hne : b ≠ 0)
    (hs : SoundBut sb ip s) : Bounded (Logs S) 0 (bfree sb b) s fun _ t => SoundBut sb ip t ∧ t.inode = s.inode := by
  apply Bounded.state
  split
  · exact .fail (Logs.graded S)
  · refine .modify_bind (Logs.graded S) (.same rfl rfl) ?_
    have hblock : sb.BBLOCK b ∈ S := by
      rw [bblock_eq hsize hb]
      exact hbm
    apply (log_write_spec hblock).mono fun _ h => h
    rintro _ _ rfl
    exact ⟨hs.congr rfl (s.setBit_boot false hne), rfl⟩

theorem bfreeIf_spec (hsize : sb.size ≤ FSSIZE) (hbm : sb.bmapstart ∈ S) {b : Nat} (hb : b < sb.size)
    (hs : SoundBut sb ip s) : Bounded (Logs S) 0 (bfreeIf sb b) s fun _ t => SoundBut sb ip t ∧ t.inode = s.inode := by
  apply Bounded.when (Logs.graded S) _ ⟨hs, rfl⟩
  intro hne
  exact bfree_spec hsize hbm hb hne hs

theorem SoundBut.setAddr (h : SoundBut sb ip s) {n : Fin (NDIRECT + 1)} {addr : Nat} (haddr : addr < sb.size) :
    SoundBut sb ip (s.modInode ip fun x => x.setAddr n addr) :=
  h.modInode (h.ranged.setAddr haddr)

theorem itrunc_spec (hsize : sb.size ≤ FSSIZE) (hbm : sb.bmapstart ∈ S) (hip : sb.IBLOCK ip ∈ S) (hs : Sound sb s) :
    Bounded (Logs S) 0 (itrunc sb ip) s fun _ t => Sound sb t := by
  have hR := Logs.graded S
  have hpos : 0 < sb.size := Nat.lt_of_le_of_lt (Nat.zero_le _) ((hs.inode ip).addrs 0)
  unfold itrunc
  apply Bounded.bind_free (Q := fun _ t => SoundBut sb ip t) _ hR
  · intro _ t ht
    apply Bounded.state
    apply Bounded.bind_free (Q := fun _ u => SoundBut sb ip u) _ hR
    · intro _ u hu
      have hempty : ∀ bn, bn * BSIZE < ((u.modInode ip fun x => { x with size := 0 }).inode ip).size →
          ((u.modInode ip fun x => { x with size := 0 }).inode ip).Mapped bn := by
        intro bn hbn
        rw [modInode_self] at hbn
        exact absurd hbn (Nat.not_lt_zero _)
      have hsound := (hu.modInode (f := fun x => { x with size := 0 }) ⟨hu.ranged.addrs, hu.ranged.words⟩).sound hempty
      exact .modify_bind hR (.same rfl rfl) (iupdate_spec hip hsound)
    · apply Bounded.when hR _ ht
      intro hne
      apply Bounded.bind_free (Q := fun _ u => SoundBut sb ip u) _ hR
      · intro _ u hu
        apply (bfree_spec hsize hbm (ht.ranged.addrs _) hne hu).bind_free hR
        rintro _ v ⟨hv, -⟩
        exact .modify (.same rfl rfl) (hv.setAddr hpos)
      · apply Bounded.forM hR _ ht
        intro j u hu
        apply Bounded.state
        exact (bfreeIf_spec hsize hbm (hu.ranged.words j) hu).mono (fun _ h => h) fun _ _ h => h.1
  · apply Bounded.forM hR _ (hs.but ip)
    intro i t ht
    apply Bounded.state
    apply (bfreeIf_spec hsize hbm (ht.ranged.addrs _) ht).bind_free hR
    rintro _ u ⟨hu, -⟩
    exact .modify (.same rfl rfl) (hu.setAddr hpos)

/-! ### Inodes -/

theorem iput_spec (hsize : sb.size ≤ FSSIZE) (hbm : sb.bmapstart ∈ S) (hip : sb.IBLOCK ip ∈ S) (hs : Sound sb s) :
    Bounded (Logs S) 0 (iput sb ip) s fun _ t => Sound sb t := by
  have hR := Logs.graded S
  apply Bounded.state
  apply Bounded.bind_free (Q := fun _ t => Sound sb t) _ hR
  · intro _ t ht
    exact .modify (.same rfl rfl) (ht.congr rfl rfl)
  · apply Bounded.when hR _ hs
    intro _
    apply (itrunc_spec hsize hbm hip hs).bind_free hR
    intro _ t ht
    have hfree : Sound sb (t.modInode ip fun x => { x with type := .free }) :=
      ht.modInode ((ht.inode ip).congr rfl rfl rfl)
    refine .modify_bind hR (.same rfl rfl) ?_
    apply (iupdate_spec hip hfree).bind_free hR
    intro _ u hu
    exact .modify (.same rfl rfl) (hu.congr rfl rfl)

theorem iunlock_spec (ip : Option Nat) (hs : Sound sb s) :
    Bounded (Logs S) 0 (iunlock ip) s fun _ t => Sound sb t := by
  have hR := Logs.graded S
  apply Bounded.state
  split
  · exact .fail hR
  · split
    · exact .fail hR
    · exact .pure hR hs

/-- Whatever inode is dropped, one more block is enough. -/
theorem iunlockput_spec (hsize : sb.size ≤ FSSIZE) (hbm : sb.bmapstart ∈ S) (hs : Sound sb s) :
    Bounded (Logs S) 1 (iunlockput sb ip) s fun _ t => Sound sb t := by
  apply count (b := sb.IBLOCK ip)
  apply (iunlock_spec (some ip) hs).bind_free (Logs.graded _)
  intro _ t ht
  exact iput_spec hsize (List.mem_cons_of_mem _ hbm) List.mem_cons_self ht

theorem iget_spec (inum : Nat) (hs : Sound sb s) :
    Bounded (Logs S) 0 (iget sb inum) s fun _ t => Sound sb t := by
  have hR := Logs.graded S
  apply Bounded.state
  split
  · exact .modify (.same rfl rfl) (hs.congr rfl rfl)
  · split
    · exact .fail hR
    · exact .modify (.same rfl rfl) (hs.congr rfl rfl)

theorem ilock_spec (hs : Sound sb s) : Bounded (Logs S) 0 (ilock ip) s fun _ t => Sound sb t := by
  have hR := Logs.graded S
  apply Bounded.state
  split
  · exact .fail hR
  · split
    · exact .pure hR hs
    · split
      · exact .fail hR
      · exact .modify (.same rfl rfl) (hs.congr rfl rfl)

theorem ialloc_spec {type : InodeType} (hs : Sound sb s) :
    Bounded (Logs S) 1 (ialloc sb type) s fun _ t => Sound sb t := by
  apply Bounded.state
  split
  next inum _ =>
    apply count (b := sb.IBLOCK inum)
    have hR := Logs.graded (sb.IBLOCK inum :: S)
    have hpos : 0 < sb.size := Nat.lt_of_le_of_lt (Nat.zero_le _) ((hs.inode inum).addrs 0)
    refine .modify_bind hR (.same rfl rfl) ?_
    have hfresh : Sound sb (s.modInode inum fun _ =>
        { type, major := 0, nlink := 0, size := 0, addrs := fun _ => 0, a := fun _ => 0, data := fun _ => 0 }) := by
      refine hs.modInode ⟨⟨fun _ => hpos, fun _ => hpos⟩, ?_⟩
      intro bn hbn
      exact absurd hbn (Nat.not_lt_zero _)
    have hdinode : sb.IBLOCK inum ∈ sb.IBLOCK inum :: S := List.mem_cons_self
    apply (iupdate_spec hdinode hfresh).bind_free hR
    intro _ t ht
    apply (iget_spec inum ht).bind_free hR
    intro _ u hu
    exact .pure hR hu
  next => exact .fail (Logs.graded S)

end

end Disk

end Paging
