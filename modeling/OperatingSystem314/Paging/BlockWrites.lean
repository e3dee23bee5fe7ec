import OperatingSystem314.Paging.Sound

/-! # What a write of a file logs

    `bmap` may allocate the block itself and the indirect block before it,
    so what it logs is known only afterwards.

    * `Grows ip S n s t`: `Logs`, where the indirect block of `ip` is not
      counted, whenever it was allocated.
    * `bmap_mapped`: a block that is there is found without a change, so a
      read below the size changes nothing.
    * `writei_spec`: blocks of data, the indirect block and the inode. -/

namespace Paging

open Effects (Prog Graded Bounded)

namespace DiskInode

variable {x : DiskInode} {addr : Nat}

/-- An address that was missing. -/
theorem Mapped.setAddr {n : Fin (NDIRECT + 1)} (hzero : x.addrs n = 0) (haddr : addr ≠ 0) {bn : Nat}
    (h : x.Mapped bn) : (x.setAddr n addr).Mapped bn := by
  cases h with
  | direct hlt hne =>
    apply Mapped.direct hlt
    by_cases hn : (⟨bn, by omega⟩ : Fin (NDIRECT + 1)) = n
    · simpa [DiskInode.setAddr, hn] using haddr
    · simpa [DiskInode.setAddr, hn] using hne
  | indirect hle hlt hind hne =>
    have hn : Fin.last NDIRECT ≠ n := by
      rintro rfl
      exact hind hzero
    exact .indirect hle hlt (by simpa [DiskInode.setAddr, hn] using hind) hne

theorem Mapped.setWord {n : Fin NINDIRECT} (haddr : addr ≠ 0) {bn : Nat} (h : x.Mapped bn) :
    (x.setWord n addr).Mapped bn := by
  cases h with
  | direct hlt hne => exact .direct hlt hne
  | indirect hle hlt hind hne =>
    refine Mapped.indirect hle hlt hind ?_
    by_cases hn : (⟨bn - NDIRECT, hlt⟩ : Fin NINDIRECT) = n
    · simpa [DiskInode.setWord, hn] using haddr
    · simpa [DiskInode.setWord, hn] using hne

/-- Without an indirect block its words do not matter. -/
theorem Mapped.fresh {a : Fin NINDIRECT → Nat} (hzero : x.addrs (Fin.last NDIRECT) = 0) {bn : Nat}
    (h : x.Mapped bn) : ({ x with a } : DiskInode).Mapped bn := by
  cases h with
  | direct hlt hne => exact .direct hlt hne
  | indirect _ _ hind _ => exact absurd hzero hind

theorem Mapped.zeroed {bn : Nat} (h : x.Mapped bn) (bn' : Nat) : (x.zeroed bn').Mapped bn :=
  h.congr rfl rfl

theorem ind_eq_nil (h : x.addrs (Fin.last NDIRECT) = 0) : x.ind = [] := if_pos h

theorem mem_ind (h : x.addrs (Fin.last NDIRECT) ≠ 0) : x.addrs (Fin.last NDIRECT) ∈ x.ind := by
  rw [ind, if_neg h]
  exact List.mem_cons_self

theorem length_ind_le : x.ind.length ≤ 1 := by
  unfold ind
  split
  · exact Nat.zero_le 1
  · exact le_rfl

end DiskInode

namespace Disk

variable {sb : Superblock} {s t u : Disk} {ip : Nat} {S S' : List Nat} {n m : Nat}

/-! ### One file grows -/

structure Grows (ip : Nat) (S : List Nat) (n : Nat) (s t : Disk) : Prop where
  logs : Logs ((t.inode ip).ind ++ S) n s t
  ind : (s.inode ip).ind ⊆ (t.inode ip).ind
  mapped : ∀ bn, (s.inode ip).Mapped bn → (t.inode ip).Mapped bn

namespace Grows

theorem of_logs (h : Logs S n s t) (hinode : t.inode = s.inode) : Grows ip S n s t := by
  refine ⟨h.mono le_rfl (List.subset_append_right _ S), ?_, ?_⟩
  · rw [hinode]
    exact List.Subset.refl _
  · rw [hinode]
    exact fun _ hbn => hbn

theorem mono (h : Grows ip S n s t) (hn : n ≤ m) (hS : S ⊆ S') : Grows ip S' m s t :=
  ⟨h.logs.mono hn (List.append_subset.mpr ⟨List.subset_append_left _ _, fun _ hb => List.mem_append_right _ (hS hb)⟩),
    h.ind, h.mapped⟩

theorem trans (h : Grows ip S n s t) (h' : Grows ip S m t u) : Grows ip S (n + m) s u := by
  refine ⟨(h.logs.mono le_rfl ?_).trans h'.logs, fun _ hb => h'.ind (h.ind hb), fun bn hbn => h'.mapped bn (h.mapped bn hbn)⟩
  -- the indirect block stays
  apply List.append_subset.mpr
  exact ⟨fun _ hb => List.mem_append_left _ (h'.ind hb), List.subset_append_right _ S⟩

theorem graded (ip : Nat) (S : List Nat) : Graded (Grows ip S) where
  refl := fun _ => of_logs (.same rfl rfl) rfl
  trans := trans
  mono := fun hn h => h.mono hn (List.Subset.refl S)

theorem count {b : Nat} (h : Grows ip (b :: S) n s t) : Grows ip S (n + 1) s t := by
  have hlogs : Logs (b :: ((t.inode ip).ind ++ S)) n s t := by
    apply h.logs.mono le_rfl
    intro c hc
    simp only [List.mem_append, List.mem_cons] at hc ⊢
    tauto
  exact ⟨hlogs.count, h.ind, h.mapped⟩

/-- A block that turns out to be the indirect block. -/
theorem absorb {b : Nat} (h : Grows ip (b :: S) n s t) (hb : b ∈ (t.inode ip).ind) : Grows ip S n s t := by
  refine ⟨h.logs.mono le_rfl ?_, h.ind, h.mapped⟩
  intro c hc
  rcases List.mem_append.mp hc with hc | hc
  · exact List.mem_append_left S hc
  · rcases List.mem_cons.mp hc with rfl | hc
    · exact List.mem_append_left S hb
    · exact List.mem_append_right _ hc

/-- The inode changes, nothing is logged. -/
theorem modInode {f : DiskInode → DiskInode} (hind : (s.inode ip).ind ⊆ (f (s.inode ip)).ind)
    (hmapped : ∀ bn, (s.inode ip).Mapped bn → (f (s.inode ip)).Mapped bn) : Grows ip S 0 s (s.modInode ip f) := by
  refine ⟨.same rfl rfl, ?_, ?_⟩
  · rw [modInode_self]
    exact hind
  · rw [modInode_self]
    exact hmapped

/-- At the end the indirect block is counted. -/
theorem toLogs (h : Grows ip S n s t) : Logs S (n + 1) s t := by
  have hlogs := h.logs
  have hlen := (t.inode ip).length_ind_le
  cases hind : (t.inode ip).ind with
  | nil =>
    rw [hind] at hlogs
    exact hlogs.mono (Nat.le_succ n) (List.Subset.refl S)
  | cons b l =>
    rw [hind] at hlogs hlen
    have hl : l = [] := List.eq_nil_of_length_eq_zero (by simpa using hlen)
    rw [hl] at hlogs
    exact hlogs.count

end Grows

theorem grows_logged {b : Nat} (hb : b ∈ (s.inode ip).ind ++ S) : Grows ip S 0 s (s.logged b) := by
  refine ⟨.of_txn rfl (.of_subset ?_), List.Subset.refl _, fun _ hbn => hbn⟩
  intro c hc
  rcases List.mem_cons.mp hc with rfl | hc
  · exact .inr hb
  · exact .inl hc

theorem log_write_grows {b : Nat} (hb : b ∈ (s.inode ip).ind ++ S) :
    Bounded (Grows ip S) 0 (log_write b) s fun _ t => t = s.logged b := by
  by_cases hop : s.outstanding < 1
  · exact .of_eval (log_write_closed hop) ((Grows.graded ip S).refl s) nofun
  · exact .of_eval (log_write_open hop) (grows_logged hb) fun _ _ => rfl

/-! ### The blocks of a file -/

/-- A block that is there is found, and nothing happens. -/
theorem bmap_mapped {bn : Nat} (h : (s.inode ip).Mapped bn) : ∃ addr, bmap sb ip bn s = (.ok addr, s) := by
  unfold bmap
  cases h with
  | direct hlt hne =>
    rw [dif_pos hlt, Effects.state_bind, if_neg hne]
    exact ⟨_, rfl⟩
  | indirect hle hlt hind hne =>
    have hbp : indirect sb ip s = (.ok ((s.inode ip).addrs (Fin.last NDIRECT)), s) := by
      unfold indirect
      rw [Effects.state_bind, if_neg hind, Effects.pure_eval]
    rw [dif_neg (by omega), dif_pos hlt]
    refine ⟨(s.inode ip).a ⟨bn - NDIRECT, hlt⟩, (Effects.bind_ok hbp).trans ?_⟩
    rw [Effects.state_bind, if_neg hne, Effects.pure_eval]

/-- A block that was allocated is entered into the inode. -/
theorem enter {b : Nat} {f : DiskInode → DiskInode} (hs : Sound sb s) (hinode : t.inode = s.inode)
    (hboot : t.bitmap 0 = true) (hlogs : Logs (b :: S) 0 s t) (hranged : (f (s.inode ip)).Ranged sb)
    (hsize : (f (s.inode ip)).size = (s.inode ip).size) (hind : (s.inode ip).ind ⊆ (f (s.inode ip)).ind)
    (hmapped : ∀ bn, (s.inode ip).Mapped bn → (f (s.inode ip)).Mapped bn) :
    Sound sb (t.modInode ip f) ∧ Grows ip S 0 t (t.modInode ip f) ∧ Grows ip (b :: S) 0 s (t.modInode ip f) := by
  have ht : Sound sb t := hs.congr hinode (hboot.trans hs.boot.symm)
  have hx : t.inode ip = s.inode ip := congrFun hinode ip
  rw [← hx] at hranged hsize hind hmapped
  refine ⟨ht.modInode ⟨hranged, ?_⟩, .modInode hind hmapped, (Grows.of_logs hlogs hinode).trans (.modInode hind hmapped)⟩
  intro bn hbn
  rw [hsize] at hbn
  exact hmapped bn ((ht.inode ip).holes bn hbn)

theorem indirect_spec (hsize : sb.size ≤ FSSIZE) (hbm : sb.bmapstart ∈ S) (hs : Sound sb s) :
    Bounded (Grows ip S) 0 (indirect sb ip) s fun bp t =>
      Sound sb t ∧ bp = (t.inode ip).addrs (Fin.last NDIRECT) ∧ bp ≠ 0 := by
  apply Bounded.state
  split
  next hzero =>
    rcases balloc_cases hsize hbm hs.boot with ⟨e, t, heval, hinode, hlogs⟩ | ⟨b, t, heval, hne, hb, hinode, hboot, hlogs⟩
    · exact .of_eval (Effects.bind_error heval) (.of_logs hlogs hinode) nofun
    · let f : DiskInode → DiskInode := fun x => { x.setAddr (Fin.last NDIRECT) b with a := fun _ => 0 }
      have hlast : ((t.modInode ip f).inode ip).addrs (Fin.last NDIRECT) = b := by
        simp [f, DiskInode.setAddr]
      have hmapped : ∀ bn, (s.inode ip).Mapped bn → (f (s.inode ip)).Mapped bn := by
        intro bn hbn
        exact DiskInode.Mapped.setAddr (x := { s.inode ip with a := fun _ => 0 }) hzero hne (hbn.fresh hzero)
      obtain ⟨ht, -, hgrows⟩ := enter (f := f) hs hinode hboot hlogs
        ⟨((hs.inode ip).toRanged.setAddr hb).addrs, fun _ => Nat.zero_lt_of_lt hb⟩ rfl
        (by rw [DiskInode.ind_eq_nil hzero]; exact List.nil_subset _) hmapped
      have hmem : b ∈ ((t.modInode ip f).inode ip).ind := by
        have hmem := DiskInode.mem_ind (x := (t.modInode ip f).inode ip) (by rw [hlast]; exact hne)
        rwa [hlast] at hmem
      refine .of_eval (t := t.modInode ip f) (r := .ok b) ((Effects.bind_ok heval).trans rfl) (hgrows.absorb hmem) ?_
      rintro _ ⟨rfl⟩
      exact ⟨ht, hlast.symm, hne⟩
  next hne => exact .pure (Grows.graded ip S) ⟨hs, rfl, hne⟩

theorem balloc_spec (hsize : sb.size ≤ FSSIZE) (hbm : sb.bmapstart ∈ S) (hs : Sound sb s) :
    Bounded (Grows ip S) 1 (balloc sb) s fun b t =>
      b ≠ 0 ∧ b < sb.size ∧ t.inode = s.inode ∧ t.bitmap 0 = true ∧ Logs (b :: S) 0 s t := by
  rcases balloc_cases hsize hbm hs.boot with ⟨e, t, heval, hinode, hlogs⟩ | ⟨b, t, heval, hne, hb, hinode, hboot, hlogs⟩
  · exact .of_eval heval (.of_logs (hlogs.mono (Nat.zero_le 1) (List.Subset.refl S)) hinode) nofun
  · refine .of_eval heval (.of_logs hlogs.count hinode) ?_
    rintro _ ⟨rfl⟩
    exact ⟨hne, hb, hinode, hboot, hlogs⟩

/-- `bmap` returns the address of block `bn`, which is there afterwards. -/
theorem bmap_spec (hsize : sb.size ≤ FSSIZE) (hbm : sb.bmapstart ∈ S) (hs : Sound sb s) (bn : Nat) :
    Bounded (Grows ip S) 1 (bmap sb ip bn) s fun addr t =>
      Sound sb t ∧ (t.inode ip).Mapped bn ∧ Grows ip (addr :: S) 0 s t := by
  have hR := Grows.graded ip S
  unfold bmap
  split
  next hlt =>
    apply Bounded.state
    split
    next hzero =>
      apply (balloc_spec hsize hbm hs).bind (k := 0) hR
      rintro b t ⟨hne, hb, hinode, hboot, hlogs⟩
      let f : DiskInode → DiskInode := fun x => (x.setAddr ⟨bn, by omega⟩ b).zeroed bn
      have hind : (f (s.inode ip)).ind = (s.inode ip).ind := by
        have hn : Fin.last NDIRECT ≠ (⟨bn, by omega⟩ : Fin (NDIRECT + 1)) := by
          intro heq
          exact absurd (Fin.val_eq_of_eq heq) (by simp; omega)
        simp [f, DiskInode.ind, DiskInode.setAddr, DiskInode.zeroed, hn]
      obtain ⟨ht, hstep, hgrows⟩ := enter (f := f) hs hinode hboot hlogs
        ⟨((hs.inode ip).toRanged.setAddr hb).addrs, (hs.inode ip).words⟩ rfl (hind ▸ List.Subset.refl _)
        fun _ hbn' => (hbn'.setAddr hzero hne).zeroed bn
      refine .modify_bind hR hstep (.pure hR ⟨ht, ?_, hgrows⟩)
      rw [modInode_self]
      exact .direct hlt (by simpa [f, DiskInode.setAddr, DiskInode.zeroed] using hne)
    next hne => exact .pure hR ⟨hs, .direct hlt hne, .of_logs (.same rfl rfl) rfl⟩
  next hge =>
    split
    next hlt =>
      apply (indirect_spec hsize hbm hs).rel.bind_free hR
      rintro bp u ⟨hfirst, hu, hbp, hind⟩
      apply Bounded.state
      split
      next hzero =>
        apply (balloc_spec hsize hbm hu).bind (k := 0) hR
        rintro b t ⟨hne, hb, hinode, hboot, hlogs⟩
        let f : DiskInode → DiskInode := fun x => (x.setWord ⟨bn - NDIRECT, hlt⟩ b).zeroed bn
        obtain ⟨ht, hstep, hgrows⟩ := enter (f := f) hu hinode hboot hlogs
          ⟨(hu.inode ip).addrs, ((hu.inode ip).toRanged.setWord hb).words⟩ rfl (List.Subset.refl _)
          fun _ hbn' => (hbn'.setWord hne).zeroed bn
        refine .modify_bind hR hstep ?_
        -- the indirect block itself is logged
        have hmem : bp ∈ ((t.modInode ip f).inode ip).ind := by
          rw [hbp] at hind ⊢
          rw [modInode_self, hinode]
          exact DiskInode.mem_ind (x := f (u.inode ip)) hind
        apply (log_write_grows (List.mem_append_left S hmem)).bind_free hR
        rintro _ _ rfl
        refine .pure hR ⟨ht.congr rfl rfl, ?_, ?_⟩
        · show ((t.modInode ip f).inode ip).Mapped bn
          rw [modInode_self, hinode]
          refine .indirect (Nat.le_of_not_lt hge) hlt (hbp ▸ hind) ?_
          simpa [f, DiskInode.setWord, DiskInode.zeroed] using hne
        · exact (hfirst.mono le_rfl (List.subset_cons_self b S)).trans
            (hgrows.trans (grows_logged (List.mem_append_left _ hmem)))
      next hne =>
        exact .pure hR ⟨hu, .indirect (Nat.le_of_not_lt hge) hlt (hbp ▸ hind) hne,
          hfirst.mono le_rfl (List.subset_cons_self _ S)⟩
    next => exact .fail hR

/-! ### Reads -/

theorem readiLoop_eq (hs : Sound sb s) {off rest : Nat} (h : off + rest ≤ (s.inode ip).size) :
    readiLoop sb ip off rest s = (.ok (), s) := by
  induction rest using Nat.strong_induction_on generalizing off with
  | _ rest ih =>
    rw [readiLoop]
    split
    next => rfl
    next hne =>
      have hlt := Nat.mod_lt off (show 0 < BSIZE by decide)
      have hbelow : off / BSIZE * BSIZE < (s.inode ip).size := by
        have hle := Nat.div_mul_le_self off BSIZE
        omega
      obtain ⟨addr, heval⟩ : ∃ addr, bmap sb ip (off / BSIZE) s = (.ok addr, s) :=
        bmap_mapped ((hs.inode ip).holes _ hbelow)
      refine (Effects.bind_ok heval).trans (ih _ ?_ ?_)
      · omega
      · omega

/-- A read of a sound state changes nothing. -/
theorem readi_eq (hs : Sound sb s) (ip off n : Nat) : ∃ r, readi sb ip off n s = (.ok r, s) := by
  unfold readi
  rw [Effects.state_bind]
  dsimp only
  split
  next => exact ⟨_, rfl⟩
  next =>
    split
    next => exact ⟨_, rfl⟩
    next hoff =>
      rw [not_or] at hoff
      have hloop : readiLoop sb ip off (min n ((s.inode ip).size - off)) s = (.ok (), s) :=
        readiLoop_eq hs (by omega)
      exact ⟨_, Effects.bind_ok hloop⟩

/-! ### Writes -/

theorem writeBlock_spec (hsize : sb.size ≤ FSSIZE) (hbm : sb.bmapstart ∈ S) (hs : Sound sb s)
    (src : Nat → UInt8) (off m : Nat) :
    Bounded (Grows ip S) 1 (writeBlock sb ip src off m) s fun _ t =>
      Sound sb t ∧ (t.inode ip).Mapped (off / BSIZE) := by
  apply (bmap_spec hsize hbm hs (off / BSIZE)).bind_from
  rintro addr t ⟨ht, hmapped, hgrows⟩
  -- the block that is logged here is the one that `bmap` may have logged
  refine Bounded.mono (R := Grows ip (addr :: S)) (n := 0) ?_ (fun _ hu => (hgrows.trans hu).count) fun _ _ h => h
  let f : DiskInode → DiskInode := fun x =>
    { x with data := fun j => if off ≤ j ∧ j < off + m then src (j - off) else x.data j }
  have hu : Sound sb (t.modInode ip f) := ht.modInode ((ht.inode ip).congr rfl rfl rfl)
  refine .modify_bind (Grows.graded ip _) (.modInode (List.Subset.refl _) fun _ hbn => hbn.congr rfl rfl) ?_
  apply (log_write_grows (List.mem_append_right _ List.mem_cons_self)).mono fun _ h => h
  rintro _ _ rfl
  refine ⟨hu.congr rfl rfl, ?_⟩
  show ((t.modInode ip f).inode ip).Mapped _
  rw [modInode_self]
  exact hmapped.congr rfl rfl

/-- After a round there is nothing left, or the next block starts. -/
theorem next_round {off rest k : Nat} (hk : rest = 0 ∨ off % BSIZE + rest ≤ k * BSIZE) (hne : rest ≠ 0) :
    0 < k ∧ (rest - min rest (BSIZE - off % BSIZE) = 0 ∨
      (off + min rest (BSIZE - off % BSIZE)) % BSIZE + (rest - min rest (BSIZE - off % BSIZE)) ≤ (k - 1) * BSIZE) := by
  unfold BSIZE at *
  omega

/-- The blocks below the new offset are those below the old one and the block
    of the round. -/
theorem below_round {off rest bn : Nat} (h : bn * BSIZE < off + min rest (BSIZE - off % BSIZE)) :
    bn * BSIZE < off ∨ bn = off / BSIZE := by
  unfold BSIZE at *
  omega

/-- `rest` bytes from `off` on lie in `k` blocks, and what is below `off` is
    there. -/
theorem writeiLoop_spec (hsize : sb.size ≤ FSSIZE) (hbm : sb.bmapstart ∈ S) (hs : Sound sb s)
    (src : Nat → UInt8) {off rest k : Nat} (hk : rest = 0 ∨ off % BSIZE + rest ≤ k * BSIZE)
    (hbelow : ∀ bn, bn * BSIZE < off → (s.inode ip).Mapped bn) :
    Bounded (Grows ip S) k (writeiLoop sb ip src off rest) s fun off' t =>
      Sound sb t ∧ ∀ bn, bn * BSIZE < off' → (t.inode ip).Mapped bn := by
  have hR := Grows.graded ip S
  induction rest using Nat.strong_induction_on generalizing s src off k with
  | _ rest ih =>
    rw [writeiLoop]
    split
    next => exact .pure hR ⟨hs, hbelow⟩
    next hne =>
      have hlt := Nat.mod_lt off (show 0 < BSIZE by decide)
      obtain ⟨hpos, hnext⟩ := next_round hk hne
      rw [← Nat.add_sub_cancel' hpos]
      apply (writeBlock_spec hsize hbm hs _ _ _).rel.bind hR
      rintro _ t ⟨hgrows, ht, hmapped⟩
      refine ih _ (by omega) ht _ hnext ?_
      intro bn hbn
      rcases below_round hbn with hbn | rfl
      · exact hgrows.mapped bn (hbelow bn hbn)
      · exact hmapped

/-- A write to `k` blocks of a file: these, the indirect block and the inode. -/
theorem writei_spec (hsize : sb.size ≤ FSSIZE) (hbm : sb.bmapstart ∈ S) (hs : Sound sb s)
    (src : Nat → UInt8) {off n k : Nat} (hk : off % BSIZE + n ≤ k * BSIZE) :
    Bounded (Logs S) (k + 1 + 1) (writei sb ip src off n) s fun _ t => Sound sb t := by
  apply count (b := sb.IBLOCK ip)
  have hR := Grows.graded ip (sb.IBLOCK ip :: S)
  refine Bounded.mono (R := Grows ip (sb.IBLOCK ip :: S)) (n := k) ?_ (fun _ => Grows.toLogs) fun _ _ h => h
  apply Bounded.state
  dsimp only
  split
  next => exact .pure hR hs
  next =>
    split
    next => exact .pure hR hs
    next hoff =>
      split
      next => exact .pure hR hs
      next =>
        rw [not_or] at hoff
        have hbelow : ∀ bn, bn * BSIZE < off → (s.inode ip).Mapped bn :=
          fun bn hbn => (hs.inode ip).holes bn (by omega)
        apply (writeiLoop_spec hsize (List.mem_cons_of_mem _ hbm) hs src (.inr hk) hbelow).bind (k := 0) hR
        rintro off' t ⟨ht, hbelow'⟩
        apply Bounded.state
        apply Bounded.bind_free (Q := fun _ u => Sound sb u) _ hR
        · intro _ u hu
          exact .pure hR hu
        · apply Bounded.when hR _ ht
          intro _
          have hgrown : Sound sb (t.modInode ip fun x => { x with size := off' }) := by
            apply ht.modInode
            exact ⟨⟨(ht.inode ip).addrs, (ht.inode ip).words⟩, fun bn hbn => (hbelow' bn hbn).congr rfl rfl⟩
          refine .modify_bind hR (.modInode (List.Subset.refl _) fun _ hbn => hbn.congr rfl rfl) ?_
          apply (log_write_grows (List.mem_append_right _ List.mem_cons_self)).mono fun _ h => h
          rintro _ _ rfl
          exact hgrown.congr rfl rfl

end Disk

end Paging
