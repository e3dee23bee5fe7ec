import OperatingSystem314.Paging.BlockWrites
import OperatingSystem314.Paging.SwapCreate

/-! # The swap file calls fit the log

    `begin_op` reserves `MAXOPBLOCKS` blocks of the log for a transaction.

    * Directories are searched without a change, and an entry costs at most
      three blocks: that of the entry, the indirect block and the inode.
    * `create_spec`, `unlinkSwapFile_spec`, `writeChunk_spec`: a bound for
      each transaction.
    * `swap_file_transactions_fit`: no transaction of `createSwapFile`,
      `removeSwapFile` and `writeToSwapFile` logs more than `MAXOPBLOCKS`
      blocks, not even one that ends in a panic. -/

namespace Paging

open Effects (Graded Bounded modify when)

namespace Disk

variable {sb : Superblock} {s t : Disk} {ip : Nat} {S : List Nat} {n : Nat}

/-! ### Searching a directory -/

theorem offsets_mod (size : Nat) : ∀ off ∈ offsets size, off % 16 = 0 := by
  intro off hoff
  obtain ⟨i, _, rfl⟩ := List.mem_map.mp hoff
  exact Nat.mul_mod_right 16 i

theorem lookupLoop_eq (hs : Sound sb s) (dp : Nat) (name : List Char) (offs : List Nat) :
    ∃ r, lookupLoop sb dp name offs s = (r, s) ∧ ∀ inum off, r = .ok (some (inum, off)) → off ∈ offs := by
  induction offs with
  | nil => exact ⟨_, rfl, nofun⟩
  | cons off rest ih =>
    obtain ⟨r, hread⟩ := readi_eq hs dp off 16
    rw [lookupLoop, Effects.bind_ok hread]
    split
    · exact ⟨_, rfl, nofun⟩
    · rw [Effects.state_bind]
      split
      · refine ⟨_, rfl, ?_⟩
        rintro inum off' ⟨rfl⟩
        exact List.mem_cons_self
      · obtain ⟨r, heval, hmem⟩ := ih
        exact ⟨r, heval, fun inum off' hr => List.mem_cons_of_mem off (hmem inum off' hr)⟩

theorem emptyLoop_eq (hs : Sound sb s) (dp : Nat) {off : Nat} (hoff : off % 16 = 0) {offs : List Nat}
    (hoffs : ∀ off ∈ offs, off % 16 = 0) :
    ∃ r, emptyLoop sb dp off offs s = (r, s) ∧ ∀ off', r = .ok off' → off' % 16 = 0 := by
  induction offs generalizing off with
  | nil =>
    refine ⟨_, rfl, ?_⟩
    rintro off' ⟨rfl⟩
    exact hoff
  | cons off' rest ih =>
    have hoff' : off' % 16 = 0 := hoffs off' List.mem_cons_self
    obtain ⟨r, hread⟩ := readi_eq hs dp off' 16
    rw [emptyLoop, Effects.bind_ok hread]
    split
    · exact ⟨_, rfl, nofun⟩
    · rw [Effects.state_bind]
      split
      · refine ⟨_, rfl, ?_⟩
        rintro _ ⟨rfl⟩
        exact hoff'
      · exact ih (by omega) fun o ho => hoffs o (List.mem_cons_of_mem off' ho)

theorem emptyDirLoop_eq (hs : Sound sb s) (dp : Nat) (offs : List Nat) :
    ∃ r, emptyDirLoop sb dp offs s = (r, s) := by
  induction offs with
  | nil => exact ⟨_, rfl⟩
  | cons off rest ih =>
    obtain ⟨r, hread⟩ := readi_eq hs dp off 16
    rw [emptyDirLoop, Effects.bind_ok hread]
    split
    · exact ⟨_, rfl⟩
    · rw [Effects.state_bind]
      split
      · exact ⟨_, rfl⟩
      · exact ih

theorem isdirempty_spec (hs : Sound sb s) (dp : Nat) :
    Bounded (Logs S) 0 (isdirempty sb dp) s fun _ t => Sound sb t := by
  obtain ⟨r, heval⟩ := emptyDirLoop_eq hs dp ((offsets (s.inode dp).size).drop 2)
  exact .of_eval heval (.same rfl rfl) fun _ _ => hs

theorem removable_spec (hs : Sound sb s) (ip : Nat) :
    Bounded (Logs S) 0 (removable sb ip) s fun _ t => Sound sb t := by
  apply Bounded.state
  split
  · exact isdirempty_spec hs ip
  · exact .pure (Logs.graded S) hs

theorem dirlookup_spec (hs : Sound sb s) (dp : Nat) (name : List Char) :
    Bounded (Logs S) 0 (dirlookup sb dp name) s fun r t =>
      Sound sb t ∧ ∀ inum off, r = some (inum, off) → off % 16 = 0 := by
  have hR := Logs.graded S
  apply Bounded.state
  split
  · exact .fail hR
  · obtain ⟨r, heval, hmem⟩ := lookupLoop_eq hs dp name (offsets (s.inode dp).size)
    have hloop : Bounded (Logs S) 0 (lookupLoop sb dp name (offsets (s.inode dp).size)) s fun r t =>
        t = s ∧ ∀ inum off, r = some (inum, off) → off ∈ offsets (s.inode dp).size := by
      refine .of_eval heval (.same rfl rfl) ?_
      rintro a rfl
      exact ⟨rfl, fun inum off ha => hmem inum off (by rw [ha])⟩
    apply hloop.bind_free hR
    rintro r _ ⟨rfl, hmem⟩
    split
    · exact .pure hR ⟨hs, by simp⟩
    next inum off =>
      apply (iget_spec inum hs).bind_free hR
      intro _ t ht
      refine .pure hR ⟨ht, ?_⟩
      rintro _ _ ⟨⟩
      exact offsets_mod _ _ (hmem inum off rfl)

/-! ### Changing a directory -/

variable (hsize : sb.size ≤ FSSIZE) (hbm : sb.bmapstart ∈ S)

include hsize hbm

/-- An entry lies in one block. -/
theorem writeEntry_spec (hs : Sound sb s) (src : Nat → UInt8) {off : Nat} (hoff : off % 16 = 0) :
    Bounded (Logs S) 3 (writei sb ip src off 16) s fun _ t => Sound sb t := by
  have hblock : off % BSIZE + 16 ≤ 1 * BSIZE := by
    unfold BSIZE
    omega
  exact writei_spec hsize hbm hs src hblock

theorem iput_counted (hs : Sound sb s) : Bounded (Logs S) 1 (iput sb ip) s fun _ t => Sound sb t :=
  count (iput_spec hsize (List.mem_cons_of_mem _ hbm) List.mem_cons_self hs)

omit hsize hbm in
theorem iupdate_counted (hs : Sound sb s) : Bounded (Logs S) 1 (iupdate sb ip) s fun _ t => Sound sb t :=
  count (iupdate_spec List.mem_cons_self hs)

theorem dirlink_spec (hs : Sound sb s) (dp : Nat) (name : List Char) (inum : Nat) :
    Bounded (Logs S) 3 (dirlink sb dp name inum) s fun _ t => Sound sb t := by
  have hR := Logs.graded S
  apply (dirlookup_spec hs dp name).bind_free hR
  rintro r t ⟨ht, -⟩
  split
  · refine Bounded.weaken (n := 1 + 0) ?_ hR (by omega)
    apply (iput_counted hsize hbm ht).bind hR
    intro _ u hu
    exact .pure hR hu
  · apply Bounded.state
    obtain ⟨r, heval, hmod⟩ := emptyLoop_eq ht dp (Nat.zero_mod 16) (offsets_mod (t.inode dp).size)
    have hloop : Bounded (Logs S) 0 (emptyLoop sb dp 0 (offsets (t.inode dp).size)) t fun off u =>
        u = t ∧ off % 16 = 0 := by
      refine .of_eval heval (.same rfl rfl) ?_
      rintro a rfl
      exact ⟨rfl, hmod a rfl⟩
    apply hloop.bind_free hR
    rintro off _ ⟨rfl, hoff⟩
    apply (writeEntry_spec hsize hbm ht _ hoff).bind (k := 0) hR
    intro r u hu
    split
    · exact .fail hR
    · exact .pure hR hu

/-! ### Paths and `create` -/

/-- The path of a swap file has one element, so one directory is passed. -/
theorem nameiparent_spec (hs : Sound sb s) (cwd pid : Nat) :
    Bounded (Logs S) 1 (nameiparent sb cwd (swapPath pid)) s fun _ t => Sound sb t := by
  have hR := Logs.graded S
  unfold nameiparent
  rw [if_pos (show (swapPath pid).head? = some '/' from rfl)]
  apply (iget_spec ROOTINO hs).bind_free hR
  intro _ t ht
  rw [nameiparentLoop]
  split
  next hnone =>
    rw [skipelem_swapPath] at hnone
    cases hnone
  next name rest hsome =>
    rw [skipelem_swapPath] at hsome
    cases hsome
    apply (ilock_spec ht).bind_free hR
    intro _ u hu
    apply Bounded.state
    split
    · apply (iunlockput_spec hsize hbm hu).bind (k := 0) hR
      intro _ v hv
      exact .pure hR hv
    · rw [if_pos rfl]
      refine Bounded.weaken (n := 0) ?_ hR (Nat.zero_le 1)
      apply (iunlock_spec _ hu).bind_free hR
      intro _ v hv
      exact .pure hR hv

theorem create_spec (hs : Sound sb s) (cwd pid : Nat) (major : Nat) :
    Bounded (Logs S) 7 (create sb cwd (swapPath pid) .T_FILE major) s fun _ t => Sound sb t := by
  have hR := Logs.graded S
  apply (nameiparent_spec hsize hbm hs cwd pid).bind (k := 6) hR
  intro r t ht
  split
  · exact .pure hR ht
  next dp name =>
    apply (ilock_spec ht).bind_free hR
    intro _ u hu
    apply (dirlookup_spec hu dp name).bind_free hR
    rintro r v ⟨hv, -⟩
    split
    next ip _ =>
      -- the file exists
      apply (iunlockput_spec hsize hbm hv).bind (k := 5) hR
      intro _ w hw
      apply (ilock_spec hw).bind_free hR
      intro _ x hx
      apply Bounded.state
      split
      · exact .pure hR hx
      · apply (iunlockput_spec hsize hbm hx).bind (k := 4) hR
        intro _ y hy
        exact .pure hR hy
    next =>
      apply (ialloc_spec hv).bind (k := 5) hR
      intro ip w hw
      apply (ilock_spec hw).bind_free hR
      intro _ x hx
      refine .modify_bind hR (.same rfl rfl) ?_
      have hy : Sound sb (x.modInode ip fun x => { x with major, nlink := 1 }) :=
        hx.modInode ((hx.inode ip).congr rfl rfl rfl)
      apply (iupdate_counted hy).bind (k := 4) hR
      intro _ z hz
      apply Bounded.bind_free (Q := fun _ w => Sound sb w) _ hR
      · intro _ w hw
        apply (dirlink_spec hsize hbm hw dp name ip).bind (k := 1) hR
        intro r x hx
        split
        · exact .fail hR
        · apply (iunlockput_spec hsize hbm hx).bind (k := 0) hR
          intro _ y hy
          exact .pure hR hy
      · exact .when hR (fun h => nomatch h) hz

end Disk

/-! ### Transactions -/

namespace Disk

variable {sb : Superblock} {s t : Disk} {ip : Nat} {S : List Nat} {n K : Nat}

/-- Every transaction has logged at most `K` blocks. -/
def Within (K : Nat) (s : Disk) : Prop := ∀ T ∈ s.txn :: s.done, T.dedup.length ≤ K

/-- Transactions stay within `K` blocks. -/
def StaysWithin (K : Nat) (_ : Nat) (s t : Disk) : Prop := Within K s → Within K t

theorem staysWithin_graded (K : Nat) : Graded (StaysWithin K) where
  refl := fun _ h => h
  trans := fun h h' hs => h' (h hs)
  mono := fun _ h => h

theorem Adds.length_le {T : List Nat} (h : Adds S n [] T) : T.dedup.length ≤ S.length + n := by
  obtain ⟨l, hl, hT⟩ := h
  have hsub : T.dedup ⊆ S ++ l := by
    intro b hb
    rcases hT b (List.mem_dedup.mp hb) with hb | hb | hb
    · cases hb
    · exact List.mem_append_left l hb
    · exact List.mem_append_right S hb
  have hlen := (List.subperm_of_subset (List.nodup_dedup T) hsub).length_le
  rw [List.length_append] at hlen
  omega

/-- The state after `begin_op`. -/
def begun (s : Disk) : Disk := { s with outstanding := s.outstanding + 1, txn := [] }

theorem Sound.begun (h : Sound sb s) : Sound sb s.begun := h.congr rfl rfl

theorem Sound.setFile (h : Sound sb s) (f : Fin NFILE) (x : File) : Sound sb (s.setFile f x) := h.congr rfl rfl

/-- A transaction that logs at most `n` blocks. -/
theorem transaction {α : Type} {op : Op α} {Q : α → Disk → Prop} (hK : S.length + n ≤ K)
    (h : Bounded (Logs S) n op s.begun Q) : Bounded (StaysWithin K) 0 (begin_op >>= fun _ => op) s Q := by
  refine ⟨fun hs => ?_, h.2⟩
  obtain ⟨htxn, hdone⟩ := h.1
  intro T hT
  rcases List.mem_cons.mp hT with rfl | hT
  · exact htxn.length_le.trans hK
  · rcases hdone T hT with hold | hadd
    · exact hs T (List.mem_cons_of_mem _ hold)
    · exact hadd.length_le.trans hK

theorem end_op_spec (hs : Sound sb s) : Bounded (Logs S) 0 end_op s fun _ t => Sound sb t := by
  refine .modify ⟨.of_subset nofun, ?_⟩ (hs.congr rfl rfl)
  intro T hT
  rcases List.mem_cons.mp hT with rfl | hT
  · exact .inr (.of_subset fun _ hb => .inl hb)
  · exact .inl hT

/-! ### The three calls -/

theorem filealloc_spec (hs : Sound sb s) : Bounded (Logs S) 0 filealloc s fun _ t => Sound sb t := by
  have hR := Logs.graded S
  apply Bounded.state
  split
  · exact .pure hR hs
  · exact .modify_bind hR (.same rfl rfl) (.pure hR (hs.congr rfl rfl))

theorem createSwapFile_spec (hsize : sb.size ≤ FSSIZE) (hs : Sound sb s) (cwd pid : Nat) :
    Bounded (StaysWithin MAXOPBLOCKS) 0 (createSwapFile sb cwd pid) s fun _ t => Sound sb t := by
  have hbm : sb.bmapstart ∈ [sb.bmapstart] := List.mem_cons_self
  have hR := Logs.graded [sb.bmapstart]
  apply transaction (S := [sb.bmapstart]) (n := 7) (show 1 + 7 ≤ 10 by decide)
  apply (create_spec hsize hbm hs.begun cwd pid 0).bind (k := 0) hR
  intro ip t ht
  apply (iunlock_spec ip ht).bind_free hR
  intro _ u hu
  apply (filealloc_spec hu).bind_free hR
  intro f v hv
  split
  · exact .fail hR
  · refine .modify_bind hR (.same rfl rfl) ?_
    apply (end_op_spec (hv.setFile _ _)).bind_free hR
    intro _ w hw
    exact .pure hR hw

theorem fileclose_spec (hsize : sb.size ≤ FSSIZE) (hs : Sound sb s) (f : Fin NFILE) :
    Bounded (StaysWithin MAXOPBLOCKS) 0 (fileclose sb f) s fun _ t => Sound sb t := by
  have hbm : sb.bmapstart ∈ [sb.bmapstart] := List.mem_cons_self
  have hR := Logs.graded [sb.bmapstart]
  have hK := staysWithin_graded MAXOPBLOCKS
  apply Bounded.state
  dsimp only
  split
  · exact .fail hK
  · split
    · exact .modify (fun h => h) (hs.setFile _ _)
    · refine .modify_bind hK (fun h => h) ?_
      apply Bounded.when hK _ (hs.setFile _ _)
      intro _
      apply transaction (S := [sb.bmapstart]) (n := 1) (show 1 + 1 ≤ 10 by decide)
      apply (iput_counted hsize hbm (hs.setFile _ _).begun).bind (k := 0) hR
      intro _ t ht
      exact end_op_spec ht

/-- From `nameiparent` on. -/
theorem unlinkSwapFile_spec (hsize : sb.size ≤ FSSIZE) (hs : Sound sb s) (cwd pid : Nat) :
    Bounded (StaysWithin MAXOPBLOCKS) 0 (unlinkSwapFile sb cwd pid) s fun _ t => Sound sb t := by
  have hbm : sb.bmapstart ∈ [sb.bmapstart] := List.mem_cons_self
  have hR := Logs.graded [sb.bmapstart]
  apply transaction (S := [sb.bmapstart]) (n := 8) (show 1 + 8 ≤ 10 by decide)
  apply (nameiparent_spec hsize hbm hs.begun cwd pid).bind (k := 7) hR
  intro r t ht
  split
  · refine Bounded.weaken (n := 0) ?_ hR (Nat.zero_le 7)
    apply (end_op_spec ht).bind_free hR
    intro _ u hu
    exact .pure hR hu
  next dp name =>
    -- the way out of every failure
    have hbad : ∀ {u}, Sound sb u → Bounded (Logs [sb.bmapstart]) 1
        (do iunlockput sb dp; end_op; return -1 : Op Int) u fun _ t => Sound sb t := by
      intro u hu
      apply (iunlockput_spec hsize hbm hu).bind (k := 0) hR
      intro _ v hv
      apply (end_op_spec hv).bind_free hR
      intro _ w hw
      exact .pure hR hw
    apply (ilock_spec ht).bind_free hR
    intro _ u hu
    split
    · exact (hbad hu).weaken hR (by omega)
    · apply (dirlookup_spec hu dp name).bind_free hR
      rintro r v ⟨hv, hoff⟩
      split
      · exact (hbad hv).weaken hR (by omega)
      next ip off =>
        apply (ilock_spec hv).bind_free hR
        intro _ w hw
        apply Bounded.state
        split
        · exact .fail hR
        · apply (removable_spec hw ip).bind_free hR
          intro _ x hx
          split
          · apply (iunlockput_spec hsize hbm hx).bind (k := 6) hR
            intro _ y hy
            exact (hbad hy).weaken hR (by omega)
          · apply (writeEntry_spec hsize hbm hx _ (hoff ip off rfl)).bind (k := 4) hR
            intro r y hy
            split
            · exact .fail hR
            · have hdots : Bounded (Logs [sb.bmapstart]) 1 (when ((w.inode ip).type = .T_DIR) do
                  modify fun s => s.modInode dp fun x => { x with nlink := x.nlink - 1 }
                  iupdate sb dp) y fun _ t => Sound sb t := by
                apply Bounded.when hR _ hy
                intro _
                refine .modify_bind hR (.same rfl rfl) (iupdate_counted ?_)
                exact hy.modInode ((hy.inode dp).congr rfl rfl rfl)
              apply hdots.bind (k := 3) hR
              intro _ z hz
              apply (iunlockput_spec hsize hbm hz).bind (k := 2) hR
              intro _ a ha
              refine .modify_bind hR (.same rfl rfl) ?_
              have hb : Sound sb (a.modInode ip fun x => { x with nlink := x.nlink - 1 }) :=
                ha.modInode ((ha.inode ip).congr rfl rfl rfl)
              apply (iupdate_counted hb).bind (k := 1) hR
              intro _ c hc
              apply (iunlockput_spec hsize hbm hc).bind (k := 0) hR
              intro _ d hd
              apply (end_op_spec hd).bind_free hR
              intro _ e he
              exact .pure hR he

theorem removeSwapFile_spec (hsize : sb.size ≤ FSSIZE) (hs : Sound sb s) (cwd pid : Nat)
    (swapFile : Option (Fin NFILE)) :
    Bounded (StaysWithin MAXOPBLOCKS) 0 (removeSwapFile sb cwd pid swapFile) s fun _ t => Sound sb t := by
  have hK := staysWithin_graded MAXOPBLOCKS
  cases swapFile with
  | none => exact .pure hK hs
  | some f =>
    apply (fileclose_spec hsize hs f).bind_free hK
    intro _ t ht
    exact unlinkSwapFile_spec hsize ht cwd pid

/-- A chunk: `MAXWRITE` bytes lie in at most four blocks. -/
theorem writeChunk_spec (hsize : sb.size ≤ FSSIZE) (hs : Sound sb s) (f : Fin NFILE) (src : Nat → UInt8) {n1 : Nat}
    (hn : n1 ≤ Fs.MAXWRITE) :
    Bounded (StaysWithin MAXOPBLOCKS) 0 (writeChunk sb f src n1) s fun _ t => Sound sb t := by
  have hbm : sb.bmapstart ∈ [sb.bmapstart] := List.mem_cons_self
  have hR := Logs.graded [sb.bmapstart]
  apply transaction (S := [sb.bmapstart]) (n := 6) (show 1 + 6 ≤ 10 by decide)
  apply Bounded.state
  dsimp only
  apply (ilock_spec hs.begun).bind_free hR
  intro _ t ht
  have hblocks : (s.begun.ftable f).off % BSIZE + n1 ≤ 4 * BSIZE := by
    have hlt := Nat.mod_lt (s.begun.ftable f).off (show 0 < BSIZE by decide)
    unfold Fs.MAXWRITE at hn
    unfold BSIZE at *
    omega
  apply (writei_spec hsize hbm ht src hblocks).bind (k := 0) hR
  intro r u hu
  apply Bounded.bind_free (Q := fun _ v => Sound sb v) _ hR
  · intro _ v hv
    apply (iunlock_spec _ hv).bind_free hR
    intro _ w hw
    apply (end_op_spec hw).bind_free hR
    intro _ x hx
    exact .pure hR hx
  · apply Bounded.when hR _ hu
    intro _
    exact .modify (.same rfl rfl) (hu.setFile _ _)

theorem filewriteLoop_spec (hsize : sb.size ≤ FSSIZE) (hs : Sound sb s) (f : Fin NFILE) (src : Nat → UInt8)
    (n : Int) (i : Nat) :
    Bounded (StaysWithin MAXOPBLOCKS) 0 (filewriteLoop sb f src n i) s fun _ t => Sound sb t := by
  have hK := staysWithin_graded MAXOPBLOCKS
  induction hrest : n.toNat - i using Nat.strong_induction_on generalizing s i with
  | _ rest ih =>
    rw [filewriteLoop]
    split
    next hlt =>
      have hmax : 0 < Fs.MAXWRITE := by decide
      apply (writeChunk_spec hsize hs f _ (Nat.min_le_right _ _)).bind_free hK
      intro r t ht
      split
      · exact .pure hK ht
      · split
        · exact .fail hK
        next hr =>
          rw [not_not] at hr
          exact ih _ (by omega) ht _ rfl
    next => exact .pure hK hs

theorem writeToSwapFile_spec (hsize : sb.size ≤ FSSIZE) (hs : Sound sb s) (swapFile : Option (Fin NFILE))
    (buffer : Nat → UInt8) (placeOnFile : Nat) (size : Int) :
    Bounded (StaysWithin MAXOPBLOCKS) 0 (writeToSwapFile sb swapFile buffer placeOnFile size) s fun _ t =>
      Sound sb t := by
  have hK := staysWithin_graded MAXOPBLOCKS
  cases swapFile with
  | none => exact .fail hK
  | some f =>
    refine .modify_bind hK (fun h => h) ?_
    apply Bounded.state
    dsimp only
    split
    · exact .pure hK (hs.setFile _ _)
    · split
      · exact .fail hK
      · apply (filewriteLoop_spec hsize (hs.setFile _ _) f buffer size 0).bind_free hK
        intro i t ht
        exact .pure hK ht

/-! ### What is reserved is enough -/

theorem mem_absorb {b c : Nat} {lh : List Nat} : b ∈ absorb c lh ↔ b = c ∨ b ∈ lh := by
  unfold absorb
  split
  next hc =>
    refine ⟨.inr, ?_⟩
    rintro (rfl | hb)
    · exact hc
    · exact hb
  next => rw [List.mem_append, List.mem_singleton, or_comm]

theorem subset_absorbed (lh T : List Nat) : T ⊆ T.foldr absorb lh := by
  induction T with
  | nil => exact List.nil_subset _
  | cons c T ih =>
    intro b hb
    rw [List.foldr_cons, mem_absorb]
    rcases List.mem_cons.mp hb with rfl | hb
    · exact .inl rfl
    · exact .inr (ih hb)

/-- A transaction takes as much of the log as it has blocks. -/
theorem length_absorbed_le (lh T : List Nat) : (T.foldr absorb lh).length ≤ lh.length + T.dedup.length := by
  induction T with
  | nil => exact Nat.le_refl _
  | cons c T ih =>
    rw [List.foldr_cons]
    by_cases hc : c ∈ T
    · rw [absorb, if_pos (subset_absorbed lh T hc), List.dedup_cons_of_mem hc]
      exact ih
    · rw [List.dedup_cons_of_notMem hc, List.length_cons]
      have hone : (absorb c (T.foldr absorb lh)).length ≤ (T.foldr absorb lh).length + 1 := by
        unfold absorb
        split
        · exact Nat.le_succ _
        · rw [List.length_append, List.length_singleton]
      omega

/-- No transaction logs more than `MAXOPBLOCKS` blocks.  When `begin_op` has
    found room for it beside `outstanding` others, their room is left. -/
def FitsLog (s : Disk) : Prop :=
  ∀ T ∈ s.txn :: s.done, T.dedup.length ≤ MAXOPBLOCKS ∧
    ∀ (lh : List Nat) (outstanding : Nat), lh.length + (outstanding + 1) * MAXOPBLOCKS ≤ LOGSIZE →
      (T.foldr absorb lh).length + outstanding * MAXOPBLOCKS ≤ LOGSIZE

theorem Within.fitsLog (h : Within MAXOPBLOCKS s) : FitsLog s := by
  intro T hT
  refine ⟨h T hT, ?_⟩
  intro lh outstanding hroom
  have hlen := length_absorbed_le lh T
  have hle := h T hT
  rw [Nat.succ_mul] at hroom
  omega

/-- What a call has logged fits, and when it returns then the disk is sound
    again. -/
def LeavesRoom {α : Type} (sb : Superblock) (r : Except Stop α × Disk) : Prop :=
  FitsLog r.2 ∧ ∀ a, r.1 = .ok a → Sound sb r.2

theorem leavesRoom {α : Type} {op : Op α}
    (h : Bounded (StaysWithin MAXOPBLOCKS) 0 op s fun _ t => Sound sb t) (hs : Within MAXOPBLOCKS s) :
    LeavesRoom sb (op s) :=
  ⟨(h.1 hs).fitsLog, h.2⟩

/-- On every disk of at most `FSSIZE` blocks whose files have the blocks that
    they need. -/
theorem swap_file_transactions_fit (hsize : sb.size ≤ FSSIZE) (hs : Sound sb s) (htxn : s.txn = [])
    (hdone : s.done = []) :
    (∀ cwd pid, LeavesRoom sb (createSwapFile sb cwd pid s)) ∧
      (∀ cwd pid swapFile, LeavesRoom sb (removeSwapFile sb cwd pid swapFile s)) ∧
      ∀ swapFile buffer placeOnFile size, LeavesRoom sb (writeToSwapFile sb swapFile buffer placeOnFile size s) := by
  have hnone : Within MAXOPBLOCKS s := by
    rw [Within, htxn, hdone]
    intro T hT
    rw [List.mem_singleton.mp hT]
    exact Nat.zero_le _
  refine ⟨?_, ?_, ?_⟩
  · intro cwd pid
    exact leavesRoom (createSwapFile_spec hsize hs cwd pid) hnone
  · intro cwd pid swapFile
    exact leavesRoom (removeSwapFile_spec hsize hs cwd pid swapFile) hnone
  · intro swapFile buffer placeOnFile size
    exact leavesRoom (writeToSwapFile_spec hsize hs swapFile buffer placeOnFile size) hnone

/-- The layout that `mkfs` makes. -/
def mkfsLayout : Superblock := ⟨1000, 200, 32, 58⟩

/-- A root directory with the entries of one block, and nothing else. -/
def rootOnly : Disk where
  inode n :=
    { type := if n = ROOTINO then .T_DIR else .free
      major := 0
      nlink := 1
      size := if n = ROOTINO then 512 else 0
      addrs := fun i => if n = ROOTINO ∧ i = 0 then 59 else 0
      a := fun _ => 0
      data := fun j => if n = ROOTINO ∧ (j = 0 ∨ j = 16) then 1 else if n = ROOTINO ∧ (j = 2 ∨ j = 18 ∨ j = 19) then 46 else 0 }
  iref _ := 0
  ivalid _ := false
  bitmap b := b < 60
  ftable _ := { type := .FD_NONE, ref := 0, readable := false, writable := false, pipe := 0, ip := 0, off := 0 }
  outstanding := 0
  txn := []
  done := []

theorem rootOnly_sound : Sound mkfsLayout rootOnly := by
  refine ⟨fun n => ⟨⟨?_, fun _ => Nat.zero_lt_succ 999⟩, ?_⟩, rfl⟩
  · intro i
    show (if n = ROOTINO ∧ i = 0 then 59 else 0) < 1000
    split <;> omega
  · intro bn hbn
    change bn * 512 < (if n = ROOTINO then 512 else 0) at hbn
    split at hbn
    next hroot =>
      have hbn0 : bn = 0 := by omega
      subst hbn0
      exact .direct (by decide) (by simp [rootOnly, hroot])
    next => exact absurd hbn (Nat.not_lt_zero _)

theorem swap_file_transactions_fit_rootOnly :
    (∀ cwd pid, LeavesRoom mkfsLayout (createSwapFile mkfsLayout cwd pid rootOnly)) ∧
      (∀ cwd pid swapFile, LeavesRoom mkfsLayout (removeSwapFile mkfsLayout cwd pid swapFile rootOnly)) ∧
      ∀ swapFile buffer placeOnFile size,
        LeavesRoom mkfsLayout (writeToSwapFile mkfsLayout swapFile buffer placeOnFile size rootOnly) :=
  swap_file_transactions_fit (by decide) rootOnly_sound rfl rfl

end Disk

end Paging
