import Koros.Lib.Effect
import Koros.Ext2.Open

/-!
# The states of a read-only mount

A mount with features the driver does not know is read-only: every block write and every allocation fails. `Unchanged`
says that a mount is as it was opened, but for inodes that were read from the disk into memory, and for the index flag
of directories that a failed call cleared in memory only. What a query returns does not depend on which of these states
it meets (`readAt_reads`, `dirList_reads`, `getattr_reads`, `readlink_reads`, `getxattr_reads`, …).
-/
set_option autoImplicit false

namespace Koros.Ext2

open Koros.Lib Xattr

/-! ## States that look the same -/

/-- Equal but for the flags. -/
def RawInode.Same (r r' : RawInode) : Prop := ∀ j, ¬ (32 ≤ j ∧ j < 36) → r.bytes j = r'.bytes j

namespace RawInode.Same

variable {r r' r'' : RawInode}

theorem refl (r : RawInode) : r.Same r := fun _ _ => rfl

theorem symm (h : r.Same r') : r'.Same r := fun j hj => (h j hj).symm

theorem trans (h : r.Same r') (h' : r'.Same r'') : r.Same r'' := fun j hj => (h j hj).trans (h' j hj)

theorem get_eq (h : r.Same r') {i n : Nat} (hin : i + n ≤ 32 ∨ 36 ≤ i) : r.get i n = r'.get i n :=
  leNat_congr fun j h₁ h₂ => h j (by omega)

theorem mode_eq (h : r.Same r') : r.mode = r'.mode := h.get_eq (.inl (by omega))

theorem fmt_eq (h : r.Same r') : r.fmt = r'.fmt := by rw [RawInode.fmt, RawInode.fmt, h.mode_eq]

theorem size32_eq (h : r.Same r') : r.size32 = r'.size32 := h.get_eq (.inl (by omega))

theorem blocks_eq (h : r.Same r') : r.blocks = r'.blocks := h.get_eq (.inl (by omega))

theorem block_eq (h : r.Same r') (k : Nat) : r.block k = r'.block k := h.get_eq (.inr (by omega))

theorem fileAcl_eq (h : r.Same r') : r.fileAcl = r'.fileAcl := h.get_eq (.inr (by omega))

theorem dirAcl_eq (h : r.Same r') : r.dirAcl = r'.dirAcl := h.get_eq (.inr (by omega))

theorem slice_eq (h : r.Same r') (n : Nat) : slice r.bytes 40 n = slice r'.bytes 40 n :=
  slice_congr fun j h₁ _ => h j (by omega)

theorem setFlags (r : RawInode) (v : Nat) : (r.setFlags v).Same r := by
  intro j hj
  show (if j < 128 then putLe r.bytes 32 4 v j else 0) = r.bytes j
  split
  · exact blit_of_outside (by omega)
  · rename_i hlt
    exact (r.tail j (by omega)).symm

end RawInode.Same

/-- A filesystem without its inodes in memory. -/
def Ext2Fs.bare (fs : Ext2Fs) : Ext2Fs := { fs with inodeCache := fun _ => none }

/-- Two mounts of one image. -/
def Alike (fs fs' : Ext2Fs) : Prop := fs.superBlock.Accepted ∧ fs.bare = fs'.bare

/-- Two mounts of one image with inode `ino` in memory. -/
def Peer (ino : Nat) (fs fs' : Ext2Fs) : Prop :=
  Alike fs fs' ∧ ∃ r r', fs.inodeCache ino = some r ∧ fs'.inodeCache ino = some r' ∧ r.Same r'

/-- An error that the caller gets, no crash. -/
def Reported (e : Fault) : Prop := e ≠ .panic

theorem reported (e : FsError) : Reported (.err e) := fun h => Fault.noConfusion h

section Disk

variable {ino : Nat} {α : Type}

/-- What only reads the disk does not depend on the inodes in memory. -/
theorem reads_peer {x : FsM α} (h : Reads Reported Alike x) : Reads Reported (Peer ino) x := h.mono fun _ _ hp => hp.1

theorem alike_get {f : Ext2Fs → FsM α} (hbare : ∀ fs, f fs = f fs.bare) (hf : ∀ fs, Reads Reported Alike (f fs)) :
    Reads Reported Alike (get >>= f) := by
  apply Reads.get_bind
  · intro fs fs' h
    rw [hbare fs, hbare fs', h.2]
  · exact hf

theorem readFsBlock_reads (b : Nat) : Reads Reported Alike (readFsBlock b) := by
  unfold readFsBlock
  apply alike_get (fun _ => rfl)
  intro fs
  split
  · exact Reads.pure _
  · exact Reads.throw (reported _)

theorem readFsBlocks_reads (b n : Nat) : Reads Reported Alike (readFsBlocks b n) := by
  unfold readFsBlocks
  apply alike_get (fun _ => rfl)
  intro fs
  split
  · exact Reads.pure _
  · exact Reads.throw (reported _)

theorem ptrsPerBlock_reads : Reads Reported Alike ptrsPerBlock := alike_get (fun _ => rfl) fun _ => Reads.pure _

theorem readIndirectEntry_reads (b i : Nat) : Reads Reported Alike (readIndirectEntry b i) := by
  unfold readIndirectEntry
  apply alike_get (fun _ => rfl)
  intro fs
  apply (readFsBlock_reads b).bind
  intro buf
  split
  · exact Reads.throw (reported _)
  · exact Reads.pure _

theorem readIndirectBlock_reads (b : Nat) : Reads Reported Alike (readIndirectBlock b) := by
  unfold readIndirectBlock
  apply alike_get (fun _ => rfl)
  intro fs
  exact (readFsBlock_reads b).bind fun _ => Reads.pure _

theorem locateInode_reads (n : Nat) : Reads Reported Alike (locateInode n) := by
  unfold locateInode
  apply alike_get (fun _ => rfl)
  intro fs
  apply Reads.bind
  · unfold getGroup
    apply alike_get (fun _ => rfl)
    intro fs
    split
    · exact Reads.pure _
    · exact Reads.throw (reported _)
  · intro bg
    exact Reads.pure _

/-- An inode lies in one block. -/
theorem SuperBlock.Accepted.offset_le {sb : SuperBlock} (h : sb.Accepted) (i : Nat) :
    i * sb.inodeSize % sb.blockSize + 128 ≤ sb.blockSize := by
  have hslot := h.slot_le i
  have hmin := h.inodeSize.1
  omega

theorem locateInode_offset {n : Nat} {fs fs' : Ext2Fs} (h : fs.superBlock.Accepted) {place : Nat × Nat}
    (hrun : locateInode n fs = .ok place fs') : place.2 + 128 ≤ fs.blockSize := by
  rw [locateInode, get_bind] at hrun
  obtain ⟨bg, fs₁, -, hpure⟩ := bind_eq_ok hrun
  cases hpure
  exact h.offset_le _

theorem readInode_reads (n : Nat) : Reads Reported Alike (readInode n) := by
  intro fs fs' h
  by_cases hn : n = 0
  · refine ⟨.error (.err .invalidInput), reported _, ?_, ?_⟩
    · rw [readInode, get_bind, if_pos hn]
      rfl
    · rw [readInode, get_bind, if_pos hn]
      rfl
  · obtain ⟨o, ho, hfs, hfs'⟩ := locateInode_reads n fs fs' h
    rw [readInode, get_bind, if_neg hn, get_bind, if_neg hn]
    cases o with
    | error e => exact ⟨.error e, ho, bind_error hfs, bind_error hfs'⟩
    | ok place =>
      have hsize : fs.blockSize = fs'.blockSize := by
        show fs.bare.blockSize = fs'.bare.blockSize
        rw [h.2]
      have hoff : place.2 + 128 ≤ fs.blockSize := locateInode_offset h.1 hfs
      rw [bind_ok hfs, bind_ok hfs']
      simp only [← hsize, if_neg (Nat.not_lt.2 hoff)]
      exact (readFsBlock_reads place.1).bind (fun _ => Reads.pure _) fs fs' h

/-- **`info`**. -/
theorem info_reads : Reads Reported Alike info := alike_get (fun _ => rfl) fun _ => Reads.pure _

end Disk

section Queries

variable {ino : Nat} {α : Type}

/-- A query may look at everything but the inodes in memory. -/
theorem reads_get {f : Ext2Fs → FsM α} (hbare : ∀ fs, f fs = f fs.bare) (hf : ∀ fs, Reads Reported (Peer ino) (f fs)) :
    Reads Reported (Peer ino) (get >>= f) := by
  apply Reads.get_bind
  · intro fs fs' h
    rw [hbare fs, hbare fs', h.1.2]
  · exact hf

/-- A query may look at its inode, but for the flags. -/
theorem reads_raw {f : RawInode → FsM α} (hsame : ∀ r r', r.Same r' → f r' = f r) (hf : ∀ r, Reads Reported (Peer ino) (f r)) :
    Reads Reported (Peer ino) (raw ino >>= f) := by
  intro fs fs' h
  obtain ⟨r, r', h₁, h₂, hr⟩ := h.2
  rw [bind_ok (raw_eq h₁), bind_ok (raw_eq h₂), hsame r r' hr]
  exact hf r fs fs' h

theorem reads_fail (e : FsError) : Reads Reported (Peer ino) (fail e : FsM α) := Reads.throw (reported _)

theorem resolveBlockId_reads (lb : Nat) : Reads Reported (Peer ino) (resolveBlockId ino lb) := by
  unfold resolveBlockId
  apply (reads_peer ptrsPerBlock_reads).bind
  intro p
  apply reads_raw
  · intro r r' h
    simp only [h.block_eq]
  · intro r
    have hentry : ∀ b i, Reads Reported (Peer ino) (readIndirectEntry b i) := fun b i => reads_peer (readIndirectEntry_reads b i)
    dsimp only
    split
    · exact Reads.pure _
    · split
      · split
        · exact Reads.pure _
        · exact hentry _ _
      · split
        · split
          · exact Reads.pure _
          · apply (hentry _ _).bind
            intro b
            split
            · exact Reads.pure _
            · exact hentry _ _
        · split
          · exact Reads.pure _
          · apply (hentry _ _).bind
            intro b
            split
            · exact Reads.pure _
            · apply (hentry _ _).bind
              intro b'
              split
              · exact Reads.pure _
              · exact hentry _ _

theorem size_reads : Reads Reported (Peer ino) (size ino) := by
  unfold size
  apply reads_get (fun _ => rfl)
  intro fs
  apply reads_raw
  · intro r r' h
    simp only [h.fmt_eq, h.dirAcl_eq, h.size32_eq]
  · intro r
    exact Reads.pure _

theorem extendRun_reads (lb phys n : Nat) : ∀ run, Reads Reported (Peer ino) (extendRun ino lb phys n run) := by
  induction n with
  | zero => exact fun run => Reads.pure _
  | succ n ih =>
    intro run
    unfold extendRun
    apply (resolveBlockId_reads _).bind
    intro np
    split
    · exact ih _
    · exact Reads.pure _

theorem readPartial_reads (lb off rem : Nat) : Reads Reported (Peer ino) (readPartial ino lb off rem) := by
  unfold readPartial
  apply reads_get (fun _ => rfl)
  intro fs
  apply (resolveBlockId_reads _).bind
  intro phys
  split
  · exact Reads.pure _
  · exact (reads_peer (readFsBlock_reads _)).bind fun _ => Reads.pure _

theorem readChunk_reads (off rem : Nat) : Reads Reported (Peer ino) (readChunk ino off rem) := by
  unfold readChunk
  apply reads_get (fun _ => rfl)
  intro fs
  dsimp only
  split
  · apply (resolveBlockId_reads _).bind
    intro phys
    split
    · apply (extendRun_reads _ _ _ _).bind
      intro run
      exact (reads_peer (readFsBlocks_reads _ _)).bind fun _ => Reads.pure _
    · exact readPartial_reads _ _ _
  · exact readPartial_reads _ _ _

theorem readLoop_reads (off len fuel : Nat) : ∀ n buf, Reads Reported (Peer ino) (readLoop ino off len fuel n buf) := by
  induction fuel with
  | zero => exact fun n buf => Reads.pure _
  | succ fuel ih =>
    intro n buf
    unfold readLoop
    split
    · exact Reads.pure _
    · apply (readChunk_reads _ _).bind
      intro c
      exact ih _ _

/-- **`read_at`** returns the same in all these states. -/
theorem readAt_reads (off len : Nat) : Reads Reported (Peer ino) (readAt ino off len) := by
  unfold readAt
  apply size_reads.bind
  intro fileSize
  split
  · exact Reads.pure _
  · exact (readLoop_reads _ _ _ _ _).bind fun _ => Reads.pure _

theorem dirData_reads : Reads Reported (Peer ino) (dirData ino) := by
  unfold dirData
  apply reads_raw
  · intro r r' h
    simp only [h.size32_eq]
  · intro r
    dsimp only
    split
    · exact Reads.pure _
    · exact (readAt_reads _ _).bind fun _ => Reads.pure _

theorem dirIterator_reads : Reads Reported (Peer ino) (dirIterator ino) := by
  unfold dirIterator
  apply reads_raw
  · intro r r' h
    simp only [h.mode_eq]
  · intro r
    split
    · exact reads_fail _
    · exact dirData_reads.bind fun _ => Reads.pure _

theorem dirLookup_reads (name : String) : Reads Reported (Peer ino) (dirLookup ino name) := by
  unfold dirLookup
  apply dirIterator_reads.bind
  intro items
  split
  · exact Reads.pure _
  · exact reads_fail _

/-- **`list`**. -/
theorem dirList_reads : Reads Reported (Peer ino) (dirList ino) := dirIterator_reads.bind fun _ => Reads.pure _

/-- **`getattr`**. -/
theorem getattr_reads : Reads Reported (Peer ino) (getattr ino) := by
  unfold getattr
  apply size_reads.bind
  intro size
  apply reads_raw
  · intro r r' h
    rw [h.mode_eq, @h.get_eq _ _ 2 2 (by omega), @h.get_eq _ _ 24 2 (by omega), @h.get_eq _ _ 8 4 (by omega),
      @h.get_eq _ _ 16 4 (by omega), @h.get_eq _ _ 12 4 (by omega)]
  · intro r
    exact Reads.pure _

theorem linkBytes_reads (r : RawInode) : Reads Reported (Peer ino) (linkBytes ino r) := by
  unfold linkBytes
  split
  · exact Reads.pure _
  · exact (readAt_reads _ _).bind fun _ => Reads.pure _

/-- **`readlink`**. -/
theorem readlink_reads : Reads Reported (Peer ino) (readlink ino) := by
  unfold readlink
  apply reads_raw
  · intro r r' h
    simp only [linkBytes, h.fmt_eq, h.blocks_eq, h.size32_eq, h.slice_eq]
  · intro r
    split
    · exact reads_fail _
    · apply (linkBytes_reads r).bind
      intro bytes
      split
      · exact Reads.pure _
      · exact reads_fail _

theorem liftResult_reads (o : Except FsError α) : Reads Reported (Peer ino) (liftResult o) := by
  cases o with
  | ok a => exact Reads.pure a
  | error e => exact reads_fail e

/-- **`getxattr`**. -/
theorem getxattr_reads (name : String) : Reads Reported (Peer ino) (getxattr ino name) := by
  unfold getxattr
  cases keyOf name with
  | none => exact reads_fail _
  | some key =>
    apply reads_raw
    · intro r r' h
      simp only [h.fileAcl_eq]
    · intro r
      dsimp only
      split
      · exact reads_fail _
      · apply (reads_peer (readFsBlock_reads _)).bind
        intro buf
        apply reads_get (fun _ => rfl)
        intro fs
        apply (liftResult_reads _).bind
        intro attrs
        split
        · exact Reads.pure _
        · exact reads_fail _

/-- **`listxattr`**. -/
theorem listxattr_reads : Reads Reported (Peer ino) (listxattr ino) := by
  unfold listxattr
  apply reads_raw
  · intro r r' h
    simp only [h.fileAcl_eq]
  · intro r
    dsimp only
    split
    · exact Reads.pure _
    · apply (reads_peer (readFsBlock_reads _)).bind
      intro buf
      apply reads_get (fun _ => rfl)
      intro fs
      exact (liftResult_reads _).bind fun _ => Reads.pure _

end Queries

/-! ## The state of a read-only mount -/

/-- `fs` is the mount `fs₀`, the inodes in memory are those of the disk, but for the flags, and those of `S` are in
memory. -/
structure Unchanged (fs₀ : Ext2Fs) (S : List Nat) (fs : Ext2Fs) : Prop where
  accepted : fs₀.superBlock.Accepted
  bare : fs.bare = fs₀.bare
  cache : ∀ n r, fs.inodeCache n = some r → ∃ r₀, readInode n fs₀ = .ok r₀ fs₀ ∧ r.Same r₀
  held : ∀ n ∈ S, ∃ r, fs.inodeCache n = some r

section Mounted

variable {fs₀ fs fs' : Ext2Fs} {S S' : List Nat} {α : Type} {ino : Nat}

theorem Unchanged.superBlock_eq (h : Unchanged fs₀ S fs) : fs.superBlock = fs₀.superBlock := by
  show fs.bare.superBlock = fs₀.bare.superBlock
  rw [h.bare]

theorem Unchanged.blockSize_eq (h : Unchanged fs₀ S fs) : fs.blockSize = fs₀.blockSize := by
  rw [Ext2Fs.blockSize, Ext2Fs.blockSize, h.superBlock_eq]

theorem Unchanged.mono (h : Unchanged fs₀ S fs) (hS : ∀ n ∈ S', n ∈ S) : Unchanged fs₀ S' fs :=
  ⟨h.accepted, h.bare, h.cache, fun n hn => h.held n (hS n hn)⟩

theorem Unchanged.alike (h : Unchanged fs₀ S fs) (h' : Unchanged fs₀ S' fs') : Alike fs fs' :=
  ⟨h.superBlock_eq ▸ h.accepted, h.bare.trans h'.bare.symm⟩

/-- An inode that is in memory is the same in every state of the mount. -/
theorem Unchanged.peer (h : Unchanged fs₀ S fs) (h' : Unchanged fs₀ S' fs') (hino : ino ∈ S) (hino' : ino ∈ S') :
    Peer ino fs fs' := by
  obtain ⟨r, hr⟩ := h.held ino hino
  obtain ⟨r', hr'⟩ := h'.held ino hino'
  obtain ⟨r₀, hread, hsame⟩ := h.cache ino r hr
  obtain ⟨r₀', hread', hsame'⟩ := h'.cache ino r' hr'
  have heq : r₀ = r₀' := by
    rw [hread] at hread'
    injection hread'
  exact ⟨h.alike h', r, r', hr, hr', hsame.trans (heq ▸ hsame'.symm)⟩

theorem reads_disk {x : FsM α} (h : Reads Reported Alike x) : Keeps Reported (Unchanged fs₀ S) x :=
  h.keeps fun _ hs => hs.alike hs

theorem reads_unchanged {x : FsM α} (hino : ino ∈ S) (h : Reads Reported (Peer ino) x) :
    Keeps Reported (Unchanged fs₀ S) x := h.keeps fun _ hs => hs.peer hs hino hino

/-- An inode of the disk may be put into memory. -/
theorem Unchanged.load (h : Unchanged fs₀ S fs) {r r₀ : RawInode} (hread : readInode ino fs₀ = .ok r₀ fs₀)
    (hr : r.Same r₀) :
    Unchanged fs₀ (ino :: S) { fs with inodeCache := Function.update fs.inodeCache ino (some r) } := by
  refine ⟨h.accepted, h.bare, fun n r' hr' => ?_, fun n hn => ?_⟩
  · dsimp only at hr'
    by_cases hn : n = ino
    · subst hn
      rw [Function.update_self] at hr'
      cases hr'
      exact ⟨r₀, hread, hr⟩
    · rw [Function.update_of_ne hn] at hr'
      exact h.cache n r' hr'
  · dsimp only
    by_cases hni : n = ino
    · exact ⟨r, by rw [hni, Function.update_self]⟩
    · rw [Function.update_of_ne hni]
      exact h.held n ((List.mem_cons.1 hn).resolve_left hni)

theorem fails_fail (e : FsError) : Fails Reported (Unchanged fs₀ S) (fail e : FsM α) := Fails.throw (reported e)

theorem raw_keeps (hino : ino ∈ S) : Keeps Reported (Unchanged fs₀ S) (raw ino) := by
  intro fs h
  obtain ⟨r, hr⟩ := h.held ino hino
  rw [raw_eq hr]
  exact ⟨trivial, h⟩

/-- A change of the inode in memory that only touches the flags. -/
theorem modifyRaw_keeps {f : RawInode → RawInode} (hino : ino ∈ S) (hf : ∀ r, (f r).Same r) :
    Keeps Reported (Unchanged fs₀ S) (modifyRaw ino f) := by
  intro fs h
  obtain ⟨r, hr⟩ := h.held ino hino
  obtain ⟨r₀, hread, hsame⟩ := h.cache ino r hr
  rw [modifyRaw_eq hr]
  exact ⟨trivial, (h.load hread ((hf r).trans hsame)).mono fun n hn => List.mem_cons_of_mem _ hn⟩

theorem getInode_eq (n : Nat) (fs : Ext2Fs) :
    getInode n fs = match fs.inodeCache n with
      | some _ => .ok ⟨⟩ fs
      | none => (readInode n >>= fun r => cacheInode n (some r)) fs := by
  rw [getInode, get_bind]
  cases fs.inodeCache n <;> rfl

/-- What `get_inode` does to a state of the mount. -/
theorem getInode_cases (h : Unchanged fs₀ S fs) (n : Nat) :
    (∃ fs', getInode n fs = .ok ⟨⟩ fs' ∧ Unchanged fs₀ (n :: S) fs') ∨ ∃ e, getInode n fs = .error e fs ∧ Reported e := by
  rw [getInode_eq]
  cases hc : fs.inodeCache n with
  | some r =>
    refine .inl ⟨fs, rfl, h.accepted, h.bare, h.cache, fun m hm => ?_⟩
    rcases List.mem_cons.1 hm with rfl | hm
    · exact ⟨r, hc⟩
    · exact h.held m hm
  | none =>
    obtain ⟨o, ho, hfs, hfs₀⟩ := readInode_reads n fs fs₀ ⟨h.superBlock_eq ▸ h.accepted, h.bare⟩
    cases o with
    | error e => exact .inr ⟨e, bind_error hfs, ho⟩
    | ok r₀ => exact .inl ⟨_, bind_ok hfs, h.load hfs₀ (.refl r₀)⟩

theorem getInode_keeps (n : Nat) : Keeps Reported (Unchanged fs₀ S) (getInode n) := by
  intro fs h
  rcases getInode_cases h n with ⟨fs', hrun, hfs'⟩ | ⟨e, hrun, he⟩
  · rw [hrun]
    exact ⟨trivial, hfs'.mono fun m hm => List.mem_cons_of_mem _ hm⟩
  · rw [hrun]
    exact ⟨he, h⟩

/-- After `get_inode` the inode is in memory. -/
theorem keeps_getInode {n : Nat} {f : PUnit → FsM α} (hf : Keeps Reported (Unchanged fs₀ (n :: S)) (f ⟨⟩)) :
    Keeps Reported (Unchanged fs₀ S) (getInode n >>= f) := by
  intro fs h
  rcases getInode_cases h n with ⟨fs', hrun, hfs'⟩ | ⟨e, hrun, he⟩
  · rw [bind_ok hrun]
    exact ⟨(hf fs' hfs').1, (hf fs' hfs').2.mono fun m hm => List.mem_cons_of_mem _ hm⟩
  · rw [bind_error hrun]
    exact ⟨he, h⟩

theorem fails_getInode {n : Nat} {f : PUnit → FsM α} (hf : Fails Reported (Unchanged fs₀ (n :: S)) (f ⟨⟩)) :
    Fails Reported (Unchanged fs₀ S) (getInode n >>= f) := by
  intro fs h
  rcases getInode_cases h n with ⟨fs', hrun, hfs'⟩ | ⟨e, hrun, he⟩
  · obtain ⟨e, fs'', herr, he, hfs''⟩ := hf fs' hfs'
    exact ⟨e, fs'', (bind_ok hrun).trans herr, he, hfs''.mono fun m hm => List.mem_cons_of_mem _ hm⟩
  · exact ⟨e, fs, bind_error hrun, he, h⟩

theorem isOk_keeps {x : FsM α} (h : Keeps Reported (Unchanged fs₀ S) x) : Keeps Reported (Unchanged fs₀ S) (isOk x) := by
  intro fs hfs
  have hx := h fs hfs
  unfold isOk
  cases hr : x fs with
  | ok a fs' =>
    rw [hr] at hx
    exact ⟨trivial, hx.2⟩
  | error e fs' =>
    rw [hr] at hx
    cases e with
    | err e => exact ⟨trivial, hx.2⟩
    | panic => exact absurd rfl hx.1

theorem attempt_keeps {x : FsM α} (h : Keeps Reported (Unchanged fs₀ S) x) :
    Keeps Reported (Unchanged fs₀ S) (attempt x) := by
  intro fs hfs
  have hx := h fs hfs
  unfold attempt
  cases hr : x fs with
  | ok a fs' =>
    rw [hr] at hx
    exact ⟨trivial, hx.2⟩
  | error e fs' =>
    rw [hr] at hx
    cases e with
    | err e => exact ⟨trivial, hx.2⟩
    | panic => exact absurd rfl hx.1

end Mounted

end Koros.Ext2
