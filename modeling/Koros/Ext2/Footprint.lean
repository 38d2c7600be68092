import Koros.Lib.Effect
import Koros.Ext2.Ops

/-!
# What writing file data can touch

`write_at` and the calls it is made of write blocks, change inodes in memory and move the counters of free blocks, and
nothing else: the rest of the filesystem (`skeleton`) stays as it is, whether they succeed or not
(`writeAtLocked_framed`), and so it does under the writer of directory records on top of them (`addDirEntry_framed`).
Reading leaves the whole state alone (`Reads Any Eq`).
-/
set_option autoImplicit false

namespace Koros.Ext2

open Koros.Lib

/-- Errors of every kind, a crash among them. -/
def Any (_ : Fault) : Prop := True

/-- What is left without the blocks, the inodes in memory and the counters of free blocks. -/
def Ext2Fs.skeleton (fs : Ext2Fs) : Ext2Fs :=
  { fs with
    disk := fun _ _ => 0
    inodeCache := fun _ => none
    superBlock := { fs.superBlock with freeBlocksCount := 0 }
    blockGroups := fs.blockGroups.map fun bg => { bg with freeBlocksCount := 0 } }

/-- The filesystem with skeleton `sk`. -/
def Framed (sk fs : Ext2Fs) : Prop := fs.skeleton = sk

/-! ## Reading -/

section Reading

variable {α β : Type}

theorem still_get {f : Ext2Fs → FsM α} (hf : ∀ fs, Reads Any Eq (f fs)) : Reads Any Eq (get >>= f) :=
  Reads.get_bind (fun _ _ h => by rw [h]) hf

theorem still_fail (e : FsError) : Reads Any Eq (fail e : FsM α) := Reads.throw trivial

theorem still_panic : Reads Any Eq (panic : FsM α) := Reads.throw trivial

theorem still_ite {p : Prop} [Decidable p] {x y : FsM α} (hx : Reads Any Eq x) (hy : Reads Any Eq y) :
    Reads Any Eq (if p then x else y) := by
  split
  · exact hx
  · exact hy

theorem readFsBlock_still (b : Nat) : Reads Any Eq (readFsBlock b) :=
  still_get fun _ => still_ite (Reads.pure _) (still_fail _)

theorem readFsBlocks_still (b n : Nat) : Reads Any Eq (readFsBlocks b n) :=
  still_get fun _ => still_ite (Reads.pure _) (still_fail _)

theorem getGroup_still (g : Nat) : Reads Any Eq (getGroup g) := by
  unfold getGroup
  apply still_get
  intro fs
  split
  · exact Reads.pure _
  · exact still_fail _

theorem raw_still (n : Nat) : Reads Any Eq (raw n) := by
  unfold raw
  apply still_get
  intro fs
  split
  · exact Reads.pure _
  · exact still_panic

theorem ptrsPerBlock_still : Reads Any Eq ptrsPerBlock := still_get fun _ => Reads.pure _

theorem sectorsPerBlock_still : Reads Any Eq sectorsPerBlock := still_get fun _ => Reads.pure _

theorem blockGroup_still (n : Nat) : Reads Any Eq (blockGroup n) := still_get fun _ => Reads.pure _

theorem locateInode_still (n : Nat) : Reads Any Eq (locateInode n) :=
  still_get fun _ => (getGroup_still _).bind fun _ => Reads.pure _

theorem readInode_still (n : Nat) : Reads Any Eq (readInode n) := by
  unfold readInode
  apply still_get
  intro fs
  apply still_ite (still_fail _)
  apply (locateInode_still _).bind
  intro place
  exact (readFsBlock_still _).bind fun _ => still_ite still_panic (Reads.pure _)

theorem readIndirectEntry_still (b i : Nat) : Reads Any Eq (readIndirectEntry b i) :=
  still_get fun _ => (readFsBlock_still _).bind fun _ => still_ite (still_fail _) (Reads.pure _)

theorem resolveBlockId_still (n lb : Nat) : Reads Any Eq (resolveBlockId n lb) := by
  have hnext : ∀ {b : Nat} {f : Nat → FsM Nat} (i : Nat), (∀ b, Reads Any Eq (f b)) →
      Reads Any Eq (if b = 0 then pure 0 else readIndirectEntry b i >>= f) :=
    fun i hf => still_ite (Reads.pure _) ((readIndirectEntry_still _ i).bind hf)
  have hlast : ∀ {b : Nat} (i : Nat), Reads Any Eq (if b = 0 then pure 0 else readIndirectEntry b i) :=
    fun i => still_ite (Reads.pure _) (readIndirectEntry_still _ i)
  unfold resolveBlockId
  apply ptrsPerBlock_still.bind
  intro p
  apply (raw_still n).bind
  intro r
  dsimp only
  apply still_ite (Reads.pure _)
  apply still_ite (hlast _)
  apply still_ite (hnext _ fun _ => hlast _)
  exact hnext _ fun _ => hnext _ fun _ => hlast _

theorem size_still (n : Nat) : Reads Any Eq (size n) := still_get fun _ => (raw_still n).bind fun _ => Reads.pure _

theorem extendRun_still (n lb phys k : Nat) : ∀ run, Reads Any Eq (extendRun n lb phys k run) := by
  induction k with
  | zero => exact fun run => Reads.pure _
  | succ k ih => exact fun run => (resolveBlockId_still _ _).bind fun _ => still_ite (ih _) (Reads.pure _)

theorem readPartial_still (n lb off rem : Nat) : Reads Any Eq (readPartial n lb off rem) := by
  unfold readPartial
  apply still_get
  intro fs
  apply (resolveBlockId_still _ _).bind
  intro phys
  exact still_ite (Reads.pure _) ((readFsBlock_still _).bind fun _ => Reads.pure _)

theorem readChunk_still (n off rem : Nat) : Reads Any Eq (readChunk n off rem) := by
  unfold readChunk
  apply still_get
  intro fs
  apply still_ite _ (readPartial_still _ _ _ _)
  apply (resolveBlockId_still _ _).bind
  intro phys
  apply still_ite _ (readPartial_still _ _ _ _)
  apply (extendRun_still _ _ _ _ _).bind
  intro run
  exact (readFsBlocks_still _ _).bind fun _ => Reads.pure _

theorem readLoop_still (n off len fuel : Nat) : ∀ k buf, Reads Any Eq (readLoop n off len fuel k buf) := by
  induction fuel with
  | zero => exact fun k buf => Reads.pure _
  | succ fuel ih => exact fun k buf => still_ite (Reads.pure _) ((readChunk_still _ _ _).bind fun _ => ih _ _)

theorem readAt_still (n off len : Nat) : Reads Any Eq (readAt n off len) :=
  (size_still n).bind fun _ => still_ite (Reads.pure _) ((readLoop_still _ _ _ _ _ _).bind fun _ => Reads.pure _)

theorem dirData_still (n : Nat) : Reads Any Eq (dirData n) :=
  (raw_still n).bind fun _ => still_ite (Reads.pure _) ((readAt_still _ _ _).bind fun _ => Reads.pure _)

theorem dirLookup_still (n : Nat) (name : String) : Reads Any Eq (dirLookup n name) := by
  unfold dirLookup dirIterator
  refine Reads.bind ((raw_still n).bind fun _ => still_ite (still_fail _)
    ((dirData_still n).bind fun _ => Reads.pure _)) fun items => ?_
  split
  · exact Reads.pure _
  · exact still_fail _

end Reading

/-! ## Writing -/

section Writing

variable {I : Ext2Fs → Prop} {α β : Type}

theorem keeps_still {x : FsM α} (hx : Reads Any Eq x) : Keeps Any I x := hx.keeps fun _ _ => rfl

theorem keeps_ite {p : Prop} [Decidable p] {x y : FsM α} (hx : Keeps Any I x) (hy : Keeps Any I y) :
    Keeps Any I (if p then x else y) := by
  split
  · exact hx
  · exact hy

theorem keeps_fail (e : FsError) : Keeps Any I (fail e : FsM α) := keeps_still (still_fail e)

theorem keeps_panic : Keeps Any I (panic : FsM α) := keeps_still still_panic

theorem keeps_onError {x : FsM α} {cleanup : FsM Unit} (hx : Keeps Any I x) (hcleanup : Keeps Any I cleanup) :
    Keeps Any I (onError x cleanup) := by
  intro fs hfs
  have hleft := hx fs hfs
  unfold onError
  cases hrun : x fs with
  | ok a fs' =>
    rw [hrun] at hleft
    exact hleft
  | error e fs' =>
    rw [hrun] at hleft
    cases e with
    | panic => exact hleft
    | err e =>
      have hright := hcleanup fs' hleft.2
      dsimp only
      cases hclean : cleanup fs' with
      | ok _ fs'' =>
        rw [hclean] at hright
        exact ⟨trivial, hright.2⟩
      | error e' fs'' =>
        rw [hclean] at hright
        cases e' with
        | panic => exact hright
        | err e' => exact ⟨trivial, hright.2⟩

variable {sk : Ext2Fs}

theorem writeFsBlock_framed (b : Nat) (buf : Bytes) : Keeps Any (Framed sk) (writeFsBlock b buf) :=
  Keeps.get_bind fun _ hfs => keeps_ite (keeps_fail _) (keeps_ite (fun _ _ => ⟨trivial, hfs⟩) (keeps_fail _))

theorem writeFsBlocks_framed (b n : Nat) (buf : Bytes) : Keeps Any (Framed sk) (writeFsBlocks b n buf) :=
  Keeps.get_bind fun _ hfs => keeps_ite (keeps_fail _) (keeps_ite (fun _ _ => ⟨trivial, hfs⟩) (keeps_fail _))

theorem cacheInode_framed (n : Nat) (r : Option RawInode) : Keeps Any (Framed sk) (cacheInode n r) :=
  fun _ hfs => ⟨trivial, hfs⟩

theorem modifyRaw_framed (n : Nat) (f : RawInode → RawInode) : Keeps Any (Framed sk) (modifyRaw n f) :=
  (keeps_still (raw_still n)).bind fun _ => cacheInode_framed n _

theorem getInode_framed (n : Nat) : Keeps Any (Framed sk) (getInode n) := by
  unfold getInode
  apply Keeps.get_bind
  intro fs _
  split
  · exact Keeps.pure _
  · exact (keeps_still (readInode_still n)).bind fun _ => cacheInode_framed n _

theorem writeInodeToDisk_framed (n : Nat) : Keeps Any (Framed sk) (writeInodeToDisk n) := by
  unfold writeInodeToDisk
  apply (keeps_still (raw_still n)).bind
  intro r
  apply Keeps.get_bind
  intro fs _
  apply (keeps_still (locateInode_still n)).bind
  intro place
  exact (keeps_still (readFsBlock_still _)).bind fun _ => keeps_ite keeps_panic (writeFsBlock_framed _ _)

theorem writeIndirectEntry_framed (b i v : Nat) : Keeps Any (Framed sk) (writeIndirectEntry b i v) :=
  Keeps.get_bind fun _ _ => (keeps_still (readFsBlock_still b)).bind fun _ =>
    keeps_ite (keeps_fail _) (writeFsBlock_framed _ _)

/-- A group of the filesystem, up to its counter of free blocks. -/
theorem Framed.group {fs : Ext2Fs} (h : Framed sk fs) {g : Nat} {bg : BlockGroupDescriptor}
    (hg : fs.blockGroups[g]? = some bg) : sk.blockGroups[g]? = some { bg with freeBlocksCount := 0 } := by
  rw [← h]
  show (fs.blockGroups.map _)[g]? = _
  rw [List.getElem?_map, hg]
  rfl

/-- Other counters of free blocks, in the superblock and in one group. -/
theorem Framed.count {fs : Ext2Fs} (h : Framed sk fs) {g : Nat} {bg : BlockGroupDescriptor}
    (hg : sk.blockGroups[g]? = some { bg with freeBlocksCount := 0 }) (n m : Nat) :
    Framed sk { fs.setGroup g { bg with freeBlocksCount := n } with
      superBlock := { fs.superBlock with freeBlocksCount := m } } := by
  have hgroups : (fs.blockGroups.set g { bg with freeBlocksCount := n }).map
      (fun bg => { bg with freeBlocksCount := 0 }) = fs.blockGroups.map fun bg => { bg with freeBlocksCount := 0 } := by
    rw [← h] at hg
    obtain ⟨hlt, hget⟩ := List.getElem?_eq_some_iff.1 hg
    rw [List.map_set, ← hget]
    exact List.set_getElem_self hlt
  unfold Framed at h ⊢
  rw [← h]
  exact congrArg (fun groups => ({ fs.skeleton with blockGroups := groups } : Ext2Fs)) hgroups

theorem bitmap_set_still (m : Bitmap) (i : Nat) : Reads Any Eq (m.set i) := still_ite (Reads.pure _) (still_fail _)

theorem bitmap_clear_still (m : Bitmap) (i : Nat) : Reads Any Eq (m.clear i) := still_ite (Reads.pure _) (still_fail _)

theorem allocBlockIn_framed (g : Nat) : Keeps Any (Framed sk) (allocBlockIn g) := by
  unfold allocBlockIn
  apply Keeps.get_bind
  intro fs hfs
  dsimp only
  split
  · exact keeps_panic
  · rename_i bg hg
    apply keeps_ite (Keeps.pure _)
    apply keeps_ite keeps_panic
    apply (keeps_still (readFsBlock_still _)).bind
    intro buf
    split
    · exact Keeps.pure _
    · apply (keeps_still (bitmap_set_still _ _)).bind
      intro bitmap
      apply (writeFsBlock_framed _ _).bind
      intro _
      apply Keeps.get_bind
      intro fs' hfs'
      apply keeps_ite keeps_panic
      exact fun _ _ => ⟨trivial, hfs'.count (hfs.group hg) _ _⟩

theorem firstFit_framed {search : Nat → FsM (Option Nat)} (hsearch : ∀ g, Keeps Any (Framed sk) (search g))
    (order : List Nat) : Keeps Any (Framed sk) (firstFit search order) := by
  induction order with
  | nil => exact keeps_fail _
  | cons g order ih =>
    unfold firstFit
    apply (hsearch g).bind
    intro found
    split
    · exact Keeps.pure _
    · exact ih

theorem allocBlockGoal_framed (goal : Nat) : Keeps Any (Framed sk) (allocBlockGoal goal) :=
  Keeps.get_bind fun _ _ => keeps_ite (keeps_fail _) (firstFit_framed allocBlockIn_framed _)

theorem freeBlock_framed (b : Nat) : Keeps Any (Framed sk) (freeBlock b) := by
  unfold freeBlock
  apply Keeps.get_bind
  intro fs hfs
  apply keeps_ite (keeps_fail _)
  apply keeps_ite (keeps_fail _)
  unfold getGroup
  rw [bind_assoc]
  apply Keeps.get_bind
  intro fs' hfs'
  split
  · rename_i bg hg
    rw [pure_bind]
    apply (keeps_still (readFsBlock_still _)).bind
    intro buf
    apply (keeps_still (bitmap_clear_still _ _)).bind
    intro bitmap
    apply (writeFsBlock_framed _ _).bind
    intro _
    apply Keeps.get_bind
    intro fs'' hfs''
    apply keeps_ite keeps_panic
    exact fun _ _ => ⟨trivial, hfs''.count (hfs'.group hg) _ _⟩
  · exact (Fails.throw trivial).bind_left.keeps

theorem allocAndZeroBlock_framed (n : Nat) : Keeps Any (Framed sk) (allocAndZeroBlock n) :=
  (keeps_still (blockGroup_still n)).bind fun _ => (allocBlockGoal_framed _).bind fun _ =>
    (keeps_onError (writeFsBlock_framed _ _) (freeBlock_framed _)).bind fun _ => Keeps.pure _

theorem topIndirect_framed (n slot : Nat) : Keeps Any (Framed sk) (topIndirect n slot) :=
  (keeps_still (raw_still n)).bind fun _ => keeps_ite
    ((allocAndZeroBlock_framed n).bind fun _ => (modifyRaw_framed _ _).bind fun _ => Keeps.pure _) (Keeps.pure _)

theorem nextIndirect_framed (n b i : Nat) : Keeps Any (Framed sk) (nextIndirect n b i) :=
  (keeps_still (readIndirectEntry_still _ _)).bind fun _ => keeps_ite
    ((allocAndZeroBlock_framed n).bind fun _ => (writeIndirectEntry_framed _ _ _).bind fun _ => Keeps.pure _)
    (Keeps.pure _)

theorem allocateBlockForOffset_framed (n lb : Nat) (zero : Bool) :
    Keeps Any (Framed sk) (allocateBlockForOffset n lb zero) := by
  unfold allocateBlockForOffset
  apply (keeps_still (resolveBlockId_still _ _)).bind
  intro existing
  apply keeps_ite (Keeps.pure _)
  apply (keeps_still ptrsPerBlock_still).bind
  intro p
  apply (keeps_still (blockGroup_still n)).bind
  intro goal
  apply (allocBlockGoal_framed goal).bind
  intro new
  dsimp only
  refine keeps_ite ((keeps_onError (writeFsBlock_framed _ _) (freeBlock_framed _)).bind fun _ => ?_) ?_
  all_goals
    apply keeps_ite ((modifyRaw_framed _ _).bind fun _ => Keeps.pure _)
    apply keeps_ite
    · exact (topIndirect_framed _ _).bind fun _ => (writeIndirectEntry_framed _ _ _).bind fun _ => Keeps.pure _
    · apply keeps_ite
      · exact (topIndirect_framed _ _).bind fun _ => (nextIndirect_framed _ _ _).bind fun _ =>
          (writeIndirectEntry_framed _ _ _).bind fun _ => Keeps.pure _
      · exact (topIndirect_framed _ _).bind fun _ => (nextIndirect_framed _ _ _).bind fun _ =>
          (nextIndirect_framed _ _ _).bind fun _ => (writeIndirectEntry_framed _ _ _).bind fun _ => Keeps.pure _

theorem setSize_framed (n size : Nat) : Keeps Any (Framed sk) (setSize n size) :=
  Keeps.get_bind fun _ _ => modifyRaw_framed _ _

theorem writeRegion_framed (n lb : Nat) (buf : Bytes) (k : Nat) :
    ∀ w, Keeps Any (Framed sk) (writeRegion n lb buf k w) := by
  induction k with
  | zero => exact fun w => Keeps.pure _
  | succ k ih =>
    intro w
    unfold writeRegion
    apply (allocateBlockForOffset_framed _ _ _).bind
    intro found
    apply keeps_ite (ih _)
    apply Keeps.get_bind
    intro fs _
    exact (writeFsBlocks_framed _ _ _).bind fun _ => ih _

theorem writeChunk_framed (n off : Nat) (buf : Bytes) (rem : Nat) :
    Keeps Any (Framed sk) (writeChunk n off buf rem) := by
  unfold writeChunk
  apply Keeps.get_bind
  intro fs _
  apply keeps_ite
  · unfold writeBulk
    apply Keeps.get_bind
    intro fs _
    apply (allocateBlockForOffset_framed _ _ _).bind
    intro found
    exact (writeRegion_framed _ _ _ _ _).bind fun _ => (writeFsBlocks_framed _ _ _).bind fun _ => Keeps.pure _
  · unfold writePartial
    apply Keeps.get_bind
    intro fs _
    apply (allocateBlockForOffset_framed _ _ _).bind
    intro found
    exact (keeps_still (readFsBlock_still _)).bind fun _ => (writeFsBlock_framed _ _).bind fun _ => Keeps.pure _

theorem writeLoop_framed (n off : Nat) (buf : Bytes) (len fuel : Nat) :
    ∀ k new, Keeps Any (Framed sk) (writeLoop n off buf len fuel k new) := by
  induction fuel with
  | zero => exact fun k new => Keeps.pure _
  | succ fuel ih =>
    exact fun k new => keeps_ite (Keeps.pure _) ((writeChunk_framed _ _ _ _).bind fun _ => ih _ _)

/-- **`write_at`** leaves all but blocks, inodes in memory and counters of free blocks alone. -/
theorem writeAtLocked_framed (n off : Nat) (buf : Bytes) (len : Nat) :
    Keeps Any (Framed sk) (writeAtLocked n off buf len) := by
  unfold writeAtLocked
  apply keeps_ite (Keeps.pure _)
  apply (writeLoop_framed _ _ _ _ _ _ _).bind
  intro new
  apply (keeps_still (size_still n)).bind
  intro size
  dsimp only
  refine keeps_ite ((setSize_framed _ _).bind fun _ => ?_) ?_
  all_goals
    apply (keeps_still sectorsPerBlock_still).bind
    intro sectors
    exact (modifyRaw_framed _ _).bind fun _ => (writeInodeToDisk_framed n).bind fun _ => Keeps.pure _

/-! ## Directory records -/

theorem writeDirBlock_framed (n : Nat) (data : Bytes) (len off : Nat) :
    Keeps Any (Framed sk) (writeDirBlock n data len off) :=
  Keeps.get_bind fun _ _ => keeps_ite keeps_panic ((writeAtLocked_framed _ _ _ _).bind fun _ => Keeps.pure _)

theorem demoteFromHtree_framed (n : Nat) : Keeps Any (Framed sk) (demoteFromHtree n) :=
  (keeps_still (raw_still n)).bind fun _ => keeps_ite
    ((modifyRaw_framed _ _).bind fun _ => writeInodeToDisk_framed n) (Keeps.pure _)

/-- **`add_dir_entry`**, on whatever kind of inode. -/
theorem addDirEntry_framed (n : Nat) (name : String) (child : Nat) (ft : Byte) :
    Keeps Any (Framed sk) (addDirEntry n name child ft) := by
  unfold addDirEntry
  apply keeps_ite (keeps_fail _)
  apply (demoteFromHtree_framed n).bind
  intro _
  apply Keeps.get_bind
  intro fs _
  apply (keeps_still (dirData_still n)).bind
  rintro ⟨data, len⟩
  dsimp only
  split
  · exact writeDirBlock_framed _ _ _ _
  · apply keeps_ite
    · exact keeps_ite keeps_panic (writeDirBlock_framed _ _ _ _)
    · exact Keeps.get_bind fun _ _ => (writeAtLocked_framed _ _ _ _).bind fun _ => Keeps.pure _

end Writing

end Koros.Ext2
