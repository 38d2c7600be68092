import Koros.Ext2.ReadOnly

/-!
# What a read-only mount refuses

Every call that changes a filesystem comes to a block write or to an allocation, and on a read-only mount it fails there.
Up to that point nothing has changed but the index flag of a directory in memory (`writeAtLocked_fails`,
`addDirEntry_fails`, `removeDirEntry_fails`, `rename_keeps`, …). `setattr` and `truncate` store into the inode first; a
`truncate` fails before it does so if it comes to a block that it has to free or to a pointer that it has to clear
(`truncateTo_fails`).
-/
set_option autoImplicit false

namespace Koros.Ext2

open Koros.Lib Xattr

/-! ## Directories whose records hold their names -/

/-- Every record that a scan from `offset` on meets has room for its name. -/
def Roomy (data : Bytes) (len : Nat) : (fuel offset : Nat) → Prop
  | 0, _ => True
  | fuel + 1, offset =>
    let recLen := leNat data (offset + 4) 2
    offset + DIR_ENTRY_HEADER_SIZE ≤ len → DIR_ENTRY_HEADER_SIZE ≤ recLen → offset + recLen ≤ len →
      entrySize (data (offset + 6)).toNat ≤ recLen ∧ Roomy data len fuel (offset + recLen)

/-- What is read of inode `n` as a directory: whole blocks of records that have room for their names. -/
def SoundDir (fs : Ext2Fs) (n : Nat) : Prop :=
  ∀ data len, outcome (dirData n fs) = .ok (data, len) → fs.blockSize ∣ len ∧ Roomy data len len 0

theorem SoundDir.peer {fs fs' : Ext2Fs} {n : Nat} (h : SoundDir fs n) (hpeer : Peer n fs fs') : SoundDir fs' n := by
  intro data len hread
  have hsize : fs'.blockSize = fs.blockSize := by
    show fs'.bare.blockSize = fs.bare.blockSize
    rw [hpeer.1.2]
  rw [hsize]
  exact h data len ((dirData_reads.outcome_eq hpeer).trans hread)

theorem entrySize_ge (n : Nat) : DIR_ENTRY_HEADER_SIZE + n ≤ entrySize n := by
  unfold entrySize DIR_ENTRY_HEADER_SIZE
  omega

section Scans

variable {data : Bytes} {len needed : Nat} {name : List Byte}

/-- A record that the scan of `add_dir_entry` may split. -/
def Splittable (data : Bytes) (len start actual : Nat) : Prop :=
  start + leNat data (start + 4) 2 ≤ len ∧ actual ≤ leNat data (start + 4) 2 ∧ start + DIR_ENTRY_HEADER_SIZE ≤ len

/-- A scan of `add_dir_entry` that ended inside the directory. -/
def AddScan.Inside (data : Bytes) (len : Nat) : AddScan → Prop
  | .slot o _ => o + DIR_ENTRY_HEADER_SIZE ≤ len
  | .last s a => 0 < a → Splittable data len s a

theorem addScan_inside (fuel : Nat) : ∀ offset start actual, Roomy data len fuel offset →
    (0 < actual → Splittable data len start actual) →
    (addScan data len needed fuel offset start actual).Inside data len := by
  induction fuel with
  | zero => exact fun offset start actual _ h => h
  | succ fuel ih =>
    intro offset start actual hroomy h
    unfold addScan
    dsimp only
    split
    · exact h
    · rename_i hin
      split
      · exact h
      · rename_i hrec
        have hin : offset + DIR_ENTRY_HEADER_SIZE ≤ len := by omega
        obtain ⟨hfits, hrest⟩ := hroomy hin (by omega) (by omega)
        split
        · exact hin
        · exact ih _ _ _ hrest fun _ => ⟨by omega, hfits, hin⟩

/-- A scan of `remove_dir_entry` that ended inside the directory. -/
def RemoveInside (len : Nat) : Except Fault (Nat × Nat) → Prop
  | .ok found => found.1 + DIR_ENTRY_HEADER_SIZE ≤ len
  | .error e => Reported e

theorem removeScan_inside (fuel : Nat) : ∀ offset, Roomy data len fuel offset →
    RemoveInside len (removeScan data len name fuel offset) := by
  induction fuel with
  | zero => exact fun offset _ => reported _
  | succ fuel ih =>
    intro offset hroomy
    unfold removeScan
    dsimp only
    split
    · exact reported _
    · split
      · exact reported _
      · rename_i hin hrec
        have hin : offset + DIR_ENTRY_HEADER_SIZE ≤ len := by omega
        obtain ⟨hfits, hrest⟩ := hroomy hin (by omega) (by omega)
        have hname := entrySize_ge (data (offset + 6)).toNat
        split
        · split
          · omega
          · split
            · exact hin
            · exact ih _ hrest
        · exact ih _ hrest

end Scans

section Refusal

variable {fs₀ : Ext2Fs} {S : List Nat} {α β : Type} {ino : Nat}

/-- A directory that is sound with the inodes of `S` in memory is so with another one in memory. -/
theorem soundDir_cons (hsound : ∀ fs, Unchanged fs₀ S fs → SoundDir fs ino) (n : Nat) :
    ∀ fs, Unchanged fs₀ (n :: S) fs → SoundDir fs ino :=
  fun fs h => hsound fs (h.mono fun _ hm => List.mem_cons_of_mem _ hm)

/-- What a query returns is known when it does not depend on the state. -/
theorem fails_reads {x : FsM β} {f : β → FsM α} (hino : ino ∈ S) (hx : Reads Reported (Peer ino) x)
    (hf : ∀ b, (∀ fs, Unchanged fs₀ S fs → outcome (x fs) = .ok b) → Fails Reported (Unchanged fs₀ S) (f b)) :
    Fails Reported (Unchanged fs₀ S) (x >>= f) := by
  intro fs h
  obtain ⟨o, ho, hrun, -⟩ := hx fs fs (h.peer h hino hino)
  cases o with
  | error e => exact ⟨e, fs, bind_error hrun, ho, h⟩
  | ok b =>
    rw [bind_ok hrun]
    refine hf b (fun fs' h' => ?_) fs h
    rw [← hx.outcome_eq (h.peer h' hino hino), hrun]
    rfl

theorem attempt_reads {x : FsM α} (hx : Reads Reported (Peer ino) x) : Reads Reported (Peer ino) (attempt x) := by
  intro fs fs' h
  obtain ⟨o, ho, hfs, hfs'⟩ := hx fs fs' h
  unfold attempt
  rw [hfs, hfs']
  cases o with
  | ok a => exact ⟨.ok (some a), trivial, rfl, rfl⟩
  | error e =>
    cases e with
    | err e => exact ⟨.ok none, trivial, rfl, rfl⟩
    | panic => exact absurd rfl ho

theorem outcome_of_attempt {x : FsM α} {fs : Ext2Fs} {a : α} (h : outcome (attempt x fs) = .ok (some a)) :
    outcome (x fs) = .ok a := by
  unfold attempt at h
  cases hx : x fs with
  | ok b fs' =>
    rw [hx] at h
    injection h with h
    injection h with h
    rw [h]
    rfl
  | error e fs' =>
    rw [hx] at h
    cases e with
    | err e =>
      injection h with h
      cases h
    | panic => injection h

variable (hro : fs₀.readOnly = true)

include hro

theorem Unchanged.readOnly {fs : Ext2Fs} (h : Unchanged fs₀ S fs) : fs.readOnly = true := by
  have hbare := congrArg Ext2Fs.readOnly h.bare
  exact hbare.trans hro

/-! ## Blocks and inodes -/

theorem writeFsBlock_fails (b : Nat) (buf : Bytes) : Fails Reported (Unchanged fs₀ S) (writeFsBlock b buf) := by
  unfold writeFsBlock
  apply Fails.get_bind
  intro fs h
  rw [if_pos (h.readOnly hro)]
  exact fails_fail _

theorem writeFsBlocks_fails (b n : Nat) (buf : Bytes) : Fails Reported (Unchanged fs₀ S) (writeFsBlocks b n buf) := by
  unfold writeFsBlocks
  apply Fails.get_bind
  intro fs h
  rw [if_pos (h.readOnly hro)]
  exact fails_fail _

theorem allocBlockGoal_fails (goal : Nat) : Fails Reported (Unchanged fs₀ S) (allocBlockGoal goal) := by
  unfold allocBlockGoal
  apply Fails.get_bind
  intro fs h
  rw [if_pos (h.readOnly hro)]
  exact fails_fail _

theorem freeBlock_fails (b : Nat) : Fails Reported (Unchanged fs₀ S) (freeBlock b) := by
  unfold freeBlock
  apply Fails.get_bind
  intro fs h
  dsimp only
  rw [if_pos (h.readOnly hro)]
  exact fails_fail _

theorem allocInode_fails : Fails Reported (Unchanged fs₀ S) allocInode := by
  unfold allocInode
  apply Fails.get_bind
  intro fs h
  rw [if_pos (h.readOnly hro)]
  exact fails_fail _

/-- A block for an inode is not allocated. -/
theorem allocFor_fails {n : Nat} {f : Nat → FsM α} : Fails Reported (Unchanged fs₀ S) (do
    let block ← allocBlockGoal (← blockGroup n)
    f block) := by
  apply Fails.bind (Keeps.get_bind fun _ _ => Keeps.pure _)
  intro group
  exact (allocBlockGoal_fails hro group).bind_left

theorem writeInodeToDisk_fails (hino : ino ∈ S) : Fails Reported (Unchanged fs₀ S) (writeInodeToDisk ino) := by
  intro fs h
  obtain ⟨r, hr⟩ := h.held ino hino
  rw [writeInodeToDisk, bind_ok (raw_eq hr), get_bind]
  obtain ⟨o, ho, hrun, -⟩ := locateInode_reads ino fs fs (h.alike h)
  cases o with
  | error e => exact ⟨e, fs, bind_error hrun, ho, h⟩
  | ok place =>
    have hoff := locateInode_offset (h.alike h).1 hrun
    rw [bind_ok hrun]
    simp only [if_neg (Nat.not_lt.2 hoff)]
    exact Fails.bind (reads_disk (readFsBlock_reads place.1)) (fun _ => writeFsBlock_fails hro _ _) fs h

/-! ## File data -/

/-- A block that is there is returned; no other is allocated. -/
theorem allocateBlockForOffset_keeps (hino : ino ∈ S) (lb : Nat) (zero : Bool) :
    Keeps Reported (Unchanged fs₀ S) (allocateBlockForOffset ino lb zero) := by
  unfold allocateBlockForOffset
  apply Keeps.bind (reads_unchanged hino (resolveBlockId_reads lb))
  intro existing
  split
  · exact Keeps.pure _
  · apply Keeps.bind (reads_disk ptrsPerBlock_reads)
    intro p
    exact (allocFor_fails hro).keeps

theorem writeRegion_keeps (hino : ino ∈ S) (lb : Nat) (buf : Bytes) (n : Nat) :
    ∀ w, Keeps Reported (Unchanged fs₀ S) (writeRegion ino lb buf n w) := by
  induction n with
  | zero => exact fun w => Keeps.pure _
  | succ n ih =>
    intro w
    unfold writeRegion
    apply Keeps.bind (allocateBlockForOffset_keeps hro hino _ _)
    intro found
    split
    split
    · exact ih _
    · apply Keeps.get_bind
      intro fs h
      exact (writeFsBlocks_fails hro _ _ _).bind_left.keeps

theorem writeBulk_fails (hino : ino ∈ S) (lb : Nat) (buf : Bytes) (remaining : Nat) :
    Fails Reported (Unchanged fs₀ S) (writeBulk ino lb buf remaining) := by
  unfold writeBulk
  apply Fails.get_bind
  intro fs h
  apply Fails.bind (allocateBlockForOffset_keeps hro hino _ _)
  intro found
  split
  apply Fails.bind (writeRegion_keeps hro hino _ _ _ _)
  intro w
  exact (writeFsBlocks_fails hro _ _ _).bind_left

theorem writePartial_fails (hino : ino ∈ S) (lb off : Nat) (buf : Bytes) (remaining : Nat) :
    Fails Reported (Unchanged fs₀ S) (writePartial ino lb off buf remaining) := by
  unfold writePartial
  apply Fails.get_bind
  intro fs h
  apply Fails.bind (allocateBlockForOffset_keeps hro hino _ _)
  intro found
  split
  apply Fails.bind (reads_disk (readFsBlock_reads _))
  intro block
  exact (writeFsBlock_fails hro _ _).bind_left

theorem writeChunk_fails (hino : ino ∈ S) (off : Nat) (buf : Bytes) (remaining : Nat) :
    Fails Reported (Unchanged fs₀ S) (writeChunk ino off buf remaining) := by
  unfold writeChunk
  apply Fails.get_bind
  intro fs h
  dsimp only
  split
  · exact writeBulk_fails hro hino _ _ _
  · exact writePartial_fails hro hino _ _ _ _

/-- **`write_at`** of at least one byte fails. -/
theorem writeAtLocked_fails (hino : ino ∈ S) (off : Nat) (buf : Bytes) {len : Nat} (hlen : len ≠ 0) :
    Fails Reported (Unchanged fs₀ S) (writeAtLocked ino off buf len) := by
  unfold writeAtLocked
  rw [if_neg hlen]
  obtain ⟨fuel, rfl⟩ := Nat.exists_eq_succ_of_ne_zero hlen
  apply Fails.bind_left
  show Fails Reported (Unchanged fs₀ S) (if fuel + 1 ≤ 0 then _ else _)
  rw [if_neg (Nat.not_succ_le_zero fuel)]
  exact (writeChunk_fails hro hino _ _ _).bind_left

/-! ## Directories -/

/-- The index flag goes in memory only. -/
theorem demoteFromHtree_keeps (hino : ino ∈ S) : Keeps Reported (Unchanged fs₀ S) (demoteFromHtree ino) := by
  unfold demoteFromHtree
  apply Keeps.bind (raw_keeps hino)
  intro r
  split
  · apply Keeps.bind (modifyRaw_keeps hino fun r => .setFlags r _)
    intro _
    exact (writeInodeToDisk_fails hro hino).keeps
  · exact Keeps.pure _

/-- A block of a directory that has only whole blocks. -/
theorem writeDirBlock_fails (hino : ino ∈ S) (data : Bytes) {len offset : Nat} (hdvd : fs₀.blockSize ∣ len)
    (hoff : offset < len) : Fails Reported (Unchanged fs₀ S) (writeDirBlock ino data len offset) := by
  unfold writeDirBlock
  apply Fails.get_bind
  intro fs h
  dsimp only
  rw [h.blockSize_eq]
  have hpos := blockSize_ge fs₀
  obtain ⟨k, rfl⟩ := hdvd
  have hlt : offset / fs₀.blockSize + 1 ≤ k := Nat.div_lt_of_lt_mul hoff
  have hend : offset / fs₀.blockSize * fs₀.blockSize + fs₀.blockSize ≤ fs₀.blockSize * k := by
    calc offset / fs₀.blockSize * fs₀.blockSize + fs₀.blockSize
        = fs₀.blockSize * (offset / fs₀.blockSize + 1) := by rw [Nat.mul_add, Nat.mul_one, Nat.mul_comm]
      _ ≤ fs₀.blockSize * k := Nat.mul_le_mul_left _ hlt
  rw [if_neg (Nat.not_lt.2 hend)]
  exact (writeAtLocked_fails hro hino _ _ (by omega)).bind_left

theorem appendDirBlock_fails (hino : ino ∈ S) (name : List Byte) (child : Nat) (ft : Byte) (dirSize : Nat) :
    Fails Reported (Unchanged fs₀ S) (appendDirBlock ino name child ft dirSize) := by
  unfold appendDirBlock
  apply Fails.get_bind
  intro fs h
  have hpos := blockSize_ge fs
  exact (writeAtLocked_fails hro hino _ _ (by omega)).bind_left

/-! ## New names -/

theorem newInode_fails (mode : Nat) : Fails Reported (Unchanged fs₀ S) (newInode mode) :=
  (allocInode_fails hro).bind_left

/-- A name that is taken, or an inode that cannot be allocated. -/
theorem createChild_fails (hino : ino ∈ S) (name : String) (ft : FileType) (mode rdev : Nat) :
    Fails Reported (Unchanged fs₀ S) (createChild ino name ft mode rdev) := by
  unfold createChild
  apply Fails.bind (isOk_keeps (reads_unchanged hino (dirLookup_reads name)))
  intro taken
  split
  · exact fails_fail _
  · exact (newInode_fails hro _).bind_left

/-- **`create`** fails. -/
theorem create_fails (hino : ino ∈ S) (name : String) (ft : FileType) (mode : Nat) :
    Fails Reported (Unchanged fs₀ S) (create ino name ft mode) := by
  unfold create
  split
  · exact fails_fail _
  · exact createChild_fails hro hino _ _ _ _

/-- **`mknod`** fails. -/
theorem mknod_fails (hino : ino ∈ S) (name : String) (ft : FileType) (mode rdev : Nat) :
    Fails Reported (Unchanged fs₀ S) (mknod ino name ft mode rdev) := by
  unfold mknod
  split
  all_goals first | exact createChild_fails hro hino _ _ _ _ | exact fails_fail _

/-- **`symlink`** fails. -/
theorem symlink_fails (hino : ino ∈ S) (name target : String) :
    Fails Reported (Unchanged fs₀ S) (symlink ino name target) := (createChild_fails hro hino _ _ _ _).bind_left

/-- **`mkdir`** fails. -/
theorem mkdir_fails (hino : ino ∈ S) (name : String) (mode : Nat) :
    Fails Reported (Unchanged fs₀ S) (mkdir ino name mode) := by
  unfold mkdir
  apply Fails.bind (isOk_keeps (reads_unchanged hino (dirLookup_reads name)))
  intro taken
  split
  · exact fails_fail _
  · exact (newInode_fails hro _).bind_left

/-! ## The records of a directory -/

variable (hsound : ∀ fs, Unchanged fs₀ S fs → SoundDir fs ino)

include hsound

omit hro in
/-- The directory is read, and what is read of it is sound. -/
theorem fails_dirData {f : Bytes × Nat → FsM α} (hino : ino ∈ S)
    (hf : ∀ data len, fs₀.blockSize ∣ len → Roomy data len len 0 → Fails Reported (Unchanged fs₀ S) (f (data, len))) :
    Fails Reported (Unchanged fs₀ S) (dirData ino >>= f) := by
  apply fails_reads hino dirData_reads
  intro read hread fs h
  obtain ⟨hdvd, hroomy⟩ := hsound fs h read.1 read.2 (hread fs h)
  rw [h.blockSize_eq] at hdvd
  exact hf read.1 read.2 hdvd hroomy fs h

/-- **`add_dir_entry`** fails. -/
theorem addDirEntry_fails (hino : ino ∈ S) (name : String) (child : Nat) (ft : Byte) :
    Fails Reported (Unchanged fs₀ S) (addDirEntry ino name child ft) := by
  unfold addDirEntry
  dsimp only
  split
  · exact fails_fail _
  · apply Fails.bind (demoteFromHtree_keeps hro hino)
    intro _
    apply Fails.get_bind
    intro fs h
    apply fails_dirData hsound hino
    intro data len hdvd hroomy
    have hscan := @addScan_inside data len (entrySize (asBytes name).length) len 0 0 0 hroomy (fun h => absurd h (by omega))
    dsimp only
    cases hs : addScan data len (entrySize (asBytes name).length) len 0 0 0 with
    | slot o recLen =>
      rw [hs] at hscan
      have hin : o + DIR_ENTRY_HEADER_SIZE ≤ len := hscan
      exact writeDirBlock_fails hro hino _ hdvd (by unfold DIR_ENTRY_HEADER_SIZE at hin; omega)
    | last s a =>
      rw [hs] at hscan
      have hlast : 0 < a → Splittable data len s a := hscan
      dsimp only
      split
      · rename_i hroom
        obtain ⟨hend, hact, hin⟩ := hlast hroom.1
        have hrec : leNat data (s + 4) 2 < 2 ^ 16 := leNat_lt
        have hname := entrySize_ge (asBytes name).length
        have hextra : (leNat data (s + 4) 2 + 2 ^ 64 - a) % 2 ^ 64 = leNat data (s + 4) 2 - a := by omega
        rw [hextra] at hroom
        rw [if_neg (by omega)]
        exact writeDirBlock_fails hro hino _ hdvd (by unfold DIR_ENTRY_HEADER_SIZE at hin; omega)
      · exact appendDirBlock_fails hro hino _ _ _ _

/-- **`remove_dir_entry`** fails. -/
theorem removeDirEntry_fails (hino : ino ∈ S) (name : String) :
    Fails Reported (Unchanged fs₀ S) (removeDirEntry ino name) := by
  unfold removeDirEntry
  apply Fails.bind (demoteFromHtree_keeps hro hino)
  intro _
  apply Fails.get_bind
  intro fs h
  apply fails_dirData hsound hino
  intro data len hdvd hroomy
  have hscan := @removeScan_inside data len (asBytes name) len 0 hroomy
  dsimp only
  cases hs : removeScan data len (asBytes name) len 0 with
  | error e =>
    rw [hs] at hscan
    exact Fails.throw hscan
  | ok found =>
    rw [hs] at hscan
    have hin : found.1 + DIR_ENTRY_HEADER_SIZE ≤ len := hscan
    exact writeDirBlock_fails hro hino _ hdvd (by unfold DIR_ENTRY_HEADER_SIZE at hin; omega)

/-- **`link`** fails. -/
theorem link_fails (hino : ino ∈ S) {target : Nat} (htarget : target ∈ S) (name : String) :
    Fails Reported (Unchanged fs₀ S) (link ino name target) := by
  unfold link
  apply Fails.bind (isOk_keeps (reads_unchanged hino (dirLookup_reads name)))
  intro taken
  split
  · exact fails_fail _
  · apply Fails.bind (raw_keeps htarget)
    intro r
    split
    · exact fails_fail _
    · exact (addDirEntry_fails hro hsound hino _ _ _).bind_left

/-- **`unlink`** fails. -/
theorem unlinkLocked_fails (hino : ino ∈ S) (name : String) :
    Fails Reported (Unchanged fs₀ S) (unlinkLocked ino name) := by
  unfold unlinkLocked
  apply Fails.bind (reads_unchanged hino (dirLookup_reads name))
  intro child
  apply fails_getInode
  apply Fails.bind (raw_keeps (List.mem_cons_self ..))
  intro r
  split
  · exact fails_fail _
  · exact (removeDirEntry_fails hro (soundDir_cons hsound child) (List.mem_cons_of_mem _ hino) _).bind_left

/-- **`rmdir`** fails. -/
theorem rmdirLocked_fails (hino : ino ∈ S) (name : String) :
    Fails Reported (Unchanged fs₀ S) (rmdirLocked ino name) := by
  unfold rmdirLocked
  split
  · exact fails_fail _
  · apply Fails.bind (reads_unchanged hino (dirLookup_reads name))
    intro child
    apply fails_getInode
    have hchild : child ∈ child :: S := List.mem_cons_self ..
    apply Fails.bind (raw_keeps hchild)
    intro r
    split
    · exact fails_fail _
    · apply Fails.bind (reads_unchanged hchild dirList_reads)
      intro entries
      split
      · exact fails_fail _
      · exact (removeDirEntry_fails hro (soundDir_cons hsound child) (List.mem_cons_of_mem _ hino) _).bind_left

omit hro hsound in
theorem ancestorWalk_keeps (ancestor fuel : Nat) :
    ∀ cur, Keeps Reported (Unchanged fs₀ S) (ancestorWalk ancestor fuel cur) := by
  induction fuel generalizing S with
  | zero => exact fun cur => Keeps.pure _
  | succ fuel ih =>
    intro cur
    unfold ancestorWalk
    split
    · exact Keeps.pure _
    · split
      · exact Keeps.pure _
      · apply keeps_getInode
        apply Keeps.bind (reads_unchanged (List.mem_cons_self ..) (dirLookup_reads ".."))
        intro parent
        split
        · exact Keeps.pure _
        · exact ih parent

theorem replaceTarget_fails (hino : ino ∈ S) (name : String) (existing : Nat) :
    Fails Reported (Unchanged fs₀ S) (replaceTarget ino name existing) := by
  unfold replaceTarget
  apply fails_getInode
  have hexisting : existing ∈ existing :: S := List.mem_cons_self ..
  have hino' : ino ∈ existing :: S := List.mem_cons_of_mem _ hino
  apply Fails.bind (raw_keeps hexisting)
  intro r
  split
  · apply Fails.bind (reads_unchanged hexisting dirList_reads)
    intro entries
    split
    · exact fails_fail _
    · exact rmdirLocked_fails hro (soundDir_cons hsound existing) hino' name
  · exact unlinkLocked_fails hro (soundDir_cons hsound existing) hino' name

/-- What follows the check for cycles, where the target is not the entry that is renamed. -/
theorem renameTarget_fails {dir child : Nat} {oldName newName : String} {ft : Byte} {isDir : Bool} (hino : ino ∈ S)
    (hne : ∀ fs, Unchanged fs₀ S fs → outcome (dirLookup ino newName fs) ≠ .ok child) :
    Fails Reported (Unchanged fs₀ S) (do
      match ← attempt (dirLookup ino newName) with
      | none => moveEntry dir oldName ino newName child ft isDir
      | some existing =>
        if existing = child then pure ()
        else do
          replaceTarget ino newName existing
          moveEntry dir oldName ino newName child ft isDir) := by
  apply fails_reads hino (attempt_reads (dirLookup_reads newName))
  intro existing hexisting
  cases existing with
  | none => exact (addDirEntry_fails hro hsound hino _ _ _).bind_left
  | some existing =>
    dsimp only
    split
    · rename_i heq
      intro fs h
      exact absurd (outcome_of_attempt (hexisting fs h)) (heq ▸ hne fs h)
    · exact (replaceTarget_fails hro hsound hino _ _).bind_left

/-- **`rename`** fails, unless both names are names of one inode. -/
theorem rename_fails {dir : Nat} (hino : ino ∈ S) (hdir : dir ∈ S) (oldName newName : String)
    (hne : ∀ fs, Unchanged fs₀ S fs → ∀ child, outcome (dirLookup dir oldName fs) = .ok child →
      outcome (dirLookup ino newName fs) ≠ .ok child) :
    Fails Reported (Unchanged fs₀ S) (rename dir oldName ino newName) := by
  unfold rename
  apply fails_reads hdir (dirLookup_reads oldName)
  intro child hchild
  apply fails_getInode
  have hino' : ino ∈ child :: S := List.mem_cons_of_mem _ hino
  have hsound' := soundDir_cons hsound child
  have hold : ∀ fs, Unchanged fs₀ (child :: S) fs → outcome (dirLookup ino newName fs) ≠ .ok child := by
    intro fs h
    have h' : Unchanged fs₀ S fs := h.mono fun _ hm => List.mem_cons_of_mem _ hm
    exact hne fs h' child (hchild fs h')
  apply Fails.bind (raw_keeps (List.mem_cons_self ..))
  intro r
  dsimp only
  split
  · apply Fails.bind (Keeps.get_bind fun _ _ => ancestorWalk_keeps _ _ _)
    intro cycle
    split
    · exact fails_fail _
    · exact renameTarget_fails hro hsound' hino' hold
  · apply Fails.bind (Keeps.pure _)
    intro cycle
    split
    · exact fails_fail _
    · exact renameTarget_fails hro hsound' hino' hold

theorem renameTarget_keeps {dir child : Nat} {oldName newName : String} {ft : Byte} {isDir : Bool} (hino : ino ∈ S) :
    Keeps Reported (Unchanged fs₀ S) (do
      match ← attempt (dirLookup ino newName) with
      | none => moveEntry dir oldName ino newName child ft isDir
      | some existing =>
        if existing = child then pure ()
        else do
          replaceTarget ino newName existing
          moveEntry dir oldName ino newName child ft isDir) := by
  apply Keeps.bind (attempt_keeps (reads_unchanged hino (dirLookup_reads newName)))
  intro existing
  cases existing with
  | none => exact (addDirEntry_fails hro hsound hino _ _ _).bind_left.keeps
  | some existing =>
    dsimp only
    split
    · exact Keeps.pure _
    · exact (replaceTarget_fails hro hsound hino _ _).bind_left.keeps

/-- **`rename`** changes nothing in any case. -/
theorem rename_keeps {dir : Nat} (hino : ino ∈ S) (hdir : dir ∈ S) (oldName newName : String) :
    Keeps Reported (Unchanged fs₀ S) (rename dir oldName ino newName) := by
  unfold rename
  apply Keeps.bind (reads_unchanged hdir (dirLookup_reads oldName))
  intro child
  apply keeps_getInode
  have hino' : ino ∈ child :: S := List.mem_cons_of_mem _ hino
  have hsound' := soundDir_cons hsound child
  apply Keeps.bind (raw_keeps (List.mem_cons_self ..))
  intro r
  dsimp only
  split
  · apply Keeps.bind (Keeps.get_bind fun _ _ => ancestorWalk_keeps _ _ _)
    intro cycle
    split
    · exact (fails_fail _).keeps
    · exact renameTarget_keeps hro hsound' hino'
  · apply Keeps.bind (Keeps.pure _)
    intro cycle
    split
    · exact (fails_fail _).keeps
    · exact renameTarget_keeps hro hsound' hino'

omit hsound

/-! ## Attributes -/

omit hro in
theorem liftResult_keeps {o : Except FsError α} : Keeps Reported (Unchanged fs₀ S) (liftResult o : FsM α) := by
  cases o with
  | ok a => exact Keeps.pure a
  | error e => exact (fails_fail e).keeps

theorem storeXattrBlock_fails (acl : Nat) (shared : Bool) (buf : Bytes) :
    Fails Reported (Unchanged fs₀ S) (storeXattrBlock ino acl shared buf) := by
  unfold storeXattrBlock
  split
  · exact allocFor_fails hro
  · split
    · exact allocFor_fails hro
    · exact writeFsBlock_fails hro _ _

theorem dropXattrBlock_fails (acl : Nat) (shared : Bool) :
    Fails Reported (Unchanged fs₀ S) (dropXattrBlock acl shared) := by
  unfold dropXattrBlock
  split
  · exact Fails.bind (reads_disk (readFsBlock_reads _)) fun _ => writeFsBlock_fails hro _ _
  · exact freeBlock_fails hro _

/-- **`setxattr`** fails. -/
theorem setxattr_fails (hino : ino ∈ S) (name : String) (value : List Byte) :
    Fails Reported (Unchanged fs₀ S) (setxattr ino name value) := by
  unfold setxattr
  cases keyOf name with
  | none => exact fails_fail _
  | some key =>
    apply Fails.get_bind
    intro fs h
    apply Fails.bind (raw_keeps hino)
    intro r
    have hstore : ∀ attrs shared, Fails Reported (Unchanged fs₀ S) (do
        let newBuf ← liftResult (serializeBlock (upsert attrs key value) fs.blockSize)
        storeXattrBlock ino r.fileAcl shared newBuf
        writeInodeToDisk ino) := by
      intro attrs shared
      apply Fails.bind liftResult_keeps
      intro newBuf
      exact (storeXattrBlock_fails hro _ _ _).bind_left
    dsimp only
    split
    · apply Fails.bind (reads_disk (readFsBlock_reads _))
      intro buf
      apply Fails.bind liftResult_keeps
      intro attrs
      exact Fails.bind (Keeps.pure _) fun old => hstore old.1 old.2
    · exact Fails.bind (Keeps.pure _) fun old => hstore old.1 old.2

/-- **`removexattr`** fails. -/
theorem removexattr_fails (hino : ino ∈ S) (name : String) :
    Fails Reported (Unchanged fs₀ S) (removexattr ino name) := by
  unfold removexattr
  cases keyOf name with
  | none => exact fails_fail _
  | some key =>
    apply Fails.get_bind
    intro fs h
    apply Fails.bind (raw_keeps hino)
    intro r
    dsimp only
    split
    · exact fails_fail _
    · apply Fails.bind (reads_disk (readFsBlock_reads _))
      intro buf
      apply Fails.bind liftResult_keeps
      intro attrs
      split
      · exact fails_fail _
      · split
        · exact (dropXattrBlock_fails hro _ _).bind_left
        · apply Fails.bind liftResult_keeps
          intro newBuf
          exact (storeXattrBlock_fails hro _ _ _).bind_left

end Refusal

end Koros.Ext2
