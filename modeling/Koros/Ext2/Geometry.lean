import Koros.Lib.Checked
import Koros.Ext2.Open

/-!
# The geometry of an accepted image

`from_raw` checks that no divisor is 0 and that a block has a possible size. It does not relate `first_data_block`,
`blocks_count`, `blocks_per_group` and the inode counts to each other, and the number of groups is computed as if the
first group started at block 0. The arithmetic of the allocators, of the write-back and of the inode location is modelled
here with checks (`allocBlockArith`, `freeBlockArith`, `bgdtCopyBlock`, …); a result is `none` where a checked build stops
and an unchecked one wraps around.

`SafeGeometry` says that none of it overflows, that the descriptors are written to where they were read from, that every
block computed lies on the filesystem and that the groups partition it. `GoodGeometry` is the exact condition on the
superblock and the descriptors (`safeGeometry_iff`).
-/
set_option autoImplicit false

namespace Koros.Ext2

open Koros.Lib

/-! ## The arithmetic -/

section Arithmetic

variable (sb : SuperBlock)

/-- `first_data_block + g * blocks_per_group`. -/
def groupFirst (g : Nat) : Option Nat := do
  let offset ← checked 32 (g * sb.blocksPerGroup)
  checked 32 (sb.firstDataBlock + offset)

/-- One round of `alloc_block_goal` on group `g` whose bitmap holds `bitmap`: the block it finds. -/
def allocBlockArith (bg : BlockGroupDescriptor) (g : Nat) (bitmap : Bytes) : Option (Option Nat) :=
  if bg.freeBlocksCount = 0 then some none
  else do
    let first ← groupFirst sb g
    let left ← checkedSub sb.blocksCount first
    match Bitmap.findFirstClear ⟨bitmap, sb.blockSize, min sb.blocksPerGroup left⟩ with
    | none => some none
    | some localIdx => do
      let base ← checked 32 (g * sb.blocksPerGroup)
      let inGroup ← checked 32 (base + localIdx)
      let blockId ← checked 32 (inGroup + sb.firstDataBlock)
      let _ ← checkedSub bg.freeBlocksCount 1
      let _ ← checkedSub sb.freeBlocksCount 1
      some (some blockId)

/-- `inodes_in_this_group`. -/
def inodesInGroup (g : Nat) : Option Nat := do
  let last ← checkedSub sb.blockGroupCount 1
  if g = last then
    let before ← checked 32 (last * sb.inodesPerGroup)
    checkedSub sb.inodesCount before
  else some sb.inodesPerGroup

/-- One round of `alloc_inode` on group `g`. -/
def allocInodeArith (bg : BlockGroupDescriptor) (g : Nat) (bitmap : Bytes) : Option (Option Nat) :=
  if bg.freeInodesCount = 0 then some none
  else do
    let size ← inodesInGroup sb g
    match Bitmap.findFirstClear ⟨bitmap, sb.blockSize, size⟩ with
    | none => some none
    | some localIdx => do
      let base ← checked 32 (g * sb.inodesPerGroup)
      let inGroup ← checked 32 (base + localIdx)
      let inodeNum ← checked 32 (inGroup + 1)
      let _ ← checkedSub bg.freeInodesCount 1
      let _ ← checkedSub sb.freeInodesCount 1
      some (some inodeNum)

/-- The counters of `free_block` and `free_inode`. -/
def countUp (groupCount total : Nat) : Option Unit := do
  let _ ← checked 16 (groupCount + 1)
  let _ ← checked 32 (total + 1)
  some ()

/-- `free_block`: a block outside the groups or their bitmaps is refused. -/
def freeBlockArith (table : List BlockGroupDescriptor) (blockId : Nat) : Option Unit :=
  if blockId < sb.firstDataBlock then some ()
  else
    match table[(blockId - sb.firstDataBlock) / sb.blocksPerGroup]? with
    | none => some ()
    | some bg =>
      if (blockId - sb.firstDataBlock) % sb.blocksPerGroup / 8 < sb.blockSize then
        countUp bg.freeBlocksCount sb.freeBlocksCount
      else some ()

/-- `free_inode`. -/
def freeInodeArith (table : List BlockGroupDescriptor) (inodeNum : Nat) : Option Unit :=
  if inodeNum = 0 then some ()
  else
    match table[(inodeNum - 1) / sb.inodesPerGroup]? with
    | none => some ()
    | some bg =>
      if (inodeNum - 1) % sb.inodesPerGroup / 8 < sb.blockSize then countUp bg.freeInodesCount sb.freeInodesCount
      else some ()

/-- The block of an inode and its offset there. -/
def locateArith (table : List BlockGroupDescriptor) (inodeNum : Nat) : Option (Option (Nat × Nat)) :=
  if inodeNum = 0 then some none
  else
    match table[(inodeNum - 1) / sb.inodesPerGroup]? with
    | none => some none
    | some bg => do
      let offset ← checked 64 ((inodeNum - 1) % sb.inodesPerGroup * sb.inodeSize)
      let block ← checked 64 (bg.inodeTable + offset / sb.blockSize)
      some (some (block, offset % sb.blockSize))

/-- Block `i` of the copy of the descriptor table in group `g`; the first group has the primary one. -/
def bgdtCopyBlock (g i : Nat) : Option Nat := do
  let first ← groupFirst sb g
  let start ← checked 64 (first + 1)
  checked 64 (start + i)

/-- The number of blocks of the descriptor table. -/
def bgdtLength (table : List BlockGroupDescriptor) : Nat := divCeil (table.length * 32) sb.blockSize

/-- The blocks of group `g`; the last group ends with the filesystem. -/
def InGroup (g b : Nat) : Prop :=
  sb.firstDataBlock + g * sb.blocksPerGroup ≤ b ∧
    b < sb.firstDataBlock + g * sb.blocksPerGroup +
      min sb.blocksPerGroup (sb.blocksCount - (sb.firstDataBlock + g * sb.blocksPerGroup))

end Arithmetic

/-! ## Safety and its condition -/

/-- What is safe to do with a superblock and a descriptor table. -/
structure SafeGeometry (sb : SuperBlock) (table : List BlockGroupDescriptor) : Prop where
  allocBlock : ∀ g bg, table[g]? = some bg → ∀ bitmap, allocBlockArith sb bg g bitmap ≠ none
  allocInode : ∀ g bg, table[g]? = some bg → ∀ bitmap, allocInodeArith sb bg g bitmap ≠ none
  freeBlock : ∀ blockId < 2 ^ 32, freeBlockArith sb table blockId ≠ none
  freeInode : ∀ inodeNum < 2 ^ 32, freeInodeArith sb table inodeNum ≠ none
  locate : ∀ inodeNum < 2 ^ 32, locateArith sb table inodeNum ≠ none
  /-- The first block of every group, which is the place of the superblock's copies. -/
  groups : ∀ g < sb.blockGroupCount, ∃ b, groupFirst sb g = some b ∧ b < sb.blocksCount
  copies : ∀ g ∈ 0 :: backupGroups sb, ∀ i < bgdtLength sb table,
    ∃ b, bgdtCopyBlock sb g i = some b ∧ b < sb.blocksCount
  written : ∀ i < bgdtLength sb table, bgdtCopyBlock sb 0 i = some (loadedBgdtBlock sb.blockSize + i)
  nonempty : ∀ g < sb.blockGroupCount, ∃ b, InGroup sb g b
  partition : ∀ b, (sb.firstDataBlock ≤ b ∧ b < sb.blocksCount) ↔ ∃! g, g < sb.blockGroupCount ∧ InGroup sb g b

/-- The condition on a superblock and a descriptor table. -/
structure GoodGeometry (sb : SuperBlock) (table : List BlockGroupDescriptor) : Prop where
  /-- The first group starts with the superblock. -/
  first : sb.firstDataBlock + 1 = loadedBgdtBlock sb.blockSize
  /-- The last group is not empty. -/
  last : sb.firstDataBlock + (sb.blockGroupCount - 1) * sb.blocksPerGroup < sb.blocksCount
  /-- Every copy of the descriptor table fits. -/
  copies : ∀ g ∈ 0 :: backupGroups sb,
    sb.firstDataBlock + g * sb.blocksPerGroup + bgdtLength sb table < sb.blocksCount
  /-- The last group does not start after the last inode, if it has a free inode. -/
  lastInodes : ∀ bg, table[sb.blockGroupCount - 1]? = some bg → bg.freeInodesCount ≠ 0 →
    (sb.blockGroupCount - 1) * sb.inodesPerGroup ≤ sb.inodesCount
  /-- The inodes of every other group with a free one have a number. -/
  inodes : ∀ g bg, table[g]? = some bg → g ≠ sb.blockGroupCount - 1 → bg.freeInodesCount ≠ 0 →
    g * sb.inodesPerGroup + min sb.inodesPerGroup (8 * sb.blockSize) < 2 ^ 32
  /-- The counters can count one more. -/
  blockCounts : ∀ bg ∈ table, bg.freeBlocksCount + 1 < 2 ^ 16
  blockTotal : sb.freeBlocksCount + 1 < 2 ^ 32
  inodeCounts : ∀ g bg, table[g]? = some bg → g * sb.inodesPerGroup + 1 < 2 ^ 32 → bg.freeInodesCount + 1 < 2 ^ 16
  inodeTotal : sb.freeInodesCount + 1 < 2 ^ 32
  /-- The totals are not 0 while a group has something free. -/
  blockLeft : ∀ bg ∈ table, bg.freeBlocksCount ≠ 0 → sb.freeBlocksCount ≠ 0
  inodeLeft : ∀ g bg, table[g]? = some bg → bg.freeInodesCount ≠ 0 →
    (g = sb.blockGroupCount - 1 → (sb.blockGroupCount - 1) * sb.inodesPerGroup < sb.inodesCount) →
    sb.freeInodesCount ≠ 0

/-! ## The number of groups -/

section Groups

variable {sb : SuperBlock} (hacc : sb.Accepted)

include hacc

theorem blockGroupCount_pos : 0 < sb.blockGroupCount := by
  have hb := hacc.blocksCount.1
  have hg := hacc.blocksPerGroup.1
  exact Nat.div_pos (by omega) hg

/-- The groups cover the filesystem, and all but one of them do not. -/
theorem blockGroupCount_spec : sb.blocksCount ≤ sb.blockGroupCount * sb.blocksPerGroup ∧
    (sb.blockGroupCount - 1) * sb.blocksPerGroup < sb.blocksCount := by
  have hb := hacc.blocksCount.1
  have hg := hacc.blocksPerGroup.1
  have hdiv := Nat.div_add_mod (sb.blocksCount + sb.blocksPerGroup - 1) sb.blocksPerGroup
  have hmod := Nat.mod_lt (sb.blocksCount + sb.blocksPerGroup - 1) hg
  change sb.blocksPerGroup * sb.blockGroupCount + _ = _ at hdiv
  rw [Nat.mul_comm] at hdiv
  refine ⟨by omega, ?_⟩
  rw [Nat.sub_mul, Nat.one_mul]
  omega

theorem blockGroupCount_lt : sb.blockGroupCount < 2 ^ 32 := by
  have hb := hacc.blocksCount
  have hg := hacc.blocksPerGroup.1
  have hle : sb.blockGroupCount - 1 ≤ (sb.blockGroupCount - 1) * sb.blocksPerGroup := Nat.le_mul_of_pos_right _ hg
  have := (blockGroupCount_spec hacc).2
  omega

/-- The first block of a group, if the last group has one. -/
theorem groupFirst_eq (hlast : sb.firstDataBlock + (sb.blockGroupCount - 1) * sb.blocksPerGroup < sb.blocksCount)
    {g : Nat} (hg : g < sb.blockGroupCount) :
    groupFirst sb g = some (sb.firstDataBlock + g * sb.blocksPerGroup) ∧
      sb.firstDataBlock + g * sb.blocksPerGroup < sb.blocksCount := by
  have hle : g * sb.blocksPerGroup ≤ (sb.blockGroupCount - 1) * sb.blocksPerGroup :=
    Nat.mul_le_mul_right _ (by omega)
  have hb := hacc.blocksCount.2
  refine ⟨?_, by omega⟩
  unfold groupFirst
  rw [checked_eq_some (by omega)]
  exact checked_eq_some (by omega)

/-- The group of a block. -/
theorem inGroup_div {b : Nat} (hfirst : sb.firstDataBlock ≤ b) (hb : b < sb.blocksCount) :
    (b - sb.firstDataBlock) / sb.blocksPerGroup < sb.blockGroupCount ∧
      InGroup sb ((b - sb.firstDataBlock) / sb.blocksPerGroup) b := by
  have hg := hacc.blocksPerGroup.1
  have hdiv := Nat.div_add_mod (b - sb.firstDataBlock) sb.blocksPerGroup
  have hmod := Nat.mod_lt (b - sb.firstDataBlock) hg
  rw [Nat.mul_comm] at hdiv
  refine ⟨?_, ?_, ?_⟩
  · apply Nat.div_lt_of_lt_mul
    have := (blockGroupCount_spec hacc).1
    rw [Nat.mul_comm]
    omega
  · omega
  · omega

end Groups

theorem InGroup.eq_div {sb : SuperBlock} {g b : Nat} (h : InGroup sb g b) : g = (b - sb.firstDataBlock) / sb.blocksPerGroup := by
  obtain ⟨hle, hlt⟩ := h
  symm
  apply Nat.div_eq_of_lt_le
  · omega
  · rw [Nat.add_mul, Nat.one_mul]
    omega

theorem InGroup.lt {sb : SuperBlock} {g b : Nat} (h : InGroup sb g b) : sb.firstDataBlock ≤ b ∧ b < sb.blocksCount := by
  obtain ⟨hle, hlt⟩ := h
  omega

/-- The groups partition the filesystem whatever its last group is. -/
theorem groups_partition {sb : SuperBlock} (hacc : sb.Accepted) (b : Nat) :
    (sb.firstDataBlock ≤ b ∧ b < sb.blocksCount) ↔ ∃! g, g < sb.blockGroupCount ∧ InGroup sb g b := by
  constructor
  · rintro ⟨hfirst, hb⟩
    exact ⟨_, inGroup_div hacc hfirst hb, fun g hg => hg.2.eq_div⟩
  · rintro ⟨g, ⟨-, hg⟩, -⟩
    exact hg.lt

/-! ## What a search finds -/

/-- A bitmap with one clear bit. -/
def onlyClear (k : Nat) : Bytes := writeBitAt false (fun _ => 0xFF) k

theorem testBitAt_onlyClear {k j : Nat} : testBitAt (onlyClear k) j = decide (j ≠ k) := by
  unfold onlyClear
  rw [testBitAt_writeBitAt (by omega)]
  have hones : testBitAt (fun _ => (0xFF : Byte)) j = true := getLsbD_of_all_set rfl (Nat.mod_lt _ (by omega))
  by_cases hjk : j = k
  · simp [hjk]
  · rw [if_neg hjk, hones]
    simp [hjk]

theorem findFirstClear_onlyClear {k len size : Nat} (hsize : k < size) (hlen : k / 8 < len) :
    Bitmap.findFirstClear ⟨onlyClear k, len, size⟩ = some k := by
  cases hf : Bitmap.findFirstClear ⟨onlyClear k, len, size⟩ with
  | none =>
    have hbit : testBitAt (onlyClear k) k = true := findFirstClear_eq_none hf hsize hlen
    rw [testBitAt_onlyClear] at hbit
    simp at hbit
  | some j =>
    obtain ⟨-, -, hbit⟩ := findFirstClear_eq_some hf
    change testBitAt (onlyClear k) j = false at hbit
    rw [testBitAt_onlyClear] at hbit
    simp only [ne_eq, decide_eq_false_iff_not, Decidable.not_not] at hbit
    rw [hbit]

/-! ## When the arithmetic is defined -/

section Defined

variable {sb : SuperBlock} {table : List BlockGroupDescriptor} {bg : BlockGroupDescriptor} {g : Nat} {bitmap : Bytes}

theorem countUp_ne_none {groupCount total : Nat} :
    countUp groupCount total ≠ none ↔ groupCount + 1 < 2 ^ 16 ∧ total + 1 < 2 ^ 32 := by
  simp only [countUp, checked_bind_ne_none, ne_eq, reduceCtorEq, not_false_iff, and_true]

theorem inodesInGroup_last (hpos : 0 < sb.blockGroupCount) (hic : sb.inodesCount < 2 ^ 32)
    (hle : (sb.blockGroupCount - 1) * sb.inodesPerGroup ≤ sb.inodesCount) :
    inodesInGroup sb (sb.blockGroupCount - 1) =
      some (sb.inodesCount - (sb.blockGroupCount - 1) * sb.inodesPerGroup) := by
  unfold inodesInGroup
  rw [checkedSub_eq_some (show 1 ≤ sb.blockGroupCount from hpos)]
  show (if _ then _ else _) = _
  rw [if_pos rfl, checked_eq_some (by omega)]
  exact checkedSub_eq_some hle

theorem inodesInGroup_other (hpos : 0 < sb.blockGroupCount) (hg : g ≠ sb.blockGroupCount - 1) :
    inodesInGroup sb g = some sb.inodesPerGroup := by
  unfold inodesInGroup
  rw [checkedSub_eq_some (show 1 ≤ sb.blockGroupCount from hpos)]
  exact if_neg hg

theorem inodesInGroup_ne_none (h : inodesInGroup sb (sb.blockGroupCount - 1) ≠ none) :
    (sb.blockGroupCount - 1) * sb.inodesPerGroup ≤ sb.inodesCount := by
  unfold inodesInGroup at h
  rw [checkedSub_bind_ne_none, if_pos rfl, checked_bind_ne_none] at h
  unfold checkedSub at h
  by_contra hlt
  rw [if_neg hlt] at h
  exact h.2.2 rfl

/-- A round of `alloc_inode` that finds bit `i` of a group of `size` inodes. -/
theorem allocInodeArith_found {size i : Nat} (hfree : bg.freeInodesCount ≠ 0) (hsize : inodesInGroup sb g = some size)
    (hfind : Bitmap.findFirstClear ⟨bitmap, sb.blockSize, size⟩ = some i) :
    allocInodeArith sb bg g bitmap ≠ none ↔ g * sb.inodesPerGroup + i + 1 < 2 ^ 32 ∧ sb.freeInodesCount ≠ 0 := by
  unfold allocInodeArith
  rw [if_neg hfree, hsize]
  show (match Bitmap.findFirstClear ⟨bitmap, sb.blockSize, size⟩ with
    | none => some none
    | some localIdx => _) ≠ none ↔ _
  rw [hfind]
  simp only [checked_bind_ne_none, checkedSub_bind_ne_none, ne_eq, reduceCtorEq, not_false_iff, and_true]
  omega

theorem allocInodeArith_none {size : Nat} (hsize : inodesInGroup sb g = some size)
    (hfind : Bitmap.findFirstClear ⟨bitmap, sb.blockSize, size⟩ = none) : allocInodeArith sb bg g bitmap ≠ none := by
  unfold allocInodeArith
  split
  · exact Option.some_ne_none _
  · rw [hsize]
    show (match Bitmap.findFirstClear ⟨bitmap, sb.blockSize, size⟩ with
      | none => some none
      | some localIdx => _) ≠ none
    rw [hfind]
    exact Option.some_ne_none _

/-- A round of `alloc_block_goal` in a group that starts on the filesystem. -/
theorem allocBlockArith_ne_none {first : Nat} (hfree : bg.freeBlocksCount ≠ 0) (hgroup : groupFirst sb g = some first)
    (hfirst : first = sb.firstDataBlock + g * sb.blocksPerGroup) (hlt : first < sb.blocksCount)
    (hbc : sb.blocksCount < 2 ^ 32) :
    allocBlockArith sb bg g bitmap ≠ none ↔
      (Bitmap.findFirstClear ⟨bitmap, sb.blockSize, min sb.blocksPerGroup (sb.blocksCount - first)⟩ = none ∨
        sb.freeBlocksCount ≠ 0) := by
  unfold allocBlockArith
  rw [if_neg hfree, hgroup]
  show (checkedSub sb.blocksCount first >>= _) ≠ none ↔ _
  rw [checkedSub_eq_some (Nat.le_of_lt hlt)]
  show (match Bitmap.findFirstClear ⟨bitmap, sb.blockSize, min sb.blocksPerGroup (sb.blocksCount - first)⟩ with
    | none => some none
    | some localIdx => _) ≠ none ↔ _
  cases hfind : Bitmap.findFirstClear ⟨bitmap, sb.blockSize, min sb.blocksPerGroup (sb.blocksCount - first)⟩ with
  | none => exact ⟨fun _ => .inl rfl, fun _ => Option.some_ne_none _⟩
  | some i =>
    have hi : i < min sb.blocksPerGroup (sb.blocksCount - first) := (findFirstClear_eq_some hfind).1
    simp only [checked_bind_ne_none, checkedSub_bind_ne_none, ne_eq, reduceCtorEq, not_false_iff, and_true, false_or]
    omega

end Defined

/-! ## The condition is exact -/

section Exact

variable {sb : SuperBlock} {table : List BlockGroupDescriptor} (hacc : sb.Accepted)
  (hlen : table.length = sb.blockGroupCount)

include hacc hlen

theorem bgdtLength_pos : 0 < bgdtLength sb table := by
  have hpos := blockGroupCount_pos hacc
  have hbs := sb.blockSize_ge
  unfold bgdtLength divCeil
  rw [hlen]
  exact Nat.div_pos (by omega) (by omega)

theorem bgdtLength_lt : bgdtLength sb table < 2 ^ 40 := by
  have hlt := blockGroupCount_lt hacc
  have hbs := sb.blockSize_ge
  unfold bgdtLength divCeil
  rw [hlen]
  apply Nat.div_lt_of_lt_mul
  calc sb.blockGroupCount * 32 + sb.blockSize - 1 < sb.blockSize * 2 ^ 38 + sb.blockSize := by omega
    _ ≤ sb.blockSize * 2 ^ 40 := by omega

omit hlen in
theorem mem_copies {g : Nat} (hg : g ∈ 0 :: backupGroups sb) : g < sb.blockGroupCount := by
  have hpos := blockGroupCount_pos hacc
  rcases List.mem_cons.1 hg with rfl | hg
  · exact hpos
  · have hmem := List.mem_range'_1.1 (List.mem_of_mem_filter hg)
    omega

/-- A block of a copy of the descriptor table. -/
theorem bgdtCopyBlock_eq (hlast : sb.firstDataBlock + (sb.blockGroupCount - 1) * sb.blocksPerGroup < sb.blocksCount)
    {g i : Nat} (hg : g ∈ 0 :: backupGroups sb) (hi : i < bgdtLength sb table) :
    bgdtCopyBlock sb g i = some (sb.firstDataBlock + g * sb.blocksPerGroup + 1 + i) := by
  obtain ⟨hfirst, hlt⟩ := groupFirst_eq hacc hlast (mem_copies hacc hg)
  have hbc := hacc.blocksCount.2
  have hlenlt := bgdtLength_lt hacc hlen
  unfold bgdtCopyBlock
  rw [hfirst]
  show (checked 64 (sb.firstDataBlock + g * sb.blocksPerGroup + 1) >>= _) = _
  rw [checked_eq_some (by omega)]
  exact checked_eq_some (by omega)

section Safe

variable (h : SafeGeometry sb table)

include h

omit hlen in
theorem SafeGeometry.last : sb.firstDataBlock + (sb.blockGroupCount - 1) * sb.blocksPerGroup < sb.blocksCount := by
  have hpos := blockGroupCount_pos hacc
  obtain ⟨b, hle, hlt⟩ := h.nonempty (sb.blockGroupCount - 1) (by omega)
  omega

/-- The first block of a group is freed. -/
theorem SafeGeometry.blockCounts {g : Nat} {bg : BlockGroupDescriptor} (hbg : table[g]? = some bg) :
    bg.freeBlocksCount + 1 < 2 ^ 16 ∧ sb.freeBlocksCount + 1 < 2 ^ 32 := by
  have hbs := sb.blockSize_ge
  have hbc := hacc.blocksCount.2
  have hg : g < sb.blockGroupCount := hlen ▸ (List.getElem?_eq_some_iff.1 hbg).1
  obtain ⟨-, hlt⟩ := groupFirst_eq hacc (h.last hacc) hg
  have hfree := h.freeBlock (sb.firstDataBlock + g * sb.blocksPerGroup) (by omega)
  unfold freeBlockArith at hfree
  rw [if_neg (by omega), Nat.add_sub_cancel_left, Nat.mul_div_cancel _ hacc.blocksPerGroup.1, hbg] at hfree
  dsimp only at hfree
  rw [Nat.mul_mod_left, if_pos (by omega)] at hfree
  exact countUp_ne_none.1 hfree

omit hlen in
/-- The first inode of a group is freed. -/
theorem SafeGeometry.inodeCounts {g : Nat} {bg : BlockGroupDescriptor} (hbg : table[g]? = some bg)
    (hlt : g * sb.inodesPerGroup + 1 < 2 ^ 32) :
    bg.freeInodesCount + 1 < 2 ^ 16 ∧ sb.freeInodesCount + 1 < 2 ^ 32 := by
  have hbs := sb.blockSize_ge
  have hfree := h.freeInode (g * sb.inodesPerGroup + 1) hlt
  unfold freeInodeArith at hfree
  rw [if_neg (by omega), Nat.add_sub_cancel, Nat.mul_div_cancel _ hacc.inodesPerGroup.1, hbg] at hfree
  dsimp only at hfree
  rw [Nat.mul_mod_left, if_pos (by omega)] at hfree
  exact countUp_ne_none.1 hfree

omit hacc hlen in
theorem SafeGeometry.lastInodes {bg : BlockGroupDescriptor} (hbg : table[sb.blockGroupCount - 1]? = some bg)
    (hfree : bg.freeInodesCount ≠ 0) : (sb.blockGroupCount - 1) * sb.inodesPerGroup ≤ sb.inodesCount := by
  have halloc := h.allocInode _ bg hbg (fun _ => 0)
  unfold allocInodeArith at halloc
  rw [if_neg hfree] at halloc
  apply inodesInGroup_ne_none
  intro hnone
  rw [hnone] at halloc
  exact halloc rfl

/-- What has to hold. -/
theorem SafeGeometry.good : GoodGeometry sb table := by
  have hpos := blockGroupCount_pos hacc
  have hbs := sb.blockSize_ge
  have hlast := h.last hacc
  have hlenpos := bgdtLength_pos hacc hlen
  obtain ⟨bg₀, hbg₀⟩ : ∃ bg, table[0]? = some bg := by
    rw [← hlen] at hpos
    exact ⟨table[0], List.getElem?_eq_getElem hpos⟩
  refine {
    first := ?_
    last := hlast
    copies := ?_
    lastInodes := fun bg hbg hfree => h.lastInodes hbg hfree
    inodes := ?_
    blockCounts := ?_
    blockTotal := (h.blockCounts hacc hlen hbg₀).2
    inodeCounts := fun g bg hbg hlt => (h.inodeCounts hacc hbg hlt).1
    inodeTotal := (h.inodeCounts hacc hbg₀ (by omega)).2
    blockLeft := ?_
    inodeLeft := ?_ }
  · have hw := h.written 0 hlenpos
    rw [bgdtCopyBlock_eq hacc hlen hlast (List.mem_cons_self ..) hlenpos] at hw
    injection hw with hw
    omega
  · intro g hg
    obtain ⟨b, hb, hlt⟩ := h.copies g hg (bgdtLength sb table - 1) (by omega)
    rw [bgdtCopyBlock_eq hacc hlen hlast hg (by omega)] at hb
    injection hb with hb
    omega
  · intro g bg hbg hg hfree
    have hip := hacc.inodesPerGroup.1
    have hfind : Bitmap.findFirstClear ⟨onlyClear (min sb.inodesPerGroup (8 * sb.blockSize) - 1), sb.blockSize,
        sb.inodesPerGroup⟩ = some (min sb.inodesPerGroup (8 * sb.blockSize) - 1) :=
      findFirstClear_onlyClear (by omega) (by omega)
    have halloc := (allocInodeArith_found hfree (inodesInGroup_other hpos hg) hfind).1 (h.allocInode g bg hbg _)
    omega
  · intro bg hbg
    obtain ⟨g, hg⟩ := List.mem_iff_getElem?.1 hbg
    exact (h.blockCounts hacc hlen hg).1
  · intro bg hbg hfree
    obtain ⟨g, hg⟩ := List.mem_iff_getElem?.1 hbg
    have hgc : g < sb.blockGroupCount := hlen ▸ (List.getElem?_eq_some_iff.1 hg).1
    obtain ⟨hfirst, hlt⟩ := groupFirst_eq hacc hlast hgc
    have hbpg := hacc.blocksPerGroup.1
    have halloc := (allocBlockArith_ne_none hfree hfirst rfl hlt hacc.blocksCount.2).1 (h.allocBlock g bg hg (onlyClear 0))
    rw [findFirstClear_onlyClear (by omega) (by omega)] at halloc
    exact halloc.resolve_left (Option.some_ne_none _)
  · intro g bg hbg hfree hroom
    by_cases hg : g = sb.blockGroupCount - 1
    · subst hg
      have hsize := inodesInGroup_last hpos hacc.inodesCount.2 (h.lastInodes hbg hfree)
      have hlt := hroom rfl
      exact ((allocInodeArith_found hfree hsize (findFirstClear_onlyClear (by omega) (by omega))).1
        (h.allocInode _ bg hbg (onlyClear 0))).2
    · have hip := hacc.inodesPerGroup.1
      exact ((allocInodeArith_found hfree (inodesInGroup_other hpos hg)
        (findFirstClear_onlyClear (by omega) (by omega))).1 (h.allocInode g bg hbg (onlyClear 0))).2

end Safe

section Good

variable (h : GoodGeometry sb table)

include h

theorem GoodGeometry.allocBlock {g : Nat} {bg : BlockGroupDescriptor} (hbg : table[g]? = some bg) (bitmap : Bytes) :
    allocBlockArith sb bg g bitmap ≠ none := by
  by_cases hfree : bg.freeBlocksCount = 0
  · unfold allocBlockArith
    rw [if_pos hfree]
    exact Option.some_ne_none _
  · have hg : g < sb.blockGroupCount := hlen ▸ (List.getElem?_eq_some_iff.1 hbg).1
    obtain ⟨hfirst, hlt⟩ := groupFirst_eq hacc h.last hg
    rw [allocBlockArith_ne_none hfree hfirst rfl hlt hacc.blocksCount.2]
    exact .inr (h.blockLeft bg (List.mem_of_getElem? hbg) hfree)

omit hlen in
theorem GoodGeometry.allocInode {g : Nat} {bg : BlockGroupDescriptor} (hbg : table[g]? = some bg) (bitmap : Bytes) :
    allocInodeArith sb bg g bitmap ≠ none := by
  have hpos := blockGroupCount_pos hacc
  by_cases hfree : bg.freeInodesCount = 0
  · unfold allocInodeArith
    rw [if_pos hfree]
    exact Option.some_ne_none _
  · by_cases hg : g = sb.blockGroupCount - 1
    · subst hg
      have hle := h.lastInodes bg hbg hfree
      have hsize := inodesInGroup_last hpos hacc.inodesCount.2 hle
      cases hfind : Bitmap.findFirstClear ⟨bitmap, sb.blockSize,
          sb.inodesCount - (sb.blockGroupCount - 1) * sb.inodesPerGroup⟩ with
      | none => exact allocInodeArith_none hsize hfind
      | some i =>
        have hi : i < sb.inodesCount - (sb.blockGroupCount - 1) * sb.inodesPerGroup := (findFirstClear_eq_some hfind).1
        have hic := hacc.inodesCount.2
        rw [allocInodeArith_found hfree hsize hfind]
        exact ⟨by omega, h.inodeLeft _ bg hbg hfree fun _ => by omega⟩
    · have hsize := inodesInGroup_other hpos hg
      cases hfind : Bitmap.findFirstClear ⟨bitmap, sb.blockSize, sb.inodesPerGroup⟩ with
      | none => exact allocInodeArith_none hsize hfind
      | some i =>
        obtain ⟨hi, hlen, -⟩ := findFirstClear_eq_some hfind
        change i < sb.inodesPerGroup at hi
        change i / 8 < sb.blockSize at hlen
        have hnum := h.inodes g bg hbg hg hfree
        rw [allocInodeArith_found hfree hsize hfind]
        exact ⟨by omega, h.inodeLeft g bg hbg hfree fun heq => absurd heq hg⟩

omit hacc hlen in
theorem GoodGeometry.freeBlock (blockId : Nat) : freeBlockArith sb table blockId ≠ none := by
  unfold freeBlockArith
  split
  · exact Option.some_ne_none _
  · split
    · exact Option.some_ne_none _
    · rename_i bg hbg
      split
      · exact countUp_ne_none.2 ⟨h.blockCounts bg (List.mem_of_getElem? hbg), h.blockTotal⟩
      · exact Option.some_ne_none _

omit hacc hlen in
theorem GoodGeometry.freeInode {inodeNum : Nat} (hlt : inodeNum < 2 ^ 32) :
    freeInodeArith sb table inodeNum ≠ none := by
  unfold freeInodeArith
  split
  · exact Option.some_ne_none _
  · split
    · exact Option.some_ne_none _
    · rename_i bg hbg
      have hle : (inodeNum - 1) / sb.inodesPerGroup * sb.inodesPerGroup ≤ inodeNum - 1 := Nat.div_mul_le_self ..
      split
      · exact countUp_ne_none.2 ⟨h.inodeCounts _ bg hbg (by omega), h.inodeTotal⟩
      · exact Option.some_ne_none _

omit hlen h in
/-- The place of an inode is computed with 64 bits. -/
theorem locateArith_ne_none (hrange : ∀ bg ∈ table, bg.inodeTable < 2 ^ 32) (inodeNum : Nat) :
    locateArith sb table inodeNum ≠ none := by
  unfold locateArith
  split
  · exact Option.some_ne_none _
  · split
    · exact Option.some_ne_none _
    · rename_i bg hbg
      have htable := hrange bg (List.mem_of_getElem? hbg)
      have hindex : (inodeNum - 1) % sb.inodesPerGroup < 2 ^ 32 :=
        Nat.lt_trans (Nat.mod_lt _ hacc.inodesPerGroup.1) hacc.inodesPerGroup.2
      have hblock := hacc.blockSize_le
      have hsize : sb.inodeSize ≤ 2 ^ 16 :=
        Nat.le_trans (Nat.le_of_dvd (by have := sb.blockSize_ge; omega) hacc.inodeSize.2) hblock
      have hoffset : (inodeNum - 1) % sb.inodesPerGroup * sb.inodeSize ≤ 2 ^ 32 * 2 ^ 16 :=
        Nat.mul_le_mul (Nat.le_of_lt hindex) hsize
      have hdiv := Nat.div_le_self ((inodeNum - 1) % sb.inodesPerGroup * sb.inodeSize) sb.blockSize
      rw [checked_bind_ne_none, checked_bind_ne_none]
      exact ⟨by omega, by omega, Option.some_ne_none _⟩

/-- What is enough. -/
theorem GoodGeometry.safe (hrange : ∀ bg ∈ table, bg.inodeTable < 2 ^ 32) : SafeGeometry sb table where
  allocBlock _ _ hbg bitmap := h.allocBlock hacc hlen hbg bitmap
  allocInode _ _ hbg bitmap := h.allocInode hacc hbg bitmap
  freeBlock blockId _ := h.freeBlock blockId
  freeInode _ hlt := h.freeInode hlt
  locate inodeNum _ := locateArith_ne_none hacc hrange inodeNum
  groups _ hg := ⟨_, groupFirst_eq hacc h.last hg⟩
  copies g hg i hi := by
    have hfits := h.copies g hg
    exact ⟨_, bgdtCopyBlock_eq hacc hlen h.last hg hi, by omega⟩
  written i hi := by
    rw [bgdtCopyBlock_eq hacc hlen h.last (List.mem_cons_self ..) hi, ← h.first, Nat.zero_mul, Nat.add_zero]
  nonempty g hg := by
    obtain ⟨-, hlt⟩ := groupFirst_eq hacc h.last hg
    have hbpg := hacc.blocksPerGroup.1
    exact ⟨sb.firstDataBlock + g * sb.blocksPerGroup, Nat.le_refl _, by omega⟩
  partition := groups_partition hacc

end Good

end Exact

/-- **A geometry is safe** exactly if it is good: for every superblock that `from_raw` accepts and every descriptor
table. -/
theorem safeGeometry_iff {raw : RawSuperBlock} {sb : SuperBlock} (h : SuperBlock.fromRaw raw = .ok sb)
    {table : List BlockGroupDescriptor} (hlen : table.length = sb.blockGroupCount)
    (hrange : ∀ bg ∈ table, bg.inodeTable < 2 ^ 32) : SafeGeometry sb table ↔ GoodGeometry sb table := by
  have hacc := fromRaw_accepted h
  exact ⟨fun hsafe => hsafe.good hacc hlen, fun hgood => hgood.safe hacc hlen hrange⟩

/-! ## The operations compute what the arithmetic says -/

section Operations

variable {fs : Ext2Fs} {g : Nat} {bg : BlockGroupDescriptor} {found : Option Nat}

theorem groupFirst_eq_some {sb : SuperBlock} {b : Nat} (h : groupFirst sb g = some b) :
    b = sb.firstDataBlock + g * sb.blocksPerGroup ∧ b < 2 ^ 32 := by
  obtain ⟨-, h⟩ := checked_bind_eq_some h
  unfold checked at h
  split at h
  · injection h with h
    omega
  · cases h

theorem bitmap_set {m : Bitmap} {i : Nat} (hi : i < m.size) (hlen : i / 8 < m.len) (fs : Ext2Fs) :
    m.set i fs = .ok { m with data := writeBitAt true m.data i } fs := by
  rw [Bitmap.set, if_pos (show m.inRange i = true from decide_eq_true ⟨hi, hlen⟩)]
  rfl

/-- A round of `alloc_block_goal` on a readable bitmap. -/
theorem allocBlockIn_arith (hbg : fs.blockGroups[g]? = some bg) (hro : fs.readOnly = false)
    (hread : bg.blockBitmap < fs.deviceBlocks)
    (h : allocBlockArith fs.superBlock bg g (fs.disk bg.blockBitmap) = some found) :
    ∃ fs', allocBlockIn g fs = .ok found fs' := by
  unfold allocBlockArith at h
  rw [allocBlockIn, get_bind]
  simp only [hbg]
  split at h
  · rename_i hfree
    cases h
    rw [if_pos hfree]
    exact ⟨fs, rfl⟩
  · rename_i hfree
    rw [if_neg hfree]
    cases hfirst : groupFirst fs.superBlock g with
    | none =>
      rw [hfirst] at h
      cases h
    | some first =>
      rw [hfirst] at h
      obtain ⟨rfl, -⟩ := groupFirst_eq_some hfirst
      obtain ⟨hle, h⟩ := checkedSub_bind_eq_some h
      rw [if_neg (Nat.not_lt.2 hle), bind_ok (readFsBlock_eq hread)]
      change (match Bitmap.findFirstClear ⟨fs.disk bg.blockBitmap, fs.blockSize, _⟩ with
        | none => some none
        | some localIdx => _) = some found at h
      cases hfind : Bitmap.findFirstClear ⟨fs.disk bg.blockBitmap, fs.blockSize,
          min fs.superBlock.blocksPerGroup
            (fs.superBlock.blocksCount - (fs.superBlock.firstDataBlock + g * fs.superBlock.blocksPerGroup))⟩ with
      | none =>
        rw [hfind] at h
        cases h
        exact ⟨fs, rfl⟩
      | some i =>
        rw [hfind] at h
        obtain ⟨hi, hlen, -⟩ := findFirstClear_eq_some hfind
        obtain ⟨-, h⟩ := checked_bind_eq_some h
        obtain ⟨-, h⟩ := checked_bind_eq_some h
        obtain ⟨-, h⟩ := checked_bind_eq_some h
        obtain ⟨-, h⟩ := checkedSub_bind_eq_some h
        obtain ⟨hleft, h⟩ := checkedSub_bind_eq_some h
        cases h
        dsimp only
        rw [bind_ok (bitmap_set hi hlen fs), bind_ok (writeFsBlock_eq hro hread _), get_bind]
        have hne : ¬ fs.superBlock.freeBlocksCount = 0 := by omega
        split
        · rename_i hzero
          exact absurd hzero hne
        · exact ⟨_, rfl⟩

/-- A round of `alloc_inode` on a readable bitmap. -/
theorem allocInodeIn_arith (hbg : fs.blockGroups[g]? = some bg) (hro : fs.readOnly = false)
    (hread : bg.inodeBitmap < fs.deviceBlocks)
    (h : allocInodeArith fs.superBlock bg g (fs.disk bg.inodeBitmap) = some found) :
    ∃ fs', allocInodeIn g fs = .ok found fs' := by
  unfold allocInodeArith at h
  rw [allocInodeIn, get_bind]
  simp only [hbg]
  split at h
  · rename_i hfree
    cases h
    rw [if_pos hfree]
    exact ⟨fs, rfl⟩
  · rename_i hfree
    rw [if_neg hfree, bind_ok (readFsBlock_eq hread)]
    cases hsize : inodesInGroup fs.superBlock g with
    | none =>
      rw [hsize] at h
      cases h
    | some size =>
      rw [hsize] at h
      have hsize' : ¬ (g = fs.superBlock.blockGroupCount - 1 ∧
            fs.superBlock.inodesCount < (fs.superBlock.blockGroupCount - 1) * fs.superBlock.inodesPerGroup) ∧
          (if g = fs.superBlock.blockGroupCount - 1 then
            fs.superBlock.inodesCount - (fs.superBlock.blockGroupCount - 1) * fs.superBlock.inodesPerGroup
            else fs.superBlock.inodesPerGroup) = size := by
        obtain ⟨-, hsize⟩ := checkedSub_bind_eq_some hsize
        split at hsize
        · rename_i hlast
          obtain ⟨-, hsize⟩ := checked_bind_eq_some hsize
          unfold checkedSub at hsize
          split at hsize
          · rename_i hle
            injection hsize with hsize
            exact ⟨fun hlt => absurd hlt.2 (Nat.not_lt.2 hle), (if_pos hlast).trans hsize⟩
          · cases hsize
        · rename_i hlast
          injection hsize with hsize
          exact ⟨fun hlt => hlast hlt.1, (if_neg hlast).trans hsize⟩
      rw [if_neg hsize'.1]
      simp only [hsize'.2]
      change (match Bitmap.findFirstClear ⟨fs.disk bg.inodeBitmap, fs.blockSize, size⟩ with
        | none => some none
        | some localIdx => _) = some found at h
      cases hfind : Bitmap.findFirstClear ⟨fs.disk bg.inodeBitmap, fs.blockSize, size⟩ with
      | none =>
        rw [hfind] at h
        cases h
        exact ⟨fs, rfl⟩
      | some i =>
        rw [hfind] at h
        obtain ⟨hi, hlen, -⟩ := findFirstClear_eq_some hfind
        obtain ⟨-, h⟩ := checked_bind_eq_some h
        obtain ⟨-, h⟩ := checked_bind_eq_some h
        obtain ⟨-, h⟩ := checked_bind_eq_some h
        obtain ⟨-, h⟩ := checkedSub_bind_eq_some h
        obtain ⟨hleft, h⟩ := checkedSub_bind_eq_some h
        cases h
        dsimp only
        rw [bind_ok (bitmap_set hi hlen fs), bind_ok (writeFsBlock_eq hro hread _), get_bind]
        have hne : ¬ fs.superBlock.freeInodesCount = 0 := by omega
        split
        · rename_i hzero
          exact absurd hzero hne
        · exact ⟨_, rfl⟩

/-- **In a safe geometry** no round of the search for a block stops. -/
theorem SafeGeometry.allocBlockIn (h : SafeGeometry fs.superBlock fs.blockGroups) (hbg : fs.blockGroups[g]? = some bg)
    (hro : fs.readOnly = false) (hread : bg.blockBitmap < fs.deviceBlocks) :
    ∃ found fs', allocBlockIn g fs = .ok found fs' := by
  obtain ⟨found, hfound⟩ := Option.ne_none_iff_exists'.1 (h.allocBlock g bg hbg (fs.disk bg.blockBitmap))
  exact ⟨found, allocBlockIn_arith hbg hro hread hfound⟩

/-- Neither does a round of the search for an inode. -/
theorem SafeGeometry.allocInodeIn (h : SafeGeometry fs.superBlock fs.blockGroups) (hbg : fs.blockGroups[g]? = some bg)
    (hro : fs.readOnly = false) (hread : bg.inodeBitmap < fs.deviceBlocks) :
    ∃ found fs', allocInodeIn g fs = .ok found fs' := by
  obtain ⟨found, hfound⟩ := Option.ne_none_iff_exists'.1 (h.allocInode g bg hbg (fs.disk bg.inodeBitmap))
  exact ⟨found, allocInodeIn_arith hbg hro hread hfound⟩

end Operations

/-- A superblock of 1 KiB blocks with the given geometry. -/
def rawGeometry (blocksCount blocksPerGroup inodesCount inodesPerGroup : Nat) : RawSuperBlock where
  bytes := [(0, 4, inodesCount), (4, 4, blocksCount), (12, 4, 1), (16, 4, 1), (20, 4, 1), (32, 4, blocksPerGroup),
    (40, 4, inodesPerGroup), (56, 2, 0xEF53), (76, 4, 1), (88, 2, 128)].foldl (fun b f => putLe b f.1 f.2.1 f.2.2) fun _ => 0

theorem safeGeometry_two_groups :
    SuperBlock.fromRaw (rawGeometry 100 64 32 16) = .ok ⟨32, 100, 1, 1, 1, 0, 64, 16, 128, 0, 0⟩ ∧
    SafeGeometry ⟨32, 100, 1, 1, 1, 0, 64, 16, 128, 0, 0⟩ [⟨3, 4, 5, 1, 1, 0⟩, ⟨67, 68, 69, 0, 0, 0⟩] := by
  have hraw : SuperBlock.fromRaw (rawGeometry 100 64 32 16) = .ok ⟨32, 100, 1, 1, 1, 0, 64, 16, 128, 0, 0⟩ := rfl
  refine ⟨hraw, (safeGeometry_iff hraw rfl (by decide)).2 ?_⟩
  refine {
    first := by decide
    last := by decide
    copies := by decide
    lastInodes := ?_
    inodes := ?_
    blockCounts := by decide
    blockTotal := by decide
    inodeCounts := ?_
    inodeTotal := by decide
    blockLeft := by decide
    inodeLeft := ?_ }
  · intro bg hbg hfree
    cases hbg
    exact absurd rfl hfree
  · rintro (_ | _ | g) bg hbg hg hfree <;> cases hbg
    · decide
    · exact absurd rfl hfree
  · rintro (_ | _ | g) bg hbg hlt <;> cases hbg <;> decide
  · intro _ _ _ _ _
    decide

/-- An image of 8193 blocks, of which block 0 is not in any group: the driver sees a second group that has no block. -/
theorem boundary_geometry_unsafe :
    SuperBlock.fromRaw (rawGeometry 8193 8192 32 32) = .ok ⟨32, 8193, 1, 1, 1, 0, 8192, 32, 128, 0, 0⟩ ∧
    ∀ table, ¬ SafeGeometry ⟨32, 8193, 1, 1, 1, 0, 8192, 32, 128, 0, 0⟩ table := by
  refine ⟨rfl, fun table h => ?_⟩
  obtain ⟨b, hb, hlt⟩ := h.groups 1 (by decide)
  have hfirst := (groupFirst_eq_some hb).1
  subst hfirst
  exact absurd hlt (by decide)

end Koros.Ext2
