import Koros.Lib.Pointers
import Koros.Ext2.Geometry
import Koros.Ext2.Outcome

/-!
# Who owns a block

The blocks of a filesystem are metadata, or hang below an inode: as a data block, an indirect block, or the attribute
block, which inodes may share. `Ext2Fs.pointers` are the block trees of all inodes at once; a root is a word of `i_block`
of an inode that keeps block numbers there (`RawInode.mapsBlocks`). The inode is the one in memory, if there is one.

`Sound fs P`: no block lies at two places, and what the bitmaps mark as used is the metadata, what the inodes refer to,
and the blocks of `P`, which a call has taken and not yet given to an inode, or taken from it and not yet freed.
-/
set_option autoImplicit false

namespace Koros.Ext2

open Koros.Lib Xattr

/-! ## The fields of an inode -/

namespace RawInode

variable {r : RawInode} {i n j m v : Nat}

theorem get_put_of_disjoint (h : j + m ≤ i ∨ i + n ≤ j) (hj : j + m ≤ 128) : (r.put i n v).get j m = r.get j m := by
  unfold put get ofBytes
  rw [leNat_congr fun k _ hk => if_pos (show k < 128 by omega)]
  exact leNat_putLe_of_disjoint v h

theorem get_put_self (hi : i + n ≤ 128) (hv : v < 256 ^ n) : (r.put i n v).get i n = v := by
  unfold put get ofBytes
  rw [leNat_congr fun k _ hk => if_pos (show k < 128 by omega)]
  exact leNat_putLe_of_lt hv

theorem block_setBlock_self (hi : i < 15) (hv : v < 2 ^ 32) : (r.setBlock i v).block i = v :=
  get_put_self (by omega) (by simpa using hv)

theorem block_setBlock_of_ne (hij : j ≠ i) (hj : j < 15) : (r.setBlock i v).block j = r.block j :=
  get_put_of_disjoint (by omega) (by omega)

/-- The inodes agree outside `i_block`. -/
def SameFields (r r' : RawInode) : Prop := ∀ j, j < 40 ∨ 100 ≤ j → r'.bytes j = r.bytes j

theorem SameFields.refl (r : RawInode) : SameFields r r := fun _ _ => rfl

theorem SameFields.trans {r₁ r₂ r₃ : RawInode} (h : SameFields r₁ r₂) (h' : SameFields r₂ r₃) : SameFields r₁ r₃ :=
  fun j hj => (h' j hj).trans (h j hj)

theorem SameFields.get {r' : RawInode} (h : SameFields r r') (hi : i + n ≤ 40 ∨ 100 ≤ i) : r'.get i n = r.get i n :=
  leNat_congr fun j h₁ h₂ => h j (by omega)

theorem sameFields_setBlock (hi : i < 15) : SameFields r (r.setBlock i v) := by
  intro j hj
  show (if j < 128 then putLe r.bytes (40 + 4 * i) 4 v j else 0) = _
  split
  · exact blit_of_outside (by omega)
  · exact (r.tail j (by omega)).symm

/-- Sectors other than those of the attribute block. -/
def dataSectors (sectors : Nat) (r : RawInode) : Nat := r.blocks - if r.fileAcl = 0 then 0 else sectors

/-- Whether `i_block` holds block numbers: a device keeps its number there, and a symbolic link without data blocks its
target. -/
def mapsBlocks (sectors : Nat) (r : RawInode) : Bool :=
  r.fmt ≠ EXT2_S_IFCHR && r.fmt ≠ EXT2_S_IFBLK && (r.fmt ≠ EXT2_S_IFLNK || r.dataSectors sectors ≠ 0)

/-- The pointers of an inode. -/
def root (sectors : Nat) (r : RawInode) (k : Nat) : Nat := if k < 15 ∧ r.mapsBlocks sectors then r.block k else 0

theorem SameFields.fmt {r' : RawInode} (h : SameFields r r') : r'.fmt = r.fmt :=
  congrArg (· &&& 0xF000) (h.get (i := 0) (n := 2) (by omega))

theorem SameFields.blocks {r' : RawInode} (h : SameFields r r') : r'.blocks = r.blocks := h.get (by omega)

theorem SameFields.fileAcl {r' : RawInode} (h : SameFields r r') : r'.fileAcl = r.fileAcl := h.get (by omega)

theorem SameFields.mapsBlocks {r' : RawInode} (h : SameFields r r') (s : Nat) : r'.mapsBlocks s = r.mapsBlocks s := by
  unfold RawInode.mapsBlocks dataSectors
  rw [h.fmt, h.blocks, h.fileAcl]

end RawInode

/-! ## What the inodes refer to -/

namespace Ext2Fs

variable (fs : Ext2Fs)

/-- An inode of the tables. -/
def IsSlot (n : Nat) : Prop := 1 ≤ n ∧ (n - 1) / fs.superBlock.inodesPerGroup < fs.blockGroups.length

instance (n : Nat) : Decidable (fs.IsSlot n) := inferInstanceAs (Decidable (_ ∧ _))

def diskInode (n : Nat) : RawInode :=
  match fs.tablePlace n with
  | some (b, off) => RawInode.ofBytes (dropBytes (fs.disk b) off)
  | none => RawInode.ofBytes fun _ => 0

/-- The inode in memory, or on disk if it is not in memory. -/
def inode (n : Nat) : RawInode := (fs.inodeCache n).getD (fs.diskInode n)

/-- `sectors_per_block`. -/
def sectors : Nat := fs.blockSize / 512

/-- The block trees: direct blocks have depth 0, the three indirect ones depth 1, 2 and 3. -/
def pointers : Pointers (Nat × Nat) Nat where
  root := fun x => if fs.IsSlot x.1 then (fs.inode x.1).root fs.sectors x.2 else 0
  child := fun b i => if i < fs.blockSize / 4 then leNat (fs.disk b) (i * 4) 4 else 0
  depth := fun x => x.2 - 11

/-- The attribute block of an inode. -/
def acl (n : Nat) : Nat := if fs.IsSlot n then (fs.inode n).fileAcl else 0

/-- A block that hangs below an inode. -/
def Refers (b : Nat) : Prop := b ≠ 0 ∧ ((∃ x, fs.pointers.Inside x ∧ fs.pointers.node x = b) ∨ ∃ n, fs.acl n = b)

/-- How many inodes share an attribute block. -/
def sharers (b : Nat) : Nat :=
  ((List.range (fs.blockGroups.length * fs.superBlock.inodesPerGroup + 1)).filter fun n => fs.acl n = b).length

/-- Data and indirect blocks of an inode. -/
def treeSize (n : Nat) : Nat := fs.pointers.count (fs.blockSize / 4) ((List.range 15).map (Prod.mk n))

/-- The blocks of an inode: data blocks, indirect blocks at all depths, and the attribute block. -/
def blockCount (n : Nat) : Nat := fs.treeSize n + if fs.acl n = 0 then 0 else 1

/-! ## Metadata -/

/-- Blocks of an inode table. -/
def tableLength : Nat := divCeil (fs.superBlock.inodesPerGroup * fs.superBlock.inodeSize) fs.blockSize

def IsTable (b : Nat) : Prop := ∃ p ∈ fs.blockGroups.map (·.places), p.2.2 ≤ b ∧ b < p.2.2 + fs.tableLength

/-- A copy of the superblock or of the descriptor table. -/
def IsSuper (b : Nat) : Prop := ∃ g ∈ 0 :: backupGroups fs.superBlock,
  fs.superBlock.firstDataBlock + g * fs.superBlock.blocksPerGroup ≤ b ∧
    b ≤ fs.superBlock.firstDataBlock + g * fs.superBlock.blocksPerGroup + bgdtLength fs.superBlock fs.blockGroups

def IsMetadata (b : Nat) : Prop := fs.IsBitmap b ∨ fs.IsTable b ∨ fs.IsSuper b

/-- A block that an inode may have. -/
def IsData (b : Nat) : Prop := fs.superBlock.InRange .block b ∧ ¬ fs.IsMetadata b

/-- The metadata lies on the device, the inode tables apart from each other and from the bitmaps. -/
structure Placed : Prop where
  geometry : fs.Geometry
  accepted : fs.superBlock.Accepted
  onDevice : fs.superBlock.blocksCount ≤ fs.deviceBlocks
  inodes : fs.superBlock.inodesCount = fs.blockGroups.length * fs.superBlock.inodesPerGroup
  tables : ∀ b, fs.IsTable b → b < fs.deviceBlocks ∧ ¬ fs.IsBitmap b
  apart : ∀ (g g' : Nat) (p p' : Nat × Nat × Nat) (i i' : Nat), (fs.blockGroups.map (·.places))[g]? = some p →
    (fs.blockGroups.map (·.places))[g']? = some p' → i < fs.tableLength → i' < fs.tableLength →
    p.2.2 + i = p'.2.2 + i' → g = g'

/-- **Block ownership.** -/
structure Sound (P : Nat → Prop) : Prop extends Placed fs where
  cached : ∀ n r, fs.inodeCache n = some r → fs.IsSlot n
  unique : fs.pointers.Unique
  tree : ∀ x, fs.pointers.Inside x → fs.pointers.node x ≠ 0 → fs.IsData (fs.pointers.node x)
  attr : ∀ n, fs.acl n ≠ 0 → fs.IsData (fs.acl n) ∧ ∀ x, fs.pointers.Inside x → fs.pointers.node x ≠ fs.acl n
  shared : ∀ n, fs.acl n ≠ 0 → leNat (fs.disk (fs.acl n)) 0 4 = XATTR_MAGIC ∧
    refcount (fs.disk (fs.acl n)) = fs.sharers (fs.acl n)
  metadata : ∀ b, fs.IsMetadata b → fs.superBlock.InRange .block b → fs.Allocated .block b
  used : ∀ b, fs.IsData b → (fs.Allocated .block b ↔ fs.Refers b ∨ P b)
  pending : ∀ b, P b → fs.IsData b ∧ ¬ fs.Refers b

end Ext2Fs

/-! ## What contents and counters do not decide -/

/-- The filesystems differ in contents and counters only. -/
structure SameLayout (fs fs' : Ext2Fs) : Prop where
  deviceBlocks : fs'.deviceBlocks = fs.deviceBlocks
  readOnly : fs'.readOnly = fs.readOnly
  superBlock : ∃ c d, fs'.superBlock = { fs.superBlock with freeBlocksCount := c, freeInodesCount := d }
  places : fs'.blockGroups.map (·.places) = fs.blockGroups.map (·.places)

namespace SameLayout

variable {fs fs' fs'' : Ext2Fs}

theorem refl (fs : Ext2Fs) : SameLayout fs fs := ⟨rfl, rfl, ⟨_, _, rfl⟩, rfl⟩

theorem trans (h : SameLayout fs fs') (h' : SameLayout fs' fs'') : SameLayout fs fs'' := by
  obtain ⟨c, d, hs⟩ := h.superBlock
  obtain ⟨c', d', hs'⟩ := h'.superBlock
  refine ⟨h'.deviceBlocks.trans h.deviceBlocks, h'.readOnly.trans h.readOnly, ⟨c', d', ?_⟩, h'.places.trans h.places⟩
  rw [hs', hs]

variable (h : SameLayout fs fs')

include h

theorem length : fs'.blockGroups.length = fs.blockGroups.length := by
  simpa using congrArg List.length h.places

theorem blockSize : fs'.blockSize = fs.blockSize := by
  obtain ⟨c, d, hs⟩ := h.superBlock
  unfold Ext2Fs.blockSize
  rw [hs]
  rfl

theorem sectors : fs'.sectors = fs.sectors := congrArg (· / 512) h.blockSize

theorem inRange (k : Kind) (n : Nat) : fs'.superBlock.InRange k n ↔ fs.superBlock.InRange k n := by
  obtain ⟨c, d, hs⟩ := h.superBlock
  rw [hs]
  cases k <;> rfl

theorem isSlot : fs'.IsSlot = fs.IsSlot := by
  obtain ⟨c, d, hs⟩ := h.superBlock
  funext n
  unfold Ext2Fs.IsSlot
  rw [hs, h.length]

theorem tablePlace : fs'.tablePlace = fs.tablePlace := by
  obtain ⟨c, d, hs⟩ := h.superBlock
  funext n
  unfold Ext2Fs.tablePlace
  rw [h.places, h.blockSize, hs]

theorem isBitmap : fs'.IsBitmap = fs.IsBitmap := by
  funext b
  unfold Ext2Fs.IsBitmap
  rw [h.places]

theorem tableLength : fs'.tableLength = fs.tableLength := by
  obtain ⟨c, d, hs⟩ := h.superBlock
  unfold Ext2Fs.tableLength
  rw [h.blockSize, hs]

theorem isTable : fs'.IsTable = fs.IsTable := by
  funext b
  unfold Ext2Fs.IsTable
  rw [h.places, h.tableLength]

theorem isMetadata : fs'.IsMetadata = fs.IsMetadata := by
  obtain ⟨c, d, hs⟩ := h.superBlock
  funext b
  unfold Ext2Fs.IsMetadata Ext2Fs.IsSuper bgdtLength
  rw [h.isBitmap, h.isTable, h.length, hs]
  rfl

theorem isData : fs'.IsData = fs.IsData := by
  funext b
  unfold Ext2Fs.IsData
  rw [h.isMetadata, h.inRange]

theorem group {g : Nat} {bg : BlockGroupDescriptor} (hg : fs'.blockGroups[g]? = some bg) :
    ∃ bg₀, fs.blockGroups[g]? = some bg₀ ∧ bg₀.places = bg.places := by
  have hmap : (fs.blockGroups.map (·.places))[g]? = some bg.places := by rw [← h.places, List.getElem?_map, hg]; rfl
  rw [List.getElem?_map, Option.map_eq_some_iff] at hmap
  exact hmap

theorem geometry (hG : fs.Geometry) : fs'.Geometry := by
  obtain ⟨c, d, hs⟩ := h.superBlock
  have hvalid : ∀ k g, fs'.superBlock.valid k g = fs.superBlock.valid k g := by
    intro k g
    rw [hs]
    cases k <;> rfl
  have hbitmap : ∀ {bg bg₀ : BlockGroupDescriptor} (k), bg₀.places = bg.places → bg.bitmap k = bg₀.bitmap k := by
    intro bg bg₀ k hp
    simp only [BlockGroupDescriptor.places, Prod.mk.injEq] at hp
    cases k with
    | block => exact hp.1.symm
    | inode => exact hp.2.1.symm
  constructor
  · rw [h.length, hG.groups, hs]
    rfl
  · intro k
    rw [h.blockSize, hs]
    have := hG.perGroup k
    cases k <;> exact this
  · rw [hs]
    exact hG.first
  · rw [hs]
    exact hG.blocks
  · rw [hs]
    exact hG.inodes
  · rw [hs]
    exact hG.inodesLow
  · rw [hs]
    exact hG.inodesHigh
  · intro k g bg hg hv
    obtain ⟨bg₀, hg₀, hp⟩ := h.group hg
    rw [h.deviceBlocks, hbitmap k hp]
    exact hG.placed hg₀ (hvalid k g ▸ hv)
  · intro k g bg k' g' bg' hg hg' hv hv' heq
    obtain ⟨bg₀, hg₀, hp⟩ := h.group hg
    obtain ⟨bg₁, hg₁, hp'⟩ := h.group hg'
    rw [hbitmap k hp, hbitmap k' hp'] at heq
    exact hG.distinct hg₀ hg₁ (hvalid k g ▸ hv) (hvalid k' g' ▸ hv') heq

theorem placed (hp : fs.Placed) : fs'.Placed := by
  obtain ⟨c, d, hs⟩ := h.superBlock
  refine ⟨h.geometry hp.geometry, ?_, ?_, ?_, ?_, ?_⟩
  · have := hp.accepted
    rw [hs]
    exact ⟨this.1, this.2, this.3, this.4, this.5, this.6, this.7⟩
  · rw [hs, h.deviceBlocks]
    exact hp.onDevice
  · rw [hs, h.length]
    exact hp.inodes
  · rw [h.isTable, h.isBitmap, h.deviceBlocks]
    exact hp.tables
  · rw [h.places, h.tableLength]
    exact hp.apart

end SameLayout

/-! ## The inode tables -/

section Table

variable {fs fs' : Ext2Fs} {α : Type} {n m b off off' : Nat}

theorem place_of_slot (hn : fs.IsSlot n) : ∃ p, (fs.blockGroups.map (·.places))[(n - 1) / fs.superBlock.inodesPerGroup]? =
    some p := ⟨_, List.getElem?_eq_getElem (by simpa using hn.2)⟩

theorem tablePlace_eq {p : Nat × Nat × Nat}
    (h : (fs.blockGroups.map (·.places))[(n - 1) / fs.superBlock.inodesPerGroup]? = some p) :
    fs.tablePlace n = some (p.2.2 + (n - 1) % fs.superBlock.inodesPerGroup * fs.superBlock.inodeSize / fs.blockSize,
      (n - 1) % fs.superBlock.inodesPerGroup * fs.superBlock.inodeSize % fs.blockSize) := by
  rw [Ext2Fs.tablePlace, h]
  rfl

theorem blockSize_pos (fs : Ext2Fs) : 0 < fs.blockSize := Nat.lt_of_lt_of_le (by omega) fs.superBlock.blockSize_ge

/-- The block of an inode is one of the table of its group. -/
theorem slot_lt_tableLength (hacc : fs.superBlock.Accepted) (i : Nat) :
    i % fs.superBlock.inodesPerGroup * fs.superBlock.inodeSize / fs.blockSize < fs.tableLength := by
  have hper : 0 < fs.superBlock.inodesPerGroup := hacc.inodesPerGroup.1
  have hsize := hacc.inodeSize.1
  have hbs := blockSize_pos fs
  have hlt := Nat.mod_lt i hper
  have hle : (i % fs.superBlock.inodesPerGroup + 1) * fs.superBlock.inodeSize ≤
      fs.superBlock.inodesPerGroup * fs.superBlock.inodeSize := Nat.mul_le_mul_right _ hlt
  rw [Nat.succ_mul] at hle
  unfold Ext2Fs.tableLength divCeil
  rw [Nat.lt_iff_add_one_le, Nat.le_div_iff_mul_le hbs, Nat.succ_mul]
  have := Nat.div_mul_le_self (i % fs.superBlock.inodesPerGroup * fs.superBlock.inodeSize) fs.blockSize
  omega

theorem slot_place (hacc : fs.superBlock.Accepted) (hn : fs.IsSlot n) : ∃ b off, fs.tablePlace n = some (b, off) ∧
    fs.IsTable b ∧ off + fs.superBlock.inodeSize ≤ fs.blockSize := by
  obtain ⟨p, hg⟩ := place_of_slot hn
  refine ⟨_, _, tablePlace_eq hg, ⟨p, List.mem_of_getElem? hg, Nat.le_add_right .., ?_⟩, hacc.slot_le _⟩
  exact Nat.add_lt_add_left (slot_lt_tableLength hacc _) _

theorem tablePlace_spec (hp : fs.Placed) (hn : fs.IsSlot n) : ∃ b off, fs.tablePlace n = some (b, off) ∧ fs.IsTable b ∧
    off + fs.superBlock.inodeSize ≤ fs.blockSize := slot_place hp.accepted hn

/-- The inode tables of the groups do not overlap. -/
def Ext2Fs.TablesApart (fs : Ext2Fs) : Prop :=
  ∀ (g g' : Nat) (p p' : Nat × Nat × Nat) (i i' : Nat), (fs.blockGroups.map (·.places))[g]? = some p →
    (fs.blockGroups.map (·.places))[g']? = some p' → i < fs.tableLength → i' < fs.tableLength →
    p.2.2 + i = p'.2.2 + i' → g = g'

/-- Different inodes lie apart. -/
theorem tablePlace_apart (hacc : fs.superBlock.Accepted) (hapart : fs.TablesApart) (hn : fs.IsSlot n) (hm : fs.IsSlot m) (hne : n ≠ m)
    (hb : fs.tablePlace n = some (b, off)) (hb' : fs.tablePlace m = some (b, off')) :
    off + fs.superBlock.inodeSize ≤ off' ∨ off' + fs.superBlock.inodeSize ≤ off := by
  obtain ⟨p, hg⟩ := place_of_slot hn
  obtain ⟨q, hg'⟩ := place_of_slot hm
  rw [tablePlace_eq hg, Option.some.injEq, Prod.mk.injEq] at hb
  rw [tablePlace_eq hg', Option.some.injEq, Prod.mk.injEq] at hb'
  obtain ⟨hblock, rfl⟩ := hb
  obtain ⟨hblock', rfl⟩ := hb'
  have hgroup := hapart _ _ p q _ _ hg hg' (slot_lt_tableLength hacc _) (slot_lt_tableLength hacc _)
    (hblock.trans hblock'.symm)
  rw [hgroup, hg', Option.some.injEq] at hg
  subst hg
  have hquot := Nat.add_left_cancel (hblock.trans hblock'.symm)
  have hidx : (n - 1) % fs.superBlock.inodesPerGroup ≠ (m - 1) % fs.superBlock.inodesPerGroup := by
    intro heq
    have := div_mod_inj hgroup heq
    have := hn.1
    have := hm.1
    omega
  generalize (n - 1) % fs.superBlock.inodesPerGroup = i at hidx hquot
  generalize (m - 1) % fs.superBlock.inodesPerGroup = j at hidx hquot
  have hi := Nat.div_add_mod (i * fs.superBlock.inodeSize) fs.blockSize
  have hj := Nat.div_add_mod (j * fs.superBlock.inodeSize) fs.blockSize
  rw [hquot] at hi
  rcases Nat.lt_or_gt_of_ne hidx with hlt | hlt
  · have := Nat.mul_le_mul_right fs.superBlock.inodeSize hlt
    rw [Nat.succ_mul] at this
    omega
  · have := Nat.mul_le_mul_right fs.superBlock.inodeSize hlt
    rw [Nat.succ_mul] at this
    omega

theorem diskInode_eq (h : fs.tablePlace n = some (b, off)) :
    fs.diskInode n = RawInode.ofBytes (dropBytes (fs.disk b) off) := by
  rw [Ext2Fs.diskInode, h]

/-- An inode on disk is what its bytes are. -/
theorem diskInode_congr (ha : SameLayout fs fs')
    (h : ∀ b off, fs.tablePlace n = some (b, off) → ∀ j < 128, fs'.disk b (off + j) = fs.disk b (off + j)) :
    fs'.diskInode n = fs.diskInode n := by
  unfold Ext2Fs.diskInode
  rw [ha.tablePlace]
  cases hpl : fs.tablePlace n with
  | none => rfl
  | some p =>
    apply RawInode.ext
    funext j
    show (if j < 128 then _ else _) = if j < 128 then _ else _
    split
    · exact h p.1 p.2 hpl j (by assumption)
    · rfl

theorem locateInode_bind_ok {f : Nat × Nat → FsM α} {a : α} (h : (locateInode n >>= f) fs = .ok a fs') :
    ∃ b off, fs.tablePlace n = some (b, off) ∧ f (b, off) fs = .ok a fs' := by
  rw [locateInode, bind_assoc, get_bind] at h
  simp only [bind_assoc] at h
  obtain ⟨bg, hg, h⟩ := getGroup_bind_ok h
  have hplace : (fs.blockGroups.map (·.places))[(n - 1) / fs.superBlock.inodesPerGroup]? = some bg.places := by
    rw [List.getElem?_map, hg]
    rfl
  exact ⟨_, _, tablePlace_eq hplace, h⟩

theorem isSlot_of_place (hpos : 1 ≤ n) (h : fs.tablePlace n = some (b, off)) : fs.IsSlot n := by
  refine ⟨hpos, ?_⟩
  unfold Ext2Fs.tablePlace at h
  rw [Option.map_eq_some_iff] at h
  obtain ⟨p, hg, -⟩ := h
  simpa using (List.getElem?_eq_some_iff.1 hg).1

theorem readInode_ok {r : RawInode} (h : readInode n fs = .ok r fs') : fs.IsSlot n ∧ r = fs.diskInode n ∧ fs' = fs := by
  rw [readInode, get_bind] at h
  obtain ⟨hpos, h⟩ := ite_fail_ok h
  obtain ⟨b, off, hplace, h⟩ := locateInode_bind_ok h
  obtain ⟨-, h⟩ := readFsBlock_bind_ok h
  obtain ⟨-, h⟩ := ite_panic_ok h
  obtain ⟨hr, hfs⟩ := pure_eq_ok h
  exact ⟨isSlot_of_place (Nat.pos_iff_ne_zero.2 hpos) hplace, by rw [hr, diskInode_eq hplace], hfs⟩

/-- `get_inode` makes the inode on disk the one in memory, unless it is in memory. -/
theorem getInode_ok {u : PUnit} (h : getInode n fs = .ok u fs') :
    (fs' = fs ∧ fs.inodeCache n ≠ none) ∨
      (fs.inodeCache n = none ∧ fs.IsSlot n ∧ fs' = fs.setInode n (some (fs.diskInode n))) := by
  rw [getInode, get_bind] at h
  cases hc : fs.inodeCache n with
  | some r =>
    rw [hc] at h
    exact .inl ⟨(pure_eq_ok h).2, by simp⟩
  | none =>
    rw [hc] at h
    obtain ⟨r, fs₁, hread, h⟩ := bind_eq_ok h
    obtain ⟨hslot, hr, hfs⟩ := readInode_ok hread
    rw [hfs, hr] at h
    cases h
    exact .inr ⟨rfl, hslot, rfl⟩

end Table

/-! ## Kinds of changes -/

section Layout

variable {fs fs' : Ext2Fs}

theorem sameLayout_setDisk (fs : Ext2Fs) (b : Nat) (buf : Bytes) : SameLayout fs (fs.setDisk b buf) :=
  ⟨rfl, rfl, ⟨_, _, rfl⟩, rfl⟩

theorem sameLayout_setDisks (fs : Ext2Fs) (start count : Nat) (buf : Bytes) :
    SameLayout fs (fs.setDisks start count buf) := ⟨rfl, rfl, ⟨_, _, rfl⟩, rfl⟩

theorem sameLayout_setInode (fs : Ext2Fs) (n : Nat) (r : Option RawInode) : SameLayout fs (fs.setInode n r) :=
  ⟨rfl, rfl, ⟨_, _, rfl⟩, rfl⟩

theorem sameLayout_mark (fs : Ext2Fs) (k : Kind) (n : Nat) (v : Bool) : SameLayout fs (fs.mark k n v) := by
  obtain ⟨hdev, hro, -⟩ := mark_frame fs k n v
  obtain ⟨c, hc⟩ := superBlock_mark fs k n v
  have hl := layout_mark fs k n v
  simp only [Ext2Fs.layout, Prod.mk.injEq] at hl
  refine ⟨hdev, hro, ?_, hl.2.2.2.2.2.2.2⟩
  rw [hc]
  cases k with
  | block => exact ⟨c, fs.superBlock.freeInodesCount, rfl⟩
  | inode => exact ⟨fs.superBlock.freeBlocksCount, c, rfl⟩

theorem SameLayout.bit (h : SameLayout fs fs') (hbits : ∀ b, fs.IsBitmap b → fs'.disk b = fs.disk b) (k : Kind)
    (g i : Nat) : fs'.bit k g i = fs.bit k g i := by
  cases hg : fs'.blockGroups[g]? with
  | none =>
    have hg₀ : fs.blockGroups[g]? = none := by
      rw [List.getElem?_eq_none_iff] at hg ⊢
      rwa [h.length] at hg
    rw [Ext2Fs.bit, hg, Ext2Fs.bit, hg₀]
  | some bg =>
    obtain ⟨bg₀, hg₀, hp⟩ := h.group hg
    have hmem : bg₀.places ∈ fs.blockGroups.map (·.places) := List.mem_map_of_mem (List.mem_of_getElem? hg₀)
    rw [bit_eq hg, bit_eq hg₀]
    simp only [BlockGroupDescriptor.places, Prod.mk.injEq] at hp
    cases k with
    | block =>
      have hdisk := hbits bg₀.blockBitmap ⟨_, hmem, .inl rfl⟩
      rw [BlockGroupDescriptor.bitmap, BlockGroupDescriptor.bitmap, ← hp.1, hdisk]
    | inode =>
      have hdisk := hbits bg₀.inodeBitmap ⟨_, hmem, .inr rfl⟩
      rw [BlockGroupDescriptor.bitmap, BlockGroupDescriptor.bitmap, ← hp.2.1, hdisk]

/-- The bitmaps decide what is allocated. -/
theorem SameLayout.allocated (h : SameLayout fs fs') (hbits : ∀ b, fs.IsBitmap b → fs'.disk b = fs.disk b) (k : Kind)
    (n : Nat) : fs'.Allocated k n ↔ fs.Allocated k n := by
  obtain ⟨c, d, hs⟩ := h.superBlock
  unfold Ext2Fs.Allocated
  rw [h.inRange, h.bit hbits, hs]
  cases k <;> rfl

end Layout

/-- The inodes refer to the same blocks at the same places. -/
structure SameMap (fs fs' : Ext2Fs) : Prop where
  layout : SameLayout fs fs'
  root : ∀ n, fs.IsSlot n → ∀ k, (fs'.inode n).root fs.sectors k = (fs.inode n).root fs.sectors k
  fileAcl : ∀ n, fs.IsSlot n → (fs'.inode n).fileAcl = (fs.inode n).fileAcl
  inner : ∀ x, fs.pointers.Inner x → fs'.disk (fs.pointers.node x) = fs.disk (fs.pointers.node x)

theorem inside_iff (fs fs' : Ext2Fs) (x : (Nat × Nat) × List Nat) : fs'.pointers.Inside x ↔ fs.pointers.Inside x := Iff.rfl

theorem SameLayout.child {fs fs' : Ext2Fs} (h : SameLayout fs fs') {b : Nat} (hb : fs'.disk b = fs.disk b) (i : Nat) :
    fs'.pointers.child b i = fs.pointers.child b i := by
  show (if _ then _ else _) = if _ then _ else _
  rw [h.blockSize, hb]

namespace SameMap

variable {fs fs' : Ext2Fs} (h : SameMap fs fs')

include h

theorem pointers_root : fs'.pointers.root = fs.pointers.root := by
  funext x
  show (if fs'.IsSlot x.1 then (fs'.inode x.1).root fs'.sectors x.2 else 0) = if fs.IsSlot x.1 then _ else 0
  by_cases hn : fs.IsSlot x.1
  · rw [if_pos (h.layout.isSlot ▸ hn), if_pos hn, h.layout.sectors]
    exact h.root x.1 hn x.2
  · rw [if_neg (h.layout.isSlot ▸ hn), if_neg hn]

theorem node {x : (Nat × Nat) × List Nat} (hx : fs.pointers.Inside x) : fs'.pointers.node x = fs.pointers.node x :=
  Pointers.node_congr (congrFun h.pointers_root x.1) (fun p hp i => h.layout.child (h.inner (x.1, p) hp) i) hx

theorem acl : fs'.acl = fs.acl := by
  funext n
  show (if fs'.IsSlot n then (fs'.inode n).fileAcl else 0) = if fs.IsSlot n then _ else 0
  by_cases hn : fs.IsSlot n
  · rw [if_pos (h.layout.isSlot ▸ hn), if_pos hn]
    exact h.fileAcl n hn
  · rw [if_neg (h.layout.isSlot ▸ hn), if_neg hn]

theorem refers (b : Nat) : fs'.Refers b ↔ fs.Refers b := by
  unfold Ext2Fs.Refers
  rw [h.acl]
  refine and_congr_right fun _ => or_congr_left (exists_congr fun x => ?_)
  exact and_congr_right fun hx => by rw [h.node hx]

theorem treeSize : fs'.treeSize = fs.treeSize := by
  funext n
  unfold Ext2Fs.treeSize
  rw [h.layout.blockSize]
  exact Pointers.count_congr rfl fun x hx => h.node (Pointers.mem_spots.1 hx).2.1

theorem blockCount : fs'.blockCount = fs.blockCount := by
  funext n
  unfold Ext2Fs.blockCount
  rw [h.treeSize, h.acl]

theorem unique (hu : fs.pointers.Unique) : fs'.pointers.Unique :=
  hu.congr (fun x => inside_iff fs fs' x) fun _ hx => .inl (h.node hx)

end SameMap

section Sound

variable {fs fs' : Ext2Fs} {P P' : Nat → Prop}

theorem Ext2Fs.IsData.ne_zero {b : Nat} (h : fs.IsData b) : b ≠ 0 := by
  rintro rfl
  refine h.2 (.inr (.inr ⟨0, List.mem_cons_self .., ?_, Nat.zero_le _⟩))
  rw [Nat.zero_mul]
  exact h.1.1

/-- The attribute blocks are the same; the trees, what is marked as used and what is pending may not be. -/
theorem Ext2Fs.Sound.rebuild (h : fs.Sound P) (hl : SameLayout fs fs') (hacl : fs'.acl = fs.acl)
    (hcached : ∀ n r, fs'.inodeCache n = some r → fs.IsSlot n)
    (hattr : ∀ n, fs.acl n ≠ 0 → fs'.disk (fs.acl n) = fs.disk (fs.acl n)) (hunique : fs'.pointers.Unique)
    (htree : ∀ x, fs.pointers.Inside x → fs'.pointers.node x ≠ 0 → fs.IsData (fs'.pointers.node x) ∧
      ∀ n, fs.acl n ≠ 0 → fs'.pointers.node x ≠ fs.acl n)
    (hmeta : ∀ b, fs.IsMetadata b → fs.superBlock.InRange .block b → fs'.Allocated .block b)
    (hused : ∀ b, fs.IsData b → (fs'.Allocated .block b ↔ fs'.Refers b ∨ P' b))
    (hpending : ∀ b, P' b → fs.IsData b ∧ ¬ fs'.Refers b) : fs'.Sound P' := by
  have hsharers : fs'.sharers = fs.sharers := by
    obtain ⟨c, d, hs⟩ := hl.superBlock
    funext b
    unfold Ext2Fs.sharers
    rw [hacl, hl.length, hs]
  refine ⟨hl.placed h.toPlaced, ?_, hunique, ?_, ?_, ?_, ?_, ?_, ?_⟩
  · rw [hl.isSlot]
    exact hcached
  · rw [hl.isData]
    exact fun x hx hne => (htree x hx hne).1
  · rw [hacl, hl.isData]
    intro n hn
    refine ⟨(h.attr n hn).1, fun x hx heq => ?_⟩
    exact (htree x hx (heq ▸ hn)).2 n hn heq
  · rw [hacl, hsharers]
    intro n hn
    rw [hattr n hn]
    exact h.shared n hn
  · intro b hb hin
    rw [hl.isMetadata] at hb
    exact hmeta b hb ((hl.inRange .block b).1 hin)
  · rw [hl.isData]
    exact hused
  · rw [hl.isData]
    exact hpending

/-- **Nothing about the inodes' blocks changed**: only what is marked as used and pending may. -/
theorem Ext2Fs.Sound.frame (h : fs.Sound P) (hm : SameMap fs fs')
    (hcached : ∀ n r, fs'.inodeCache n = some r → fs.IsSlot n)
    (hattr : ∀ n, fs.acl n ≠ 0 → fs'.disk (fs.acl n) = fs.disk (fs.acl n))
    (hmeta : ∀ b, fs.IsMetadata b → fs.superBlock.InRange .block b → fs'.Allocated .block b)
    (hused : ∀ b, fs.IsData b → (fs'.Allocated .block b ↔ fs.Refers b ∨ P' b))
    (hpending : ∀ b, P' b → fs.IsData b ∧ ¬ fs.Refers b) : fs'.Sound P' := by
  refine h.rebuild hm.layout hm.acl hcached hattr (hm.unique h.unique) (fun x hx hne => ?_) hmeta (fun b hb => ?_)
    fun b hb => ?_
  · rw [hm.node hx] at hne ⊢
    exact ⟨h.tree x hx hne, fun n hn => (h.attr n hn).2 x hx⟩
  · rw [hm.refers]
    exact hused b hb
  · rw [hm.refers]
    exact hpending b hb

/-- The blocks of inodes are no bitmaps. -/
theorem Ext2Fs.IsData.not_bitmap {b : Nat} (h : fs.IsData b) : ¬ fs.IsBitmap b := fun hb => h.2 (.inl hb)

theorem Ext2Fs.IsData.not_table {b : Nat} (h : fs.IsData b) : ¬ fs.IsTable b := fun hb => h.2 (.inr (.inl hb))

theorem Ext2Fs.Sound.lt (h : fs.Sound P) {b : Nat} (hb : fs.IsData b) : b < fs.deviceBlocks ∧ b < 2 ^ 32 :=
  ⟨Nat.lt_of_lt_of_le hb.1.2 h.onDevice, Nat.lt_trans hb.1.2 h.geometry.blocks⟩

end Sound

end Koros.Ext2
