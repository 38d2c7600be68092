import Koros.Ext2.Account
import Koros.Ext2.Inode
import Koros.Ext2.File
import Koros.Ext2.XattrBlock

/-!
# Extended attributes of an inode

`getxattr`, `listxattr`, `setxattr` and `removexattr` of `kor-ext2/src/inode.rs` over the block allocator: an inode
without attributes has no block, a shared block is copied before it is changed, and the block goes when the last
attribute does.

`Home` is the filesystem around an inode that is in memory, `Holds` says which attributes the inode has. Each call either
fails and changes nothing, or updates the attributes at one name (`setxattr_spec`, `removexattr_spec`), so the attributes
are a finite map over every run of calls (`run_holds`, `xattr_finite_map`).
-/
set_option autoImplicit false

namespace Koros.Ext2

open Koros.Lib Xattr

/-! ## The calls -/

/-- `?` on a result. -/
def liftResult {α : Type} : Except FsError α → FsM α
  | .ok a => return a
  | .error e => fail e

/-- `split_name(name).ok_or(InvalidInput)?`, with the suffix as bytes. -/
def keyOf (name : String) : Option (Byte × List Byte) := (splitName name).map fun s => (s.1, asBytes s.2)

def getxattr (ino : Nat) (name : String) : FsM (List Byte) := do
  match keyOf name with
  | none => fail .invalidInput
  | some key =>
    let acl := (← raw ino).fileAcl
    if acl = 0 then fail .notFound
    else
      let buf ← readFsBlock acl
      let attrs ← liftResult (parseBlock buf (← get).blockSize)
      match attrs.find? (·.key = key) with
      | some a => return a.value
      | none => fail .notFound

def listxattr (ino : Nat) : FsM (List String) := do
  let acl := (← raw ino).fileAcl
  if acl = 0 then return []
  else
    let buf ← readFsBlock acl
    let attrs ← liftResult (parseBlock buf (← get).blockSize)
    return attrs.filterMap fun a => fullName a.index a.name

/-- Drop a reference to a block that others share. -/
def decrementXattrRefcount (block : Nat) : FsM Unit := do
  let buf ← readFsBlock block
  writeFsBlock block (setRefcount buf (refcount buf - 1))

/-- Drop the inode's reference to its block. -/
def dropXattrBlock (acl : Nat) (shared : Bool) : FsM Unit :=
  if shared then decrementXattrRefcount acl else freeBlock acl

/-- Write a new block image: to a new block if the inode has none, or if others share its block. -/
def storeXattrBlock (ino acl : Nat) (shared : Bool) (newBuf : Bytes) : FsM Unit := do
  if acl = 0 then
    let block ← allocBlockGoal (← blockGroup ino)
    writeFsBlock block newBuf
    let sectors ← sectorsPerBlock
    modifyRaw ino fun r => (r.setFileAcl block).setBlocks (saturatingAdd 32 (r.setFileAcl block).blocks sectors)
  else if shared then
    let block ← allocBlockGoal (← blockGroup ino)
    writeFsBlock block newBuf
    decrementXattrRefcount acl
    modifyRaw ino fun r => r.setFileAcl block
  else writeFsBlock acl newBuf

/-- `attrs.retain(..)`: every attribute but that of `key`. -/
def retainOthers (attrs : List Attr) (key : Byte × List Byte) : List Attr := attrs.filter (·.key ≠ key)

def upsert (attrs : List Attr) (key : Byte × List Byte) (value : List Byte) : List Attr :=
  retainOthers attrs key ++ [⟨key.1, key.2, value⟩]

def setxattr (ino : Nat) (name : String) (value : List Byte) : FsM Unit := do
  match keyOf name with
  | none => fail .invalidInput
  | some key =>
    let blockSize := (← get).blockSize
    let acl := (← raw ino).fileAcl
    let (attrs, shared) ←
      if acl ≠ 0 then do
        let buf ← readFsBlock acl
        let attrs ← liftResult (parseBlock buf blockSize)
        pure (attrs, decide (refcount buf > 1))
      else pure ([], false)
    let newBuf ← liftResult (serializeBlock (upsert attrs key value) blockSize)
    storeXattrBlock ino acl shared newBuf
    writeInodeToDisk ino

def removexattr (ino : Nat) (name : String) : FsM Unit := do
  match keyOf name with
  | none => fail .invalidInput
  | some key =>
    let blockSize := (← get).blockSize
    let acl := (← raw ino).fileAcl
    if acl = 0 then fail .notFound
    else
      let buf ← readFsBlock acl
      let attrs ← liftResult (parseBlock buf blockSize)
      let shared := decide (refcount buf > 1)
      let rest := retainOthers attrs key
      if rest.length = attrs.length then fail .notFound
      else
        if rest = [] then
          dropXattrBlock acl shared
          let sectors ← sectorsPerBlock
          modifyRaw ino fun r => (r.setFileAcl 0).setBlocks ((r.setFileAcl 0).blocks - sectors)
        else
          let newBuf ← liftResult (serializeBlock rest blockSize)
          storeXattrBlock ino acl shared newBuf
        writeInodeToDisk ino

/-! ## The filesystem around an inode -/

/-- Where a group keeps its bitmaps and its inode table. -/
def BlockGroupDescriptor.places (bg : BlockGroupDescriptor) : Nat × Nat × Nat :=
  (bg.blockBitmap, bg.inodeBitmap, bg.inodeTable)

namespace Ext2Fs

/-- Everything about a filesystem but its contents and counters. -/
def layout (fs : Ext2Fs) : Nat × Bool × Nat × Nat × Nat × Nat × Nat × List (Nat × Nat × Nat) :=
  (fs.deviceBlocks, fs.readOnly, fs.blockSize, fs.superBlock.firstDataBlock, fs.superBlock.blocksCount,
    fs.superBlock.inodesPerGroup, fs.superBlock.inodeSize, fs.blockGroups.map (·.places))

def IsBitmap (fs : Ext2Fs) (b : Nat) : Prop :=
  ∃ p ∈ fs.blockGroups.map (·.places), b = p.1 ∨ b = p.2.1

/-- The block of the inode table that holds an inode, and the offset in it. -/
def tablePlace (fs : Ext2Fs) (ino : Nat) : Option (Nat × Nat) :=
  ((fs.blockGroups.map (·.places))[(ino - 1) / fs.superBlock.inodesPerGroup]?).map fun p =>
    let offsetInTable := (ino - 1) % fs.superBlock.inodesPerGroup * fs.superBlock.inodeSize
    (p.2.2 + offsetInTable / fs.blockSize, offsetInTable % fs.blockSize)

/-- Blocks no allocation may hand out: block 0, the bitmaps, and the table block of the inode. -/
def Reserved (fs : Ext2Fs) (ino b : Nat) : Prop :=
  b = 0 ∨ fs.IsBitmap b ∨ ∃ off, fs.tablePlace ino = some (b, off)

/-- A block that belongs to someone. -/
def Owned (fs : Ext2Fs) (ino b : Nat) : Prop := fs.Allocated .block b ∧ ¬ fs.Reserved ino b

end Ext2Fs

/-- A filesystem that lies on its device and marks its metadata as used, and an inode of it that is in memory. -/
structure Home (fs : Ext2Fs) (ino : Nat) : Prop where
  consistent : fs.Consistent
  /-- `SuperBlock::from_raw` accepts no larger block. -/
  blockSize : fs.blockSize ≤ 2 ^ 16
  onDevice : fs.superBlock.blocksCount ≤ fs.deviceBlocks
  table : ∃ b off, fs.tablePlace ino = some (b, off) ∧ b < fs.deviceBlocks ∧ off + 128 ≤ fs.blockSize ∧ ¬ fs.IsBitmap b
  reserved : ∀ b, fs.Reserved ino b → fs.superBlock.InRange .block b → fs.Allocated .block b

section Home

variable {fs fs' : Ext2Fs} {ino b : Nat}

theorem layout_mark (fs : Ext2Fs) (k : Kind) (n : Nat) (v : Bool) : (fs.mark k n v).layout = fs.layout := by
  unfold Ext2Fs.mark
  split
  · rfl
  · rename_i bg hg
    have hgroups : (fs.blockGroups.set (fs.superBlock.groupOf k n)
        (bg.setFree k (Ext2Fs.recount v (bg.free k)))).map (·.places) = fs.blockGroups.map (·.places) := by
      have hplaces : (bg.setFree k (Ext2Fs.recount v (bg.free k))).places = bg.places := by cases k <;> rfl
      apply List.ext_getElem?
      intro i
      simp only [List.map_set, List.getElem?_set, List.length_map, hplaces]
      split
      · rename_i hi
        subst hi
        rw [if_pos (List.getElem?_eq_some_iff.1 hg).1, List.getElem?_map, hg]
        rfl
      · rfl
    unfold Ext2Fs.layout Ext2Fs.blockSize
    simp only [hgroups]
    cases k <;> rfl

/-- A layout decides which blocks are reserved. -/
theorem layout_eq (h : fs'.layout = fs.layout) :
    fs'.deviceBlocks = fs.deviceBlocks ∧ fs'.readOnly = fs.readOnly ∧ fs'.blockSize = fs.blockSize ∧
    fs'.superBlock.blocksCount = fs.superBlock.blocksCount ∧
    (∀ n, fs'.superBlock.InRange .block n ↔ fs.superBlock.InRange .block n) ∧
    fs'.IsBitmap = fs.IsBitmap ∧ fs'.tablePlace = fs.tablePlace ∧ fs'.Reserved = fs.Reserved := by
  simp only [Ext2Fs.layout, Prod.mk.injEq] at h
  obtain ⟨h₁, h₂, h₃, h₄, h₅, h₆, h₇, h₈⟩ := h
  have hbitmap : fs'.IsBitmap = fs.IsBitmap := by
    funext b
    simp only [Ext2Fs.IsBitmap, h₈]
  have htable : fs'.tablePlace = fs.tablePlace := by
    funext ino
    simp only [Ext2Fs.tablePlace, h₃, h₆, h₇, h₈]
  refine ⟨h₁, h₂, h₃, h₅, fun n => ?_, hbitmap, htable, ?_⟩
  · simp only [SuperBlock.InRange, h₄, h₅]
  · funext ino b
    simp only [Ext2Fs.Reserved, hbitmap, htable]

/-- A block that is not a bitmap may be written. -/
theorem bit_setDisk (hb : ¬ fs.IsBitmap b) (buf : Bytes) (k : Kind) (g i : Nat) :
    (fs.setDisk b buf).bit k g i = fs.bit k g i := by
  unfold Ext2Fs.bit Ext2Fs.setDisk
  cases hg : fs.blockGroups[g]? with
  | none => rfl
  | some bg =>
    have hne : bg.bitmap k ≠ b := by
      rintro rfl
      apply hb
      refine ⟨bg.places, List.mem_map_of_mem (List.mem_of_getElem? hg), ?_⟩
      cases k with
      | block => exact .inl rfl
      | inode => exact .inr rfl
    simp only [Function.update_of_ne hne]

theorem allocated_setDisk (hb : ¬ fs.IsBitmap b) (buf : Bytes) (k : Kind) (n : Nat) :
    (fs.setDisk b buf).Allocated k n ↔ fs.Allocated k n := by
  unfold Ext2Fs.Allocated
  rw [bit_setDisk hb]
  exact Iff.rfl

theorem consistent_setDisk (hc : fs.Consistent) (hb : ¬ fs.IsBitmap b) (buf : Bytes) :
    (fs.setDisk b buf).Consistent where
  groups := hc.groups
  perGroup := hc.perGroup
  first := hc.first
  blocks := hc.blocks
  inodes := hc.inodes
  inodesLow := hc.inodesLow
  inodesHigh := hc.inodesHigh
  placed := hc.placed
  distinct := hc.distinct
  group := fun {k g bg} hg => by
    rw [hc.group hg]
    congr 1
    funext i
    exact (bit_setDisk hb buf k g i).symm
  total := hc.total

/-- Only the consistency and the reserved blocks depend on the contents. -/
theorem Home.of_layout (h : Home fs ino) (hl : fs'.layout = fs.layout) (hc : fs'.Consistent)
    (hres : ∀ b, fs.Reserved ino b → fs.Allocated .block b → fs'.Allocated .block b) : Home fs' ino := by
  obtain ⟨h₁, h₂, h₃, h₄, h₅, h₆, h₇, h₈⟩ := layout_eq hl
  refine ⟨hc, by rw [h₃]; exact h.blockSize, by rw [h₁, h₄]; exact h.onDevice, ?_, fun b hb hin => ?_⟩
  · rw [h₇, h₁, h₃, h₆]
    exact h.table
  · rw [h₈] at hb
    exact hres b hb (h.reserved b hb ((h₅ b).1 hin))

theorem Home.setDisk (h : Home fs ino) (hb : ¬ fs.IsBitmap b) (buf : Bytes) : Home (fs.setDisk b buf) ino := by
  refine h.of_layout rfl (consistent_setDisk h.consistent hb buf) fun x _ hx => ?_
  exact (allocated_setDisk hb buf .block x).2 hx

theorem Home.withCache (h : Home fs ino) (cache : Nat → Option RawInode) :
    Home { fs with inodeCache := cache } ino :=
  h.of_layout rfl (consistent_withCache h.consistent cache) fun _ _ hx => hx

/-- A block that was free is nobody's metadata. -/
theorem Home.not_reserved (h : Home fs ino) (hin : fs.superBlock.InRange .block b) (hfree : ¬ fs.Allocated .block b) :
    ¬ fs.Reserved ino b := fun hres => hfree (h.reserved b hres hin)

theorem Home.mark_true (h : Home fs ino) (hin : fs.superBlock.InRange .block b) (hfree : ¬ fs.Allocated .block b) :
    Home (fs.mark .block b true) ino ∧ (fs.mark .block b true).Owned ino b := by
  have hbit : fs.bit .block (fs.superBlock.groupOf .block b) (fs.superBlock.bitOf .block b) = !true := by
    have hnot : ¬ fs.bit .block (fs.superBlock.groupOf .block b) (fs.superBlock.bitOf .block b) = true :=
      fun hb => hfree ⟨hin, hb⟩
    simpa using hnot
  have hG := h.consistent.toGeometry
  refine ⟨h.of_layout (layout_mark ..) (mark_consistent h.consistent hin hbit) fun x _ hx => ?_, ?_, ?_⟩
  · rw [allocated_mark hG hin]
    split
    · rfl
    · exact hx
  · rw [allocated_mark hG hin, if_pos ⟨rfl, rfl⟩]
  · obtain ⟨-, -, -, -, -, -, -, hr⟩ := layout_eq (layout_mark fs .block b true)
    rw [hr]
    exact h.not_reserved hin hfree

theorem Home.mark_false (h : Home fs ino) (hb : fs.Owned ino b) : Home (fs.mark .block b false) ino := by
  have hG := h.consistent.toGeometry
  refine h.of_layout (layout_mark ..) (mark_consistent h.consistent hb.1.1 hb.1.2) fun x hx hax => ?_
  rw [allocated_mark hG hb.1.1, if_neg ?_]
  · exact hax
  · rintro ⟨-, rfl⟩
    exact hb.2 hx

theorem Ext2Fs.Owned.lt (h : Home fs ino) (hb : fs.Owned ino b) : b < fs.deviceBlocks :=
  Nat.lt_of_lt_of_le hb.1.1.2 h.onDevice

theorem Ext2Fs.Owned.not_bitmap (hb : fs.Owned ino b) : ¬ fs.IsBitmap b := fun h => hb.2 (.inr (.inl h))

/-- Writing a block that is not a bitmap takes nothing away. -/
theorem Ext2Fs.Owned.setDisk {x : Nat} (hb : fs.Owned ino b) (hx : ¬ fs.IsBitmap x) (buf : Bytes) :
    (fs.setDisk x buf).Owned ino b :=
  ⟨(allocated_setDisk hx buf .block b).2 hb.1, hb.2⟩

/-- Marking writes a bitmap only. -/
theorem disk_mark {k : Kind} {n x : Nat} (v : Bool) (hx : ¬ fs.IsBitmap x) : (fs.mark k n v).disk x = fs.disk x := by
  unfold Ext2Fs.mark
  split
  · rfl
  · rename_i bg hg
    apply Function.update_of_ne
    rintro rfl
    apply hx
    refine ⟨bg.places, List.mem_map_of_mem (List.mem_of_getElem? hg), ?_⟩
    cases k with
    | block => exact .inl rfl
    | inode => exact .inr rfl

/-! ## Storing a block -/

theorem raw_eq {r : RawInode} (h : fs.inodeCache ino = some r) : raw ino fs = .ok r fs := by
  rw [raw, get_bind, h]
  rfl

theorem modifyRaw_eq {r : RawInode} (h : fs.inodeCache ino = some r) (f : RawInode → RawInode) :
    modifyRaw ino f fs = .ok ⟨⟩ { fs with inodeCache := Function.update fs.inodeCache ino (some (f r)) } :=
  bind_ok (raw_eq h)

theorem locateInode_eq {b off : Nat} (h : fs.tablePlace ino = some (b, off)) : locateInode ino fs = .ok (b, off) fs := by
  unfold Ext2Fs.tablePlace at h
  rw [List.getElem?_map, Option.map_map, Option.map_eq_some_iff] at h
  obtain ⟨bg, hbg, hpl⟩ := h
  rw [locateInode, get_bind, bind_ok (getGroup_eq hbg), ← hpl]
  rfl

/-- Writing an inode back, with its place known. -/
theorem writeInodeToDisk_at {r : RawInode} {b off : Nat} (h : fs.tablePlace ino = some (b, off)) (hlt : b < fs.deviceBlocks)
    (hoff : off + 128 ≤ fs.blockSize) (hro : fs.readOnly = false) (hr : fs.inodeCache ino = some r) :
    writeInodeToDisk ino fs = .ok ⟨⟩ (fs.setDisk b (blit (fs.disk b) off 128 r.bytes)) := by
  rw [writeInodeToDisk, bind_ok (raw_eq hr), get_bind, bind_ok (locateInode_eq h)]
  show (readFsBlock b >>= _) fs = _
  rw [bind_ok (readFsBlock_eq hlt), if_neg (by omega)]
  exact writeFsBlock_eq hro hlt _

/-- The inode is written back to its place in the table. -/
theorem writeInodeToDisk_eq {r : RawInode} (h : Home fs ino) (hro : fs.readOnly = false)
    (hr : fs.inodeCache ino = some r) :
    ∃ b buf, ¬ fs.IsBitmap b ∧ fs.Reserved ino b ∧ writeInodeToDisk ino fs = .ok ⟨⟩ (fs.setDisk b buf) := by
  obtain ⟨b, off, hplace, hlt, hoff, hbm⟩ := h.table
  exact ⟨b, _, hbm, .inr (.inr ⟨off, hplace⟩), writeInodeToDisk_at hplace hlt (by omega) hro hr⟩

/-- The inode's attribute block is its own, and holds `img`. -/
structure Stored (fs fs' : Ext2Fs) (ino : Nat) (img : Bytes) : Prop where
  home : Home fs' ino
  layout : fs'.layout = fs.layout
  block : ∃ r, fs'.inodeCache ino = some r ∧ fs'.Owned ino r.fileAcl ∧ fs'.disk r.fileAcl = img

theorem Ext2Fs.Owned.ne_zero (hb : fs.Owned ino b) : b ≠ 0 := fun h => hb.2 (.inl h)

/-- A block number fits the field of the inode. -/
theorem Ext2Fs.Owned.lt_word (h : Home fs ino) (hb : fs.Owned ino b) : b < 2 ^ 32 :=
  Nat.lt_trans hb.1.1.2 h.consistent.blocks

theorem fileAcl_setFileAcl (r : RawInode) {v : Nat} (hv : v < 2 ^ 32) : (r.setFileAcl v).fileAcl = v := by
  unfold RawInode.setFileAcl RawInode.fileAcl RawInode.get RawInode.put RawInode.ofBytes
  rw [leNat_congr fun j _ h₂ => if_pos (show j < 128 by omega)]
  exact leNat_putLe_of_lt (by simpa using hv)

theorem fileAcl_setBlocks (r : RawInode) (v : Nat) : (r.setBlocks v).fileAcl = r.fileAcl := by
  unfold RawInode.setBlocks RawInode.fileAcl RawInode.get RawInode.put RawInode.ofBytes
  rw [leNat_congr fun j _ h₂ => if_pos (show j < 128 by omega)]
  exact leNat_putLe_of_disjoint _ (.inr (by omega))

/-- A new block is taken and written: `fs'` is the filesystem with block `b` holding `img`. -/
structure NewBlock (fs fs' : Ext2Fs) (ino b : Nat) (img : Bytes) : Prop where
  home : Home fs' ino
  layout : fs'.layout = fs.layout
  cache : fs'.inodeCache = fs.inodeCache
  owned : fs'.Owned ino b
  disk : fs'.disk b = img
  keeps : ∀ x, fs.Owned ino x → x ≠ b ∧ fs'.Owned ino x

theorem allocWrite_cases (h : Home fs ino) (goal : Nat) (img : Bytes) :
    (∃ e, allocBlockGoal goal fs = .error (.err e) fs) ∨
    ∃ b fs₁ fs₂, fs.readOnly = false ∧ allocBlockGoal goal fs = .ok b fs₁ ∧ writeFsBlock b img fs₁ = .ok ⟨⟩ fs₂ ∧
      NewBlock fs fs₂ ino b img := by
  cases hro : fs.readOnly with
  | true => exact .inl ⟨.readOnly, by rw [allocBlockGoal, get_bind, if_pos hro]; rfl⟩
  | false =>
    obtain ⟨b, hin, hfree, halloc⟩ | ⟨hfull, -⟩ := allocBlockGoal_spec h.consistent hro goal
    · obtain ⟨hhome, howned⟩ := h.mark_true hin hfree
      have hl := layout_mark fs .block b true
      obtain ⟨-, hro₁, -, -, -, -, -, hres⟩ := layout_eq hl
      refine .inr ⟨b, _, _, rfl, halloc, writeFsBlock_eq (hro₁.trans hro) (howned.lt hhome) img, ?_⟩
      refine ⟨hhome.setDisk howned.not_bitmap img, hl, (mark_frame fs .block b true).2.2,
        howned.setDisk howned.not_bitmap img, Function.update_self .., fun x hx => ?_⟩
      have hne : x ≠ b := by
        rintro rfl
        exact hfree hx.1
      refine ⟨hne, Ext2Fs.Owned.setDisk ⟨?_, by rw [hres]; exact hx.2⟩ howned.not_bitmap img⟩
      rw [allocated_mark h.consistent.toGeometry hin, if_neg fun hb => hne hb.2]
      exact hx.1
    · exact .inl ⟨.noSpace, hfull⟩

theorem blockGroup_eq (ino : Nat) (fs : Ext2Fs) : ∃ g, blockGroup ino fs = .ok g fs := ⟨_, rfl⟩

/-- **Storing a block image.** It fails before anything changed, or the inode's own block holds the image. -/
theorem storeXattrBlock_spec {r : RawInode} (h : Home fs ino) (hr : fs.inodeCache ino = some r)
    (hacl : r.fileAcl = 0 ∨ fs.Owned ino r.fileAcl) (shared : Bool) (img : Bytes) :
    (∃ e, storeXattrBlock ino r.fileAcl shared img fs = .error (.err e) fs) ∨
    ∃ fs', fs.readOnly = false ∧ storeXattrBlock ino r.fileAcl shared img fs = .ok ⟨⟩ fs' ∧ Stored fs fs' ino img := by
  obtain ⟨goal, hgoal⟩ := blockGroup_eq ino fs
  unfold storeXattrBlock
  by_cases hzero : r.fileAcl = 0
  · rw [if_pos hzero]
    simp only [bind_ok hgoal]
    obtain ⟨e, herr⟩ | ⟨b, fs₁, fs₂, hro, halloc, hwrite, hnew⟩ := allocWrite_cases h goal img
    · exact .inl ⟨e, bind_error herr⟩
    · have hr₂ : fs₂.inodeCache ino = some r := by rw [hnew.cache, hr]
      have hacl' : ∀ v, ((r.setFileAcl b).setBlocks v).fileAcl = b := fun v => by
        rw [fileAcl_setBlocks, fileAcl_setFileAcl r (hnew.owned.lt_word hnew.home)]
      refine .inr ⟨_, hro, (bind_ok halloc).trans ((bind_ok hwrite).trans (modifyRaw_eq hr₂ _)), ?_⟩
      refine ⟨hnew.home.withCache _, hnew.layout, _, Function.update_self .., ?_, ?_⟩
      · rw [hacl']
        exact hnew.owned
      · rw [hacl']
        exact hnew.disk
  · have howned := hacl.resolve_left hzero
    rw [if_neg hzero]
    cases shared with
    | true =>
      rw [if_pos rfl]
      simp only [bind_ok hgoal]
      obtain ⟨e, herr⟩ | ⟨b, fs₁, fs₂, hro, halloc, hwrite, hnew⟩ := allocWrite_cases h goal img
      · exact .inl ⟨e, bind_error herr⟩
      · -- the old block keeps its contents but for the reference count
        obtain ⟨hne, howned₂⟩ := hnew.keeps _ howned
        have hlt := howned₂.lt hnew.home
        have hro₂ : fs₂.readOnly = false := (layout_eq hnew.layout).2.1.trans hro
        have hdec : decrementXattrRefcount r.fileAcl fs₂ = .ok ⟨⟩ (fs₂.setDisk r.fileAcl _) :=
          (bind_ok (readFsBlock_eq hlt)).trans (writeFsBlock_eq hro₂ hlt _)
        have hr₂ : ∀ buf, (fs₂.setDisk r.fileAcl buf).inodeCache ino = some r := fun _ => hnew.cache ▸ hr
        have hacl' : (r.setFileAcl b).fileAcl = b := fileAcl_setFileAcl r (hnew.owned.lt_word hnew.home)
        refine .inr ⟨_, hro, (bind_ok halloc).trans ((bind_ok hwrite).trans ((bind_ok hdec).trans
          (modifyRaw_eq (hr₂ _) _))), ?_⟩
        refine ⟨(hnew.home.setDisk howned₂.not_bitmap _).withCache _, hnew.layout, _, Function.update_self .., ?_, ?_⟩
        · rw [hacl']
          exact hnew.owned.setDisk howned₂.not_bitmap _
        · rw [hacl']
          exact (Function.update_of_ne (Ne.symm hne) ..).trans hnew.disk
    | false =>
      rw [if_neg (by simp)]
      cases hro : fs.readOnly with
      | true => exact .inl ⟨.readOnly, by rw [writeFsBlock, get_bind, if_pos hro]; rfl⟩
      | false =>
        refine .inr ⟨_, rfl, writeFsBlock_eq hro (howned.lt h) img, h.setDisk howned.not_bitmap img, rfl, r, hr,
          howned.setDisk howned.not_bitmap img, Function.update_self ..⟩

/-- Writing the inode back leaves its attribute block alone. -/
theorem Stored.written {img : Bytes} (hs : Stored fs fs' ino img) (hro : fs.readOnly = false) :
    ∃ fs'', writeInodeToDisk ino fs' = .ok ⟨⟩ fs'' ∧ Stored fs fs'' ino img := by
  obtain ⟨r, hr, howned, hdisk⟩ := hs.block
  obtain ⟨b, buf, hbm, hres, hw⟩ := writeInodeToDisk_eq hs.home ((layout_eq hs.layout).2.1.trans hro) hr
  have hne : r.fileAcl ≠ b := by
    rintro rfl
    exact howned.2 hres
  exact ⟨_, hw, hs.home.setDisk hbm buf, hs.layout, r, hr, howned.setDisk hbm buf,
    (Function.update_of_ne hne ..).trans hdisk⟩

end Home

/-! ## The attributes as a map -/

/-- The attributes of an inode, by full name. -/
abbrev Attrs := String → Option (List Byte)

/-- A list of attributes that stands for the map `m`. -/
structure Lists (attrs : List Attr) (m : Attrs) : Prop where
  nodup : (attrs.map (·.key)).Nodup
  named : ∀ a ∈ attrs, ∃ n, keyOf n = some a.key
  value : ∀ n v, m n = some v ↔ ∃ a ∈ attrs, keyOf n = some a.key ∧ a.value = v

section Lists

variable {attrs : List Attr} {m : Attrs} {n : String} {key : Byte × List Byte}

theorem fullName_keyOf (h : keyOf n = some key) : fullName key.1 key.2 = some n := by
  obtain ⟨⟨index, suffix⟩, hs, rfl⟩ := Option.map_eq_some_iff.1 h
  exact fullName_splitName hs

theorem keyOf_inj {n' : String} (h : keyOf n = some key) (h' : keyOf n' = some key) : n = n' :=
  Option.some.inj ((fullName_keyOf h).symm.trans (fullName_keyOf h'))

theorem Lists.nil : Lists [] fun _ => none :=
  ⟨List.nodup_nil, fun a ha => absurd ha List.not_mem_nil, fun n v => by simp⟩

theorem Lists.perm {l : List Attr} (h : Lists attrs m) (hp : l.Perm attrs) : Lists l m :=
  ⟨(hp.map _).nodup_iff.2 h.nodup, fun a ha => h.named a (hp.mem_iff.1 ha), fun n v => by
    rw [h.value]
    simp only [hp.mem_iff]⟩

/-- Dropping a key removes its name. -/
theorem Lists.remove (h : Lists attrs m) (hn : keyOf n = some key) :
    Lists (retainOthers attrs key) (Function.update m n none) := by
  refine ⟨h.nodup.sublist (List.filter_sublist.map _), fun a ha => h.named a (List.mem_filter.1 ha).1, fun n' v => ?_⟩
  by_cases hnn : n' = n
  · subst hnn
    rw [Function.update_self]
    constructor
    · intro hv
      cases hv
    · rintro ⟨a, ha, hk, -⟩
      rw [hn] at hk
      exact absurd (Option.some.inj hk).symm (by simpa using (List.mem_filter.1 ha).2)
  · rw [Function.update_of_ne hnn, h.value]
    constructor
    · rintro ⟨a, ha, hk, hv⟩
      refine ⟨a, List.mem_filter.2 ⟨ha, ?_⟩, hk, hv⟩
      have hne : a.key ≠ key := by
        rintro rfl
        exact hnn (keyOf_inj hk hn)
      simpa using hne
    · rintro ⟨a, ha, hk, hv⟩
      exact ⟨a, (List.mem_filter.1 ha).1, hk, hv⟩

/-- Upserting a key sets its name. -/
theorem Lists.upsert (h : Lists attrs m) (hn : keyOf n = some key) (v : List Byte) :
    Lists (upsert attrs key v) (Function.update m n (some v)) := by
  have hrem := h.remove hn
  unfold Koros.Ext2.upsert
  refine ⟨?_, fun a ha => ?_, fun n' w => ?_⟩
  · rw [List.map_append, List.nodup_append]
    refine ⟨hrem.nodup, List.pairwise_singleton _ _, fun k hk k' hk' heq => ?_⟩
    obtain ⟨a, ha, rfl⟩ := List.mem_map.1 hk
    rw [List.map_singleton, List.mem_singleton] at hk'
    have hkey := (List.mem_filter.1 ha).2
    rw [heq, hk'] at hkey
    simp [Attr.key] at hkey
  · rcases List.mem_append.1 ha with ha | ha
    · exact hrem.named a ha
    · rw [List.mem_singleton.1 ha]
      exact ⟨n, hn⟩
  · by_cases hnn : n' = n
    · subst hnn
      rw [Function.update_self]
      constructor
      · intro hw
        cases hw
        exact ⟨_, List.mem_append_right _ (List.mem_singleton_self _), hn, rfl⟩
      · rintro ⟨a, ha, hk, rfl⟩
        rcases List.mem_append.1 ha with ha | ha
        · rw [hn] at hk
          exact absurd (Option.some.inj hk).symm (by simpa using (List.mem_filter.1 ha).2)
        · rw [List.mem_singleton.1 ha]
    · have hsame : Function.update m n (some v) n' = Function.update m n none n' := by
        rw [Function.update_of_ne hnn, Function.update_of_ne hnn]
      rw [hsame, hrem.value]
      constructor
      · rintro ⟨a, ha, hk, hw⟩
        exact ⟨a, List.mem_append_left _ ha, hk, hw⟩
      · rintro ⟨a, ha, hk, hw⟩
        rcases List.mem_append.1 ha with ha | ha
        · exact ⟨a, ha, hk, hw⟩
        · rw [List.mem_singleton.1 ha] at hk
          exact absurd (keyOf_inj hk hn) hnn

/-- A search finds the value of the name. -/
theorem Lists.find_eq (h : Lists attrs m) (hn : keyOf n = some key) :
    (attrs.find? (·.key = key)).map (·.value) = m n := by
  cases hf : attrs.find? (·.key = key) with
  | none =>
    rw [List.find?_eq_none] at hf
    cases hm : m n with
    | none => rfl
    | some v =>
      obtain ⟨a, ha, hk, -⟩ := (h.value n v).1 hm
      rw [hn] at hk
      exact absurd (Option.some.inj hk).symm (by simpa using hf a ha)
  | some a =>
    have hk : a.key = key := by simpa using List.find?_some hf
    exact ((h.value n a.value).2 ⟨a, List.mem_of_find?_eq_some hf, by rw [hk, hn], rfl⟩).symm

/-- The listed names are those of the map, once each. -/
theorem Lists.names (h : Lists attrs m) :
    (attrs.filterMap fun a => fullName a.index a.name).Nodup ∧
    ∀ n, n ∈ attrs.filterMap (fun a => fullName a.index a.name) ↔ m n ≠ none := by
  have hname : ∀ a ∈ attrs, ∀ n, fullName a.index a.name = some n ↔ keyOf n = some a.key := by
    intro a ha n
    obtain ⟨n', hn'⟩ := h.named a ha
    have hfull : fullName a.index a.name = some n' := fullName_keyOf hn'
    constructor
    · intro hn
      rw [hfull] at hn
      rw [← Option.some.inj hn]
      exact hn'
    · intro hn
      rw [hfull, keyOf_inj hn hn']
  constructor
  · rw [List.Nodup, List.pairwise_filterMap]
    have hkeys : attrs.Pairwise fun a b => a.key ≠ b.key := by
      have hnd := h.nodup
      rwa [List.Nodup, List.pairwise_map] at hnd
    refine hkeys.imp_of_mem fun {a b} ha hb hne n hn n' hn' heq => hne ?_
    have h₁ := (hname a ha n).1 hn
    have h₂ := (hname b hb n').1 hn'
    rw [← heq, h₁] at h₂
    exact Option.some.inj h₂
  · intro n
    rw [List.mem_filterMap, Option.ne_none_iff_exists']
    constructor
    · rintro ⟨a, ha, hn⟩
      exact ⟨a.value, (h.value n a.value).2 ⟨a, ha, (hname a ha n).1 hn, rfl⟩⟩
    · rintro ⟨v, hv⟩
      obtain ⟨a, ha, hk, -⟩ := (h.value n v).1 hv
      exact ⟨a, ha, (hname a ha n).2 hk⟩

end Lists

/-- The inode has the attributes `m`: no block and no attributes, or a block of its own that lists them. -/
inductive Holds (fs : Ext2Fs) (ino : Nat) (m : Attrs) : Prop
  | empty (r : RawInode) (hr : fs.inodeCache ino = some r) (hacl : r.fileAcl = 0) (hm : ∀ n, m n = none)
  | block (r : RawInode) (hr : fs.inodeCache ino = some r) (hacl : fs.Owned ino r.fileAcl) (attrs : List Attr)
      (hp : parseBlock (fs.disk r.fileAcl) fs.blockSize = .ok attrs) (hm : Lists attrs m)

section Calls

variable {fs fs' : Ext2Fs} {ino : Nat} {m : Attrs} {n : String} {key : Byte × List Byte}

theorem SuperBlock.blockSize_ge (sb : SuperBlock) : 1024 ≤ sb.blockSize := by
  unfold SuperBlock.blockSize
  rw [Nat.shiftLeft_eq]
  exact Nat.le_mul_of_pos_right _ (Nat.two_pow_pos _)

theorem blockSize_ge (fs : Ext2Fs) : 1024 ≤ fs.blockSize := fs.superBlock.blockSize_ge

/-- A stored image of good names is what the inode has. -/
theorem Stored.holds {attrs : List Attr} {img : Bytes} (h : Home fs ino) (hs : Stored fs fs' ino img)
    (himg : serializeBlock attrs fs.blockSize = .ok img) (hgood : ∀ a ∈ attrs, GoodName a.name) (hm : Lists attrs m) :
    Holds fs' ino m := by
  obtain ⟨r, hr, howned, hdisk⟩ := hs.block
  have hparse := ((parse_serialize_iff (blockSize_ge fs) h.blockSize himg).1).2 hgood
  refine .block r hr howned (sorted attrs) ?_ (hm.perm (sorted_perm attrs))
  rw [hdisk, (layout_eq hs.layout).2.2.1]
  exact hparse

/-- What an update of the attributes does: it fails and changes nothing, or the inode has the attributes `m'`. -/
def Updates (call : FsM Unit) (fs : Ext2Fs) (ino : Nat) (m' : Attrs) : Prop :=
  (∃ e, call fs = .error (.err e) fs) ∨ ∃ fs', call fs = .ok ⟨⟩ fs' ∧ Home fs' ino ∧ Holds fs' ino m'

/-- The end of both updates: serialize, store, and write the inode back. -/
theorem store_updates {r : RawInode} {attrs : List Attr} (h : Home fs ino) (hr : fs.inodeCache ino = some r)
    (hacl : r.fileAcl = 0 ∨ fs.Owned ino r.fileAcl) (hgood : ∀ a ∈ attrs, GoodName a.name) (hm : Lists attrs m)
    (shared : Bool) :
    Updates (do
      let newBuf ← liftResult (serializeBlock attrs fs.blockSize)
      storeXattrBlock ino r.fileAcl shared newBuf
      writeInodeToDisk ino) fs ino m := by
  cases himg : serializeBlock attrs fs.blockSize with
  | error e => exact .inl ⟨e, rfl⟩
  | ok img =>
    show Updates (storeXattrBlock ino r.fileAcl shared img >>= fun _ => writeInodeToDisk ino) fs ino m
    obtain ⟨e, herr⟩ | ⟨fs₁, hro, hok, hs⟩ := storeXattrBlock_spec h hr hacl shared img
    · exact .inl ⟨e, bind_error herr⟩
    · obtain ⟨fs₂, hw, hs₂⟩ := hs.written hro
      exact .inr ⟨fs₂, (bind_ok hok).trans hw, hs₂.home, hs₂.holds h himg hgood hm⟩

/-- **`setxattr`** of a good name. -/
theorem setxattr_spec (h : Home fs ino) (hm : Holds fs ino m) (hn : keyOf n = some key) (hgood : GoodName key.2)
    (v : List Byte) : Updates (setxattr ino n v) fs ino (Function.update m n (some v)) := by
  cases hm with
  | empty r hr hacl hnone =>
    have hlists : Lists (upsert [] key v) (Function.update m n (some v)) := by
      obtain rfl : m = fun _ => none := funext hnone
      exact Lists.nil.upsert hn v
    have hgood' : ∀ a ∈ upsert [] key v, GoodName a.name := by
      simpa [upsert, retainOthers] using hgood
    have hrun : setxattr ino n v fs = (do
        let newBuf ← liftResult (serializeBlock (upsert [] key v) fs.blockSize)
        storeXattrBlock ino r.fileAcl false newBuf
        writeInodeToDisk ino) fs := by
      simp only [setxattr, hn, get_bind, bind_ok (raw_eq hr), hacl, ne_eq, not_true_eq_false, if_false]
      rfl
    unfold Updates
    rw [hrun]
    exact store_updates h hr (.inl hacl) hgood' hlists false
  | block r hr hacl attrs hp hlists =>
    have hgood' : ∀ a ∈ upsert attrs key v, GoodName a.name := by
      intro a ha
      rcases List.mem_append.1 ha with ha | ha
      · exact parseBlock_goodName hp a (List.mem_filter.1 ha).1
      · rw [List.mem_singleton.1 ha]
        exact hgood
    have hrun : setxattr ino n v fs = (do
        let newBuf ← liftResult (serializeBlock (upsert attrs key v) fs.blockSize)
        storeXattrBlock ino r.fileAcl (decide (refcount (fs.disk r.fileAcl) > 1)) newBuf
        writeInodeToDisk ino) fs := by
      simp only [setxattr, hn, get_bind, bind_ok (raw_eq hr), if_pos hacl.ne_zero,
        bind_ok (readFsBlock_eq (hacl.lt h)), hp]
      rfl
    unfold Updates
    rw [hrun]
    exact store_updates h hr (.inr hacl) hgood' (hlists.upsert hn v) _

/-- Letting the block go: it fails before anything changed, or the filesystem is left without it. -/
theorem dropXattrBlock_cases {b : Nat} (h : Home fs ino) (hb : fs.Owned ino b) (shared : Bool) :
    (∃ e, dropXattrBlock b shared fs = .error (.err e) fs) ∨
    ∃ fs', fs'.readOnly = false ∧ dropXattrBlock b shared fs = .ok ⟨⟩ fs' ∧
      Home fs' ino ∧ fs'.inodeCache = fs.inodeCache := by
  have hlt := hb.lt h
  unfold dropXattrBlock
  cases hro : fs.readOnly with
  | true =>
    refine .inl ⟨.readOnly, ?_⟩
    cases shared with
    | true =>
      rw [if_pos rfl, decrementXattrRefcount, bind_ok (readFsBlock_eq hlt), writeFsBlock, get_bind, if_pos hro]
      rfl
    | false =>
      rw [if_neg (by simp), freeBlock, get_bind]
      simp only [if_pos hro]
      rfl
  | false =>
    cases shared with
    | true =>
      have hdec : decrementXattrRefcount b fs = .ok ⟨⟩ (fs.setDisk b _) :=
        (bind_ok (readFsBlock_eq hlt)).trans (writeFsBlock_eq hro hlt _)
      refine .inr ⟨fs.setDisk b _, hro, hdec, h.setDisk hb.not_bitmap _, rfl⟩
    | false =>
      obtain ⟨-, hro', hcache⟩ := mark_frame fs .block b false
      exact .inr ⟨_, hro'.trans hro, freeBlock_spec h.consistent hro hb.1, h.mark_false hb, hcache⟩

/-- **`removexattr`**. -/
theorem removexattr_spec (h : Home fs ino) (hm : Holds fs ino m) (n : String) :
    Updates (removexattr ino n) fs ino (Function.update m n none) := by
  cases hn : keyOf n with
  | none => exact .inl ⟨.invalidInput, by simp only [removexattr, hn]; rfl⟩
  | some key =>
    cases hm with
    | empty r hr hacl hnone =>
      refine .inl ⟨.notFound, ?_⟩
      simp only [removexattr, hn, get_bind, bind_ok (raw_eq hr), hacl, if_true]
      rfl
    | block r hr hacl attrs hp hlists =>
      have hrest := hlists.remove hn
      have hrun : removexattr ino n fs = (do
          if (retainOthers attrs key).length = attrs.length then fail .notFound
          else
            if retainOthers attrs key = [] then
              dropXattrBlock r.fileAcl (decide (refcount (fs.disk r.fileAcl) > 1))
              let sectors ← sectorsPerBlock
              modifyRaw ino fun r => (r.setFileAcl 0).setBlocks ((r.setFileAcl 0).blocks - sectors)
            else
              let newBuf ← liftResult (serializeBlock (retainOthers attrs key) fs.blockSize)
              storeXattrBlock ino r.fileAcl (decide (refcount (fs.disk r.fileAcl) > 1)) newBuf
            writeInodeToDisk ino) fs := by
        simp only [removexattr, hn, get_bind, bind_ok (raw_eq hr), if_neg hacl.ne_zero,
          bind_ok (readFsBlock_eq (hacl.lt h)), hp]
        rfl
      unfold Updates
      rw [hrun]
      by_cases hlen : (retainOthers attrs key).length = attrs.length
      · rw [if_pos hlen]
        exact .inl ⟨.notFound, rfl⟩
      · rw [if_neg hlen]
        by_cases hnil : retainOthers attrs key = []
        · rw [if_pos hnil]
          rw [hnil] at hrest
          have hnone : ∀ n', Function.update m n none n' = none := by
            intro n'
            rw [Option.eq_none_iff_forall_ne_some]
            intro v hv
            obtain ⟨a, ha, -⟩ := (hrest.value n' v).1 hv
            cases ha
          obtain ⟨e, herr⟩ | ⟨fs₁, hro, hok, hhome, hcache⟩ := dropXattrBlock_cases h hacl
            (decide (refcount (fs.disk r.fileAcl) > 1))
          · exact .inl ⟨e, bind_error herr⟩
          · have hr₁ : fs₁.inodeCache ino = some r := by rw [hcache, hr]
            have hacl₀ : ∀ v, ((r.setFileAcl 0).setBlocks v).fileAcl = 0 := fun v => by
              rw [fileAcl_setBlocks, fileAcl_setFileAcl r (by omega)]
            -- the inode without its block is written back
            let f : RawInode → RawInode := fun r =>
              (r.setFileAcl 0).setBlocks ((r.setFileAcl 0).blocks - fs₁.blockSize / 512)
            have hhome₂ := hhome.withCache (Function.update fs₁.inodeCache ino (some (f r)))
            obtain ⟨b, buf, hbm, -, hw⟩ := writeInodeToDisk_eq hhome₂ hro (Function.update_self ..)
            refine .inr ⟨_, (bind_ok hok).trans ((bind_ok (modifyRaw_eq hr₁ f)).trans hw), hhome₂.setDisk hbm buf, ?_⟩
            exact .empty (f r) (Function.update_self ..) (hacl₀ _) hnone
        · rw [if_neg hnil]
          have hgood : ∀ a ∈ retainOthers attrs key, GoodName a.name := fun a ha =>
            parseBlock_goodName hp a (List.mem_filter.1 ha).1
          have hupd := store_updates h hr (.inr hacl) hgood hrest (decide (refcount (fs.disk r.fileAcl) > 1))
          exact hupd

/-- **`getxattr`** returns the value of the name. -/
theorem getxattr_spec (h : Home fs ino) (hm : Holds fs ino m) (hn : keyOf n = some key) :
    getxattr ino n fs = match m n with
      | some v => .ok v fs
      | none => .error (.err .notFound) fs := by
  cases hm with
  | empty r hr hacl hnone =>
    simp only [getxattr, hn, bind_ok (raw_eq hr), hacl, if_true, hnone]
    rfl
  | block r hr hacl attrs hp hlists =>
    rw [← hlists.find_eq hn]
    simp only [getxattr, hn, bind_ok (raw_eq hr), if_neg hacl.ne_zero, bind_ok (readFsBlock_eq (hacl.lt h)), get_bind, hp]
    show (match attrs.find? _ with | some a => _ | none => _ : FsM (List Byte)) fs = _
    cases attrs.find? (·.key = key) <;> rfl

/-- **`listxattr`** returns the names of the map, once each. -/
theorem listxattr_spec (h : Home fs ino) (hm : Holds fs ino m) :
    ∃ names, listxattr ino fs = .ok names fs ∧ names.Nodup ∧ ∀ n, n ∈ names ↔ m n ≠ none := by
  cases hm with
  | empty r hr hacl hnone =>
    refine ⟨[], ?_, List.nodup_nil, fun n => by simp [hnone]⟩
    simp only [listxattr, bind_ok (raw_eq hr), hacl, if_true]
    rfl
  | block r hr hacl attrs hp hlists =>
    refine ⟨_, ?_, hlists.names⟩
    simp only [listxattr, bind_ok (raw_eq hr), if_neg hacl.ne_zero, bind_ok (readFsBlock_eq (hacl.lt h)), get_bind, hp]
    rfl

end Calls

/-! ## Runs -/

inductive XattrCall where
  | set (name : String) (value : List Byte)
  | remove (name : String)
  | get (name : String)
  | list
deriving DecidableEq, Repr

namespace XattrCall

/-- The call, without what a query returns. -/
def exec (ino : Nat) : XattrCall → FsM Unit
  | set name value => setxattr ino name value
  | remove name => removexattr ino name
  | get name => discard (getxattr ino name)
  | list => discard (listxattr ino)

/-- The attributes after the call succeeded. -/
def effect (m : Attrs) : XattrCall → Attrs
  | set name value => Function.update m name (some value)
  | remove name => Function.update m name none
  | get _ => m
  | list => m

/-- A call, and what it should have done: a call that fails should have done nothing. -/
def after (ino : Nat) (s : Ext2Fs × Attrs) (call : XattrCall) : Ext2Fs × Attrs :=
  match call.exec ino s.1 with
  | .ok _ fs => (fs, call.effect s.2)
  | .error _ fs => (fs, s.2)

def run (ino : Nat) (s : Ext2Fs × Attrs) (calls : List XattrCall) : Ext2Fs × Attrs := calls.foldl (after ino) s

/-- Names are only set if their suffix has between 1 and 255 bytes. -/
def Fits : XattrCall → Prop
  | set name _ => ∀ key, keyOf name = some key → GoodName key.2
  | _ => True

variable {fs : Ext2Fs} {ino : Nat} {m : Attrs}

/-- One call. -/
theorem exec_spec (h : Home fs ino) (hm : Holds fs ino m) {call : XattrCall} (hfits : call.Fits) :
    Updates (call.exec ino) fs ino (call.effect m) := by
  cases call with
  | set name value =>
    cases hn : keyOf name with
    | none => exact .inl ⟨.invalidInput, by simp only [exec, setxattr, hn]; rfl⟩
    | some key => exact setxattr_spec h hm hn (hfits key hn) value
  | remove name => exact removexattr_spec h hm name
  | get name =>
    cases hn : keyOf name with
    | none => exact .inl ⟨.invalidInput, bind_error (by simp only [getxattr, hn]; rfl)⟩
    | some key =>
      have hget := getxattr_spec h hm hn
      cases hv : m name with
      | none => rw [hv] at hget; exact .inl ⟨.notFound, bind_error hget⟩
      | some v => rw [hv] at hget; exact .inr ⟨fs, bind_ok hget, h, hm⟩
  | list =>
    obtain ⟨names, hlist, -⟩ := listxattr_spec h hm
    exact .inr ⟨fs, bind_ok hlist, h, hm⟩

theorem after_holds (h : Home fs ino) (hm : Holds fs ino m) {call : XattrCall} (hfits : call.Fits) :
    Home (call.after ino (fs, m)).1 ino ∧ Holds (call.after ino (fs, m)).1 ino (call.after ino (fs, m)).2 := by
  unfold after
  obtain ⟨e, herr⟩ | ⟨fs', hok, h', hm'⟩ := exec_spec h hm hfits
  · rw [herr]
    exact ⟨h, hm⟩
  · rw [hok]
    exact ⟨h', hm'⟩

theorem run_holds (calls : List XattrCall) : ∀ {fs : Ext2Fs} {m : Attrs}, Home fs ino → Holds fs ino m →
    (∀ call ∈ calls, call.Fits) →
    Home (run ino (fs, m) calls).1 ino ∧ Holds (run ino (fs, m) calls).1 ino (run ino (fs, m) calls).2 := by
  induction calls with
  | nil =>
    intro fs m h hm _
    exact ⟨h, hm⟩
  | cons call calls ih =>
    intro fs m h hm hfits
    obtain ⟨h', hm'⟩ := after_holds h hm (hfits call (List.mem_cons_self ..))
    exact ih h' hm' fun c hc => hfits c (List.mem_cons_of_mem _ hc)

/-- **Extended attributes are a finite map**, over every run in which only names that fit are set: `getxattr` returns
the value of the map, `listxattr` its names, and a call that fails changes nothing. Without that condition `parse_block`
does not invert `serialize_block`. -/
theorem xattr_finite_map (h : Home fs ino) (hm : Holds fs ino m) (calls : List XattrCall)
    (hfits : ∀ call ∈ calls, call.Fits) :
    let s := run ino (fs, m) calls
    (∀ name, (keyOf name).isSome → getxattr ino name s.1 = match s.2 name with
      | some v => .ok v s.1
      | none => .error (.err .notFound) s.1) ∧
    (∃ names, listxattr ino s.1 = .ok names s.1 ∧ names.Nodup ∧ ∀ name, name ∈ names ↔ s.2 name ≠ none) ∧
    (∀ call : XattrCall, call.Fits → ∀ e fs', call.exec ino s.1 = .error e fs' → fs' = s.1) ∧
    ∀ attrs img, serializeBlock attrs fs.blockSize = .ok img →
      (parseBlock img fs.blockSize = .ok (sorted attrs) ↔ ∀ a ∈ attrs, GoodName a.name) := by
  intro s
  obtain ⟨hs, hsm⟩ := run_holds calls h hm hfits
  refine ⟨fun name hname => ?_, listxattr_spec hs hsm, fun call hcall e fs' herr => ?_, fun attrs img himg => ?_⟩
  · obtain ⟨key, hkey⟩ := Option.isSome_iff_exists.1 hname
    exact getxattr_spec hs hsm hkey
  · obtain ⟨e', herr'⟩ | ⟨fs'', hok, -⟩ := exec_spec hs hsm hcall
    · have heq := herr.symm.trans herr'
      injection heq
    · have heq := herr.symm.trans hok
      cases heq
  · exact (parse_serialize_iff (blockSize_ge fs) h.blockSize himg).1

/-- Two groups whose bitmaps and inode tables are marked as used; inode 1 is in memory and has no attributes. -/
def xattrImage : Ext2Fs where
  deviceBlocks := 16
  superBlock := ⟨8, 16, 9, 8, 1, 0, 8, 4, 128, 2, 0⟩
  blockGroups := [⟨3, 4, 5, 5, 4, 0⟩, ⟨11, 12, 13, 4, 4, 0⟩]
  readOnly := false
  disk := fun b j => if (b = 3 ∨ b = 11) ∧ j = 0 then 0b00011100 else 0
  inodeCache := fun n => if n = 1 then some (RawInode.ofBytes fun _ => 0) else none

theorem xattrImage_consistent : xattrImage.Consistent where
  groups := rfl
  perGroup := fun k => by cases k <;> decide
  first := by decide
  blocks := by decide
  inodes := by decide
  inodesLow := by decide
  inodesHigh := by decide
  placed := by
    rintro k (_ | _ | g) bg hg -
    · obtain rfl := Option.some.inj hg
      cases k <;> decide
    · obtain rfl := Option.some.inj hg
      cases k <;> decide
    · cases hg
  distinct := by
    rintro k (_ | _ | g) bg k' (_ | _ | g') bg' hg hg' - - heq
    all_goals first | cases hg; done | cases hg'; done | skip
    all_goals
      obtain rfl := Option.some.inj hg
      obtain rfl := Option.some.inj hg'
      revert heq
      cases k <;> cases k' <;> decide
  group := by
    rintro k (_ | _ | g) bg hg
    · obtain rfl := Option.some.inj hg
      cases k <;> decide
    · obtain rfl := Option.some.inj hg
      cases k <;> decide
    · cases hg
  total := fun k => by cases k <;> decide

theorem xattrImage_home : Home xattrImage 1 where
  consistent := xattrImage_consistent
  blockSize := by decide
  onDevice := by decide
  table := by
    refine ⟨5, 0, rfl, by decide, by decide, ?_⟩
    rintro ⟨p, hp, h⟩
    revert h
    obtain rfl | rfl : p = (3, 4, 5) ∨ p = (11, 12, 13) := by simpa [xattrImage, BlockGroupDescriptor.places] using hp
    all_goals decide
  reserved := by
    rintro b (rfl | ⟨p, hp, h⟩ | ⟨off, h⟩) hin
    · exact absurd hin.1 (by decide)
    · obtain rfl | rfl : p = (3, 4, 5) ∨ p = (11, 12, 13) := by simpa [xattrImage, BlockGroupDescriptor.places] using hp
      all_goals
        obtain rfl | rfl := h
        all_goals exact ⟨hin, by decide⟩
    · obtain rfl : 5 = b := by
        cases h
        rfl
      exact ⟨hin, by decide⟩

theorem xattrImage_holds : Holds xattrImage 1 fun _ => none := .empty _ rfl (by decide) fun _ => rfl

/-- Setting `user.a`. -/
theorem xattr_finite_map_of_user_name :
    getxattr 1 "user.a" (run 1 (xattrImage, fun _ => none) [.set "user.a" [1, 2, 3]]).1 =
      .ok [1, 2, 3] (run 1 (xattrImage, fun _ => none) [.set "user.a" [1, 2, 3]]).1 := by
  have hkey : keyOf "user.a" = some (1, [97]) := by decide +kernel
  have hfits : ∀ call ∈ [XattrCall.set "user.a" [1, 2, 3]], call.Fits := by
    intro call hcall
    rw [List.mem_singleton.1 hcall]
    intro key hk
    rw [hkey] at hk
    cases hk
    decide
  have hget := (xattr_finite_map xattrImage_home xattrImage_holds _ hfits).1 "user.a" (by rw [hkey]; rfl)
  have hval : (run 1 (xattrImage, fun _ => none) [.set "user.a" [1, 2, 3]]).2 "user.a" = some [1, 2, 3] := by
    decide +kernel
  rw [hval] at hget
  exact hget

def isNotFound {α : Type} : EStateM.Result Fault Ext2Fs α → Bool
  | .error (.err .notFound) _ => true
  | _ => false

/-- An access list has an empty suffix, which ends the entries: it is lost, and `trusted.k` with it. -/
theorem posix_acl_loses_attributes :
    let s := run 1 (xattrImage, fun _ => none) [.set "trusted.k" [7], .set "system.posix_acl_access" [1]]
    s.2 "trusted.k" = some [7] ∧ s.2 "system.posix_acl_access" = some [1] ∧
    isNotFound (getxattr 1 "trusted.k" s.1) = true ∧ isNotFound (getxattr 1 "system.posix_acl_access" s.1) = true := by
  intro s
  refine ⟨?_, ?_, ?_, ?_⟩ <;> decide +kernel

end XattrCall

end Koros.Ext2
