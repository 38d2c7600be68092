import Koros.Ext2.Grow

/-!
# The content of a file

`Ext2Fs.content`: the bytes behind all logical blocks of an inode, whatever its size, with zeros where there is no block.

- `spotOf_inj`: different logical blocks have different spots;
- `content_congr`, `Step.content`: what decides the content;
- `Backed.blockData`: allocating a block changes the content of that block at most, and not at all if it is cleared;
- `Ext2Fs.Sound.writeBlocks`: writing data blocks of one inode changes its content there, and nothing else.
-/
set_option autoImplicit false

namespace Koros.Ext2

open Koros.Lib Xattr

namespace Ext2Fs

variable (fs : Ext2Fs) (n : Nat)

/-- The physical block of a logical one, 0 for a hole. -/
def blockAt (logicalBlock : Nat) : Nat := fs.pointers.node (spotOf (fs.blockSize / 4) n logicalBlock)

def blockData (logicalBlock : Nat) : Bytes :=
  if fs.blockAt n logicalBlock = 0 then zeroBlock else fs.disk (fs.blockAt n logicalBlock)

def content : Bytes := fun j => fs.blockData n (j / fs.blockSize) (j % fs.blockSize)

end Ext2Fs

/-- The size of a file, whose upper half counts for regular files only. -/
def RawInode.fileSize (large : Bool) (r : RawInode) : Nat :=
  if r.fmt = EXT2_S_IFREG ∧ large then r.dirAcl <<< 32 ||| r.size32 else r.size32

def Ext2Fs.fileSize (fs : Ext2Fs) (n : Nat) : Nat := (fs.inode n).fileSize fs.superBlock.hasLargeFile

/-! ## Spots -/

/-- A number written with two digits. -/
theorem mul_add_lt_mul {a b i j : Nat} (hi : i < a) (hj : j < b) : i * b + j < a * b := by
  have hle := Nat.mul_le_mul_right b hi
  rw [Nat.succ_mul] at hle
  omega

theorem mul_add_div_mod {b i j : Nat} (hj : j < b) : (i * b + j) / b = i ∧ (i * b + j) % b = j := by
  rw [Nat.mul_comm]
  exact ⟨by rw [Nat.mul_add_div (by omega), Nat.div_eq_of_lt hj, Nat.add_zero],
    by rw [Nat.mul_add_mod, Nat.mod_eq_of_lt hj]⟩

/-- Different logical blocks have different spots. -/
theorem spotOf_inj {p n q q' : Nat} (h : spotOf p n q = spotOf p n q') : q = q' := by
  unfold spotOf at h
  dsimp only at h
  split_ifs at h
  all_goals simp only [Prod.mk.injEq, List.cons.injEq, and_true, true_and, and_false, List.nil_eq,
    List.cons_ne_nil] at h
  · exact h
  · omega
  · have := div_mod_inj h.1 h.2
    omega
  · rw [← Nat.div_div_eq_div_mul, ← Nat.div_div_eq_div_mul] at h
    have := div_mod_inj (div_mod_inj h.1 h.2.1) h.2.2
    omega

section Content

variable {fs fs' : Ext2Fs} {P : Nat → Prop} {n m q q' b : Nat}

theorem spotOf_fst (p n q : Nat) : (spotOf p n q).1.1 = n := by
  unfold spotOf
  dsimp only
  split_ifs <;> rfl

theorem inside_spotOf (fs : Ext2Fs) (n q : Nat) : fs.pointers.Inside (spotOf (fs.blockSize / 4) n q) :=
  Nat.le_of_eq (spotOf_depth fs _ n q)

theorem Ext2Fs.Sound.blockAt_data (h : fs.Sound P) (hne : fs.blockAt n q ≠ 0) : fs.IsData (fs.blockAt n q) :=
  h.tree _ (inside_spotOf fs n q) hne

/-- No data block lies behind two logical blocks. -/
theorem Ext2Fs.Sound.blockAt_inj (h : fs.Sound P) (hne : fs.blockAt n q ≠ 0) (heq : fs.blockAt n q = fs.blockAt n q') :
    q = q' :=
  spotOf_inj (h.unique _ _ (inside_spotOf fs n q) (inside_spotOf fs n q') hne heq)

theorem blockData_of_zero (h : fs.blockAt n q = 0) : fs.blockData n q = zeroBlock := if_pos h

theorem blockData_of_ne (h : fs.blockAt n q ≠ 0) : fs.blockData n q = fs.disk (fs.blockAt n q) := if_neg h

theorem blockData_congr (hnode : fs'.blockAt n q = fs.blockAt n q)
    (hdisk : fs.blockAt n q ≠ 0 → fs'.disk (fs.blockAt n q) = fs.disk (fs.blockAt n q)) :
    fs'.blockData n q = fs.blockData n q := by
  unfold Ext2Fs.blockData
  rw [hnode]
  split
  · rfl
  · rename_i hne
    exact hdisk hne

theorem content_congr (hbs : fs'.blockSize = fs.blockSize) (h : ∀ q, fs'.blockData n q = fs.blockData n q) :
    fs'.content n = fs.content n := by
  funext j
  unfold Ext2Fs.content
  rw [hbs, h]

theorem SameLayout.blockAt (hl : SameLayout fs fs') (n q : Nat) :
    fs'.blockAt n q = fs'.pointers.node (spotOf (fs.blockSize / 4) n q) := by
  rw [Ext2Fs.blockAt, hl.blockSize]

theorem SameMap.blockAt (hm : SameMap fs fs') (n q : Nat) : fs'.blockAt n q = fs.blockAt n q := by
  rw [hm.layout.blockAt]
  exact hm.node (inside_spotOf fs n q)

/-- A call on another inode. -/
theorem Step.content (h : Step n fs fs') (hm : m ≠ n) : fs'.content m = fs.content m := by
  have hspot : ∀ q, (spotOf (fs.blockSize / 4) m q).1.1 ≠ n := fun q => by
    rw [spotOf_fst]
    exact hm
  refine content_congr h.layout.blockSize fun q => blockData_congr ?_ fun hne => ?_
  · rw [h.layout.blockAt]
    exact h.nodes _ (hspot q) (inside_spotOf fs m q)
  · exact h.bytes _ (hspot q) (inside_spotOf fs m q) hne

/-- The bytes behind the logical blocks stay if the map does and no data is written. -/
theorem SameMap.content (hm : SameMap fs fs')
    (hdisk : ∀ q, fs.blockAt n q ≠ 0 → fs'.disk (fs.blockAt n q) = fs.disk (fs.blockAt n q)) :
    fs'.content n = fs.content n :=
  content_congr hm.layout.blockSize fun q => blockData_congr (hm.blockAt n q) (hdisk q)

/-! ## Allocating -/

/-- The other logical blocks keep their blocks and their bytes. -/
theorem Backed.blockAt {k : Nat} {zeroed : Bool} (h : Backed P n q k b zeroed fs fs') (hne : q' ≠ q) :
    fs'.blockAt n q' = fs.blockAt n q' := by
  rw [h.grown.layout.blockAt]
  exact h.leaves _ (spotOf_depth fs _ n q') fun heq => hne (spotOf_inj heq)

theorem Backed.blockAt_self {k : Nat} {zeroed : Bool} (h : Backed P n q k b zeroed fs fs') : fs'.blockAt n q = b := by
  rw [h.grown.layout.blockAt]
  exact h.node

/-- **Allocating** leaves the content of the other blocks alone, and that of the block itself if it was there or is
cleared. -/
theorem Backed.blockData {k : Nat} {zeroed : Bool} (h : Backed P n q k b zeroed fs fs') (hq : q' ≠ q ∨ zeroed = true) :
    fs'.blockData n q' = fs.blockData n q' := by
  by_cases hold : fs.blockAt n q' = 0
  · by_cases hne : q' = q
    · subst hne
      rw [blockData_of_zero hold, blockData_of_ne (by rw [h.blockAt_self]; exact h.ne_zero), h.blockAt_self]
      exact h.fresh hold (hq.resolve_left fun hc => hc rfl)
    · exact blockData_congr (h.blockAt hne) fun hc => absurd hold hc
  · have hdisk := h.grown.data _ (spotOf_depth fs _ n q') hold
    refine blockData_congr ?_ fun _ => hdisk
    rw [h.grown.layout.blockAt]
    exact h.grown.keep _ (inside_spotOf fs n q') hold

/-! ## Writing data blocks -/

/-- Blocks at the lowest level of the trees hold no pointers. -/
theorem Ext2Fs.Sound.free_leaves (h : fs.Sound P) (Q : Nat → Prop) :
    Free fs (fun b => b ≠ 0 ∧ ∃ q, Q q ∧ fs.blockAt n q = b) where
  data := by
    rintro b ⟨hb, q, -, rfl⟩
    exact h.blockAt_data hb
  inner := by
    rintro x hx ⟨hb, q, -, hq⟩
    have := h.unique _ _ (inside_spotOf fs n q) hx.inside (by rw [← hq] at hb; exact hb) hq
    subst this
    have := hx.1
    rw [spotOf_depth fs] at this
    exact absurd this (Nat.lt_irrefl _)
  attr := by
    rintro m hm ⟨hb, q, -, hq⟩
    exact (h.attr m hm).2 _ (inside_spotOf fs n q) hq

theorem Extended.of_same (hm : SameMap fs fs') (hs : Step n fs fs') (hcache : fs'.inodeCache = fs.inodeCache)
    (hattr : fs.acl n ≠ 0 → fs'.disk (fs.acl n) = fs.disk (fs.acl n)) : Extended n 0 fs fs' where
  toStep := hs
  keep := fun x hx _ => hm.node hx
  fields := fun r hr => ⟨r, by rw [hcache]; exact hr, .refl r⟩
  size := by rw [hm.treeSize, Nat.add_zero]
  ownAttrs := ⟨by rw [hm.acl], hattr⟩

/-- **Writing data blocks** of inode `n`. -/
theorem Ext2Fs.Sound.writeBlocks (h : fs.Sound P) {Q : Nat → Prop} (hl : SameLayout fs fs')
    (hcache : fs'.inodeCache = fs.inodeCache)
    (hdisk : ∀ b, (∀ q, Q q → fs.blockAt n q ≠ b) → fs'.disk b = fs.disk b) (hQ : ∀ q, Q q → fs.blockAt n q ≠ 0) :
    fs'.Sound P ∧ Extended n 0 fs fs' ∧ (∀ q, fs'.blockAt n q = fs.blockAt n q) ∧
      ∀ q, ¬ Q q → fs'.blockData n q = fs.blockData n q := by
  have hW := h.free_leaves (n := n) Q
  have hdisk' : ∀ b, ¬ (b ≠ 0 ∧ ∃ q, Q q ∧ fs.blockAt n q = b) → fs'.disk b = fs.disk b := by
    refine fun b hb => hdisk b fun q hq heq => hb ⟨?_, q, hq, heq⟩
    rw [← heq]
    exact hQ q hq
  have hmap := sameMap_of_data h hl hcache hdisk' hW
  have hstep : Step n fs fs' := by
    refine step_write h hl hcache hdisk' hW fun x hx hin => ?_
    rintro ⟨hne, q, -, hq⟩
    have hspot := h.unique _ _ (inside_spotOf fs n q) hin (by rw [← hq] at hne; exact hne) hq
    exact hx (by rw [← hspot, spotOf_fst])
  refine ⟨h.write hl hcache hdisk' hW, .of_same hmap hstep hcache fun hne => hdisk' _ (hW.attr n hne), hmap.blockAt n, fun q hq => ?_⟩
  refine blockData_congr (hmap.blockAt n q) fun hne => hdisk _ fun q' hq' heq => hq ?_
  rw [← h.blockAt_inj (hQ q' hq') heq]
  exact hq'

end Content

/-! ## Fields of an inode that refer to nothing -/

namespace RawInode

variable {r r' : RawInode} {i n v j : Nat}

theorem bytes_put (h : j < i ∨ i + n ≤ j) : (r.put i n v).bytes j = r.bytes j := by
  show (if j < 128 then putLe r.bytes i n v j else 0) = _
  split
  · exact blit_of_outside h
  · exact (r.tail j (by omega)).symm

/-- The inodes agree on the type, on `i_block` and on the attribute block. -/
def SameRefs (r r' : RawInode) : Prop := ∀ j, j < 2 ∨ 40 ≤ j ∧ j < 108 → r'.bytes j = r.bytes j

theorem SameRefs.refl (r : RawInode) : SameRefs r r := fun _ _ => rfl

theorem SameRefs.trans {r₁ r₂ r₃ : RawInode} (h : SameRefs r₁ r₂) (h' : SameRefs r₂ r₃) : SameRefs r₁ r₃ :=
  fun j hj => (h' j hj).trans (h j hj)

theorem sameRefs_put (h : 2 ≤ i ∧ i + n ≤ 40 ∨ 108 ≤ i) : SameRefs r (r.put i n v) :=
  fun _ _ => bytes_put (by omega)

theorem SameRefs.get (h : SameRefs r r') (hi : i + n ≤ 2 ∨ 40 ≤ i ∧ i + n ≤ 108) : r'.get i n = r.get i n :=
  leNat_congr fun j h₁ h₂ => h j (by omega)

theorem SameRefs.fmt (h : SameRefs r r') : r'.fmt = r.fmt := congrArg (· &&& 0xF000) (h.get (i := 0) (n := 2) (by omega))

theorem SameRefs.fileAcl (h : SameRefs r r') : r'.fileAcl = r.fileAcl := h.get (by omega)

/-- Whether a symbolic link has blocks is decided by another field. -/
theorem SameRefs.mapsBlocks (h : SameRefs r r') (hlnk : r.fmt ≠ EXT2_S_IFLNK) (s : Nat) :
    r'.mapsBlocks s = r.mapsBlocks s := by
  unfold RawInode.mapsBlocks
  rw [h.fmt]
  simp [hlnk]

theorem SameRefs.root (h : SameRefs r r') (hlnk : r.fmt ≠ EXT2_S_IFLNK) (s k : Nat) : r'.root s k = r.root s k := by
  unfold RawInode.root
  rw [h.mapsBlocks hlnk]
  by_cases hk : k < 15 ∧ r.mapsBlocks s = true
  · have hblock : r'.block k = r.block k := h.get (by omega)
    rw [if_pos hk, if_pos hk, hblock]
  · rw [if_neg hk, if_neg hk]

/-- The size is kept in two words. -/
theorem fileSize_put (large : Bool) (h : 2 ≤ i ∧ i + n ≤ 4 ∨ 8 ≤ i ∧ i + n ≤ 108 ∨ 112 ≤ i) :
    (r.put i n v).fileSize large = r.fileSize large := by
  have hget : ∀ a w, a + w ≤ 2 ∨ 4 ≤ a ∧ a + w ≤ 8 ∨ 108 ≤ a ∧ a + w ≤ 112 → (r.put i n v).get a w = r.get a w :=
    fun a w ha => leNat_congr fun j h₁ h₂ => bytes_put (by omega)
  unfold fileSize fmt mode dirAcl size32
  rw [hget 0 2 (by omega), hget 108 4 (by omega), hget 4 4 (by omega)]

theorem mapsBlocks_of_regular (h : r.fmt = EXT2_S_IFREG) (s : Nat) : r.mapsBlocks s = true := by
  simp [mapsBlocks, h, EXT2_S_IFREG, EXT2_S_IFCHR, EXT2_S_IFBLK, EXT2_S_IFLNK]

/-- Regular files and directories, whose content is in blocks. -/
def HoldsData (r : RawInode) : Prop := r.fmt = EXT2_S_IFREG ∨ r.fmt = EXT2_S_IFDIR

theorem HoldsData.mapsBlocks (h : r.HoldsData) (s : Nat) : r.mapsBlocks s = true := by
  rcases h with h | h
  · exact mapsBlocks_of_regular h s
  · simp [RawInode.mapsBlocks, h, EXT2_S_IFDIR, EXT2_S_IFCHR, EXT2_S_IFBLK, EXT2_S_IFLNK]

theorem HoldsData.ne_link (h : r.HoldsData) : r.fmt ≠ EXT2_S_IFLNK := by
  rcases h with h | h <;> rw [h] <;> decide

theorem HoldsData.congr (h : r.HoldsData) (hfmt : r'.fmt = r.fmt) : r'.HoldsData := by
  rwa [HoldsData, hfmt]

end RawInode

/-! ## Calls that leave all blocks alone -/

section Kept

variable {fs fs' fs'' : Ext2Fs} {P : Nat → Prop} {n : Nat} {r r' : RawInode}

/-- Only fields of inode `n` that refer to nothing, and the inode tables, have changed. -/
structure Kept (P : Nat → Prop) (n : Nat) (fs fs' : Ext2Fs) : Prop where
  sound : fs'.Sound P
  step : Step n fs fs'
  map : SameMap fs fs'
  disk : ∀ b, ¬ fs.IsTable b → fs'.disk b = fs.disk b

theorem Kept.refl (h : fs.Sound P) (n : Nat) : Kept P n fs fs :=
  ⟨h, .refl n fs, ⟨.refl fs, fun _ _ _ => rfl, fun _ _ => rfl, fun _ _ => rfl⟩, fun _ _ => rfl⟩

theorem Kept.trans (h : Kept P n fs fs') (h' : Kept P n fs' fs'') : Kept P n fs fs'' := by
  have hl := h.map.layout
  refine ⟨h'.sound, h.step.trans h'.step, ⟨hl.trans h'.map.layout, fun m hm k => ?_, fun m hm => ?_, fun x hx => ?_⟩,
    fun b hb => ?_⟩
  · have hroot := h'.map.root m (hl.isSlot ▸ hm) k
    rw [hl.sectors] at hroot
    exact hroot.trans (h.map.root m hm k)
  · exact (h'.map.fileAcl m (hl.isSlot ▸ hm)).trans (h.map.fileAcl m hm)
  · have hnode := h.map.node hx.inside
    have hinner := h'.map.inner x ⟨hx.1, by rw [hnode]; exact hx.2⟩
    rw [hnode] at hinner
    exact hinner.trans (h.map.inner x hx)
  · exact (h'.disk b (hl.isTable ▸ hb)).trans (h.disk b hb)

theorem Kept.content (h : Kept P n fs fs') (hs : fs.Sound P) (m : Nat) : fs'.content m = fs.content m :=
  h.map.content fun _ hne => h.disk _ (hs.blockAt_data hne).not_table

theorem Kept.allocated (h : Kept P n fs fs') (hs : fs.Sound P) (k : Kind) (b : Nat) :
    fs'.Allocated k b ↔ fs.Allocated k b :=
  h.map.layout.allocated (fun c hc => h.disk c fun ht => (hs.tables c ht).2 hc) k b

/-- Fields of an inode in memory are set. -/
theorem Ext2Fs.Sound.keep (h : fs.Sound P) (hr : fs.inodeCache n = some r) (hsame : r.SameRefs r')
    (hlnk : r.fmt ≠ EXT2_S_IFLNK) : Kept P n fs (fs.setInode n (some r')) where
  sound := h.setInode (h.cached n r hr) (inode_of_cached hr) (hsame.root hlnk _) hsame.fileAcl
  step := step_setInode ..
  map := sameMap_setInode (inode_of_cached hr) (hsame.root hlnk _) hsame.fileAcl
  disk := fun _ _ => rfl

theorem Ext2Fs.Sound.keep_writtenBack (h : fs.Sound P) (hw : WrittenBack n fs fs') : Kept P n fs fs' :=
  ⟨h.writtenBack hw, hw.step, hw.map, hw.disk⟩

/-! ## The size -/

theorem SameLayout.hasLargeFile (h : SameLayout fs fs') :
    fs'.superBlock.hasLargeFile = fs.superBlock.hasLargeFile := by
  obtain ⟨c, d, hs⟩ := h.superBlock
  rw [hs]
  rfl

theorem SameLayout.hasFiletype (h : SameLayout fs fs') : fs'.superBlock.hasFiletype = fs.superBlock.hasFiletype := by
  obtain ⟨c, d, hs⟩ := h.superBlock
  rw [hs]
  rfl

theorem fileSize_of_cached (hr : fs.inodeCache n = some r) :
    fs.fileSize n = r.fileSize fs.superBlock.hasLargeFile := by
  rw [Ext2Fs.fileSize, inode_of_cached hr]

theorem size_ok {s : Nat} (h : size n fs = .ok s fs') : s = fs.fileSize n ∧ fs' = fs := by
  rw [size, get_bind] at h
  obtain ⟨r, hr, h⟩ := raw_bind_ok h
  obtain ⟨hs, hfs⟩ := pure_eq_ok h
  rw [fileSize_of_cached hr]
  exact ⟨hs, hfs⟩

/-- The size that is stored: its low word, or both words for a regular file. -/
def storedSize (large : Bool) (r : RawInode) (size : Nat) : Nat :=
  if r.fmt = EXT2_S_IFREG ∧ large then size % 2 ^ 64 else size % 2 ^ 32

/-- `set_size`. -/
theorem setSize_ok {s : Nat} {u : PUnit} (h : setSize n s fs = .ok u fs') :
    ∃ r r', fs.inodeCache n = some r ∧ fs' = fs.setInode n (some r') ∧ r.SameRefs r' ∧ r'.blocks = r.blocks ∧
      r'.fileSize fs.superBlock.hasLargeFile = storedSize fs.superBlock.hasLargeFile r s := by
  rw [setSize, get_bind] at h
  obtain ⟨r, hr, hfs⟩ := modifyRaw_ok h
  have hlow : r.SameRefs (r.setSize32 (s % 2 ^ 32)) := RawInode.sameRefs_put (by omega)
  have hsize : (r.setSize32 (s % 2 ^ 32)).size32 = s % 2 ^ 32 :=
    RawInode.get_put_self (by omega) (Nat.mod_lt _ (by decide))
  refine ⟨r, _, hr, hfs, ?_⟩
  dsimp only
  rw [hlow.fmt]
  by_cases hbig : r.fmt = EXT2_S_IFREG ∧ fs.superBlock.hasLargeFile = true
  · have hhigh : (r.setSize32 (s % 2 ^ 32)).SameRefs
        ((r.setSize32 (s % 2 ^ 32)).setDirAcl (s / 2 ^ 32 % 2 ^ 32)) := RawInode.sameRefs_put (by omega)
    have hfmt := (hlow.trans hhigh).fmt
    have hdir : ((r.setSize32 (s % 2 ^ 32)).setDirAcl (s / 2 ^ 32 % 2 ^ 32)).dirAcl = s / 2 ^ 32 % 2 ^ 32 :=
      RawInode.get_put_self (by omega) (Nat.mod_lt _ (by decide))
    have hsize' : ((r.setSize32 (s % 2 ^ 32)).setDirAcl (s / 2 ^ 32 % 2 ^ 32)).size32 = s % 2 ^ 32 :=
      (RawInode.get_put_of_disjoint (by omega) (by omega)).trans hsize
    rw [if_pos hbig]
    refine ⟨hlow.trans hhigh, ?_, ?_⟩
    · exact (RawInode.get_put_of_disjoint (by omega) (by omega)).trans
        (RawInode.get_put_of_disjoint (by omega) (by omega))
    · rw [RawInode.fileSize, storedSize, hfmt, if_pos hbig, if_pos hbig, hdir, hsize',
        ← Nat.shiftLeft_add_eq_or_of_lt (Nat.mod_lt _ (by decide)), Nat.shiftLeft_eq]
      omega
  · rw [if_neg hbig]
    refine ⟨hlow, RawInode.get_put_of_disjoint (by omega) (by omega), ?_⟩
    rw [RawInode.fileSize, storedSize, hlow.fmt, if_neg hbig, if_neg hbig, hsize]

end Kept

end Koros.Ext2
